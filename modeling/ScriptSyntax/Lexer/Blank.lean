import ScriptSyntax.Lexer.State

/-!
White space and comments between tokens.  Comments are noted in the lexer as they are skipped.
-/

namespace ScriptSyntax
namespace LexM

/-- Notes a comment that began at `start` and ends at the cursor. -/
def note (kind : CommentKind) (start : Nat) (startPosition : Position) (text : String) :
    LexM Unit := do
  let s ← read
  modify fun l =>
    let comment : Comment :=
      { kind, text, start, stop := l.pos
        location := s.location startPosition l.position
        range := s.range start l.pos }
    { l with comments := comment :: l.comments }

/-- Counts the line breaks from `start` up to the cursor. -/
def countLines (start : Nat) : LexM Unit := do
  let s ← source
  modify fun l =>
    match s.nextLineBreak? start l.pos with
    | none => l
    | some next =>
      let (line, lineStart) := s.lineOf l.pos (l.pos + 1) (l.line + 1) next
      { l with line, lineStart }

def skipBlockComment : LexM Unit := do
  let startPosition := (← get).position
  let start ← pos
  match (← source).findCommentEnd? (start + 2) with
  | none => fail start .unterminatedComment
  | some stop =>
    moveTo (stop + 2)
    countLines start
    note .block start startPosition ((← source).slice (start + 2) stop)

/-- Skips to the end of the line; `marks` is the length of what opens the comment. -/
def skipLineComment (marks : Nat) : LexM Unit := do
  let startPosition := (← get).position
  let start ← pos
  let s ← source
  moveTo (s.skipWhile (fun c => !Alphabet.isLineTerminator c) (start + marks))
  note .line start startPosition (← textFrom (start + marks))

/-- Skips one white space character, line break or comment. -/
def skipBlankPass : LexM (Pass Unit Unit) := do
  match ← peek with
  | none => return .done ()
  | some '\r' =>
    advance 1
    endCarriageReturn
    return .again ()
  | some '/' =>
    if ← seesAhead 1 '*' then
      skipBlockComment
      return .again ()
    else if ← seesAhead 1 '/' then
      skipLineComment 2
      return .again ()
    else return .done ()
  | some c =>
    if Alphabet.isLineTerminator c then
      skip c
      newLine
      return .again ()
    else if Alphabet.isBlank c then
      skip c
      return .again ()
    else return .done ()

/-- Skips to the next token. -/
def skipBlank : LexM Unit := repeatForward () fun _ => skipBlankPass

end LexM
end ScriptSyntax
