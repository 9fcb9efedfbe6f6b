import ScriptSyntax.Lexer.Quoted
import ScriptSyntax.Word

/-!
Identifiers and keywords, with the escapes in them.
-/

namespace ScriptSyntax
namespace LexM

/-- The escaped character of a word, at the backslash. -/
def readWordEscape (atStart : Bool) : LexM Char := do
  let start ← pos
  modify fun l => { l with containsEscape := true }
  advance 1
  unless ← sees 'u' do fail (← pos) .unicodeEscapeExpected
  advance 1
  let astral := (← read).astral
  let belongs (c : Char) : Bool :=
    if atStart then Alphabet.isIdentifierStart astral c else Alphabet.isIdentifierPart astral c
  match ← readCodePoint with
  | .code code =>
    match (RegExp.scalar? code).filter belongs with
    | some c => return c
    | none => fail start .invalidUnicodeEscape
  | .continuation => fail start .invalidUnicodeEscape
  | .invalid error _ => throw error

/-- Reads one character of a word; `word` is what was read before, latest first. -/
def wordPass (word : List Char) : LexM (Pass (List Char) (List Char)) := do
  match ← peek with
  | none => return .done word
  | some c =>
    if Alphabet.isIdentifierPart (← read).astral c then
      skip c
      return .again (c :: word)
    else if c = '\\' then return .again ((← readWordEscape word.isEmpty) :: word)
    else return .done word

/-- The word at the cursor; it may be empty. -/
def readWordText : LexM String := do
  modify fun l => { l with containsEscape := false }
  return String.ofList (← repeatForward [] wordPass).reverse

/-- An identifier or keyword. -/
def readWord : LexM Unit := do
  let word ← readWordText
  let s ← read
  let kind :=
    if Word.isKeyword s.edition s.inModule word then (TokenKind.ofKeyword? word).getD .name
    else .name
  finish kind (.name word)

end LexM
end ScriptSyntax
