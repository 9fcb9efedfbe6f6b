import ScriptSyntax.Parser.State

/-!
Words that begin a declaration only before certain others, which are looked at in the text without
reading a token.
-/

namespace ScriptSyntax

namespace Source

/-- The end of the identifier characters from an offset on. -/
def wordEnd (s : Source) (start : Nat) : Nat := s.skipWhile (Alphabet.isIdentifierPart true) start

/-- Does a name begin at an offset that is none of some words?  One with an escape is none of them. -/
def beginsName (s : Source) (except : List String) (start : Nat) : Bool :=
  match s.charAt start with
  | none => false
  | some c =>
    c == '\\' ||
      (Alphabet.isIdentifierStart true c &&
        let stop := s.wordEnd start
        s.has stop '\\' || !except.contains (s.slice start stop))

/-- Does a word stand at an offset, and no longer one? -/
def hasWord (s : Source) (word : String) (start : Nat) : Bool :=
  let stop := start + word.utf8ByteSize
  s.slice start stop == word && !(s.charAt stop).any (Alphabet.isIdentifierPart true)

/-- The start of what follows an offset on its line, if anything does. -/
def sameLine? (s : Source) (start : Nat) : Option Nat :=
  let next := s.skipBlank start
  if s.hasLineBreak start next then none else some next

end Source

namespace ParseM

/-- Does `let` begin a declaration here?  In the body of another statement it does so only before a
bracket or an escape. -/
def atLet (context : Option StatementContext) : ParseM Bool := do
  if (← since 6) && (← isContextual "let") then
    let s ← source
    let next ← lookahead
    if s.has next '[' || s.has next '\\' then return true
    else return context.isNone && (s.has next '{' || s.beginsName ["in", "instanceof"] next)
  else return false

/-- Does `async` stand before `function` on its line? -/
def atAsyncFunction : ParseM Bool := do
  if (← since 8) && (← isContextual "async") then
    let s ← source
    return (s.sameLine? (← lexer).pos).any (s.hasWord "function")
  else return false

/-- Words that cannot be the name of a resource. -/
def operatorWords (inHead : Bool) : List String :=
  if inHead then ["in", "instanceof", "of"] else ["in", "instanceof"]

/-- Does `using` stand before a name on its line? -/
def atUsing (inHead : Bool) : ParseM Bool := do
  if (← since 17) && (← isContextual "using") then
    let s ← source
    return (s.sameLine? (← lexer).pos).any (s.beginsName (operatorWords inHead))
  else return false

/-- Does `await` stand before `using` and a name on its line? -/
def atAwaitUsing (inHead : Bool) : ParseM Bool := do
  if (← since 17) && (← isContextual "await") then
    let s ← source
    return (s.sameLine? (← lexer).pos).any fun next =>
      s.hasWord "using" next &&
        (s.sameLine? (next + "using".utf8ByteSize)).any (s.beginsName (operatorWords inHead))
  else return false

end ParseM
end ScriptSyntax
