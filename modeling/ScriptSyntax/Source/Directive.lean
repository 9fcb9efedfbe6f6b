import ScriptSyntax.Source

/-!
Directives, recognized in the text alone: a body is strict if a statement `"use strict"` stands among
the string statements it begins with.
-/

namespace ScriptSyntax
namespace Source

/-- The end of a string that began with `quote`, just past the quote that closes it. -/
def stringEnd? (s : Source) (quote : Char) : Nat → Nat → Option Nat
  | 0, _ => none
  | fuel + 1, offset =>
    match s.charAt offset with
    | none => none
    | some c =>
      if c = quote then some (offset + 1)
      else if c = '\\' then
        match s.charAt (offset + 1) with
        | some escaped => s.stringEnd? quote fuel (offset + 1 + escaped.utf8Size)
        | none => none
      else s.stringEnd? quote fuel (offset + c.utf8Size)

/-- The end of the string that begins at an offset, if one does. -/
def directiveEnd? (s : Source) (offset : Nat) : Option Nat :=
  match s.charAt offset with
  | some c => if c = '"' ∨ c = '\'' then s.stringEnd? c s.size (offset + 1) else none
  | none => none

/-- Characters that carry an expression on to the next line. -/
def continuesExpression (c : Char) : Bool := "(\x60.[+-/*%<>=,?^&".toList.contains c

/-- Does a statement that ends at `stop` end there, with a semicolon left out or not? -/
def statementEndsAt (s : Source) (stop : Nat) : Bool :=
  let next := s.skipBlank stop
  match s.charAt next with
  | none | some ';' | some '}' => true
  | some c =>
    s.hasLineBreak stop next && !(continuesExpression c || (c == '!' && s.has (next + 1) '='))

/-- Does a `"use strict"` directive stand among the string statements at an offset? -/
def strictDirective (s : Source) : Nat → Nat → Bool
  | 0, _ => false
  | fuel + 1, offset =>
    let start := s.skipBlank offset
    match s.directiveEnd? start with
    | none => false
    | some stop =>
      if s.slice (start + 1) (stop - 1) == "use strict" then s.statementEndsAt stop
      else
        let next := s.skipBlank stop
        s.strictDirective fuel (if s.has next ';' then next + 1 else next)

/-- Is the body of code that begins at an offset strict by a directive?  There are none before the
fifth edition. -/
def opensStrict (s : Source) (edition offset : Nat) : Bool :=
  5 ≤ edition && s.strictDirective (s.size + 1) offset

end Source
end ScriptSyntax
