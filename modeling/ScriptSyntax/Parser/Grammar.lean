import ScriptSyntax.Number.Digits
import ScriptSyntax.Parser.Deferred
import ScriptSyntax.Parser.Target

/-!
The productions that nest, as one record.  All other productions are functions of such a record, so a
record for a depth of nesting can be built from the record for the depth below.
-/

namespace ScriptSyntax

structure Grammar where
  /-- A statement in the body of another one, or at the top level. -/
  statement : Option StatementContext → (topLevel : Bool) → ParseM Statement
  /-- An expression without commas outside brackets. -/
  assignment : InitMode → CoverM Expression
  /-- An operand with the operators before and after it. -/
  unary : (afterUnary inUpdate : Bool) → InitMode → CoverM Expression
  /-- An operand by itself; `forNew` says that it is to be constructed. -/
  atom : InitMode → (forNew : Bool) → CoverM Expression
  /-- A name or a pattern of names. -/
  bindingAtom : ParseM Pattern

namespace Grammar

open ParseM

variable (g : Grammar)

/-- An assignment expression that can be no pattern. -/
def plainAssignment (init : InitMode) : ParseM Expression := (g.assignment init).alone

/-- Expressions with commas between them. -/
def expression (init : InitMode) : CoverM Expression := do
  let start ← startNode
  let first ← g.assignment init
  if ← isKind .comma then
    let items ← repeatPast [first] fun items => do
      if ← eat .comma then return .again ((← g.assignment init) :: items)
      else return .done items.reverse
    return .sequence (← finishSpan start) items
  else return first

/-- An expression that can be no pattern. -/
def plainExpression (init : InitMode) : ParseM Expression := (g.expression init).alone

/-- An expression in the parentheses of a statement. -/
def parenthesized : ParseM Expression := do
  expect .parenL
  let e ← g.plainExpression .plain
  expect .parenR
  return e

end Grammar

namespace ParseM

/-- The value of a token that is a literal by itself. -/
def literalValue? : TokenValue → Option LiteralValue
  | .number n => some (.number n)
  | .string text => some (.string text)
  | .bigint digits => some (.bigint (Number.decimalOfBigint digits.toList))
  | .regexp pattern flags => some (.regexp pattern flags)
  | .none | .name _ => none

/-- A number, string or regular expression. -/
def literal : ParseM Literal := do
  let start ← startNode
  let l ← lexer
  let raw := (← source).slice l.token.start l.token.stop
  match literalValue? l.value with
  | some value =>
    next
    return ⟨← finishSpan start, value, raw⟩
  | none => unexpected

/-- A string. -/
def stringLiteral : ParseM Literal := do
  unless ← isKind .string do unexpected
  literal

end ParseM
end ScriptSyntax
