import ScriptSyntax.Token

/-!
The brackets, templates and functions that a token may lie in.  They tell whether a brace opens a
block or an object, and whether a slash divides or begins a regular expression.
-/

namespace ScriptSyntax

inductive Context where
  /-- The braces of a block. -/
  | blockBraces
  /-- The braces of an object. -/
  | objectBraces
  /-- The braces of a substitution in a template. -/
  | templateBraces
  /-- The parentheses after a statement's keyword. -/
  | statementParens
  | expressionParens
  /-- The text of a template. -/
  | templateText
  | functionDeclaration
  | functionExpression
  | generatorExpression
  | generatorDeclaration
  /-- A context of an extension's own. -/
  | custom (tag : Nat)
deriving DecidableEq, Inhabited, Repr

namespace Context

/-- The text that opens the context. -/
def opening : Context → String
  | blockBraces | objectBraces => "\x7b"
  | templateBraces => "$\x7b"
  | statementParens | expressionParens => "("
  | templateText => "`"
  | functionDeclaration | functionExpression | generatorExpression | generatorDeclaration =>
    "function"
  | custom _ => ""

/-- Is the whole an operand, so that a slash after its end divides? -/
def isExpression : Context → Bool
  | objectBraces | expressionParens | templateText | functionExpression | generatorExpression =>
    true
  | _ => false

/-- White space in a template belongs to its text. -/
def keepsBlank (c : Context) : Bool := c == templateText

def isFunction : Context → Bool
  | functionDeclaration | functionExpression | generatorExpression | generatorDeclaration => true
  | _ => false

def isGenerator : Context → Bool
  | generatorExpression | generatorDeclaration => true
  | _ => false

theorem isFunction_of_isGenerator {c : Context} (h : c.isGenerator = true) :
    c.isFunction = true := by
  cases c <;> simp_all [isGenerator, isFunction]

theorem isFunction_iff_opening (c : Context) : c.isFunction = true ↔ c.opening = "function" := by
  cases c <;> simp [isFunction, opening]

end Context
end ScriptSyntax
