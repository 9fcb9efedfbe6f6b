import ScriptSyntax.Number.Double
import ScriptSyntax.Source.Position

/-!
The parts of a syntax tree that hold no other expressions: spans, names, literals and the chunks of
templates.
-/

namespace ScriptSyntax

/-- Where a node lies. -/
structure Span where
  start : Nat
  stop : Nat
  location : Option SourceLocation := none
  range : Option (Nat × Nat) := none
deriving DecidableEq, Inhabited, Repr

namespace Span

def contains (outer inner : Span) : Bool := outer.start ≤ inner.start && inner.stop ≤ outer.stop

/-- Where the node starts by line and column, if that was recorded. -/
def startPosition (s : Span) : Position := (s.location.map (·.start)).getD .first

theorem contains_refl (s : Span) : s.contains s = true := by simp [contains]

theorem contains_trans {a b c : Span} (ab : a.contains b = true) (bc : b.contains c = true) :
    a.contains c = true := by
  simp only [contains, Bool.and_eq_true, decide_eq_true_eq] at *
  omega

end Span

structure Identifier where
  span : Span
  name : String
deriving DecidableEq, Inhabited, Repr

/-- A private name, without its hash mark. -/
structure PrivateIdentifier where
  span : Span
  name : String
deriving DecidableEq, Inhabited, Repr

inductive LiteralValue where
  | null
  | boolean (value : Bool)
  | number (value : Number.Double)
  | string (value : String)
  /-- A big integer, by its decimal digits. -/
  | bigint (digits : String)
  | regexp (pattern flags : String)
deriving DecidableEq, Inhabited, Repr

structure Literal where
  span : Span
  value : LiteralValue
  /-- The text in the source. -/
  raw : String
deriving DecidableEq, Inhabited, Repr

/-- A chunk of a template's text. -/
structure TemplateElement where
  span : Span
  raw : String
  /-- The decoded text; none if an escape in it is invalid. -/
  cooked : Option String
  /-- Is it the last chunk? -/
  isTail : Bool
deriving DecidableEq, Inhabited, Repr

/-- A name that crosses the border of a module; it may be written as a string. -/
inductive ModuleName where
  | identifier (id : Identifier)
  | string (literal : Literal)
deriving DecidableEq, Inhabited, Repr

namespace ModuleName

def name : ModuleName → String
  | identifier id => id.name
  | string literal =>
    match literal.value with
    | .string value => value
    | _ => ""

def span : ModuleName → Span
  | identifier id => id.span
  | string literal => literal.span

end ModuleName

inductive ImportSpecifier where
  | named (span : Span) (imported : ModuleName) (binding : Identifier)
  /-- What the module exports by default. -/
  | main (span : Span) (binding : Identifier)
  /-- All that the module exports, as one object. -/
  | whole (span : Span) (binding : Identifier)
deriving DecidableEq, Inhabited, Repr

structure ExportSpecifier where
  span : Span
  inner : ModuleName
  exported : ModuleName
deriving DecidableEq, Inhabited, Repr

/-- A demand on how a module is loaded. -/
structure ImportAttribute where
  span : Span
  key : ModuleName
  value : Literal
deriving DecidableEq, Inhabited, Repr

end ScriptSyntax
