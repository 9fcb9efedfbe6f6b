import ScriptSyntax.Parser.State

/-!
Faults put off until it is clear whether what was read is an expression or a pattern.
-/

namespace ScriptSyntax

/-- Where the first such faults of each kind lie. -/
structure Deferred where
  /-- A shorthand property with a default, as only patterns have. -/
  shorthandDefault : Option Nat := none
  /-- A comma after a spread element, as only expressions have. -/
  commaAfterRest : Option Nat := none
  /-- A parenthesized expression that is no simple target. -/
  parenthesizedTarget : Option Nat := none
  /-- Any parenthesized expression. -/
  parenthesized : Option Nat := none
  /-- A second `__proto__` property, as only patterns have. -/
  secondProto : Option Nat := none
deriving DecidableEq, Inhabited, Repr

namespace Deferred

/-- Is what was read a pattern, if it is anything? -/
def mustBePattern (d : Deferred) : Bool := d.shorthandDefault.isSome || d.secondProto.isSome

/-- What makes it no expression. -/
def expressionComplaint? (d : Deferred) : Option Complaint :=
  match d.shorthandDefault, d.secondProto with
  | some pos, _ => some (.fatal pos .shorthandAssignment)
  | none, some pos => some (.recoverable pos .protoRedefined)
  | none, none => none

/-- What makes it no pattern, to assign to or to bind names. -/
def patternComplaint? (binding : Bool) (d : Deferred) : Option Complaint :=
  match d.commaAfterRest with
  | some pos => some (.recoverable pos .commaAfterRest)
  | none =>
    if binding then d.parenthesized.map (.recoverable · .parenthesizedPattern)
    else d.parenthesizedTarget.map (.recoverable · .assignToRvalue)

/-- Forgets the faults that only a smaller pattern could have. -/
def forgetTarget (d : Deferred) : Deferred :=
  { d with parenthesizedTarget := none, commaAfterRest := none, secondProto := none }

/-- Forgets faults from an offset on that a member of the whole excuses. -/
def excuseMember (start : Nat) (d : Deferred) : Deferred :=
  let excuse (fault : Option Nat) : Option Nat := fault.filter (· < start)
  { d with
    parenthesizedTarget := excuse d.parenthesizedTarget
    parenthesized := excuse d.parenthesized
    commaAfterRest := excuse d.commaAfterRest }

theorem expressionComplaint?_eq_none_iff (d : Deferred) :
    d.expressionComplaint? = none ↔ d.mustBePattern = false := by
  rcases d with ⟨s, c, t, p, q⟩
  cases s <;> cases q <;> simp [expressionComplaint?, mustBePattern]

end Deferred

/-- A step that may put faults off, if anyone around it will settle them. -/
abbrev CoverM := StateT (Option Deferred) ParseM

namespace CoverM

/-- Runs a step whose faults nobody will settle. -/
def alone {α : Type} (step : CoverM α) : ParseM α := do return (← step.run none).1

/-- Runs a step and gives what it puts off, beyond what was put off before. -/
def deferring {α : Type} (deferred : Deferred) (step : CoverM α) : ParseM (α × Deferred) := do
  let (a, deferred) ← step.run (some deferred)
  return (a, deferred.getD {})

/-- Notes or forgets faults, if anyone will settle them. -/
def amend (change : Deferred → Deferred) : CoverM Unit := modify (·.map change)

/-- Is what was read so far a pattern, if it is anything? -/
def mustBePattern : CoverM Bool := return (← get).any (·.mustBePattern)

/-- Fails if what was read is no expression. -/
def checkExpression : CoverM Unit := do
  if let some deferred ← get then ParseM.check deferred.expressionComplaint?

end CoverM
end ScriptSyntax
