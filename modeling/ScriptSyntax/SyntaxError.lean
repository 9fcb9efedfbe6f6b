import ScriptSyntax.Fault
import ScriptSyntax.Source.Position

/-!
A fault together with the place where it shows.
-/

namespace ScriptSyntax

/-- A recoverable fault leaves the tokens after it trustworthy; a fatal one does not. -/
inductive Severity where
  | fatal
  | recoverable
deriving DecidableEq, Inhabited, Repr

/-- A fault at an offset, its line and column not yet looked up. -/
structure Complaint where
  fault : Fault
  pos : Nat
  severity : Severity
deriving DecidableEq, Inhabited, Repr

structure SyntaxError where
  fault : Fault
  pos : Nat
  position : Position
  severity : Severity
deriving DecidableEq, Inhabited, Repr

namespace Complaint

def fatal (pos : Nat) (fault : Fault) : Complaint := ⟨fault, pos, .fatal⟩

def recoverable (pos : Nat) (fault : Fault) : Complaint := ⟨fault, pos, .recoverable⟩

end Complaint

namespace SyntaxError

def ofFault (source : Source) (pos : Nat) (fault : Fault) (severity : Severity) : SyntaxError :=
  ⟨fault, pos, source.position pos, severity⟩

def ofComplaint (source : Source) (c : Complaint) : SyntaxError :=
  ofFault source c.pos c.fault c.severity

def message (e : SyntaxError) : String := e.fault.message

/-- The message with the line and column. -/
def display (e : SyntaxError) : String :=
  e.message ++ " (" ++ toString e.position.line ++ ":" ++ toString e.position.column ++ ")"

def isRecoverable (e : SyntaxError) : Bool := e.severity == .recoverable

@[simp] theorem position_ofFault (source : Source) (pos : Nat) (fault : Fault) (severity : Severity) :
    (SyntaxError.ofFault source pos fault severity).position = source.position pos := rfl

end SyntaxError
end ScriptSyntax
