/-!
Private names declared and used in the class bodies around a place.
-/

namespace ScriptSyntax

/-- How a private name is declared.  A getter and a setter together are plain again. -/
inductive PrivateKind where
  | plain
  | getter (isStatic : Bool)
  | setter (isStatic : Bool)
deriving DecidableEq, Inhabited, Repr

/-- The kind of two declarations of one name, where they may stand together. -/
def PrivateKind.pair? : PrivateKind → PrivateKind → Option PrivateKind
  | getter s, setter s' | setter s, getter s' => if s = s' then some plain else none
  | _, _ => none

/-- The private names of one class body. -/
structure ClassNames where
  declared : List (String × PrivateKind) := []
  /-- Uses not yet matched with a declaration, with their offsets, in source order. -/
  used : List (String × Nat) := []
deriving DecidableEq, Inhabited, Repr

/-- The class bodies around a place, innermost first. -/
structure PrivateNames where
  classes : List ClassNames := []
deriving DecidableEq, Inhabited, Repr

namespace PrivateNames

def enter (p : PrivateNames) : PrivateNames := ⟨{} :: p.classes⟩

def isEmpty (p : PrivateNames) : Bool := p.classes.isEmpty

/-- Leaves a class body.  Uses that it does not declare move out to the class around it; if there
is none, the first of them is unresolved. -/
def exit (p : PrivateNames) : Option (String × Nat) × PrivateNames :=
  match p.classes with
  | [] => (none, p)
  | body :: outer =>
    let open' := body.used.filter fun (name, _) => !body.declared.any (·.1 == name)
    match outer with
    | [] => (open'.head?, ⟨[]⟩)
    | parent :: outer => (none, ⟨{ parent with used := parent.used ++ open' } :: outer⟩)

/-- Notes a use; false outside any class body. -/
def use (name : String) (pos : Nat) (p : PrivateNames) : Bool × PrivateNames :=
  match p.classes with
  | [] => (false, p)
  | body :: outer => (true, ⟨{ body with used := body.used ++ [(name, pos)] } :: outer⟩)

/-- Declares a name in the innermost class body.  The first value says whether it conflicts with
an earlier declaration there. -/
def declare (name : String) (kind : PrivateKind) (p : PrivateNames) : Bool × PrivateNames :=
  match p.classes with
  | [] => (false, p)
  | body :: outer =>
    match body.declared.lookup name with
    | none => (false, ⟨{ body with declared := (name, kind) :: body.declared } :: outer⟩)
    | some known =>
      match known.pair? kind with
      | some both =>
        let declared := (name, both) :: body.declared.filter (·.1 != name)
        (false, ⟨{ body with declared } :: outer⟩)
      | none => (true, p)

@[simp] theorem isEmpty_enter (p : PrivateNames) : p.enter.isEmpty = false := rfl

theorem length_exit (p : PrivateNames) : (p.exit).2.classes.length = p.classes.length - 1 := by
  unfold exit
  split
  · simp_all
  · split <;> simp_all

end PrivateNames
end ScriptSyntax
