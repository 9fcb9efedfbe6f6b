import Mathlib.Data.List.Forall2
import ScriptSyntax.Scope

/-!
What the scopes on a stack hold, told by the declarations made so far.

A history forgets nothing: it numbers the scopes as they are entered and keeps every declaration with
the scopes around it.  The sets of names in the open scopes are what is left of it.
-/

namespace ScriptSyntax

/-- Is the name a variable to the scopes around it?  Names bound elsewhere are hoisted as variables are. -/
def Binding.isHoisted : Binding → Bool
  | .var | .none | .outside => true
  | .lexical | .function | .simpleCatch => false

/-- A scope as it was entered: how many were entered before it, and its flags. -/
structure Entry where
  number : Nat
  flags : ScopeFlags
deriving DecidableEq

/-- Do function declarations in the scope behave like variables? -/
def Entry.functionsAsVars (inModule : Bool) (t : Entry) : Bool :=
  Scope.functionsAsVars inModule { flags := t.flags }

/-- A variable declared in the innermost of some scopes gets to one of them: it is open, and no scope
further in holds variables. -/
def HoistsTo (around : List Entry) (t : Entry) : Prop :=
  ∃ inner outer, around = inner ++ t :: outer ∧ ∀ u ∈ inner, u.flags.holdsVars = false

@[simp] theorem not_hoistsTo_nil {t : Entry} : ¬ HoistsTo [] t := by
  rintro ⟨inner, outer, split, -⟩
  simp at split

@[simp] theorem hoistsTo_cons {u t : Entry} {around : List Entry} :
    HoistsTo (u :: around) t ↔ t = u ∨ u.flags.holdsVars = false ∧ HoistsTo around t := by
  constructor
  · rintro ⟨inner, outer, split, free⟩
    cases inner with
    | nil =>
      cases split
      exact .inl rfl
    | cons v inner =>
      cases split
      exact .inr ⟨free u List.mem_cons_self, inner, outer, rfl, fun w mem => free w (List.mem_cons_of_mem _ mem)⟩
  · rintro (rfl | ⟨free, inner, outer, rfl, frees⟩)
    · exact ⟨[], around, rfl, by simp⟩
    · exact ⟨u :: inner, outer, rfl, by simpa using ⟨free, frees⟩⟩

theorem HoistsTo.mem {around : List Entry} {t : Entry} (hoists : HoistsTo around t) : t ∈ around := by
  obtain ⟨inner, outer, rfl, -⟩ := hoists
  simp

/-- A declaration, and the scopes open when it was made, innermost first. -/
structure Declaration where
  name : String
  binding : Binding
  around : List Entry

def Declaration.MadeIn (d : Declaration) (t : Entry) : Prop := d.around.head? = some t

def Declaration.Reaches (d : Declaration) (t : Entry) : Prop := HoistsTo d.around t

theorem Declaration.MadeIn.reaches {d : Declaration} {t : Entry} (made : d.MadeIn t) : d.Reaches t := by
  obtain ⟨rest, eq⟩ := List.head?_eq_some_iff.1 made
  exact ⟨[], rest, eq, by simp⟩

structure ScopeHistory where
  /-- The open scopes, innermost first. -/
  around : List Entry
  /-- The latest first. -/
  made : List Declaration := []
  /-- How many scopes were entered so far. -/
  entered : Nat

namespace ScopeHistory

def enter (flags : ScopeFlags) (h : ScopeHistory) : ScopeHistory :=
  { h with around := ⟨h.entered, flags⟩ :: h.around, entered := h.entered + 1 }

def exit (h : ScopeHistory) : ScopeHistory := { h with around := h.around.tail }

def declare (name : String) (binding : Binding) (h : ScopeHistory) : ScopeHistory :=
  { h with made := ⟨name, binding, h.around⟩ :: h.made }

/-- The name was declared this way in the scope itself. -/
def Declares (h : ScopeHistory) (name : String) (binding : Binding) (t : Entry) : Prop :=
  ∃ d ∈ h.made, d.name = name ∧ d.binding = binding ∧ d.MadeIn t

/-- A variable of the name was declared that gets to the scope. -/
def Hoists (h : ScopeHistory) (name : String) (t : Entry) : Prop :=
  ∃ d ∈ h.made, d.name = name ∧ d.binding.isHoisted = true ∧ d.Reaches t

/-- The name is the plain parameter of the catch clause that the scope belongs to. -/
def CatchParam (h : ScopeHistory) (name : String) (t : Entry) : Prop :=
  t.flags.simpleCatch = true ∧ h.Declares name .simpleCatch t

/-- The innermost scope is that of a catch clause, and no name is declared in it so far. -/
def AtCatch (h : ScopeHistory) : Prop :=
  ∃ t, h.around.head? = some t ∧ t.flags.simpleCatch = true ∧ ∀ d ∈ h.made, ¬ d.MadeIn t

@[simp] theorem declares_declare {h : ScopeHistory} {name n : String} {binding b : Binding} {t : Entry} :
    (h.declare name binding).Declares n b t ↔
      (name = n ∧ binding = b ∧ h.around.head? = some t) ∨ h.Declares n b t := by
  simp [Declares, declare, Declaration.MadeIn]

@[simp] theorem hoists_declare {h : ScopeHistory} {name n : String} {binding : Binding} {t : Entry} :
    (h.declare name binding).Hoists n t ↔
      (name = n ∧ binding.isHoisted = true ∧ HoistsTo h.around t) ∨ h.Hoists n t := by
  simp [Hoists, declare, Declaration.Reaches]

@[simp] theorem around_declare (h : ScopeHistory) (name : String) (binding : Binding) :
    (h.declare name binding).around = h.around := rfl

/-- The numbers tell scopes apart, also those that are no longer open. -/
structure Numbered (h : ScopeHistory) : Prop where
  nodup : h.around.Nodup
  opened : ∀ t ∈ h.around, t.number < h.entered
  declared : ∀ d ∈ h.made, ∀ t ∈ d.around, t.number < h.entered

theorem Numbered.enter {h : ScopeHistory} (numbered : h.Numbered) (flags : ScopeFlags) : (h.enter flags).Numbered where
  nodup := List.nodup_cons.2 ⟨fun mem => Nat.lt_irrefl _ (numbered.opened _ mem), numbered.nodup⟩
  opened := by
    intro t mem
    rcases List.mem_cons.1 mem with rfl | mem
    · exact Nat.lt_succ_self _
    · exact Nat.lt_succ_of_lt (numbered.opened t mem)
  declared d made t mem := Nat.lt_succ_of_lt (numbered.declared d made t mem)

theorem Numbered.exit {h : ScopeHistory} (numbered : h.Numbered) : h.exit.Numbered where
  nodup := numbered.nodup.tail
  opened t mem := numbered.opened t (List.mem_of_mem_tail mem)
  declared := numbered.declared

theorem Numbered.declare {h : ScopeHistory} (numbered : h.Numbered) (name : String) (binding : Binding) :
    (h.declare name binding).Numbered where
  nodup := numbered.nodup
  opened := numbered.opened
  declared := by
    intro d made
    rcases List.mem_cons.1 made with rfl | made
    · exact numbered.opened
    · exact numbered.declared d made

/-- No declaration gets to a scope before it is entered. -/
theorem Numbered.not_reaches {h : ScopeHistory} (numbered : h.Numbered) {d : Declaration} (made : d ∈ h.made)
    {flags : ScopeFlags} : ¬ d.Reaches ⟨h.entered, flags⟩ :=
  fun reaches => Nat.lt_irrefl _ (numbered.declared d made _ reaches.mem)

end ScopeHistory

/-- The sets of an open scope hold what the history says of it. -/
structure Scope.Recalls (h : ScopeHistory) (scope : Scope) (t : Entry) : Prop where
  flags : scope.flags = t.flags
  vars : ∀ n, n ∈ scope.vars ↔ h.Hoists n t
  lexical : ∀ n, n ∈ scope.lexical ↔ h.Declares n .lexical t ∨ h.Declares n .simpleCatch t
  functions : ∀ n, n ∈ scope.functions ↔ h.Declares n .function t
  catchParam : ∀ n, scope.catchParam = some n ↔ h.Declares n .simpleCatch t
  /-- Only catch clauses have such a parameter, -/
  ofCatch : ∀ n, h.Declares n .simpleCatch t → t.flags.simpleCatch = true
  /-- and no lexical name repeats it. -/
  apart : ∀ n, h.Declares n .simpleCatch t → ¬ h.Declares n .lexical t

namespace Scope.Recalls

variable {h : ScopeHistory} {scope : Scope} {t : Entry} {name : String} {binding : Binding}

theorem functionsAsVars (known : scope.Recalls h t) (inModule : Bool) :
    scope.functionsAsVars inModule = t.functionsAsVars inModule := by
  simp [Scope.functionsAsVars, Entry.functionsAsVars, known.flags]

/-- A scope just entered. -/
theorem fresh (numbered : h.Numbered) (flags : ScopeFlags) :
    Scope.Recalls (h.enter flags) { flags } ⟨h.entered, flags⟩ := by
  have none (n : String) (b : Binding) : ¬ (h.enter flags).Declares n b ⟨h.entered, flags⟩ :=
    fun ⟨_, made, _, _, madeIn⟩ => numbered.not_reaches made madeIn.reaches
  have noVar (n : String) : ¬ (h.enter flags).Hoists n ⟨h.entered, flags⟩ :=
    fun ⟨_, made, _, _, reaches⟩ => numbered.not_reaches made reaches
  constructor <;> simp [none, noVar]

theorem enter (known : scope.Recalls h t) (flags : ScopeFlags) : scope.Recalls (h.enter flags) t :=
  ⟨known.flags, known.vars, known.lexical, known.functions, known.catchParam, known.ofCatch, known.apart⟩

theorem exit (known : scope.Recalls h t) : scope.Recalls h.exit t :=
  ⟨known.flags, known.vars, known.lexical, known.functions, known.catchParam, known.ofCatch, known.apart⟩

/-- A declaration that does not concern the scope. -/
theorem skip (known : scope.Recalls h t) (elsewhere : h.around.head? ≠ some t)
    (aside : binding.isHoisted = true → ¬ HoistsTo h.around t) : scope.Recalls (h.declare name binding) t := by
  have same (n : String) (b : Binding) : (h.declare name binding).Declares n b t ↔ h.Declares n b t := by
    simp [elsewhere]
  have sameVars (n : String) : (h.declare name binding).Hoists n t ↔ h.Hoists n t := by
    simpa using fun _ hoisted reaches => absurd reaches (aside hoisted)
  refine ⟨known.flags, ?_, ?_, ?_, ?_, ?_, ?_⟩ <;> simp only [same, sameVars]
  exacts [known.vars, known.lexical, known.functions, known.catchParam, known.ofCatch, known.apart]

/-- A variable hoisted through the scope. -/
theorem insertVar (known : scope.Recalls h t) (hoisted : binding.isHoisted = true) (reaches : HoistsTo h.around t) :
    (scope.insertVar name).Recalls (h.declare name binding) t := by
  have same (n : String) (b : Binding) (other : b.isHoisted = false) :
      (h.declare name binding).Declares n b t ↔ h.Declares n b t := by
    simpa using fun _ is => absurd (is ▸ hoisted) (by simp [other])
  constructor <;> simp only [same _ .lexical rfl, same _ .function rfl, same _ .simpleCatch rfl, Scope.insertVar]
  · exact known.flags
  · intro n
    simp [hoisted, reaches, known.vars, eq_comm]
  exacts [known.lexical, known.functions, known.catchParam, known.ofCatch, known.apart]

variable (known : scope.Recalls h t) (innermost : h.around.head? = some t)
include known innermost

theorem insertLexical (free : name ∉ scope.lexical) :
    { scope with lexical := scope.lexical.insert name }.Recalls (h.declare name .lexical) t := by
  have notCatch : ¬ h.Declares name .simpleCatch t := fun is => free ((known.lexical name).2 (.inr is))
  constructor <;> simp only [ScopeHistory.declares_declare, ScopeHistory.hoists_declare, innermost,
    Binding.isHoisted, reduceCtorEq,
    false_and, and_false, false_or, and_true, Bool.false_eq_true]
  · exact known.flags
  · exact known.vars
  · intro n
    simp [known.lexical, or_assoc, eq_comm]
  · exact known.functions
  · exact known.catchParam
  · exact known.ofCatch
  · rintro n catches (rfl | declared)
    · exact notCatch catches
    · exact known.apart n catches declared

theorem insertFunction :
    { scope with functions := scope.functions.insert name }.Recalls (h.declare name .function) t := by
  constructor <;> simp only [ScopeHistory.declares_declare, ScopeHistory.hoists_declare, innermost,
    Binding.isHoisted, reduceCtorEq,
    false_and, and_false, false_or, and_true, Bool.false_eq_true]
  · exact known.flags
  · exact known.vars
  · exact known.lexical
  · intro n
    simp [known.functions, eq_comm]
  · exact known.catchParam
  · exact known.ofCatch
  · exact known.apart

theorem insertCatch (catches : t.flags.simpleCatch = true) (first : ∀ d ∈ h.made, ¬ d.MadeIn t) :
    { scope with lexical := scope.lexical.insert name, catchParam := some name }.Recalls
      (h.declare name .simpleCatch) t := by
  have none (n : String) (b : Binding) : ¬ h.Declares n b t := fun ⟨d, made, _, _, madeIn⟩ => first d made madeIn
  have empty (n : String) : n ∉ scope.lexical := by simp [known.lexical, none]
  constructor <;> simp only [ScopeHistory.declares_declare, ScopeHistory.hoists_declare, innermost,
    Binding.isHoisted, reduceCtorEq,
    false_and, and_false, false_or, and_true, Bool.false_eq_true, none, or_false]
  · exact known.flags
  · exact known.vars
  · simp [empty, eq_comm]
  · simp [known.functions, none]
  · simp
  · exact fun _ _ => catches
  · simp

end Scope.Recalls
end ScriptSyntax
