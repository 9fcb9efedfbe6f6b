import ScriptSyntax.Parser.ModuleItem
import ScriptSyntax.Proofs.Tree.Node

/-!
The names that patterns bind, and the functions whose parameters bind none of them twice.
-/

namespace ScriptSyntax

mutual

/-- The names that a pattern binds, in source order. -/
def Pattern.names : Pattern → List String
  | .identifier id => [id.name]
  | .member _ => []
  | .object _ members => memberNames members
  | .array _ elements => slotNames elements
  | .rest _ argument => argument.names
  | .assignment _ target _ => target.names

def memberNames : List PatternMember → List String
  | [] => []
  | .property _ _ _ _ value :: rest => value.names ++ memberNames rest
  | .rest _ argument :: rest => argument.names ++ memberNames rest

def slotNames : List (Option Pattern) → List String
  | [] => []
  | none :: rest => slotNames rest
  | some p :: rest => p.names ++ slotNames rest

end

/-- No name is bound twice. -/
def DistinctNames (params : List Pattern) : Prop := (params.flatMap (·.names)).Nodup

namespace PropertyForm

/-- Is the property a method or an accessor? -/
def isMethod : PropertyForm → Bool
  | method | getter | setter => true
  | plain | shorthand => false

end PropertyForm

/-- Parameters that are not all plain names, and those of a module, bind no name twice. -/
def Callable.UniqueParams (inModule : Bool) (f : Callable) : Prop :=
  inModule = true ∨ f.params.any (!·.isIdentifier) = true → DistinctNames f.params

/-- If the node is a function, its parameters bind no name twice where that is forbidden: in an arrow function, a
method or an accessor, where a parameter is no plain name, and in a module. -/
def Node.UniqueParams (inModule : Bool) : Node → Prop
  | expression (.arrow _ _ params _) => DistinctNames params
  | expression (.function f) | statement (.functionDeclaration f) => f.UniqueParams inModule
  | objectMember (.property _ form _ _ (.function f)) => form.isMethod = true → DistinctNames f.params
  | classElement (.method _ _ _ _ _ f) => DistinctNames f.params
  | _ => True

/-! ### Names and targets -/

/-- The name that a target is. -/
def Target.name? : Target → Option String
  | name id => some id.name
  | member _ | other _ => none

mutual

/-- A pattern whose targets are all names binds those names. -/
theorem Pattern.map_targets : ∀ {inner : Bool} {p : Pattern}, (∀ x ∈ p.targets inner, x.name? ≠ none) →
    (p.targets inner).map (·.name?) = p.names.map some
  | _, .identifier _, _ => rfl
  | _, .member _, named => (named _ (.head _) rfl).elim
  | _, .object _ members, named => by
    simp only [Pattern.targets] at named ⊢
    rw [Pattern.names, map_memberTargets named]
  | _, .array _ elements, named => by
    simp only [Pattern.targets] at named ⊢
    rw [Pattern.names, map_slotTargets named]
  | true, .rest _ argument, named => by
    simp only [Pattern.targets, if_true] at named ⊢
    rw [Pattern.names, argument.map_targets named]
  | false, .rest _ _, named => (named _ (.head _) rfl).elim
  | true, .assignment _ target _, named => by
    simp only [Pattern.targets, if_true] at named ⊢
    rw [Pattern.names, target.map_targets named]
  | false, .assignment _ _ _, named => (named _ (.head _) rfl).elim

theorem map_memberTargets : ∀ {members : List PatternMember}, (∀ x ∈ patternMemberTargets members, x.name? ≠ none) →
    (patternMemberTargets members).map (·.name?) = (memberNames members).map some
  | [], _ => rfl
  | .property _ _ _ _ value :: rest, named => by
    simp only [patternMemberTargets, patternMemberTarget, List.forall_mem_append] at named ⊢
    rw [List.map_append, value.map_targets named.1, map_memberTargets named.2, memberNames, List.map_append]
  | .rest _ argument :: rest, named => by
    simp only [patternMemberTargets, patternMemberTarget, List.forall_mem_append] at named ⊢
    rw [List.map_append, argument.map_targets named.1, map_memberTargets named.2, memberNames, List.map_append]

theorem map_slotTargets : ∀ {slots : List (Option Pattern)}, (∀ x ∈ patternSlotTargets slots, x.name? ≠ none) →
    (patternSlotTargets slots).map (·.name?) = (slotNames slots).map some
  | [], _ => rfl
  | none :: rest, named => by
    simp only [patternSlotTargets, patternSlotTarget, List.nil_append] at named ⊢
    rw [map_slotTargets named, slotNames]
  | some p :: rest, named => by
    simp only [patternSlotTargets, patternSlotTarget, List.forall_mem_append] at named ⊢
    rw [List.map_append, p.map_targets named.1, map_slotTargets named.2, slotNames, List.map_append]

end

/-- Parameters whose targets are names, none of them twice, bind no name twice. -/
theorem distinctNames_of_targets {params : List Pattern} (named : ∀ x ∈ params.flatMap (·.targets true), x.name? ≠ none)
    (distinct : ((params.flatMap (·.targets true)).filterMap (·.name?)).Nodup) : DistinctNames params := by
  have same : (params.flatMap (·.targets true)).map (·.name?) = (params.flatMap (·.names)).map some := by
    clear distinct
    induction params with
    | nil => rfl
    | cons p params ih =>
      simp only [List.flatMap_cons, List.forall_mem_append] at named
      simp only [List.flatMap_cons, List.map_append, p.map_targets named.1, ih named.2]
  rw [DistinctNames]
  have found := congrArg (List.filterMap id) same
  simp only [List.filterMap_map, Function.id_comp] at found
  rwa [found, List.filterMap_some] at distinct

end ScriptSyntax
