import Mathlib.Data.List.Forall2
import ScriptSyntax.Parser.Target
import ScriptSyntax.Proofs.Tree.Rest

/-!
Patterns that were read as expressions.  A relation that every way to read one keeps holds between an
expression and its pattern: what covers a node by the nodes in it covers a pattern by the expression that it
was.
-/

namespace ScriptSyntax

theorem Except.bind_eq_ok {ε α β : Type} {x : Except ε α} {f : α → Except ε β} {b : β} :
    (x >>= f) = .ok b ↔ ∃ a, x = .ok a ∧ f a = .ok b := by
  cases x <;> simp [bind, Except.bind]

namespace TargetRules

variable {r : TargetRules} {p q : Pattern}

/-! ### Checks -/

theorem eq_of_name {id : Identifier} (reads : r.name id = .ok p) : p = .identifier id := by
  simp only [name] at reads
  split at reads
  · cases reads
  · exact (Except.ok.inj reads).symm

/-- A target before a default was read before; it is checked only. -/
theorem eq_of_recheck (reads : r.recheck q = .ok p) : p = q := by
  unfold recheck name at reads
  split at reads <;> try split at reads
  all_goals cases reads
  all_goals rfl

theorem eq_of_arrayRest (reads : arrayRest p = .ok q) : q = p ∧ p.isDefault = false := by
  unfold arrayRest at reads
  split at reads
  · cases reads
  · next notDefault =>
    cases reads
    refine ⟨rfl, ?_⟩
    cases p <;> first | rfl | exact (notDefault _ _ _ rfl).elim

theorem eq_of_objectRest (reads : objectRest p = .ok q) : q = p ∧ p.isDefault = false := by
  unfold objectRest at reads
  split at reads
  · cases reads
  · cases reads
  · cases reads
  · next notDefault =>
    cases reads
    refine ⟨rfl, ?_⟩
    cases p <;> first | rfl | exact (notDefault _ _ _ rfl).elim

theorem isLast_of_checkRest {isLast : Bool} {u : Unit} (checked : r.checkRest isLast p = .ok u)
    (rest : p.isRest = true) : isLast = true := by
  cases p with
  | rest span argument =>
    cases isLast with
    | true => rfl
    | false => cases checked
  | _ => cases rest

/-! ### Relations that are kept -/

/-- Every way to read a pattern keeps the relations, that of expressions and that of members. -/
structure Keeps (r : TargetRules) (E : Expression → Pattern → Prop) (M : ObjectMember → PatternMember → Prop) :
    Prop where
  identifier (id : Identifier) : E (.identifier id) (.identifier id)
  member (m : Member) : E (.member m) (.member m)
  object (span : Span) {members : List ObjectMember} {found : List PatternMember}
    (inner : List.Forall₂ M members found) : E (.object span members) (.object span found)
  array (span : Span) {elements : List (Option Expression)} {found : List (Option Pattern)}
    (inner : List.Forall₂ (Option.Rel E) elements found) (last : ∀ p, some p ∈ found.dropLast → p.isRest = false) :
    E (.array span elements) (.array span found)
  spread (span : Span) {argument : Expression} {p : Pattern} (plain : p.isDefault = false) (inner : E argument p) :
    E (.spread span argument) (.rest span p)
  assignment (span : Span) (target : Pattern) (value : Expression) :
    E (.assignment span .assign target value) (.assignment span target value)
  property (span : Span) {form : PropertyForm} (computed : Bool) (key : Expression) {value : Expression} {p : Pattern}
    (noAccessor : ¬ (form = .getter ∨ form = .setter)) (reads : value.toTarget r = .ok p) (inner : E value p) :
    M (.property span form computed key value) (.property span (form == .shorthand) computed key p)
  rest (span : Span) {argument : Expression} {p : Pattern} (plain : p.isDefault = false) (inner : E argument p) :
    M (.spread span argument) (.rest span p)

namespace Keeps

variable {E : Expression → Pattern → Prop} {M : ObjectMember → PatternMember → Prop} (keeps : r.Keeps E M)
include keeps

/-- The induction is on the way the readers call one another. -/
theorem all :
    (∀ e p, e.toTarget r = .ok p → E e p) ∧
    (∀ es ps, slotTargets r es = .ok ps →
      List.Forall₂ (Option.Rel E) es ps ∧ ∀ p, some p ∈ ps.dropLast → p.isRest = false) ∧
    (∀ e p, slotTarget r e = .ok p → Option.Rel E e p) ∧
    (∀ ms ps, memberTargets r ms = .ok ps → List.Forall₂ M ms ps) ∧
    ∀ m p, memberTarget r m = .ok p → M m p := by
  refine Expression.toTarget.mutual_induct r _ _ _ _ _ ?identifier ?object ?array ?spread ?assignment ?compound ?chain
    ?boundMember ?member ?other ?accessor ?property ?rest ?noSlots ?slots ?noMembers ?members ?hole ?slot
  case identifier =>
    intro id p reads
    rw [Expression.toTarget] at reads
    exact eq_of_name reads ▸ keeps.identifier id
  case object =>
    intro span members ih p reads
    rw [Expression.toTarget, Except.bind_eq_ok] at reads
    obtain ⟨found, inner, same⟩ := reads
    cases same
    exact keeps.object span (ih found inner)
  case array =>
    intro span elements ih p reads
    rw [Expression.toTarget, Except.bind_eq_ok] at reads
    obtain ⟨found, inner, same⟩ := reads
    cases same
    exact keeps.array span (ih found inner).1 (ih found inner).2
  case spread =>
    intro span argument ih p reads
    simp only [Expression.toTarget, Except.bind_eq_ok] at reads
    obtain ⟨a, inner, b, checked, same⟩ := reads
    cases same
    obtain ⟨rfl, plain⟩ := eq_of_arrayRest checked
    exact keeps.spread span plain (ih _ inner)
  case assignment =>
    intro span target value p reads
    rw [Expression.toTarget, Except.bind_eq_ok] at reads
    obtain ⟨a, checked, same⟩ := reads
    cases same
    exact eq_of_recheck checked ▸ keeps.assignment span target value
  case compound =>
    intro span operator target value other p reads
    rw [Expression.toTarget] at reads
    · cases reads
    · exact other
  case chain =>
    intro span e p reads
    rw [Expression.toTarget] at reads
    cases reads
  case boundMember =>
    intro m binding p reads
    rw [Expression.toTarget, if_pos binding] at reads
    cases reads
  case member =>
    intro m free p reads
    rw [Expression.toTarget, if_neg free] at reads
    cases reads
    exact keeps.member m
  case other =>
    intro e noName noObject noArray noSpread noAssignment noCompound noChain noMember p reads
    rw [Expression.toTarget] at reads
    · cases reads
    all_goals assumption
  case accessor =>
    intro span form computed key value accessor p reads
    rw [memberTarget, if_pos accessor] at reads
    cases reads
  case property =>
    intro span form computed key value noAccessor ih p reads
    rw [memberTarget, if_neg noAccessor, Except.bind_eq_ok] at reads
    obtain ⟨a, inner, same⟩ := reads
    cases same
    exact keeps.property span computed key noAccessor inner (ih a inner)
  case rest =>
    intro span argument ih p reads
    simp only [memberTarget, Except.bind_eq_ok] at reads
    obtain ⟨a, inner, b, checked, same⟩ := reads
    cases same
    obtain ⟨rfl, plain⟩ := eq_of_objectRest checked
    exact keeps.rest span plain (ih _ inner)
  case noSlots =>
    rintro ps ⟨⟩
    exact ⟨.nil, nofun⟩
  case slots =>
    intro e rest first others ps reads
    simp only [slotTargets, Except.bind_eq_ok] at reads
    obtain ⟨p, read, reads⟩ := reads
    obtain ⟨more, others', last, rfl⟩ : ∃ more, slotTargets r rest = .ok more ∧
        (∀ a ∈ p, a.isRest = true → rest = []) ∧ ps = p :: more := by
      cases p with
      | none =>
        obtain ⟨more, read, same⟩ := Except.bind_eq_ok.mp reads
        cases same
        exact ⟨more, read, nofun, rfl⟩
      | some p =>
        simp only [Except.bind_eq_ok] at reads
        obtain ⟨_, checked, more, read, same⟩ := reads
        cases same
        refine ⟨more, read, ?_, rfl⟩
        rintro _ ⟨⟩ isRest
        exact List.isEmpty_iff.mp (isLast_of_checkRest checked isRest)
    obtain ⟨related, placed⟩ := others more others'
    refine ⟨.cons (first p read) related, fun q mem => ?_⟩
    cases more with
    | nil => simp at mem
    | cons =>
      rcases List.mem_cons.mp mem with same | mem
      · rw [← Bool.not_eq_true]
        intro isRest
        subst same
        cases last q rfl isRest
        cases related
      · exact placed q mem
  case noMembers =>
    rintro ps ⟨⟩
    exact .nil
  case members =>
    intro m rest first others ps reads
    simp only [memberTargets, Except.bind_eq_ok] at reads
    obtain ⟨a, read, as, more, same⟩ := reads
    cases same
    exact .cons (first a read) (others as more)
  case hole =>
    rintro p ⟨⟩
    exact .none
  case slot =>
    intro e ih p reads
    simp only [slotTarget, Except.bind_eq_ok] at reads
    obtain ⟨a, inner, same⟩ := reads
    cases same
    exact .some (ih a inner)

theorem of_toTarget {e : Expression} (reads : e.toTarget r = .ok p) : E e p := keeps.all.1 e p reads

theorem of_slotTargets {es : List (Option Expression)} {ps : List (Option Pattern)}
    (reads : slotTargets r es = .ok ps) :
    List.Forall₂ (Option.Rel E) es ps ∧ ∀ p, some p ∈ ps.dropLast → p.isRest = false :=
  keeps.all.2.1 es ps reads

end Keeps
end TargetRules
/-! ### Covering -/

open Node

/-- Can the node be part of an expression that is read as a pattern, or of the pattern? -/
def Node.isRecast : Node → Bool
  | expression (.identifier _) | expression (.member _) | expression (.array ..) | expression (.object ..)
  | expression (.spread ..) | expression (.assignment ..) | pattern _ | patternMember _ => true
  | objectMember (.property _ _ _ _ (.function _)) => false
  | objectMember _ => true
  | _ => false

/-- A way to be covered by nodes, in which such a node is covered by another one if the nodes in it are
covered by those in the other one. -/
structure Covering (Cov : List Node → Node → Prop) : Prop where
  of_mem : ∀ {ns : List Node} {n : Node}, n ∈ ns → Cov ns n
  trans : ∀ {ns ms : List Node} {n : Node}, Cov ms n → (∀ m ∈ ms, Cov ns m) → Cov ns n
  recast : ∀ {m n : Node}, n.isRecast = true → m.isRecast = true → (∀ c ∈ n.children, Cov m.children c) → Cov [m] n

namespace Covering

variable {Cov : List Node → Node → Prop} {ns ms : List Node} {n : Node} {r : TargetRules}

theorem mono (hc : Covering Cov) (h : Cov ms n) (subset : ms ⊆ ns) : Cov ns n :=
  hc.trans h fun _ mem => hc.of_mem (subset mem)

/-- Nodes with the same nodes in them. -/
theorem same (hc : Covering Cov) {m : Node} (recast : n.isRecast = true) (recast' : m.isRecast = true)
    (children : n.children = m.children) :
    Cov [m] n := hc.recast recast recast' fun _ child => hc.of_mem (children ▸ child)

theorem of_members (hc : Covering Cov) {ms : List ObjectMember} {ms' : List PatternMember}
    (inner : List.Forall₂ (fun m m' => Cov [.objectMember m] (.patternMember m')) ms ms') :
    ∀ n ∈ ms'.map Node.patternMember, Cov (ms.map .objectMember) n := by
  induction inner with
  | nil => simp
  | cons first _ ih =>
    intro n mem
    rcases List.mem_cons.mp mem with rfl | mem
    · exact hc.mono first (by simp)
    · exact hc.mono (ih n mem) (by simp)

theorem of_slots (hc : Covering Cov) {es : List (Option Expression)} {ps : List (Option Pattern)}
    (inner : List.Forall₂ (Option.Rel fun e p => Cov [.expression e] (.pattern p)) es ps) :
    ∀ n ∈ (ps.filterMap id).map Node.pattern, Cov ((es.filterMap id).map .expression) n := by
  induction inner with
  | nil => simp
  | cons first _ ih =>
    cases first with
    | none => exact ih
    | some covered =>
      intro n mem
      rcases List.mem_cons.mp mem with rfl | mem
      · exact hc.mono covered (by simp)
      · exact hc.mono (ih n mem) (List.subset_cons_self ..)

/-- Being covered is kept by every way to read a pattern. -/
theorem keeps (hc : Covering Cov) : r.Keeps (fun e p => Cov [.expression e] (.pattern p))
    (fun m m' => Cov [.objectMember m] (.patternMember m')) where
  identifier _ := hc.same rfl rfl rfl
  member _ := hc.same rfl rfl rfl
  object _ _ _ inner := hc.recast rfl rfl (hc.of_members inner)
  array _ _ _ inner _ := hc.recast rfl rfl (hc.of_slots inner)
  spread _ _ _ _ inner := hc.recast rfl rfl (List.forall_mem_singleton.mpr inner)
  assignment _ _ _ := hc.same rfl rfl rfl
  property span form computed key value p _ reads inner := by
    have recast : (Node.objectMember (.property span form computed key value)).isRecast = true := by
      cases value <;> first | rfl | cases reads
    refine hc.recast rfl recast fun c child => ?_
    simp only [children, PatternMember.children, List.mem_cons, List.not_mem_nil, or_false] at child
    rcases child with rfl | rfl
    · exact hc.of_mem (.head _)
    · exact hc.mono inner (List.subset_cons_self ..)
  rest _ _ _ _ inner := hc.recast rfl rfl (List.forall_mem_singleton.mpr inner)

theorem of_slotTargets (hc : Covering Cov) {es : List (Option Expression)} {ps : List (Option Pattern)}
    (reads : slotTargets r es = .ok ps) :
    ∀ n ∈ (ps.filterMap id).map Node.pattern, Cov ((es.filterMap id).map .expression) n :=
  hc.of_slots (hc.keeps.of_slotTargets reads).1

theorem of_toPattern (hc : Covering Cov) {e : Expression} {p : Pattern} (reads : e.toPattern r = .ok p) :
    Cov [.expression e] (.pattern p) := by
  simp only [Expression.toPattern] at reads
  split at reads
  · split at reads
    · cases reads
      exact hc.same rfl rfl rfl
    · cases reads
      exact hc.same rfl rfl rfl
    · cases reads
  · exact hc.keeps.of_toTarget reads

end Covering
end ScriptSyntax
