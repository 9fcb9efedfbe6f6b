import ScriptSyntax.Proofs.Tandem.Name

/-!
Expressions read as patterns, and targets, in two parsers side by side.
-/

namespace ScriptSyntax.Tandem

open Node ParseM

variable {t : Twins} {α β : Type}

/-! ### Expressions read as patterns -/

/-- Of what is given `V` holds; a complaint is about a boundary. -/
def Settles (t : Twins) (V : α → Prop) : Except Complaint α → Prop
  | .ok x => V x
  | .error c => Apt t c

namespace Settles

variable {V : α → Prop} {W : β → Prop} {x : Except Complaint α} {f : α → Except Complaint β}

protected theorem bind (first : Settles t V x) (next : ∀ a, V a → Settles t W (f a)) : Settles t W (x >>= f) := by
  cases x with
  | ok a => exact next a first
  | error c => exact first

theorem fatal {pos : Nat} {fault : Fault} (placed : t.Placed pos) (known : fault ≠ .invalidCharacterPosition) :
    Settles t V (.error (.fatal pos fault)) := ⟨placed, known⟩

protected theorem ite {c : Prop} [Decidable c] {y : Except Complaint α} (yes : c → Settles t V x)
    (no : ¬ c → Settles t V y) :
    Settles t V (if c then x else y) := by
  by_cases h : c
  · simpa only [if_pos h] using yes h
  · simpa only [if_neg h] using no h

end Settles

/-- The pattern fits. -/
abbrev PatternFits (t : Twins) (p : Pattern) : Prop := Fits t (.pattern p)

section Rules

variable {r : TargetRules} {p : Pattern}

theorem name_settles {id : Identifier} (spans : Spans t id.span) : Settles t (PatternFits t) (r.name id) :=
  .ite (fun _ => .fatal spans.start nofun) fun _ => Fits.leaf (n := .pattern (.identifier id)) spans rfl rfl

theorem member_settles {m : Member} (h : Fits t (.expression (.member m))) :
    Settles t (PatternFits t) (if r.binding then .error (.fatal m.span.start .assignToRvalue) else .ok (.member m)) :=
  .ite (fun _ => .fatal h.span.start nofun) fun _ => Fits.memberPattern h

variable (h : PatternFits t p)
include h

theorem recheck_settles : Settles t (PatternFits t) (r.recheck p) := by
  cases p with
  | identifier id => exact name_settles h.span
  | member m => exact .ite (fun _ => .fatal h.span.start nofun) fun _ => h
  | _ => exact h

theorem objectRest_settles : Settles t (PatternFits t) (TargetRules.objectRest p) := by
  cases p with
  | array | object | assignment => exact .fatal h.span.start nofun
  | _ => exact h

theorem arrayRest_settles : Settles t (PatternFits t) (TargetRules.arrayRest p) := by
  cases p with
  | assignment => exact .fatal h.span.start nofun
  | _ => exact h

theorem checkRest_settles {isLast : Bool} : Settles t (fun _ => True) (r.checkRest isLast p) := by
  cases p with
  | rest span argument =>
    have inner : PatternFits t argument := h.child rfl (.head _)
    refine .ite (fun _ => .fatal h.span.start nofun) fun _ => ?_
    cases argument with
    | identifier => trivial
    | _ => exact .ite (fun _ => .fatal inner.span.start nofun) fun _ => trivial
  | _ => trivial

end Rules

mutual

theorem toTarget_settles {r : TargetRules} :
    ∀ {e : Expression}, Fits t (.expression e) → Settles t (PatternFits t) (e.toTarget r)
  | .identifier _, h => by
    rw [Expression.toTarget]
    exact name_settles h.span
  | .object span members, h => by
    rw [Expression.toTarget]
    refine (memberTargets_settles fun m mem => h.child rfl (List.mem_map_of_mem mem)).bind fun found fits => ?_
    exact Fits.node (n := .pattern (.object span found)) h.span (fits_map fits) rfl
  | .array span elements, h => by
    rw [Expression.toTarget]
    refine (slotTargets_settles fun e mem x here => h.child rfl ?_).bind fun found fits => ?_
    · exact List.mem_map_of_mem (List.mem_filterMap.mpr ⟨e, mem, here⟩)
    · exact Fits.node (n := .pattern (.array span found)) h.span (fits_slots fits) rfl
  | .spread span argument, h => by
    rw [Expression.toTarget]
    refine (toTarget_settles (h.child rfl (.head _))).bind fun p fits => (arrayRest_settles fits).bind fun q fits => ?_
    exact Fits.node (n := .pattern (.rest span q)) h.span (fits_one fits) rfl
  | .assignment span operator target value, h => by
    have fitTarget : PatternFits t target := h.child rfl (.head _)
    cases operator with
    | assign =>
      rw [Expression.toTarget]
      refine (recheck_settles fitTarget).bind fun p fits => ?_
      exact Fits.node (n := .pattern (.assignment span p value)) h.span
        (fits_two fits (h.child rfl (.tail _ (.head _)))) rfl
    | _ =>
      simp only [Expression.toTarget]
      exact .fatal fitTarget.span.stop nofun
  | .member m, h => by
    rw [Expression.toTarget]
    exact member_settles h
  | .chain span e, h => by
    rw [Expression.toTarget]
    exact ⟨h.span.start, nofun⟩
  | .privateIdentifier _, h | .literal _, h | .this _, h | .super _, h | .function _, h | .arrow ..,
      h | .classExpression _, h
  | .template _, h | .taggedTemplate .., h | .unary .., h | .update .., h | .binary .., h | .logical ..,
      h | .conditional .., h
  | .call .., h | .new .., h | .sequence .., h | .yield .., h | .await .., h | .dynamicImport ..,
      h | .metaProperty .., h
  | .extension .., h => by
    simp only [Expression.toTarget]
    exact .fatal h.span.start nofun

theorem slotTarget_settles {r : TargetRules} : ∀ {e : Option Expression}, (∀ x ∈ e, Fits t (.expression x)) →
    Settles t (fun p => ∀ q ∈ p, PatternFits t q) (slotTarget r e)
  | none, _ => by
    rw [slotTarget]
    exact nofun
  | some e, h => by
    rw [slotTarget]
    refine (toTarget_settles (h e rfl)).bind fun p fits => ?_
    rintro _ ⟨⟩
    exact fits

theorem slotTargets_settles {r : TargetRules} :
    ∀ {es : List (Option Expression)}, (∀ e ∈ es, ∀ x ∈ e, Fits t (.expression x)) →
    Settles t (fun ps => ∀ p ∈ ps, ∀ q ∈ p, PatternFits t q) (slotTargets r es)
  | [], _ => by
    rw [slotTargets]
    exact nofun
  | e :: rest, h => by
    rw [slotTargets]
    refine (slotTarget_settles (h e (.head _))).bind fun p fits => ?_
    have others {p : Option Pattern} (fits : ∀ q ∈ p, PatternFits t q) :
          Settles t (fun ps => ∀ p ∈ ps, ∀ q ∈ p, PatternFits t q) (do
        return p :: (← slotTargets r rest)) :=
      (slotTargets_settles fun x mem => h x (.tail _ mem)).bind fun ps more => List.forall_mem_cons.mpr ⟨fits, more⟩
    cases p with
    | none => exact others fits
    | some p => exact (checkRest_settles (fits p rfl)).bind fun _ _ => others fits

theorem memberTarget_settles {r : TargetRules} : ∀ {m : ObjectMember}, Fits t (.objectMember m) →
    Settles t (fun p => Fits t (.patternMember p)) (memberTarget r m)
  | .property span form computed key value, h => by
    have fitKey : Fits t (.expression key) := h.child rfl (.head _)
    rw [memberTarget]
    refine .ite (fun _ => .fatal fitKey.span.start nofun) fun _ => ?_
    refine (toTarget_settles (h.child rfl (.tail _ (.head _)))).bind fun p fits => ?_
    exact Fits.node (n := .patternMember (.property span _ computed key p)) h.span (fits_two fitKey fits) rfl
  | .spread span argument, h => by
    rw [memberTarget]
    refine (toTarget_settles (h.child rfl (.head _))).bind fun p fits => (objectRest_settles fits).bind fun q fits => ?_
    exact Fits.node (n := .patternMember (.rest span q)) h.span (fits_one fits) rfl

theorem memberTargets_settles {r : TargetRules} : ∀ {ms : List ObjectMember}, (∀ m ∈ ms, Fits t (.objectMember m)) →
    Settles t (fun ps => ∀ p ∈ ps, Fits t (.patternMember p)) (memberTargets r ms)
  | [], _ => by
    rw [memberTargets]
    exact nofun
  | m :: rest, h => by
    rw [memberTargets]
    refine (memberTarget_settles (h m (.head _))).bind fun p fits =>
      (memberTargets_settles fun n mem => h n (.tail _ mem)).bind fun ps more => ?_
    exact List.forall_mem_cons.mpr ⟨fits, more⟩

end

theorem toPattern_settles {r : TargetRules} {e : Expression} (h : Fits t (.expression e)) :
    Settles t (PatternFits t) (e.toPattern r) := by
  refine .ite (fun _ => ?_) fun _ => toTarget_settles h
  cases e with
  | identifier id => exact Fits.leaf (n := .pattern (.identifier id)) h.span rfl rfl
  | member m => exact Fits.memberPattern h
  | _ => exact .fatal h.span.start nofun

theorem Gives.ofExcept {V : α → Prop} {x : Except Complaint α} (h : Settles t V x) :
    Gives t (ofExcept x) (ofExcept x) V := by
  cases x with
  | ok a => exact .done h
  | error c => exact .complain h

/-! ### Targets -/

/-- The target lies at a boundary. -/
def TargetPlaced (t : Twins) : Target → Prop
  | .name id => Spans t id.span
  | .member pos | .other pos => t.Placed pos

mutual

theorem targets_placed : ∀ {inner : Bool} {p : Pattern}, PatternFits t p → ∀ x ∈ p.targets inner, TargetPlaced t x
  | _, .identifier _, h => List.forall_mem_singleton.mpr h.span
  | _, .member _, h => List.forall_mem_singleton.mpr h.span.start
  | _, .object _ members, h => by
    rw [Pattern.targets]
    exact memberTargets_placed fun m mem => h.child rfl (List.mem_map_of_mem mem)
  | _, .array _ elements, h => by
    rw [Pattern.targets]
    exact slotTargets_placed fun e mem x here =>
      h.child rfl (List.mem_map_of_mem (List.mem_filterMap.mpr ⟨e, mem, here⟩))
  | true, .rest _ argument, h => by
    rw [Pattern.targets, if_pos rfl]
    exact targets_placed (h.child rfl (.head _))
  | true, .assignment _ target _, h => by
    rw [Pattern.targets, if_pos rfl]
    exact targets_placed (h.child rfl (.head _))
  | false, .rest .., h | false, .assignment .., h => List.forall_mem_singleton.mpr h.span.start

theorem memberTargets_placed : ∀ {ms : List PatternMember}, (∀ m ∈ ms, Fits t (.patternMember m)) →
    ∀ x ∈ patternMemberTargets ms, TargetPlaced t x
  | [], _ => nofun
  | .property _ _ _ _ value :: rest, h => by
    rw [patternMemberTargets, patternMemberTarget]
    exact List.forall_mem_append.mpr ⟨targets_placed ((h _ (.head _)).child rfl (.tail _ (.head _))),
      memberTargets_placed fun m mem => h m (.tail _ mem)⟩
  | .rest _ argument :: rest, h => by
    rw [patternMemberTargets, patternMemberTarget]
    exact List.forall_mem_append.mpr ⟨targets_placed ((h _ (.head _)).child rfl (.head _)),
      memberTargets_placed fun m mem => h m (.tail _ mem)⟩

theorem slotTargets_placed : ∀ {ps : List (Option Pattern)}, (∀ p ∈ ps, ∀ q ∈ p, PatternFits t q) →
    ∀ x ∈ patternSlotTargets ps, TargetPlaced t x
  | [], _ => nofun
  | none :: rest, h => by
    rw [patternSlotTargets, patternSlotTarget]
    exact slotTargets_placed fun p mem => h p (.tail _ mem)
  | some p :: rest, h => by
    rw [patternSlotTargets, patternSlotTarget]
    exact List.forall_mem_append.mpr ⟨targets_placed (h _ (.head _) p rfl), slotTargets_placed fun p mem =>
      h p (.tail _ mem)⟩

end

/-! ### Names bound -/

/-- The exports that are not declared so far are noted at boundaries. -/
def ExportsPlaced (t : Twins) (s : ScopeStack) : Prop := ∀ u ∈ s.undefinedExports, t.Placed u.2

theorem ExportsPlaced.declare {s : ScopeStack} (h : ExportsPlaced t s) {name : String} {binding : Binding} :
    ExportsPlaced t (s.declare name binding).2 := by
  have defined {x : ScopeStack} (h : ExportsPlaced t x) : ExportsPlaced t (x.defineExport name) :=
    fun u mem => h u (List.mem_of_mem_filter mem)
  unfold ScopeStack.declare
  split
  · exact h
  · split
    · dsimp only
      split
      · exact defined (x := { s with scopes := _ }) h
      · exact h
    · exact h
    · exact h
    all_goals
      dsimp only
      split
      · exact defined (x := { s with scopes := _ }) h
      · exact h

namespace Gives

theorem scopes : Gives t scopes scopes (ExportsPlaced t) := by
  refine .get fun p q state => .pure ⟨?_, state.noted.exports⟩
  rw [state.rest]

end Gives

namespace Quiet

theorem declare {name : String} {binding : Binding} {pos : Nat} (placed : t.Placed pos) :
    Quiet t (declare name binding pos) := by
  refine .step .scopes fun s exports => ?_
  have after : ExportsPlaced t (s.declare name binding).2 := exports.declare
  generalize s.declare name binding = x at after ⊢
  refine .quiet (.modify (fun _ => rfl) (fun _ _ => rfl) fun _ h => { h with exports := after }) fun _ => ?_
  exact .ite (fun _ => .failRecoverable placed nofun) fun _ => .done trivial

end Quiet

namespace Gives

/-- A name that is bound is none of those that must not come again. -/
theorem checkTargetName {binding : Binding} {clashes : Bool} {id : Identifier} (spans : Spans t id.span) :
    Gives t (checkTargetName binding clashes id) (checkTargetName binding clashes id) fun _ => binding ≠ .none →
      clashes = false := by
  refine .quiet .strict fun _ => .read (.guard (fun _ => ?_) fun _ => ?_)
  · split <;> exact .failRecoverable spans.start nofun
  · refine .ite (fun none => .done (absurd none)) fun _ =>
      .guard (fun _ => .failRecoverable spans.start nofun) fun _ => ?_
    refine .guard (fun _ => .failRecoverable spans.start nofun) fun fresh => ?_
    have fresh : clashes = false := by simpa using fresh
    exact .ite (fun _ => .done fun _ => fresh) fun _ => (Quiet.declare spans.start).weaken fun _ _ same =>
      ⟨same.1, fun _ => fresh⟩

/-- Targets that bind are names, and none of them comes twice where that is checked. -/
structure Bound (distinct : Bool) (seen : List String) (targets : List Target) : Prop where
  named : ∀ x ∈ targets, x.name? ≠ none
  fresh : distinct = true → (targets.filterMap (·.name?)).Nodup ∧ ∀ name ∈ targets.filterMap (·.name?), name ∉ seen

theorem checkTargets {binding : Binding} {distinct : Bool} {seen : List String} {targets : List Target}
    (placed : ∀ x ∈ targets, TargetPlaced t x) :
    Gives t (checkTargets binding distinct seen targets) (checkTargets binding distinct seen targets) fun _ =>
      binding ≠ .none → Bound distinct seen targets := by
  induction targets generalizing seen with
  | nil => exact .done fun _ => ⟨nofun, fun _ => ⟨.nil, nofun⟩⟩
  | cons x rest ih =>
    obtain ⟨here, below⟩ := List.forall_mem_cons.mp placed
    cases x with
    | name id =>
      refine .step (checkTargetName here) fun _ fresh => (ih below).weaken fun _ _ ⟨same, bound⟩ =>
        ⟨same, fun binds => ?_⟩
      obtain ⟨named, others⟩ := bound binds
      refine ⟨List.forall_mem_cons.mpr ⟨nofun, named⟩, fun isDistinct => ?_⟩
      obtain ⟨nodup, unseen⟩ := others isDistinct
      have first : id.name ∉ seen := by simpa [isDistinct] using fresh binds
      simp only [List.filterMap_cons, Target.name?, List.nodup_cons, List.forall_mem_cons]
      refine ⟨⟨fun mem => unseen _ mem (.head _), nodup⟩, first, fun name mem seenBefore =>
        unseen name mem (.tail _ seenBefore)⟩
    | member pos =>
      refine .ite (fun none => ?_) fun _ => .stops (.failRecoverable here nofun)
      exact (ih below).weaken fun _ _ ⟨same, _⟩ => ⟨same, fun binds => (binds none).elim⟩
    | other pos => exact .fail here (by split <;> nofun)

theorem checkPattern {binding : Binding} {p : Pattern} (h : PatternFits t p) : Quiet t (checkPattern binding p) :=
  (checkTargets (targets_placed h)).weaken fun _ _ same => ⟨same.1, trivial⟩

/-- Parameters that are checked to be distinct bind no name twice. -/
theorem checkParams {params : List Pattern} {distinct : Bool} (h : ∀ p ∈ params, PatternFits t p) :
    Gives t (checkParams params distinct) (checkParams params distinct) fun _ => distinct = true →
      DistinctNames params := by
  have placed : ∀ x ∈ params.flatMap (·.targets true), TargetPlaced t x := fun x mem => by
    obtain ⟨p, here, mem⟩ := List.mem_flatMap.mp mem
    exact targets_placed (h p here) x mem
  refine (checkTargets placed).weaken fun _ _ ⟨same, bound⟩ => ⟨same, fun isDistinct => ?_⟩
  have bound := bound nofun
  exact distinctNames_of_targets bound.named (bound.fresh isDistinct).1

theorem simpleTarget {e : Expression} (h : Fits t (.expression e)) :
    Gives t (simpleTarget e) (simpleTarget e) (PatternFits t) := by
  cases e with
  | identifier id => exact .step (checkTargetName h.span) fun _ _ => .done (Fits.leaf
      (n := .pattern (.identifier id)) h.span rfl rfl)
  | member m => exact .done (Fits.memberPattern h)
  | chain span e => exact .failRecoverable h.span.start nofun
  | _ => exact .fail h.span.start nofun

end Gives

namespace Quiet

theorem checkBinding {binding : Binding} {id : Identifier} (spans : Spans t id.span) :
    Quiet t (checkBinding binding id) :=
  (Gives.checkTargetName spans).weaken fun _ _ same => ⟨same.1, trivial⟩

end Quiet
end ScriptSyntax.Tandem
