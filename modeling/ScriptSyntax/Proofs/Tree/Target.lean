import ScriptSyntax.Proofs.Tree.Recast
import ScriptSyntax.Proofs.Tree.Sound

/-!
Expressions that turn out to be patterns.  A pattern lies where its expression lay, keeps the nodes
that are no part of a pattern, and settles the faults that were put off in the expression.
-/

namespace ScriptSyntax

namespace Node

/-- Nodes that reading as a pattern replaces. -/
def isCover : Node → Bool
  | expression (.identifier _) | expression (.array ..) | expression (.object ..)
  | expression (.spread ..) | expression (.assignment ..) | expression (.member _) | objectMember _ => true
  | _ => false

/-- An early rest that the node gets as a pattern is still a fault put off. -/
def StaysOpen : Node → Node → Prop
  | expression e, _ => e.Open
  | objectMember m, patternMember m' =>
    ∃ e p, m.part = some e ∧ m'.slot = some p ∧ e.Open ∧ (pattern p).HasEarlyRest
  | _, _ => False

/-- The node `n`, read as a pattern, is `n'`. -/
structure Turns (edition : Nat) (n n' : Node) : Prop where
  span : n'.span = n.span
  name : n.isName = true → n'.isName = true
  literal : ∀ l, n ≠ literal l
  kept : ∀ m, Within m n → m.isCover = false → Within m n'
  back : ∀ x, Within (expression x) n' → Within (expression x) n
  nested : n.All Nested → n'.All Nested
  restPlain : ∀ m, Within m n' → Within m n ∨ m.RestPlain
  restLast : ∀ m, Within m n' →
    Within m n ∨ m.RestLast ∨ (∃ k, Within k n' ∧ HidesRest k.slots) ∨ n.StaysOpen n'
  settled : n.Pending edition → n'.Settled edition

variable {edition : Nat} {n n' c c' : Node}

/-- A child stays as it is, or it turns into part of a pattern. -/
inductive ChildTurns (edition : Nat) (n n' : Node) : Node → Node → Prop
  | same {c : Node} (closed : c ∈ n.closed) : ChildTurns edition n n' c c
  | turn {c c' : Node} (turns : c.Turns edition c')
    (rest : c.StaysOpen c' → c'.HasEarlyRest → HidesRest n'.slots ∨ n.StaysOpen n') :
    ChildTurns edition n n' c c'

namespace ChildTurns

theorem span (h : ChildTurns edition n n' c c') : c'.span = c.span := by
  cases h with
  | same => rfl
  | turn turns => exact turns.span

theorem clone {d d' : Node} (h : ChildTurns edition n n' c c') (h' : ChildTurns edition n n' d d')
    (clone : c.IsClone d) : c'.IsClone d' := by
  rcases clone with name | ⟨l, rfl, rfl⟩
  · cases h with
    | same => exact .inl name
    | turn turns => exact .inl (turns.name name)
  · cases h with
    | same =>
      cases h' with
      | same => exact .inr ⟨l, rfl, rfl⟩
      | turn turns => exact (turns.literal l rfl).elim
    | turn turns => exact (turns.literal l rfl).elim

end ChildTurns

section Related

variable {α β : Type} {R : α → β → Prop} {as : List α} {bs : List β}

theorem exists_left_of_forall₂ (related : List.Forall₂ R as bs) {b : β} (mem : b ∈ bs) :
    ∃ a ∈ as, R a b := by
  induction related with
  | nil => simp at mem
  | cons first _ ih =>
    rcases List.mem_cons.mp mem with rfl | mem
    · exact ⟨_, .head _, first⟩
    · obtain ⟨a, mem, other⟩ := ih mem
      exact ⟨a, .tail _ mem, other⟩

theorem exists_right_of_forall₂ (related : List.Forall₂ R as bs) {a : α} (mem : a ∈ as) :
    ∃ b ∈ bs, R a b :=
  exists_left_of_forall₂ (R := flip R) (List.Forall₂.flip related) mem

theorem pairwise_of_forall₂ {P : α → α → Prop} {Q : β → β → Prop} (related : List.Forall₂ R as bs)
    (pairs : as.Pairwise P) (transfer : ∀ {a b a' b'}, R a b → R a' b' → P a a' → Q b b') :
    bs.Pairwise Q := by
  induction related with
  | nil => exact .nil
  | cons first rest ih =>
    obtain ⟨head, tail⟩ := List.pairwise_cons.mp pairs
    refine List.pairwise_cons.mpr ⟨fun c mem => ?_, ih tail⟩
    obtain ⟨d, mem, other⟩ := exists_left_of_forall₂ rest mem
    exact transfer first other (head d mem)

theorem split_of_forall₂ {b : β} {bs₁ bs₂ : List β} (related : List.Forall₂ R as (bs₁ ++ b :: bs₂)) :
    ∃ as₁ a as₂, as = as₁ ++ a :: as₂ ∧ R a b ∧ List.Forall₂ R as₂ bs₂ := by
  induction bs₁ generalizing as with
  | nil =>
    cases related with
    | cons first rest => exact ⟨[], _, _, rfl, first, rest⟩
  | cons c bs₁ ih =>
    cases related with
    | cons _ rest =>
      obtain ⟨as₁, a, as₂, rfl, first, rest⟩ := ih rest
      exact ⟨_ :: as₁, a, as₂, rfl, first, rest⟩

/-- Related elements have what follows from the lists around them. -/
theorem forall₂_of_splits {S : α → β → Prop} (related : List.Forall₂ R as bs)
    (each : ∀ as₁ a as₂ bs₁ b bs₂, as = as₁ ++ a :: as₂ → bs = bs₁ ++ b :: bs₂ → R a b →
      List.Forall₂ R as₂ bs₂ → S a b) : List.Forall₂ S as bs := by
  induction related with
  | nil => exact .nil
  | @cons a b as bs first rest ih =>
    refine .cons (each [] a as [] b bs rfl rfl first rest)
      (ih fun as₁ a' as₂ bs₁ b' bs₂ left right => ?_)
    exact each (a :: as₁) a' as₂ (b :: bs₁) b' bs₂ (congrArg _ left) (congrArg _ right)

end Related

/-- The expression nodes within a pattern were within its expression. -/
theorem back_of_children (new : ∀ x, n' ≠ expression x)
    (children : List.Forall₂ (ChildTurns edition n n') n.children n'.children) (x : Expression)
    (within : Within (expression x) n') : Within (expression x) n := by
  rcases Within.iff.mp within with same | ⟨c', child', within⟩
  · exact (new x same.symm).elim
  · obtain ⟨c, child, related⟩ := exists_left_of_forall₂ children child'
    cases related with
    | same => exact .step child within
    | turn turns => exact .step child (turns.back x within)

theorem kept_of_children (cover : n.isCover = true)
    (children : List.Forall₂ (ChildTurns edition n n') n.children n'.children) (m : Node)
    (within : Within m n) (kept : m.isCover = false) : Within m n' := by
  rcases Within.iff.mp within with rfl | ⟨c, child, within⟩
  · simp [cover] at kept
  · obtain ⟨c', child', related⟩ := exists_right_of_forall₂ children child
    cases related with
    | same => exact .step child' within
    | turn turns => exact .step child' (turns.kept m within kept)

/-- What is excused stays so, since nodes of patterns are kept. -/
theorem settled_of_kept (back : ∀ x, Within (expression x) n' → Within (expression x) n)
    (kept : ∀ m, Within m n → m.isCover = false → Within m n') (settled : n.Settled edition) :
    n'.Settled edition := by
  intro x left within
  obtain ⟨m, inside, exposes⟩ := settled x left (back x within)
  exact ⟨m, kept _ inside rfl, exposes⟩

/-- A node turns into a pattern if its children do, and if a rest that comes too early in it is hidden
or still a fault put off. -/
theorem turns_of_children (span : n'.span = n.span) (name : n.isName = true → n'.isName = true)
    (notLiteral : ∀ l, n ≠ literal l) (cover : n.isCover = true) (new : ∀ x, n' ≠ expression x)
    (children : List.Forall₂ (ChildTurns edition n n') n.children n'.children)
    (restPlain : n'.RestPlain) (restLast : n'.RestLast ∨ HidesRest n'.slots ∨ n.StaysOpen n') :
    n.Turns edition n' where
  span := span
  name := name
  literal := notLiteral
  kept := kept_of_children cover children
  back := back_of_children new children
  nested all := by
    obtain ⟨here, below⟩ := all_iff.mp all
    refine all_iff.mpr ⟨⟨?_, fun c' child' => ?_, ?_⟩, fun c' child' => ?_⟩
    · exact span ▸ here.start_le
    · obtain ⟨c, child, related⟩ := exists_left_of_forall₂ children child'
      rw [span, related.span]
      exact here.contains c child
    · refine pairwise_of_forall₂ children here.apart fun first second apart => ?_
      rw [first.span, second.span]
      exact apart.imp_right (first.clone second)
    · obtain ⟨c, child, related⟩ := exists_left_of_forall₂ children child'
      cases related with
      | same => exact below _ child
      | turn turns => exact turns.nested (below c child)
  restPlain m within := by
    rcases Within.iff.mp within with rfl | ⟨c', child', within⟩
    · exact .inr restPlain
    · obtain ⟨c, child, related⟩ := exists_left_of_forall₂ children child'
      cases related with
      | same => exact .inl (.step child within)
      | turn turns => exact (turns.restPlain m within).imp_left (.step child)
  restLast m within := by
    rcases Within.iff.mp within with rfl | ⟨c', child', within⟩
    · rcases restLast with last | hides | stays
      · exact .inr (.inl last)
      · exact .inr (.inr (.inl ⟨m, .refl, hides⟩))
      · exact .inr (.inr (.inr stays))
    · obtain ⟨c, child, related⟩ := exists_left_of_forall₂ children child'
      by_cases last : m.RestLast
      · exact .inr (.inl last)
      cases related with
      | same => exact .inl (.step child within)
      | turn turns rest =>
        rcases turns.restLast m within with inside | last | ⟨k, inside, hides⟩ | stays
        · exact .inl (.step child inside)
        · exact .inr (.inl last)
        · exact .inr (.inr (.inl ⟨k, .step child' inside, hides⟩))
        · rcases rest stays ⟨m, within, last⟩ with hides | stays
          · exact .inr (.inr (.inl ⟨n', .refl, hides⟩))
          · exact .inr (.inr (.inr stays))
  settled pending := by
    cases pending with
    | settled settled =>
      exact settled_of_kept (back_of_children new children) (kept_of_children cover children) settled
    | parts exposed closed =>
      refine settled_of_children (fun x same => (new x same).elim) fun c' child' => ?_
      obtain ⟨c, child, related⟩ := exists_left_of_forall₂ children child'
      cases related with
      | same other => exact closed _ other
      | turn turns =>
        rcases child_cases child with part | other
        · exact turns.settled (exposed c part)
        · exact turns.settled (.settled (closed c other))

end Node

/-! ### Parts of patterns -/

/-- The expression, read as a pattern, is `p`. -/
structure Expression.Writes (edition : Nat) (e : Expression) (p : Pattern) : Prop where
  turns : (Node.expression e).Turns edition (.pattern p)
  rest : p.isRest = e.isSpread
  default : p.isDefault = e.isAssignment
  clears : e.clears = true → p.isDefault = true
  plain : p.RestPlain

section Slots

variable {edition : Nat} {parts : List (Option Expression)} {slots : List (Option Pattern)}

/-- Either a default among the targets makes faults before them forgotten, or no part does. -/
theorem default_or_remembered
    (written : List.Forall₂ (Option.Rel (Expression.Writes edition)) parts slots) :
    (∃ q, some q ∈ slots ∧ q.isDefault = true) ∨ ∀ x, some x ∈ parts → x.clears = false := by
  by_cases cleared : ∃ x, some x ∈ parts ∧ x.clears = true
  · obtain ⟨x, mem, clears⟩ := cleared
    obtain ⟨_, mem, related⟩ := Node.exists_right_of_forall₂ written mem
    cases related with
    | some writes => exact .inl ⟨_, mem, writes.clears clears⟩
  · refine .inr fun x mem => ?_
    rw [← Bool.not_eq_true]
    exact fun clears => cleared ⟨x, mem, clears⟩

/-- A default after a target at fault hides the fault. -/
theorem hidesRest_of_default {before after : List (Option Pattern)} {p q : Pattern}
    (mem : some q ∈ after) (default : q.isDefault = true)
    (fault : p.isRest = true ∨ (Node.pattern p).HasEarlyRest) :
    HidesRest (before ++ some p :: after) := by
  obtain ⟨between, rest, rfl⟩ := List.append_of_mem mem
  exact ⟨before ++ some p :: between, p, rest, q, by simp, by simp, default, fault⟩

/-- A rest that something follows was a spread that something follows: a fault put off, unless a
default after it made that forgotten. -/
theorem restLast_or_hides (written : List.Forall₂ (Option.Rel (Expression.Writes edition)) parts slots) :
    (∀ p, some p ∈ slots.dropLast → p.isRest = false) ∨ HidesRest slots ∨ OpenParts parts := by
  by_cases early : ∃ p, some p ∈ slots.dropLast ∧ p.isRest = true
  · obtain ⟨p, mem, rest⟩ := early
    obtain ⟨before, between, split⟩ := List.append_of_mem mem
    have nonempty : slots ≠ [] := by
      rintro rfl
      simp at mem
    obtain ⟨after, follows, rfl⟩ : ∃ after, after ≠ [] ∧ slots = before ++ some p :: after :=
      ⟨between ++ [slots.getLast nonempty], by simp, by
        rw [← List.cons_append, ← List.append_assoc, ← split, List.dropLast_append_getLast]⟩
    obtain ⟨parts₁, x, parts₂, rfl, related, later⟩ := Node.split_of_forall₂ written
    rcases default_or_remembered later with ⟨q, mem, default⟩ | remembered
    · exact .inr (.inl (hidesRest_of_default mem default (.inl rest)))
    · cases related with
      | @some e _ writes =>
        cases e with
        | spread =>
          refine .inr (.inr (.early ?_ remembered))
          rintro rfl
          cases later
          exact follows rfl
        | _ => simp [writes.rest, Expression.isSpread] at rest
  · refine .inl fun p mem => ?_
    rw [← Bool.not_eq_true]
    exact fun rest => early ⟨p, mem, rest⟩

/-- An early rest in a part that is a fault put off in the part is one in the whole, unless a default
after it made that forgotten. -/
theorem hides_or_open (written : List.Forall₂ (Option.Rel (Expression.Writes edition)) parts slots) :
    List.Forall₂ (Option.Rel fun e p => e.Writes edition p ∧
      (e.Open → (Node.pattern p).HasEarlyRest → HidesRest slots ∨ OpenParts parts)) parts slots := by
  refine Node.forall₂_of_splits written fun parts₁ x parts₂ slots₁ p slots₂ left right related later => ?_
  cases related with
  | none => exact .none
  | some writes =>
    refine .some ⟨writes, fun inner early => ?_⟩
    rcases default_or_remembered later with ⟨q, mem, default⟩ | remembered
    · exact .inl (right ▸ hidesRest_of_default mem default (.inr early))
    · exact .inr (left ▸ .part inner remembered)

end Slots

/-! ### Expressions read as patterns -/

namespace Node

variable {edition : Nat}

theorem within_of_same_children {m n k : Node} (same : k.children = n.children)
    (within : Within m n) : m = n ∨ Within m k := by
  rcases Within.iff.mp within with here | ⟨c, child, within⟩
  · exact .inl here
  · exact .inr (.step (same ▸ child) within)

theorem within_member_pattern {m : Member} {k : Node} (within : Within k (expression (.member m))) :
    k = expression (.member m) ∨ Within k (pattern (.member m)) :=
  within_of_same_children rfl within

theorem within_member_expression {m : Member} {k : Node} (within : Within k (pattern (.member m))) :
    k = pattern (.member m) ∨ Within k (expression (.member m)) :=
  within_of_same_children rfl within

/-- A member is a target as it stands, and excuses what is exposed in its object. -/
theorem turns_member (m : Member) : (expression (.member m)).Turns edition (pattern (.member m)) where
  span := rfl
  name := nofun
  literal := nofun
  kept k within kept := by
    rcases within_member_pattern within with rfl | within
    · simp [isCover] at kept
    · exact within
  back x within := (within_member_expression within).resolve_left nofun
  nested all := by
    obtain ⟨here, below⟩ := all_iff.mp all
    exact all_iff.mpr ⟨⟨here.start_le, here.contains, here.apart⟩, below⟩
  restPlain k within := by
    rcases within_member_expression within with rfl | within
    · exact .inr nofun
    · exact .inl within
  restLast k within := by
    rcases within_member_expression within with rfl | within
    · exact .inr (.inl nofun)
    · exact .inl within
  settled pending := by
    intro x left within
    cases pending with
    | settled settled =>
      obtain ⟨k, inner, exposes⟩ := settled x left ((within_member_expression within).resolve_left nofun)
      exact ⟨k, (within_member_pattern inner).resolve_left nofun, exposes⟩
    | parts exposed closed =>
      rcases Within.iff.mp within with same | ⟨c, child, within⟩
      · exact nomatch same
      · rcases List.mem_cons.mp child with rfl | other
        · rcases (exposed _ (.head _)).excuses_or_exposes left within with excuses | exposes
          · exact excuses.of_within (.of_child child)
          · exact ⟨m, .refl, exposes⟩
        · exact (closed c other x left within).of_within (.of_child child)

end Node

section Reading

variable {r : TargetRules} {edition : Nat}

theorem Expression.Writes.of_name (id : Identifier) : (Expression.identifier id).Writes edition (.identifier id) where
  turns := Node.turns_of_children rfl (fun _ => rfl) nofun rfl nofun .nil nofun (.inl nofun)
  rest := rfl
  default := rfl
  clears := nofun
  plain := trivial

theorem Expression.Writes.of_member (m : Member) :
    (Expression.member m).Writes edition (.member m) where
  turns := Node.turns_member m
  rest := rfl
  default := rfl
  clears := nofun
  plain := trivial

theorem Expression.Writes.of_assignment (span : Span) (target : Pattern) (value : Expression) :
    (Expression.assignment span .assign target value).Writes edition (.assignment span target value) where
  turns :=
    have same : List.Forall₂ (Node.ChildTurns edition
        (.expression (.assignment span .assign target value)) (.pattern (.assignment span target value)))
        [.pattern target, .expression value] [.pattern target, .expression value] :=
      .cons (.same (.head _)) (.cons (.same (.tail _ (.head _))) .nil)
    Node.turns_of_children rfl nofun nofun rfl nofun same nofun (.inl nofun)
  rest := rfl
  default := rfl
  clears _ := rfl
  plain := trivial

section Spread

variable {argument : Expression} {p : Pattern}

/-- The argument of a spread turns into that of a rest. -/
theorem Expression.Writes.spreadChild (writes : argument.Writes edition p) {n n' : Node}
    (stays : argument.Open → (Node.pattern p).HasEarlyRest → n.StaysOpen n') :
    List.Forall₂ (Node.ChildTurns edition n n') [.expression argument] [.pattern p] :=
  .cons (.turn writes.turns fun inner early => .inr (stays inner early)) .nil

theorem Expression.Writes.spread (span : Span) (writes : argument.Writes edition p)
    (plain : p.isDefault = false) :
    (Expression.spread span argument).Writes edition (.rest span p) where
  turns := Node.turns_of_children rfl nofun nofun rfl nofun
    (writes.spreadChild fun inner _ => .single inner) nofun (.inl nofun)
  rest := rfl
  default := rfl
  clears cleared := by
    have default : p.isDefault = true := by
      rw [writes.default]
      cases argument <;> first | rfl | cases cleared
    simp [default] at plain
  plain := plain

end Spread

/-- The expression is none of a list's holes, and writes the target. -/
abbrev MemberWrites (edition : Nat) (m : ObjectMember) (m' : PatternMember) : Prop :=
  (Node.objectMember m).Turns edition (.patternMember m') ∧
    Option.Rel (Expression.Writes edition) m.part m'.slot

theorem memberWrites_spread (span : Span) {argument : Expression} {p : Pattern}
    (writes : argument.Writes edition p) (plain : p.isDefault = false) :
    MemberWrites edition (.spread span argument) (.rest span p) := by
  refine ⟨Node.turns_of_children rfl nofun nofun rfl nofun (writes.spreadChild fun inner early => ?_)
    nofun (.inl nofun), .some (writes.spread span plain)⟩
  refine ⟨_, _, rfl, rfl, .single inner, ?_⟩
  exact early.of_within (.of_child (.head _))

theorem memberWrites_property (span : Span) {form : PropertyForm} (computed : Bool) (key : Expression)
    {value : Expression} {p : Pattern} (notGetter : form ≠ .getter) (notSetter : form ≠ .setter)
    (writes : value.Writes edition p) :
    MemberWrites edition (.property span form computed key value)
      (.property span (form == .shorthand) computed key p) := by
  have parts : Option.Rel (Expression.Writes edition)
      (ObjectMember.property span form computed key value).part
      (PatternMember.property span (form == .shorthand) computed key p).slot := by
    simp only [ObjectMember.part, PatternMember.slot, writes.default]
    split
    · exact .none
    · exact .some writes
  refine ⟨Node.turns_of_children rfl (by simp [Node.isName]) (by simp) rfl (by simp)
    (.cons (.same ?_) (.cons ?_ .nil)) (by simp [Node.RestPlain, Node.slots])
    (.inl (by simp [Node.RestLast, Node.slots])), parts⟩
  · cases form <;> exact .head _
  · refine .turn writes.turns fun inner early => .inr ?_
    have notDefault : value.isAssignment = false := by
      cases value <;> first | rfl | exact (inner.ne_nil rfl).elim
    refine ⟨value, p, ?_, ?_, inner, early⟩
    · simp [ObjectMember.part, notDefault]
    · simp [PatternMember.slot, writes.default, notDefault]

/-! ### Lists of members and of slots -/

/-- The parts of members that turn into members of a pattern. -/
theorem parts_of_members {members : List ObjectMember} {found : List PatternMember}
    (written : List.Forall₂ (MemberWrites edition) members found) :
    List.Forall₂ (Option.Rel (Expression.Writes edition)) (members.map (·.part)) (found.map (·.slot)) :=
  List.forall₂_map_left_iff.mpr (List.forall₂_map_right_iff.mpr (written.imp fun _ _ h => h.2))

theorem restPlain_of_parts {parts : List (Option Expression)} {slots : List (Option Pattern)}
    (written : List.Forall₂ (Option.Rel (Expression.Writes edition)) parts slots) :
    ∀ p, some p ∈ slots → p.RestPlain := by
  intro p mem
  obtain ⟨_, _, related⟩ := Node.exists_left_of_forall₂ written mem
  cases related with
  | some writes => exact writes.plain

theorem Expression.Writes.of_object (span : Span) {members : List ObjectMember}
    {found : List PatternMember} (written : List.Forall₂ (MemberWrites edition) members found) :
    (Expression.object span members).Writes edition (.object span found) where
  turns := by
    have parts := parts_of_members written
    have each := List.forall₂_map_left_iff.mp (List.forall₂_map_right_iff.mp (hides_or_open parts))
    refine Node.turns_of_children rfl nofun nofun rfl nofun ?_ (restPlain_of_parts parts)
      (restLast_or_hides parts)
    refine List.forall₂_map_left_iff.mpr (List.forall₂_map_right_iff.mpr
      (.mp (fun m m' written rest => .turn written.1 fun stays _ => ?_) written each))
    obtain ⟨e, p, part, slot, inner, early⟩ := stays
    rw [part, slot] at rest
    cases rest with
    | some h => exact h.2 inner early
  rest := rfl
  default := rfl
  clears := nofun
  plain := trivial

theorem Expression.Writes.of_array (span : Span) {elements : List (Option Expression)}
    {found : List (Option Pattern)}
    (written : List.Forall₂ (Option.Rel (Expression.Writes edition)) elements found)
    (placed : RestsPlaced found) :
    (Expression.array span elements).Writes edition (.array span found) where
  turns := by
    refine Node.turns_of_children rfl nofun nofun rfl nofun ?_ placed.2 (.inl placed.1)
    refine List.forall₂_map_left_iff.mpr (List.forall₂_map_right_iff.mpr ?_)
    refine (List.rel_filterMap (fun _ _ h => h) (hides_or_open written)).imp fun e p h => ?_
    exact .turn h.1.turns h.2
  rest := rfl
  default := rfl
  clears := nofun
  plain := trivial

/-- What an expression writes is kept by every way to read it. -/
theorem writes_keeps : r.Keeps (Expression.Writes edition) (MemberWrites edition) where
  identifier := .of_name
  member := .of_member
  object span _ _ inner := .of_object span inner
  array span _ _ inner last := .of_array span inner ⟨last, restPlain_of_parts inner⟩
  spread span _ _ plain inner := inner.spread span plain
  assignment := .of_assignment
  property span _ computed key _ _ noAccessor _ inner :=
    memberWrites_property span computed key (fun getter => noAccessor (.inl getter))
      (fun setter => noAccessor (.inr setter)) inner
  rest span _ _ plain inner := memberWrites_spread span inner plain

theorem writes_of_slotTargets {es : List (Option Expression)} {ps : List (Option Pattern)}
    (reads : slotTargets r es = .ok ps) :
    List.Forall₂ (Option.Rel (Expression.Writes edition)) es ps ∧ RestsPlaced ps :=
  have ⟨written, last⟩ := writes_keeps.of_slotTargets reads
  ⟨written, last, restPlain_of_parts written⟩

theorem Expression.writes_of_toPattern {e : Expression} {p : Pattern} (reads : e.toPattern r = .ok p) :
    e.Writes edition p := by
  simp only [Expression.toPattern] at reads
  split at reads
  · split at reads
    · cases reads
      exact .of_name _
    · cases reads
      exact .of_member _
    · cases reads
  · exact writes_keeps.of_toTarget reads

/-- Where reading as a pattern settles no faults, none were put off in what it reads. -/
theorem Expression.not_open_of_toPattern {e : Expression} {p : Pattern} (reads : e.toPattern r = .ok p)
    (notSpread : e.isSpread = false) (checked : e.settlesFaults r.edition = true → ¬ e.Open) :
    ¬ e.Open := by
  cases e with
  | array | object => exact checked rfl
  | spread => cases notSpread
  | _ => exact fun inner => inner.ne_nil rfl

end Reading

/-! ### What is left once an expression is read as a pattern -/

section Settling

variable {edition : Nat} {d : Option Deferred} {e : Expression} {p : Pattern}

/-- Hidden rests are hidden in nodes that reading as a pattern keeps. -/
theorem Node.isCover_of_hidesRest {n : Node} (hides : HidesRest n.slots) : n.isCover = false := by
  obtain ⟨before, _, after, _, slots, -⟩ := hides
  have nonempty : n.slots ≠ [] := by simp [slots]
  cases n with
  | expression e => cases e <;> first | rfl | exact (nonempty rfl).elim
  | objectMember => exact (nonempty rfl).elim
  | _ => rfl

/-- An early rest in the pattern is hidden, or it is still a fault put off. -/
theorem Expression.Writes.hides_or_open (writes : e.Writes edition p)
    (rests : (Node.expression e).RestSettled) (early : (Node.pattern p).HasEarlyRest) :
    (∃ k, Node.Within k (.pattern p) ∧ HidesRest k.slots) ∨ e.Open := by
  obtain ⟨m, within, early⟩ := early
  rcases writes.turns.restLast m within with inside | last | hides | stays
  · obtain ⟨k, inside, hides⟩ := rests ⟨m, inside, early⟩
    exact .inl ⟨k, writes.turns.kept k inside (Node.isCover_of_hidesRest hides), hides⟩
  · exact (early last).elim
  · exact .inl hides
  · exact .inr stays

/-- A pattern is sound if its expression was, once the faults put off are settled. -/
theorem Expression.Writes.sound (writes : e.Writes edition p)
    (sound : (Node.expression e).Sound edition d) (closed : ¬ e.Open) :
    (Node.pattern p).Sound edition none where
  nested := writes.turns.nested sound.nested
  restPlain m within := (writes.turns.restPlain m within).elim (sound.restPlain m) id
  rests early := (writes.hides_or_open sound.rests early).resolve_right closed
  pending := .settled (writes.turns.settled sound.pending)
  settled := .inr (writes.turns.settled sound.pending)

theorem Node.isCover_of_kept {t : Token} {n : Node}
    (kept : (n.isTokenLeaf = true ∧ n.span.start = t.start ∧ n.span.stop = t.stop) ∨ n.Drops t) :
    n.isCover = false := by
  rcases kept with ⟨leaf, -⟩ | drops
  · cases n with
    | expression e => cases e <;> first | rfl | cases leaf
    | objectMember => cases leaf
    | _ => rfl
  · cases n with
    | expression e => cases e <;> first | rfl | exact drops.elim
    | objectMember => exact drops.elim
    | _ => rfl

/-- No token is lost when an expression is read as a pattern. -/
theorem Expression.Writes.keeps (writes : e.Writes edition p) {t : Token}
    (keeps : (Node.expression e).Keeps t) : (Node.pattern p).Keeps t := by
  obtain ⟨m, within, kept⟩ := keeps
  exact ⟨m, writes.turns.kept m within (Node.isCover_of_kept kept), kept⟩

/-! ### Parameters of arrow functions -/

variable {es : List (Option Expression)} {targets : List (Option Pattern)} {rest : Option Pattern}

/-- Targets without holes, with a rest after them. -/
theorem slots_of_params (full : none ∉ targets) :
    (targets.filterMap id ++ rest.toList).map some = targets ++ rest.toList.map some := by
  rw [List.map_append, map_some_filterMap full]

theorem HidesRest.append {slots : List (Option Pattern)} (hides : HidesRest slots)
    (more : List (Option Pattern)) : HidesRest (slots ++ more) := by
  obtain ⟨before, p, after, q, rfl, mem, default, fault⟩ := hides
  exact ⟨before, p, after ++ more, q, by simp, mem, default, fault⟩

theorem full_of_written (written : List.Forall₂ (Option.Rel (Expression.Writes edition)) es targets)
    (full : none ∉ es) : none ∉ targets := by
  intro mem
  obtain ⟨_, mem, related⟩ := Node.exists_left_of_forall₂ written mem
  cases related
  exact full mem

/-- Targets lie where their expressions lay. -/
theorem spans_of_written (written : List.Forall₂ (Option.Rel (Expression.Writes edition)) es targets) :
    ((targets.filterMap id).map Node.pattern).map Node.span =
      ((es.filterMap id).map Node.expression).map Node.span := by
  induction written with
  | nil => rfl
  | cons first _ ih =>
    cases first with
    | none => exact ih
    | some writes => exact congrArg₂ List.cons writes.turns.span ih

/-- Rests stand last in the parameters, and a rest after them is the only one. -/
theorem restsPlaced_params {r : TargetRules} (read : slotTargets r es = .ok targets)
    (last : ∀ a ∈ rest, a.RestPlain ∧ ∀ e, some e ∈ es → e.isSpread = false) :
    RestsPlaced (targets ++ rest.toList.map some) := by
  obtain ⟨written, placed⟩ := @writes_of_slotTargets r 0 _ _ read
  cases rest with
  | none => simpa using placed
  | some a =>
    obtain ⟨plain, notSpread⟩ := last a rfl
    refine restsPlaced_concat (fun p mem => ?_) plain
    obtain ⟨_, mem, related⟩ := Node.exists_left_of_forall₂ written mem
    cases related with
    | some writes => exact writes.rest.trans (notSpread _ mem)

/-- An arrow function is sound if its parameters and its body were, and if no rest that something
follows is remembered among the parameters. -/
theorem sound_arrow {span : Span} {isAsync : Bool} {body : ArrowBody}
    (written : List.Forall₂ (Option.Rel (Expression.Writes edition)) es targets) (full : none ∉ es)
    (placed : RestsPlaced (targets ++ rest.toList.map some)) (closed : ¬ OpenParts es)
    (params : ∀ e, some e ∈ es → (Node.expression e).Sound edition d)
    (restSound : ∀ p ∈ rest, (Node.pattern p).Sound edition none)
    (bodySound : body.node.Sound edition none)
    (nested : (Node.expression
      (.arrow span isAsync (targets.filterMap id ++ rest.toList) body)).Nested) :
    (Node.expression (.arrow span isAsync (targets.filterMap id ++ rest.toList) body)).Sound edition
      none := by
  have slots : (targets.filterMap id ++ rest.toList).map some = targets ++ rest.toList.map some :=
    slots_of_params (full_of_written written full)
  rw [← slots] at placed
  refine .of_soundIn nested placed fun c child => ?_
  change c.SoundIn edition ((targets.filterMap id ++ rest.toList).map some)
  rw [slots]
  rcases List.mem_append.mp child with param | same
  · obtain ⟨p, mem, rfl⟩ := List.mem_map.mp param
    rcases List.mem_append.mp mem with target | last
    · obtain ⟨_, target, rfl⟩ := List.mem_filterMap.mp target
      obtain ⟨_, mem, related⟩ := Node.exists_left_of_forall₂ (hides_or_open written) target
      cases related with
      | @some e _ h =>
        obtain ⟨writes, hides⟩ := h
        refine ⟨writes.turns.nested (params e mem).nested, fun m within => ?_, fun early => ?_,
          writes.turns.settled (params e mem).pending⟩
        · exact (writes.turns.restPlain m within).elim ((params e mem).restPlain m) id
        · rcases writes.hides_or_open (params e mem).rests early with inside | inner
          · exact .inr inside
          · exact .inl (((hides inner early).resolve_right closed).append _)
    · exact (restSound p (Option.mem_toList.mp last)).soundIn _
  · obtain rfl := List.mem_singleton.mp same
    exact bodySound.soundIn _

end Settling
end ScriptSyntax
