import ScriptSyntax.Proofs.RegExp.Steps

/-!
The alternatives recorded are the alternatives of the outline: climbing from an alternative to those
around it goes through the same places, so that two of them are told apart exactly where some
disjunction has them in different alternatives.
-/

namespace ScriptSyntax
namespace RegExp

variable {branches : Array Branch} {branch : Branch} {id : Nat}

theorem baseOf_push (known : id < branches.size) :
    baseOf (branches.push branch) id = baseOf branches id := by
  simp only [baseOf, Array.getElem?_push, if_neg (Nat.ne_of_lt known)]

theorem baseOf_isSome (known : id < branches.size) : (baseOf branches id).isSome = true := by
  simp [baseOf, known]

/-- What is around an alternative began before it. -/
theorem le_of_mem_lineage {x : Nat} (mem : x ∈ lineage branches id) : x ≤ id ∧ x < branches.size := by
  fun_induction lineage branches id with
  | case1 => cases mem
  | case2 id b stands =>
    obtain rfl := List.mem_singleton.1 mem
    exact ⟨Nat.le_refl _, (Array.getElem?_eq_some_iff.1 stands).1⟩
  | case3 id b stands parent around before ih =>
    rcases List.mem_cons.1 mem with rfl | mem
    · exact ⟨Nat.le_refl _, (Array.getElem?_eq_some_iff.1 stands).1⟩
    · exact ⟨Nat.le_trans (ih mem).1 (Nat.le_of_lt before), (ih mem).2⟩
  | case4 id b stands =>
    obtain rfl := List.mem_singleton.1 mem
    exact ⟨Nat.le_refl _, (Array.getElem?_eq_some_iff.1 stands).1⟩

theorem lineage_push (known : id < branches.size) :
    lineage (branches.push branch) id = lineage branches id := by
  have stands {i : Nat} (known : i < branches.size) : (branches.push branch)[i]? = branches[i]? := by
    rw [Array.getElem?_push, if_neg (Nat.ne_of_lt known)]
  fun_induction lineage branches id with
  | case1 id none => rw [lineage, stands known, none]
  | case2 id b here around => rw [lineage, stands known, here]; simp only [around]
  | case3 id b here parent around before ih =>
    rw [lineage, stands known, here]
    simp only [around, before, if_true, ih (Nat.lt_trans before known)]
  | case4 id b here parent around after =>
    rw [lineage, stands known, here]
    simp only [around, after, if_false]

/-- The lineage of an alternative that begins. -/
theorem lineage_push_self {parent : Option Nat} {base : Nat}
    (known : ∀ id, parent = some id → id < branches.size) :
    lineage (branches.push ⟨parent, base⟩) branches.size =
      branches.size :: (parent.elim [] (lineage branches)) := by
  rw [lineage, Array.getElem?_push, if_pos rfl]
  cases parent with
  | none => rfl
  | some id =>
    have before := known id rfl
    simp only [before, if_true, Option.elim_some, lineage_push before]

/-- Where an alternative stands: itself and those around it, innermost first. -/
def placeOf (branches : Array Branch) : Option Nat → Place
  | none => []
  | some id => (lineage branches id).map fun x => ((baseOf branches x).getD x, x)

theorem mem_placeOf {x disjunction : Nat} : (disjunction, x) ∈ placeOf branches (some id) ↔
    x ∈ lineage branches id ∧ baseOf branches x = some disjunction := by
  simp only [placeOf, List.mem_map, Prod.mk.injEq]
  constructor
  · rintro ⟨y, mem, base, rfl⟩
    obtain ⟨b, found⟩ := Option.isSome_iff_exists.1 (baseOf_isSome (le_of_mem_lineage mem).2)
    exact ⟨mem, by rw [found] at base ⊢; exact congrArg some base⟩
  · rintro ⟨mem, base⟩
    exact ⟨x, mem, by rw [base]; rfl, rfl⟩

theorem separatedFrom_iff {a b : Nat} :
    separatedFrom branches a b = true ↔
      Place.Separated (placeOf branches (some a)) (placeOf branches (some b)) := by
  simp only [separatedFrom, List.any_eq_true, Bool.and_eq_true, beq_iff_eq, bne_iff_ne,
    Place.Separated, mem_placeOf]
  constructor
  · rintro ⟨x, mem, y, mem', same, other⟩
    obtain ⟨base, found⟩ := Option.isSome_iff_exists.1 (baseOf_isSome (le_of_mem_lineage mem).2)
    exact ⟨base, x, y, ⟨mem, found⟩, ⟨mem', same ▸ found⟩, other⟩
  · rintro ⟨base, x, y, ⟨mem, found⟩, ⟨mem', found'⟩, other⟩
    exact ⟨x, mem, y, mem', found.trans found'.symm, other⟩

/-- Alternatives that begin later do not move those known. -/
theorem placeOf_push {place : Option Nat} (known : ∀ id, place = some id → id < branches.size) :
    placeOf (branches.push branch) place = placeOf branches place := by
  cases place with
  | none => rfl
  | some id =>
    simp only [placeOf, lineage_push (known id rfl)]
    refine List.map_congr_left fun x mem => ?_
    rw [baseOf_push (le_of_mem_lineage mem).2]

theorem placeOf_push_self {parent : Option Nat} {base : Nat}
    (known : ∀ id, parent = some id → id < branches.size) :
    placeOf (branches.push ⟨parent, base⟩) (some branches.size) =
      (base, branches.size) :: placeOf branches parent := by
  have self : baseOf (branches.push ⟨parent, base⟩) branches.size = some base := by
    simp only [baseOf, Array.getElem?_push, if_pos, Option.map_some]
  have around : placeOf (branches.push ⟨parent, base⟩) parent = placeOf branches parent :=
    placeOf_push known
  rw [placeOf, lineage_push_self known, List.map_cons, self, ← around]
  cases parent with
  | none => rfl
  | some id => simp only [placeOf, Option.elim_some, lineage_push (known id rfl), Option.getD_some]

/-- What is around an alternative begins before it. -/
def Ordered (branches : Array Branch) : Prop :=
  ∀ (id : Nat) (b : Branch), branches[id]? = some b →
    ∀ parent, b.parent = some parent → parent < id

theorem lineage_eq {b : Branch} (ordered : Ordered branches) (stands : branches[id]? = some b) :
    lineage branches id = id :: b.parent.elim [] (lineage branches) := by
  rw [lineage, stands]
  cases around : b.parent with
  | none => simp only [around, Option.elim_none]
  | some parent => simp only [around, ordered id b stands parent around, if_true, Option.elim_some]

theorem placeOf_eq_cons {head : Nat × Nat} {outer : Place} (ordered : Ordered branches)
    (place : placeOf branches (some id) = head :: outer) :
    ∃ b, branches[id]? = some b ∧ head = (b.base, id) ∧ placeOf branches b.parent = outer := by
  cases stands : branches[id]? with
  | none =>
    rw [placeOf, lineage, stands] at place
    cases place
  | some b =>
    have base : (baseOf branches id).getD id = b.base := by simp only [baseOf, stands]; rfl
    rw [placeOf, lineage_eq ordered stands, List.map_cons, base, List.cons.injEq] at place
    refine ⟨b, rfl, place.1.symm, ?_⟩
    rw [← place.2]
    cases b.parent <;> rfl

/-! ### Records that agree with an outline -/

/-- The alternatives recorded are those begun, and the groups recorded stand in theirs. -/
structure Tracked (d : Dialect) (r : Record) (groups : List (Nat × Place)) (begun : Nat)
    (place : Place) : Prop where
  size : r.branches.size = begun
  ordered : Ordered r.branches
  known : ∀ id, r.branch = some id → id < r.branches.size
  here : placeOf r.branches r.branch = place
  groupsKnown : ∀ group ∈ r.names, ∃ id, group.2 = some id ∧ id < r.branches.size
  named : r.names.map (fun group => (group.1, placeOf r.branches group.2)) = d.namesIn groups

/-- The record of a pattern says of the groups so far what the outline says, with the cursor at
`place`; and no two of them clash. -/
structure Agrees (d : Dialect) (r : Record) (groups : List (Nat × Place)) (begun : Nat)
    (place : Place) : Prop where
  stand : (d.namesIn groups).Pairwise d.MayStand
  names : r.names.map Prod.fst = (d.namesIn groups).map Prod.fst
  tracked : d.tracksBranches = true → Tracked d r groups begun place

section

variable {d : Dialect} {r : Record} {groups : List (Nat × Place)} {begun first current : Nat}
  {place outer : Place}

theorem namesIn_unnamed {i : Nat} (unnamed : d.nameAt? i = none) :
    d.namesIn (groups ++ [(i, place)]) = d.namesIn groups := by
  simp [Dialect.namesIn, unnamed]

theorem namesIn_named {i : Nat} {name : String} (named : d.nameAt? i = some name) :
    d.namesIn (groups ++ [(i, place)]) = d.namesIn groups ++ [(name, place)] := by
  simp [Dialect.namesIn, named]

theorem Agrees.unnamed {i : Nat} (agrees : Agrees d r groups begun place)
    (unnamed : d.nameAt? i = none) : Agrees d r (groups ++ [(i, outer)]) begun place := by
  have same : d.namesIn (groups ++ [(i, outer)]) = d.namesIn groups := namesIn_unnamed unnamed
  refine ⟨same ▸ agrees.stand, same ▸ agrees.names, fun tracks => ?_⟩
  have tracked := agrees.tracked tracks
  exact ⟨tracked.size, tracked.ordered, tracked.known, tracked.here, tracked.groupsKnown,
    same ▸ tracked.named⟩

/-- A record with one more alternative, at which the cursor stands. -/
def Record.begin (r : Record) (parent base : Option Nat) : Record :=
  ⟨r.names, r.branches.push ⟨parent, base.getD r.branches.size⟩, some r.branches.size⟩

theorem Tracked.begin {parent : Option Nat} (base : Option Nat) (tracked : Tracked d r groups begun place)
    (known : ∀ id, parent = some id → id < r.branches.size)
    (around : placeOf r.branches parent = outer) :
    Tracked d (r.begin parent base) groups (begun + 1)
      ((base.getD r.branches.size, r.branches.size) :: outer) := by
  refine ⟨by simp [Record.begin, tracked.size], fun id b stands up up' => ?_, fun id at' => ?_, ?_, ?_, ?_⟩
  · simp only [Record.begin, Array.getElem?_push] at stands
    split at stands
    · rename_i self
      cases stands
      exact self ▸ known up up'
    · exact tracked.ordered id b stands up up'
  · cases at'
    simp [Record.begin]
  · rw [← around]
    exact placeOf_push_self known
  · intro group mem
    obtain ⟨id, at', before⟩ := tracked.groupsKnown group mem
    exact ⟨id, at', by simp only [Record.begin, Array.size_push]; omega⟩
  · rw [← tracked.named]
    refine List.map_congr_left fun group mem => ?_
    obtain ⟨id, at', before⟩ := tracked.groupsKnown group mem
    have kept : placeOf (r.begin parent base).branches group.2 = placeOf r.branches group.2 :=
      placeOf_push fun id' same => by rw [at'] at same; cases same; exact before
    rw [kept]

/-- A disjunction begins. -/
theorem Tracked.open' (tracked : Tracked d r groups begun outer) :
    Tracked d (r.begin r.branch none) groups (begun + 1) ((begun, begun) :: outer) := by
  have begins := tracked.begin none tracked.known tracked.here
  rwa [Option.getD_none, tracked.size] at begins

/-- Its next alternative begins. -/
theorem Tracked.next (tracked : Tracked d r groups begun ((first, current) :: outer)) :
    ∃ id b, r.branch = some id ∧ r.branches[id]? = some b ∧
      Tracked d (r.begin b.parent (some b.base)) groups (begun + 1) ((first, begun) :: outer) := by
  cases at' : r.branch with
  | none =>
    have here := tracked.here
    rw [at'] at here
    cases here
  | some id =>
    obtain ⟨b, stands, head, around⟩ := placeOf_eq_cons tracked.ordered (at' ▸ tracked.here)
    refine ⟨id, b, rfl, stands, ?_⟩
    have below : id < r.branches.size := tracked.known id at'
    have begins := tracked.begin (some b.base) (fun up up' =>
      Nat.lt_trans (tracked.ordered id b stands up up') below) around
    rw [Option.getD_some, tracked.size] at begins
    cases head
    exact begins

/-- The disjunction ends. -/
theorem Tracked.close (tracked : Tracked d r groups begun ((first, current) :: outer)) :
    ∃ id b, r.branch = some id ∧ r.branches[id]? = some b ∧
      Tracked d ⟨r.names, r.branches, b.parent⟩ groups begun outer := by
  cases at' : r.branch with
  | none =>
    have here := tracked.here
    rw [at'] at here
    cases here
  | some id =>
    obtain ⟨b, stands, -, around⟩ := placeOf_eq_cons tracked.ordered (at' ▸ tracked.here)
    have below : id < r.branches.size := tracked.known id at'
    exact ⟨id, b, rfl, stands, tracked.size, tracked.ordered, fun up up' =>
      Nat.lt_trans (tracked.ordered id b stands up up') below, around, tracked.groupsKnown,
      tracked.named⟩

/-- Is a name refused where the record has it already? -/
def Record.refuses (d : Dialect) (r : Record) (name : String) : Bool :=
  ({ names := r.names, branches := r.branches, branch := r.branch } : Progress).refuses d name

theorem tracksBranches_iff : d.tracksBranches = true ↔ 16 ≤ d.edition := decide_eq_true_iff

/-- A name is refused if its group would clash with one known. -/
theorem Agrees.refuses_iff {name : String} (agrees : Agrees d r groups begun place)
    (inside : place ≠ []) : r.refuses d name = false ↔
      ∀ group ∈ d.namesIn groups, d.MayStand group (name, place) := by
  simp only [Record.refuses, Progress.refuses, List.any_eq_false, Bool.and_eq_true, beq_iff_eq, Bool.not_eq_true',
    Bool.and_eq_false_iff, not_and, not_or, Bool.not_eq_false, Dialect.MayStand]
  cases tracks : d.tracksBranches with
  | false =>
    have early : ¬ 16 ≤ d.edition := fun late => by simp [tracksBranches_iff.2 late] at tracks
    have names : ∀ known, (∃ group ∈ r.names, group.1 = known) ↔
        ∃ group ∈ d.namesIn groups, group.1 = known := by
      intro known
      rw [← List.mem_map, ← List.mem_map, agrees.names]
    constructor
    · intro all group mem same
      obtain ⟨group', mem', same'⟩ := (names group.1).2 ⟨group, mem, rfl⟩
      exact absurd (all group' mem' (same'.trans same)).1 (by simp)
    · intro all group mem same
      obtain ⟨group', mem', same'⟩ := (names group.1).1 ⟨group, mem, rfl⟩
      exact absurd (all group' mem' (same'.trans same)).1 early
  | true =>
    have tracked := agrees.tracked tracks
    obtain ⟨current, at'⟩ : ∃ id, r.branch = some id := by
      cases at' : r.branch with
      | some id => exact ⟨id, rfl⟩
      | none => exact absurd (by rw [← tracked.here, at']; rfl) inside
    have here : placeOf r.branches (some current) = place := at' ▸ tracked.here
    rw [← tracked.named]
    simp only [List.forall_mem_map, tracksBranches_iff.1 tracks, true_and]
    refine forall_congr' fun group => forall_congr' fun mem => forall_congr' fun same => ?_
    obtain ⟨id, stands, -⟩ := tracked.groupsKnown group mem
    rw [stands, at', ← here]
    exact separatedFrom_iff

/-- The record with one more name. -/
def Record.declare (r : Record) (name : String) : Record :=
  ⟨r.names ++ [(name, r.branch)], r.branches, r.branch⟩

theorem Agrees.declare {i : Nat} {name : String} (agrees : Agrees d r groups begun place)
    (inside : place ≠ []) (named : d.nameAt? i = some name) (passes : r.refuses d name = false) :
    Agrees d (r.declare name) (groups ++ [(i, place)]) begun place := by
  have all := (agrees.refuses_iff inside).1 passes
  refine ⟨?_, ?_, fun tracks => ?_⟩
  · rw [namesIn_named named]
    exact List.pairwise_append.2 ⟨agrees.stand, List.pairwise_singleton _ _, fun group mem other mem' =>
      List.mem_singleton.1 mem' ▸ all group mem⟩
  · simp only [namesIn_named named, Record.declare, List.map_append, agrees.names, List.map_cons,
      List.map_nil]
  · have tracked := agrees.tracked tracks
    refine ⟨tracked.size, tracked.ordered, tracked.known, tracked.here, ?_, ?_⟩
    · intro group mem
      rcases List.mem_append.1 mem with mem | mem
      · exact tracked.groupsKnown group mem
      · rw [List.mem_singleton.1 mem]
        cases at' : r.branch with
        | some id => exact ⟨id, rfl, tracked.known id at'⟩
        | none => exact absurd (by rw [← tracked.here, at']; rfl) inside
    · simp only [namesIn_named named, Record.declare, List.map_append, tracked.named, List.map_cons,
        List.map_nil, tracked.here]

theorem Agrees.clash {i : Nat} {name : String} (agrees : Agrees d r groups begun place)
    (inside : place ≠ []) (named : d.nameAt? i = some name) (refused : r.refuses d name = true) :
    ¬ (d.namesIn (groups ++ [(i, place)])).Pairwise d.MayStand := by
  rw [namesIn_named named]
  intro stand
  have all := (agrees.refuses_iff inside).2 fun group mem =>
    (List.pairwise_append.1 stand).2.2 group mem _ (List.mem_singleton.2 rfl)
  exact Bool.false_ne_true (all.symm.trans refused)

end

end RegExp
end ScriptSyntax
