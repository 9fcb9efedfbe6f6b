import ScriptSyntax.Proofs.RegExp.Disjunction

/-!
Two groups of a valid pattern have the same name only if some disjunction keeps them apart, and a name
is found to be taken only where two groups do not.
-/

namespace ScriptSyntax
namespace RegExp

variable {α β : Type} {d : Dialect} {n : Nat}

/-! ### A single reading -/

theorem before_of_size_le {i : Nat} (past : d.units.size ≤ i) :
    d.before i = d.before d.units.size := by
  induction i with
  | zero => rw [Nat.le_zero.1 past]
  | succ i ih =>
    rcases Nat.lt_or_ge i d.units.size with inside | past
    · rw [Nat.le_antisymm past inside]
    · simp only [Dialect.before, Array.getElem?_eq_none past, ih past]

theorem Stopped.stand {p : Progress} {w : Nat → Prop} {first : Nat} {outer : Place}
    (here : Stopped d n (Leaving d first outer) w p) : (d.named p.pos).Pairwise d.MayStand := by
  obtain ⟨r, o, ⟨current, between⟩, here⟩ := here
  have groups : (d.before p.pos).groups = o.groups := by
    rcases here with here | here
    · rw [here.outline]
    · rw [here.outline]; rfl
  rw [Dialect.named, groups]
  exact between.agrees.stand

/-- Nothing is recorded at the start of a pattern. -/
theorem entering_start : Standing d 0 (Entering d 0 []) {} := by
  refine ⟨Progress.record {}, d.before 0, ⟨rfl, rfl, rfl, rfl, .nil, rfl, fun _ => ?_⟩,
    ⟨rfl, Nat.le_refl 0, trivial⟩, rfl⟩
  refine ⟨rfl, fun id b stands => ?_, fun id at' => ?_, rfl, fun group mem => ?_, rfl⟩
  · cases (Array.getElem?_empty (i := id)).symm.trans stands
  · cases at'
  · cases mem

/-- A pattern that is read to its end has no groups that clash. -/
theorem pattern_steps [d.Narrow] :
    Steps d (· = {}) pattern fun _ _ => (d.named d.units.size).Pairwise d.MayStand := by
  have whole {p : Progress} (past : d.units.size ≤ p.pos)
      (stand : (d.named p.pos).Pairwise d.MayStand) :
      (d.named d.units.size).Pairwise d.MayStand := by
    rwa [Dialect.named, before_of_size_le past] at stand
  have checks : Steps d (fun _ => (d.named d.units.size).Pairwise d.MayStand) (do
      let p ← get
      if p.groups < p.maxReference then throw .invalidEscape
      unless p.references.all fun name => p.names.any (·.1 == name) do
        throw (m := PatternM) .invalidNamedCapture)
      fun _ _ => (d.named d.units.size).Pairwise d.MayStand :=
    .look fun p => .ite (fun _ => (.throwing rfl)) fun _ =>
      .ite (fun _ => .pure fun _ here => here) fun _ => (.throw rfl)
  refine .bind ((disjunction_steps maxDepth 0 0 []).mono
    (fun _ start => start ▸ entering_start) fun _ _ done => done) fun _ => ?_
  intro p here
  refine (.ite (fun _ => ?_) fun end' => ?_ : Steps d (fun p' => Stopped d 0 (Leaving d 0 []) d.Closes p' ∧
    p'.pos = p.pos) _ _) p ⟨here, rfl⟩
  · refine .mono (P := Stopped d 0 (Leaving d 0 []) d.Closes) ?_ (fun _ here => here.1) fun _ _ done => done
    refine .eatStopped rfl (J := fun _ => True) (fun _ _ _ _ _ _ _ => trivial) (.throwing rfl) ?_
    refine .bind (.anyMatch_cons (.eatenStopped rfl) (.anyMatch_cons (.eatenStopped rfl) (.pure fun _ here => here)))
      fun matched => ?_
    cases matched with
    | true => exact (.throwing rfl)
    | false =>
      refine checks.mono (fun p here => ?_) fun _ _ done => done
      have past : d.units.size ≤ p.pos := by
        obtain ⟨r, o, -, here | here⟩ := here
        · obtain ⟨⟨⟨closes, right⟩, bracket⟩, brace⟩ := here.offset
          refine (Dialect.at?_eq_none (d := d)).1 (?_ : d.at? d.unicode p.pos = none)
          cases stands : d.at? d.unicode p.pos with
          | none => rfl
          | some code =>
            have none : isOneOf [] code = true := isOneOf_rest [')', ']', '}'] closes (by
              simp only [List.mem_cons, List.not_mem_nil, or_false, forall_eq_or_imp, forall_eq]
              exact ⟨right, bracket, brace⟩) (by decide) code stands
            cases none
        · exact here.offset.2
      exact whole past (Stopped.stand here)
  · refine checks.mono (fun p' here => ?_) fun _ _ done => done
    have last : p.pos = d.units.size := by simpa using end'
    exact whole (Nat.le_of_eq (here.2.trans last).symm) here.1.stand

/-! ### Both readings -/

section

variable {named joined : Bool} {i : Nat}

theorem before_naming : (d.naming named).before n = d.before n := by
  induction n with
  | zero => rfl
  | succ n ih =>
    have units : (d.naming named).units = d.units := rfl
    have sets : (d.naming named).unicodeSets = d.unicodeSets := rfl
    simp only [Dialect.before, units, sets, ih]

end

theorem named_naming [d.Narrow] {named : Bool} : (d.naming named).named n = d.named n := by
  simp only [Dialect.named, Dialect.namesIn, before_naming, Dialect.nameAt?_naming]

/-! ### Literals -/

instance {pattern flags : List Char} {edition : Nat} :
    (Dialect.ofFlags pattern flags edition).Narrow where
  le i unit stands := by
    have mem : unit ∈ codeUnits pattern := by
      have mem := Array.mem_of_getElem? stands
      simpa [Dialect.ofFlags] using mem
    obtain ⟨c, -, mem⟩ := List.mem_flatMap.1 mem
    have valid : c.toNat < 0xd800 ∨ 0xdfff < c.toNat ∧ c.toNat < 0x110000 := c.valid
    split at mem
    · rw [List.mem_singleton.1 mem]
      omega
    · simp only [List.mem_cons, List.not_mem_nil, or_false] at mem
      omega

theorem stand_of_size (stand : (d.named d.units.size).Pairwise d.MayStand) (n : Nat) :
    (d.named n).Pairwise d.MayStand := by
  have kept := Dialect.groups_prefix (d := d) (Nat.le_add_right n d.units.size)
  rw [before_of_size_le (Nat.le_add_left _ _)] at kept
  exact stand.sublist (kept.filterMap _).sublist

theorem checkEachFlag_named (permitted flags : List Char) :
    checkEachFlag permitted flags ≠ .error .duplicateGroupName := by
  induction flags with
  | nil => exact fun same => by cases same
  | cons flag flags ih =>
    unfold checkEachFlag
    split
    · exact fun same => by cases same
    · split
      · exact fun same => by cases same
      · exact ih

theorem checkFlags_named (edition : Nat) (flags : List Char) :
    checkFlags edition flags ≠ .error .duplicateGroupName := by
  unfold checkFlags
  cases each : checkEachFlag (permittedFlags edition) flags with
  | error fault => exact fun same => checkEachFlag_named _ _ (each.trans same)
  | ok =>
    show (if _ then throw Fault.invalidFlag else pure ()) ≠ Except.error Fault.duplicateGroupName
    split
    · exact fun same => by cases same
    · exact fun same => by cases same

/-- How the pattern is read by a dialect. -/
theorem readPattern_named [d.Narrow] :
    (∀ p, d.readPattern = .ok p → (d.named d.units.size).Pairwise d.MayStand) ∧
    (d.readPattern = .error .duplicateGroupName →
      ∃ p, pattern d {} = .error .duplicateGroupName p ∧ ¬ (d.named p.pos).Pairwise d.MayStand) := by
  have steps := pattern_steps (d := d) {} rfl
  cases run : pattern d {} with
  | ok a p =>
    have read : d.readPattern = .ok p := by
      simp only [Dialect.readPattern, ReaderT.run, EStateM.run, run]
    rw [run] at steps
    exact ⟨fun _ _ => steps, fun same => by cases read.symm.trans same⟩
  | error fault p =>
    have read : d.readPattern = .error fault := by
      simp only [Dialect.readPattern, ReaderT.run, EStateM.run, run]
    rw [run] at steps
    refine ⟨fun _ same => (by cases read.symm.trans same), fun same => ?_⟩
    cases read.symm.trans same
    exact ⟨p, rfl, steps rfl⟩

/-- The second reading, if there is one, finds no more of the names. -/
theorem validate_named [d.Narrow] :
    (d.validate.1 = .ok () → (d.named d.units.size).Pairwise d.MayStand) ∧
    (d.validate.1 = .error .duplicateGroupName →
      ∃ p, pattern d {} = .error .duplicateGroupName p ∧ ¬ (d.named p.pos).Pairwise d.MayStand) := by
  have first := readPattern_named (d := d)
  unfold Dialect.validate
  cases read : d.readPattern with
  | error fault =>
    refine ⟨fun same => (by cases same), fun same => first.2 ?_⟩
    rw [read]
    cases same
    rfl
  | ok p =>
    have stand := first.1 p read
    refine ⟨fun _ => stand, fun same => ?_⟩
    simp only at same
    split at same
    · have again : (d.naming true).readPattern = .error .duplicateGroupName := by
        cases second : (d.naming true).readPattern with
        | ok p' => cases (congrArg (Except.map fun _ => ()) second).symm.trans same
        | error fault =>
          cases (congrArg (Except.map fun _ => ()) second).symm.trans same
          rfl
      obtain ⟨p', -, clash⟩ := (readPattern_named (d := d.naming true)).2 again
      rw [named_naming] at clash
      exact absurd (stand_of_size stand p'.pos) clash
    · cases same

/-- A literal is accepted only if any two groups of one name are kept apart by some disjunction, and
it is refused for the name of a group only where two groups read by then are not.  Before the
sixteenth edition nothing keeps groups apart. -/
theorem validateLiteral_named (edition : Nat) (pattern flags : List Char) :
    let d := Dialect.ofFlags pattern flags edition
    (validateLiteral edition pattern flags = .ok () →
      (d.named d.units.size).Pairwise d.MayStand) ∧
    (validateLiteral edition pattern flags = .error .duplicateGroupName →
      ∃ p, RegExp.pattern d {} = .error .duplicateGroupName p ∧
        ¬ (d.named p.pos).Pairwise d.MayStand) := by
  intro d
  have validated := validate_named (d := d)
  unfold validateLiteral
  cases checked : checkFlags edition flags with
  | error fault =>
    refine ⟨fun same => (by cases same), fun same => absurd checked ?_⟩
    cases same
    exact checkFlags_named edition flags
  | ok => exact validated

instance : DecidableEq (Except Fault Unit)
  | .ok (), .ok () => isTrue rfl
  | .error a, .error b => decidable_of_iff (a = b) (Except.error.injEq a b).symm.to_iff
  | .ok (), .error _ => isFalse fun same => by cases same
  | .error _, .ok () => isFalse fun same => by cases same

/-- Two groups of one name in different alternatives, and in one. -/
theorem validateLiteral_named_alternatives :
    let apart := "(?<n>a)|(?<n>b)".toList
    let together := "(?<n>a)(?<n>b)".toList
    let named (pattern : List Char) (n : Nat) := (Dialect.ofFlags pattern [] 16).named n
    validateLiteral 16 apart [] = .ok () ∧
      (named apart 15).Pairwise (Dialect.ofFlags apart [] 16).MayStand ∧
      validateLiteral 16 together [] = .error .duplicateGroupName ∧
      ∃ n, ¬ (named together n).Pairwise (Dialect.ofFlags together [] 16).MayStand := by
  have accepted : validateLiteral 16 "(?<n>a)|(?<n>b)".toList [] = .ok () := by decide +kernel
  have refused : validateLiteral 16 "(?<n>a)(?<n>b)".toList [] = .error .duplicateGroupName := by
    decide +kernel
  obtain ⟨p, -, clash⟩ := (validateLiteral_named 16 "(?<n>a)(?<n>b)".toList []).2 refused
  exact ⟨accepted,
    (validateLiteral_named 16 "(?<n>a)|(?<n>b)".toList []).1 accepted, refused, p.pos, clash⟩

end RegExp
end ScriptSyntax
