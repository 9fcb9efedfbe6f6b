import ScriptSyntax.Proofs.RegExp.Whole

/-!
References of a valid pattern are to groups that it has, wherever in the pattern these stand.
-/

namespace ScriptSyntax
namespace RegExp

variable {d : Dialect} {p : Progress}

/-! ### Groups, counted and named -/

theorem Dialect.capturing_succ (n : Nat) :
    d.capturing (n + 1) = d.capturing n ∨ d.units[n]? = some '('.toNat ∧ d.capturing (n + 1) ≤ d.capturing n + 1 := by
  unfold Dialect.capturing
  rw [Dialect.before]
  split
  · rename_i unit stands
    obtain same | ⟨left, more⟩ := (d.before n).groups_step d.unicodeSets n unit
    · exact .inl (by rw [same])
    · refine .inr ⟨left ▸ stands, ?_⟩
      rw [more, List.filter_append, List.length_append]
      exact Nat.add_le_add_left (List.length_filter_le _ _) _
  · exact .inl rfl

/-- No two groups begin with one parenthesis. -/
theorem Dialect.capturing_le {m n : Nat} (le : m ≤ n) : d.capturing n + m ≤ d.capturing m + n := by
  induction le with
  | refl => exact Nat.le_refl _
  | @step n le ih =>
    have once := d.capturing_succ n
    rw [Nat.succ_eq_add_one]
    omega

theorem Stopped.names {w : Nat → Prop} {n first : Nat} {outer : Place}
    (here : Stopped d n (Leaving d first outer) w p) : p.names.map Prod.fst = (d.named p.pos).map Prod.fst := by
  obtain ⟨r, o, ⟨current, between⟩, here⟩ := here
  have groups : (d.before p.pos).groups = o.groups := by
    rcases here with here | here
    · rw [here.outline]
    · rw [here.outline]; rfl
  have record : p.record = r := by
    rcases here with here | here
    · exact here.record
    · exact here.record
  rw [Dialect.named, groups, ← between.agrees.names, ← record]
  rfl

variable [d.Narrow]

/-- A reading that succeeds has found the names that the outline finds. -/
theorem readPattern_names (read : d.readPattern = .ok p) :
    p.names.map Prod.fst = (d.named d.units.size).map Prod.fst := by
  obtain ⟨run, finishes⟩ := pattern_eq_ok.1 (readPattern_eq_ok.1 read)
  rw [(disjunction_trail run).1.names, readPattern_rests read]

/-- Each reference is to a group of the pattern. -/
theorem readPattern_references (read : d.readPattern = .ok p) (fits : d.units.size ≤ maxNumber) :
    (d.unicode = true → ∀ i unit, d.EscapeAt i unit → isDigitCode unit = true → unit ≠ '0'.toNat →
      d.numberFrom (i + 1) ≤ d.capturing d.units.size) ∧
    (d.namedGroups = true → ∀ i, d.EscapeAt i 'k'.toNat →
      ∃ name ∈ (d.named d.units.size).map Prod.fst, d.referenceAt? i = some name) := by
  obtain ⟨run, finishes⟩ := pattern_eq_ok.1 (readPattern_eq_ok.1 read)
  have trail := (disjunction_trail run).2
  have last := readPattern_rests read
  have noted {i unit : Nat} (escape : d.EscapeAt i unit) : Noted d p i :=
    trail.noted i (Nat.zero_le i) (last ▸ (Array.getElem?_eq_some_iff.1 escape.backslash).1)
  refine ⟨fun unicode i unit escape digit nonzero => ?_, fun named i escape => ?_⟩
  · have counted : p.groups ≤ d.capturing d.units.size := by
      have counted := trail.counted
      rw [last] at counted
      exact Nat.le_trans (Nat.le_add_right _ _) (Nat.zero_add (d.capturing d.units.size) ▸ counted)
    have refers := (noted escape).number unicode unit escape digit nonzero
    have numbers := finishes.numbers
    -- A backslash is no parenthesis, so there are fewer groups than code units.
    have fewer : d.capturing d.units.size < d.units.size := by
      have inside : i < d.units.size := (Array.getElem?_eq_some_iff.1 escape.backslash).1
      have before : d.capturing i ≤ i := by simpa [Dialect.capturing,
        Dialect.before] using d.capturing_le (Nat.zero_le i)
      have after := d.capturing_le (Nat.succ_le_of_lt inside)
      obtain here | ⟨left, -⟩ := d.capturing_succ i
      · rw [Nat.succ_eq_add_one, here] at after
        omega
      · exact absurd (Option.some.inj (left.symm.trans escape.backslash)) (Nat.ne_of_beq_eq_false rfl)
    omega
  · obtain ⟨name, mem, reads⟩ := (noted escape).name named escape
    obtain ⟨group, known, rfl⟩ := finishes.names name mem
    exact ⟨group.1, readPattern_names read ▸ List.mem_map_of_mem known, reads⟩

/-! ### Literals -/

section

variable {named : Bool}

omit [d.Narrow] in
theorem escapeAt_naming {i unit : Nat} : (d.naming named).EscapeAt i unit ↔ d.EscapeAt i unit := by
  refine ⟨fun escape => ?_, fun escape => ?_⟩
  · exact ⟨before_naming ▸ escape.plain, before_naming ▸ escape.outside, escape.backslash, escape.escapes⟩
  · exact ⟨before_naming ▸ escape.plain, before_naming ▸ escape.outside, escape.backslash, escape.escapes⟩

theorem referenceAt?_naming {i : Nat} {name : String} (reads : (d.naming named).referenceAt? i = some name) :
    d.referenceAt? i = some name := by
  unfold Dialect.referenceAt? at reads ⊢
  cases run : groupName (d.naming named) { pos := i + 2 } with
  | error fault p => simp [run] at reads
  | ok found p =>
    obtain ⟨p', run'⟩ := Dialect.groupName_elsewhere (d := d.naming named) (q := { pos := i + 2 }) d.namedGroups rfl run
    rw [run] at reads
    rw [show groupName d { pos := i + 2 } = .ok found p' from run']
    exact reads

end

theorem mem_of_checkEachFlag {permitted flags : List Char} (checked : checkEachFlag permitted flags = .ok ()) :
    ∀ flag ∈ flags, flag ∈ permitted := by
  induction flags with
  | nil => exact fun _ mem => by cases mem
  | cons flag flags ih =>
    unfold checkEachFlag at checked
    split at checked
    · cases checked
    · rename_i known
      split at checked
      · cases checked
      · exact List.forall_mem_cons.2 ⟨by simpa using known, ih checked⟩

variable {edition : Nat} {pattern flags : List Char}

theorem mem_permittedFlags (checked : checkFlags edition flags = .ok ()) {flag : Char} (mem : flag ∈ flags) :
    flag ∈ permittedFlags edition := by
  refine (mem_of_checkEachFlag ?_ : ∀ flag ∈ flags, _) flag mem
  unfold checkFlags at checked
  cases each : checkEachFlag (permittedFlags edition) flags with
  | ok => rfl
  | error fault =>
    rw [each] at checked
    cases checked

theorem unicode_ofFlags (checked : checkFlags edition flags = .ok ()) :
    (Dialect.ofFlags pattern flags edition).unicode = true ↔ 'u' ∈ flags ∨ 'v' ∈ flags := by
  have u (mem : 'u' ∈ flags) : 6 ≤ edition := by simpa [permittedFlags] using mem_permittedFlags checked mem
  have v (mem : 'v' ∈ flags) : 15 ≤ edition := by simpa [permittedFlags] using mem_permittedFlags checked mem
  simp only [Dialect.ofFlags, Bool.or_eq_true, Bool.and_eq_true, List.contains_iff_mem, decide_eq_true_eq]
  exact ⟨fun known => known.elim (fun both => .inr both.1) fun both => .inl both.1,
    fun known => known.elim (fun mem => .inr ⟨mem, u mem⟩) fun mem => .inl ⟨mem, v mem⟩⟩

theorem namedGroups_ofFlags (late : 9 ≤ edition) :
    (Dialect.ofFlags pattern flags edition).namedGroups = (Dialect.ofFlags pattern flags edition).unicode := by
  simp [Dialect.ofFlags, late, Nat.le_trans (by decide : 6 ≤ 9) late]

theorem validateLiteral_eq_ok : validateLiteral edition pattern flags = .ok () ↔
    checkFlags edition flags = .ok () ∧ (Dialect.ofFlags pattern flags edition).validate.1 = .ok () := by
  unfold validateLiteral
  cases checkFlags edition flags with
  | error fault => exact ⟨fun same => (by cases same), fun both => (by cases both.1)⟩
  | ok => exact ⟨fun same => ⟨rfl, same⟩, fun both => both.2⟩

/-- The pattern is read, and with named references if it has a group that they can be to. -/
theorem validate_reads (late : 9 ≤ d.edition) (accepted : d.validate.1 = .ok ()) :
    (∃ p, d.readPattern = .ok p) ∧
      (d.named d.units.size ≠ [] → ∃ p, (d.naming true).readPattern = .ok p) := by
  unfold Dialect.validate at accepted
  cases read : d.readPattern with
  | error fault =>
    rw [read] at accepted
    cases accepted
  | ok p =>
    refine ⟨⟨p, rfl⟩, fun some' => ?_⟩
    have names : p.names ≠ [] :=
      fun none => some' (List.map_eq_nil_iff.1 ((readPattern_names read).symm.trans (by rw [none]; rfl)))
    simp only [read] at accepted
    split at accepted
    · cases again : (d.naming true).readPattern with
      | ok q => exact ⟨q, rfl⟩
      | error fault => cases (congrArg (Except.map fun _ => ()) again).symm.trans accepted
    · rename_i single
      have named : d.namedGroups = true := by simpa [late, names] using single
      refine ⟨p, ?_⟩
      rwa [show d.naming true = d from named ▸ rfl]

/-- In a literal that is accepted each reference is to a group of the pattern, before or after it: in
unicode mode by number and by name, and otherwise by name if any group has one. -/
theorem validateLiteral_references (edition : Nat) (pattern flags : List Char) (late : 9 ≤ edition)
    (fits : (codeUnits pattern).length ≤ maxNumber) (accepted : validateLiteral edition pattern flags = .ok ()) :
    let d := Dialect.ofFlags pattern flags edition
    let strict := 'u' ∈ flags ∨ 'v' ∈ flags
    (strict → ∀ i unit, d.EscapeAt i unit → isDigitCode unit = true → unit ≠ '0'.toNat →
      d.numberFrom (i + 1) ≤ d.capturing d.units.size) ∧
    (strict ∨ d.named d.units.size ≠ [] → ∀ i, d.EscapeAt i 'k'.toNat →
      ∃ name ∈ (d.named d.units.size).map Prod.fst, d.referenceAt? i = some name) := by
  intro d strict
  obtain ⟨checked, validated⟩ := validateLiteral_eq_ok.1 accepted
  have unicode : d.unicode = true ↔ strict := unicode_ofFlags checked
  have size : d.units.size ≤ maxNumber := by rwa [show d.units.size = (codeUnits pattern).length from List.size_toArray]
  obtain ⟨⟨p, read⟩, again⟩ := validate_reads late validated
  refine ⟨fun is => (readPattern_references read size).1 (unicode.2 is), ?_⟩
  rintro (is | some') i escape
  · exact (readPattern_references read size).2 ((namedGroups_ofFlags late).trans (unicode.2 is)) i escape
  · obtain ⟨q, reread⟩ := again some'
    obtain ⟨name, mem, reads⟩ := (readPattern_references reread size).2 rfl i (escapeAt_naming.2 escape)
    rw [named_naming] at mem
    exact ⟨name, mem, referenceAt?_naming reads⟩

/-- References that come before their group, one with an escape in its name. -/
theorem validateLiteral_references_forward :
    let strict := "\\k<n>\\1(?<n>a)".toList
    let plain := "\\k<\\u0061>(?<a>)".toList
    let d := Dialect.ofFlags strict ['u'] 15
    let e := Dialect.ofFlags plain [] 9
    (validateLiteral 15 strict ['u'] = .ok () ∧ d.numberFrom 6 ≤ d.capturing d.units.size ∧
      ∃ name ∈ (d.named d.units.size).map Prod.fst, d.referenceAt? 0 = some name) ∧
    validateLiteral 9 plain [] = .ok () ∧
      ∃ name ∈ (e.named e.units.size).map Prod.fst, e.referenceAt? 0 = some name := by
  intro strict plain d e
  have accepted : validateLiteral 15 strict ['u'] = .ok () := by decide +kernel
  have accepted' : validateLiteral 9 plain [] = .ok () := by decide +kernel
  have letter : d.EscapeAt 0 'k'.toNat := ⟨rfl, rfl, by decide +kernel, by decide +kernel⟩
  have digit : d.EscapeAt 5 '1'.toNat := ⟨by decide +kernel, by decide +kernel, by decide +kernel, by decide +kernel⟩
  have letter' : e.EscapeAt 0 'k'.toNat := ⟨rfl, rfl, by decide +kernel, by decide +kernel⟩
  have groups : e.named e.units.size ≠ [] := by decide +kernel
  have references := validateLiteral_references 15 strict ['u'] (by decide) (by decide +kernel) accepted
  have references' := validateLiteral_references 9 plain [] (by decide) (by decide +kernel) accepted'
  refine ⟨⟨accepted, ?_, ?_⟩, accepted', ?_⟩
  · exact references.1 (.inl (.head _)) 5 '1'.toNat digit rfl (by decide)
  · exact references.2 (.inl (.inl (.head _))) 0 letter
  · exact references'.2 (.inr groups) 0 letter'

end RegExp
end ScriptSyntax
