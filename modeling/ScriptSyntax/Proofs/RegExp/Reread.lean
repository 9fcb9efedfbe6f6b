import ScriptSyntax.Proofs.RegExp.Reference
import ScriptSyntax.Proofs.RegExp.Spell

/-!
A pattern that is valid with named references is valid without them too, where its escaped `k` stand for
themselves, and has the same groups.  So reading it a second time decides as one reading would that knew
beforehand whether the pattern has a named group.
-/

namespace ScriptSyntax
namespace RegExp

variable {α β : Type} {d : Dialect}

/-! ### Runs with and without named references -/

/-- The cursor is in the pattern or at its end. -/
def Inside (d : Dialect) (_ : Unit) (p : Progress) : Prop := p.pos ≤ d.units.size

/-- No reference is noted. -/
def Bare (_ : List String) (references : List String) : Prop := references = []

theorem Inside.course [d.Narrow] : d.Course (Inside d) where
  glides _ p :=
    ⟨fun _ stands _ => Dialect.next_le_size stands, fun _ _ letter => (Array.getElem?_eq_some_iff.1 letter).1,
    fun _ _ stands => Dialect.next_le_size stands⟩
  skips _ stands _ _ := Dialect.next_le_size stands
  boundary _ _ letter _ := (Array.getElem?_eq_some_iff.1 letter).1
  dives {_ p} _ _ stands _ := by
    refine ⟨fun j => j ≤ d.units.size, ⟨⟨fun _ stands _ => Dialect.next_le_size stands,
      fun _ _ letter => (Array.getElem?_eq_some_iff.1 letter).1, fun _ _ stands => Dialect.next_le_size stands⟩,
      fun _ stands _ => Dialect.next_le_size stands, fun _ stands _ => (Array.getElem?_eq_some_iff.1 stands).1⟩,
      (Array.getElem?_eq_some_iff.1 stands).1, fun j _ _ stands => (Array.getElem?_eq_some_iff.1 stands).1⟩
  records _ _ _ inside := inside
  groups {_ p} _ _ stands := ⟨(), (Array.getElem?_eq_some_iff.1 stands).1, fun _ _ inside => inside⟩

namespace Mirror

variable {P : Progress → Progress → Prop} {Q : β → Progress → Progress → Prop} {named : Bool}

theorem counts {f : Nat → PatternM β} (same : ∀ p q, P p q → p.groups = q.groups)
    (rest : ∀ n, Mirror d named P (f n) Q) :
    Mirror d named P (get >>= fun p => f p.groups) Q := by
  intro p q b p' here run
  obtain ⟨q', run', done⟩ := rest p.groups p q b p' here run
  refine ⟨q', ?_, done⟩
  show f q.groups (d.naming named) q = _
  rw [← same p q here]
  exact run'

end Mirror

/-- Where a reference by name may stand. -/
def maybeNamed : PatternM Bool := do
  if (← read).namedGroups then namedReference else return false

theorem anyMatch_last {last last' : PatternM Bool} (same : last d = last' d)
    (steps : List (PatternM Bool)) (p : Progress) :
    anyMatch (steps ++ [last]) d p = anyMatch (steps ++ [last']) d p := by
  induction steps generalizing p with
  | nil =>
    show EStateM.bind (last d) _ p = EStateM.bind (last' d) _ p
    rw [same]
  | cons step steps ih =>
    cases run : step d p with
    | error fault q =>
      show (step >>= _) d p = (step >>= _) d p
      simp only [Bind.bind, ReaderT.bind, EStateM.bind, run]
    | ok matched q =>
      cases matched with
      | true => exact (anyMatch_run run).trans (anyMatch_run run).symm
      | false => exact (anyMatch_missed run).trans ((ih q).trans (anyMatch_missed run).symm)

theorem atomEscape_eq : atomEscape = do
    let matched ← anyMatch
      ([numberedReference, return (← classEscape).isSome, return (← characterEscape).isSome] ++ [maybeNamed])
    if !matched && (← read).unicode then
      if ← sees 'c' then throw .invalidUnicodeEscape else throw .invalidEscape
    return matched := by
  funext d p
  have same := anyMatch_last
    (show maybeNamed d = (if d.namedGroups then namedReference else return false : PatternM Bool) d from rfl)
    [numberedReference, return (← classEscape).isSome, return (← characterEscape).isSome] p
  unfold atomEscape
  rw [run_bind read_run]
  show EStateM.bind (anyMatch _ d) _ p = EStateM.bind (anyMatch _ d) _ p
  simp only [EStateM.bind, same]
  rfl

section

variable [d.Narrow] (lax : d.Lax) {s t : Progress} {n : Nat} {r : Record} {o : Outline} {w : Nat → Prop} {i : Unit}
include lax

theorem numberedReference_both (groups : s.groups = t.groups) :
    Mirror d false (Mirror.Pinned (Inside d i) s t) numberedReference fun _ => Mirror.Pinned (Inside d i) s t := by
  refine Mirror.position fun start there => .mono (P := Mirror.Pinned (Inside d i) s t) ?_ (fun _ _ here => here.1)
    fun _ _ _ done => done
  refine .peek fun code => .mono (P := Mirror.Pinned (Inside d i) s t) ?_
    (fun _ _ here => here.1) fun _ _ _ done => done
  have none : Mirror d false (Mirror.Pinned (Inside d i) s t) (return false : PatternM Bool)
      fun _ => Mirror.Pinned (Inside d i) s t := .pure fun _ _ here => here
  refine .ite (fun _ => .bind (Keeps.eatDecimal (Inside.course.glides i s)) fun number => ?_) fun _ => none
  cases number with
  | none => exact none
  | some number =>
    refine .read (.ite (fun strict => absurd strict (by simp [lax.lenient])) fun _ => ?_) rfl
    refine .counts (fun p q pinned => ?_) fun count => .ite (fun _ => .pure fun _ _ here => here) fun _ =>
      .bind (Q := fun _ => Mirror.Pinned (Inside d i) s t) (Keeps.moveTo there) fun _ => none
    have left := congrArg Progress.groups pinned.rest.1
    have right := congrArg Progress.groups pinned.rest.2
    exact left.trans (groups.trans right.symm)

theorem atomEscape_both {j : Nat} (groups : s.groups = t.groups) (open' : o.escaped = false)
    (other : d.units[j]? ≠ some 'k'.toNat) : Mirror d false (fun p q => Here d n r o.behind (· = j) p ∧
      Mirror.Pinned (Inside d i) s t p q) atomEscape fun _ => Mirror.Pinned (Inside d i) s t := by
  have glides := Inside.course.glides (d := d) i s
  have missed : d.at? d.unicode j ≠ some 'k'.toNat := by rw [lax.at?]; exact other
  rw [atomEscape_eq]
  refine .bind (?_ : Mirror d false _ _ fun _ => Mirror.Pinned (Inside d i) s t) fun matched =>
    .read (.ite (fun strict => ?_)
    fun _ => .pure fun _ _ here => here) rfl
  · refine Mirror.anyMatch_cons (numberedReference_escapes open') (.forget (numberedReference_both lax groups)) ?_
    refine Mirror.anyMatch_cons (.bind (classEscape_tries.escapes n r o _ open') fun _ => .pure fun _ here => here)
      (.forget (.bind (Keeps.classEscape glides) fun _ => .pure fun _ _ here => here)) ?_
    refine Mirror.anyMatch_cons (.bind (characterEscape_steps open') fun _ => .pure fun _ here => here)
      (.bind (Mirror.characterEscape glides open' fun k spot stands => ?_) fun _ => .pure fun _ _ here => here) ?_
    · exact absurd (spot.offset ▸ stands) missed
    · refine Mirror.anyMatch_last ?_
      rintro p q a p' ⟨here, pinned⟩ run
      have faces : d.at? d.unicode p.pos ≠ some 'k'.toNat := here.offset.1 ▸ missed
      have stays {e : Dialect} {u : Progress} (faces : e.at? e.unicode u.pos ≠ some 'k'.toNat) :
          maybeNamed e u = .ok false u := by
        unfold maybeNamed
        rw [run_bind read_run]
        split
        · unfold namedReference
          rw [run_bind (eat_missed faces)]
          rfl
        · rfl
      cases (stays faces).symm.trans run
      exact ⟨q, stays (e := d.naming false) (pinned.same ▸ faces), pinned⟩
  · exact absurd strict (by simp [lax.lenient])

/-- An escape of another character than `k` is read alike. -/
def Dialect.Other (d : Dialect) (i : Nat) : Prop := d.units[i]? = some '\\'.toNat → d.units[i + 1]? ≠ some 'k'.toNat

theorem escapes_both : Mirror.Escapes d false (Inside d) Bare d.Other := by
  intro i n r o w clear calm
  refine .weaken (R := fun _ => Abreast (Inside d i) Bare)
    (.each fun s t here => .at' (fun p q both => ?_) fun start => ?_)
    fun _ p q after => ⟨fun _ slash => (Array.getElem?_eq_some_iff.1 slash).1, after⟩
  · obtain ⟨rfl, rfl⟩ := both
    exact here.2.same
  obtain ⟨here, abreast⟩ := here
  refine .fact (c := start = s.pos) (fun p q both => both.2 ▸ congrArg Progress.pos both.1.1) fun same => ?_
  subst same
  refine .mono (P := Both s t) (.eatAt rfl abreast.same (fun slash => ?_) fun _ => .pure fun p q both => ?_)
    (fun _ _ both => both.1) fun _ _ _ done => done
  · have behind : Here d n r o.behind (· = s.pos + 1) { s with pos := s.pos + 1 } :=
      ⟨⟨by rw [Dialect.before_succ slash, here.outline,
        Outline.step_backslash clear.plain], Nat.le_succ_of_le here.bound, rfl⟩,
        here.record⟩
    have groups : s.groups = t.groups := (congrArg Progress.groups abreast.2.1).symm
    refine .ifTrue
      (.bind ((atomEscape_both (i := i) (n := n) (r := r) lax groups clear.plain (calm _ here.offset slash)).mono
      (fun p q both => ?_) fun _ _ _ done => done) fun matched => ?_)
    · obtain ⟨rfl, rfl⟩ := both
      exact ⟨behind, rfl, (Array.getElem?_eq_some_iff.1 slash).1, rfl, rfl⟩
    · cases matched with
      | true => exact .pure fun _ _ pinned => pinned.abreast abreast.2
      | false =>
        refine .ifFalse (.bind (R := fun _ => Mirror.Pinned (Inside d i) s t) (Keeps.moveTo abreast.1) fun _ => ?_)
        exact .pure fun _ _ pinned => pinned.abreast abreast.2
  · obtain ⟨rfl, rfl⟩ := both
    exact abreast

omit s t n r o w i in
/-- With named references read, a term that begins with an escaped `k` is a reference. -/
theorem term_k (named : d.namedGroups = true) {inner : PatternM Unit} {depth : Nat} {matched : Bool} {p q : Progress}
    (slash : d.units[p.pos]? = some '\\'.toNat) (letter : d.units[p.pos + 1]? = some 'k'.toNat)
    (run : term inner depth d p = .ok matched q) : matched = true ∧ ∃ name k quantified,
      groupName d { p with pos := p.pos + 2 } = .ok (some name) { p with pos := k } ∧
        quantifier false d { p with pos := k, references := p.references ++ [name] } = .ok quantified q := by
  unfold term at run
  rw [run_bind read_run, run_bind (assertion_escape lax slash letter rfl)] at run
  simp only [lax.lenient, Bool.false_eq_true, if_false] at run
  obtain ⟨found, r, atom, rest⟩ := bind_eq_ok.1 run
  have eaten : eat '\\' d p = .ok true { p with pos := p.pos + 1 } := (eat_eq (by decide)).trans (if_pos slash)
  have facing : d.at? d.unicode (p.pos + 1) = some 'k'.toNat := (lax.at? _).trans letter
  unfold lenientAtom at atom
  rw [anyMatch_missed (eat_missed (lax.other slash (by decide)))] at atom
  obtain ⟨escaped, r', escape, atom⟩ := bind_eq_ok.1 atom
  unfold escapedAtom at escape
  rw [run_bind position_run, run_bind eaten, if_pos rfl] at escape
  obtain ⟨referred, r'', reference, escape⟩ := bind_eq_ok.1 escape
  obtain ⟨rfl, name, u, reads, rfl⟩ := namedReference_eq_ok facing (atomEscape_k facing named reference)
  cases escape
  cases atom
  simp only [if_true] at rest
  obtain ⟨quantified, v, quantifies, ends⟩ := bind_eq_ok.1 rest
  cases ends
  have next : d.next d.unicode (p.pos + 1) = p.pos + 2 := lax.next letter
  dsimp only at reads
  rw [next] at reads
  have back :=
    Dialect.run_elsewhere d.namedGroups (fun _ _ glides => .groupName glides) (q := { p with pos := p.pos + 2 })
    rfl reads
  obtain ⟨-, same⟩ := EStateM.Result.ok.inj (reads.symm.trans back)
  generalize u.pos = k at same back
  subst same
  exact ⟨rfl, name, k, quantified, back, quantifies⟩

/-- Terms are read alike from wherever the cursor is, but for a reference by name, which is several terms
where such references are not read. -/
theorem whileMatch_both (named : d.namedGroups = true) (neutral : d.NeutralInside false)
    {inner : PatternM Unit} {depth : Nat}
    (reads : ∀ n first outer, Steps d (Standing d n (Entering d first outer)) inner fun _ =>
      Reading d n (Leaving d first outer))
    (mirrors : ∀ i n first outer, Mirror d false (fun p q => Standing d n (Entering d first outer) p ∧
      Abreast (Inside d i) Bare p q) inner fun _ => Abreast (Inside d i) Bare) {place : Place} (inside : place ≠ [])
    (fuel : Nat) : ∀ (left : Nat) {p q p' : Progress}, Reading d p.pos (Within d place) p →
      Abreast (Inside d i) Bare p q →
      d.units.size + 1 ≤ fuel + p.pos → d.units.size + 1 ≤ left + p.pos →
        whileMatch (term inner depth) fuel d p = .ok () p' →
      ∃ q', whileMatch (term inner depth) left (d.naming false) q = .ok () q' ∧ Abreast (Inside d i) Bare p' q' := by
  induction fuel with
  | zero =>
    intro left p q p' _ abreast enough
    have inside : p.pos ≤ d.units.size := abreast.1
    omega
  | succ fuel ih =>
    intro left p q p' standing abreast enough enough' run
    have inside' : p.pos ≤ d.units.size := abreast.1
    obtain ⟨matched, r, first, rest⟩ := bind_eq_ok.1 run
    have advances := (term_steps reads inside depth).ends p matched r standing first
    obtain ⟨left, rfl⟩ : ∃ less, left = less + 1 := ⟨left - 1, by omega⟩
    by_cases other : d.Other p.pos
    · obtain ⟨q', first', after⟩ :=
        Mirror.term Inside.course (escapes_both lax) neutral reads mirrors inside depth p q matched r
        ⟨⟨standing, other⟩, abreast⟩ first
      cases matched with
      | false =>
        cases rest
        exact ⟨q', run_bind first', after⟩
      | true =>
        have further : p.pos + 1 ≤ r.pos := Reading.bound advances
        obtain ⟨q'', run', done⟩ := ih left (Reading.started advances) after (by omega) (by omega) rest
        exact ⟨q'', (run_bind first').trans run', done⟩
    · obtain ⟨slash, letter⟩ := Classical.not_imp.1 other
      have letter := Classical.not_not.1 letter
      have lax' : (d.naming false).Lax := ⟨lax.lenient⟩
      obtain ⟨rfl, name, k, quantified, names, quantifies⟩ := term_k lax named slash letter first
      have names' := Dialect.run_elsewhere (p := { p with pos := p.pos + 2 }) (q := { q with pos := p.pos + 2 }) false
        (fun _ _ glides => .groupName glides) rfl names
      obtain ⟨opens, j, below, closes, same, leads⟩ := leads_groupName lax' names'
      obtain rfl : k = j + 1 := same
      have walk : Walk (d.naming false) inner depth q { q with pos := j } :=
        ((leads_k lax' rfl slash letter (unquantified_of_unit opens rfl)).trans leads) q abreast.same.symm
      have within : j < d.units.size := (Array.getElem?_eq_some_iff.1 closes).1
      obtain ⟨rests, enough'', walks⟩ :=
        walk.whileMatch (Nat.le_of_lt within) (left + 1) (by rw [← abreast.same]; exact enough')
      have enough'' : d.units.size + 1 ≤ rests + j := enough''
      have below : p.pos + 2 < j := below
      obtain ⟨rests, rfl⟩ : ∃ less, rests = less + 1 := ⟨rests - 1, by omega⟩
      have pair : Abreast (Inside d i) Bare { p with pos := j + 1, references := p.references ++ [name] }
          { q with pos := j + 1 } :=
        ⟨within, (congrArg (fun q : Progress => { q with pos := j + 1 }) abreast.2.1 : _), abreast.2.2⟩
      have forward : j + 1 ≤ r.pos := Dialect.run_forward (fun _ _ glides => .quantifier glides false) quantifies
      have keeps : Mirror d false (Abreast (Inside d i) Bare) (quantifier false) fun _ => Abreast (Inside d i) Bare :=
        Keeps.abreast (fun _ _ glides => .quantifier glides false) (Inside.course.glides i)
      obtain ⟨q', quantifies', after⟩ := keeps _ _ quantified r pair quantifies
      have missed : assertion inner (d.naming false) { q with pos := j } = .ok none { q with pos := j } := by
        refine assertion_missed fun c mem => lax'.other closes ?_
        simp only [List.mem_cons, List.not_mem_nil, or_false] at mem
        rcases mem with rfl | rfl | rfl | rfl <;> exact of_decide_eq_true rfl
      have second : term inner depth (d.naming false) { q with pos := j } = .ok true q' :=
        term_atom lax' missed (lenientAtom_literal lax' closes rfl rfl) quantifies'
      obtain ⟨q'', run', done⟩ := ih rests (Reading.started advances) after (by omega) (by omega) rest
      exact ⟨q'', walks.trans ((run_bind second).trans run'), done⟩

theorem alternates_both (named : d.namedGroups = true) (neutral : d.NeutralInside false) :
    Mirror.Alternates d false (Inside d) Bare := by
  intro inner depth reads mirrors i n place inside p q a p' here run
  have enough : d.units.size + 1 ≤ d.units.size + 1 - p.pos + p.pos := by omega
  obtain ⟨q', run', done⟩ := whileMatch_both lax named neutral reads mirrors inside (d.units.size + 1 - p.pos)
    (d.units.size + 1 - p.pos) here.1.started here.2 enough enough run
  refine ⟨q', ?_, done⟩
  show whileMatch (term inner depth) (d.units.size + 1 - q.pos) (d.naming false) q = _
  rw [← here.2.same]
  exact run'

/-- Without named references a reading succeeds as well, and finds the same groups. -/
theorem readPattern_both (named : d.namedGroups = true) (neutral : d.NeutralInside false) {p : Progress}
    (read : d.readPattern = .ok p) :
    ∃ q, (d.naming false).readPattern = .ok q ∧ q.names = p.names ∧ q.groups = p.groups := by
  obtain ⟨run, finishes⟩ := pattern_eq_ok.1 (readPattern_eq_ok.1 read)
  obtain ⟨q, run', abreast⟩ :=
    Mirror.disjunction Inside.course (alternates_both lax named neutral) maxDepth () 0 0 [] {} {} () p
    ⟨entering_start, Nat.zero_le _, rfl, rfl⟩ run
  have same := abreast.2.1
  have names : q.names = p.names := by rw [same]
  have groups : q.groups = p.groups := by rw [same]
  refine ⟨q, readPattern_eq_ok.2 (pattern_eq_ok.2 ⟨run', ?_, ?_, fun name mem => ?_⟩), names, groups⟩
  · rw [← abreast.same]
    exact finishes.open'
  · rw [groups, show q.maxReference = p.maxReference by rw [same]]
    exact finishes.numbers
  · rw [abreast.2.2] at mem
    cases mem

end

/-! ### Literals -/

/-- No `k` is escaped inside a class. -/
def Dialect.SparesClasses (d : Dialect) : Prop :=
  ∀ i, (d.before i).escaped = true → 0 < (d.before i).classes → d.units[i]? ≠ some 'k'.toNat

theorem Dialect.SparesClasses.neutral [d.Narrow] {named : Bool} (spares : d.SparesClasses) :
    (d.naming named).NeutralInside false := by
  intro i escaped inside stands
  rw [before_naming] at escaped inside
  exact absurd (Dialect.at?_char stands (of_decide_eq_true rfl)).1 (spares i escaped inside)

/-- Outside unicode mode a pattern that is valid with named references is valid without them and has the
same groups; so reading it again decides as one reading does that reads such references if and only if
the pattern has a named group. -/
theorem validate_single (edition : Nat) (pattern flags : List Char) (late : 9 ≤ edition)
    (plain : 'u' ∉ flags ∧ 'v' ∉ flags) (spares : (Dialect.ofFlags pattern flags edition).SparesClasses) :
    let d := Dialect.ofFlags pattern flags edition
    (∀ p, (d.naming true).readPattern = .ok p →
      ∃ q, (d.naming false).readPattern = .ok q ∧ q.names = p.names ∧ q.groups = p.groups) ∧
    (d.validate.1 = .ok () ↔ ∃ p, (d.naming (!(d.named d.units.size).isEmpty)).readPattern = .ok p) := by
  intro d
  have lenient : d.unicode = false := by simp [d, Dialect.ofFlags, plain]
  have unnamed : d.namedGroups = false := by simp [d, Dialect.ofFlags, plain]
  have bare : d.naming false = d := unnamed ▸ rfl
  have both (p : Progress) (read : (d.naming true).readPattern = .ok p) :
      ∃ q, (d.naming false).readPattern = .ok q ∧ q.names = p.names ∧ q.groups = p.groups :=
    readPattern_both (d := d.naming true) ⟨lenient⟩ rfl spares.neutral read
  refine ⟨both, fun accepted => ?_, fun read => ?_⟩
  · obtain ⟨first, second⟩ := validate_reads late accepted
    cases groups : d.named d.units.size with
    | nil => exact bare.symm ▸ first
    | cons group groups' => exact second (by simp [groups])
  · obtain ⟨p, read⟩ := read
    unfold Dialect.validate
    cases groups : d.named d.units.size with
    | nil =>
      rw [groups] at read
      have read : d.readPattern = .ok p := bare ▸ read
      have names : p.names = [] := List.map_eq_nil_iff.1 ((readPattern_names read).trans (by rw [groups]; rfl))
      simp only [read, names, List.isEmpty_nil, Bool.not_true, Bool.and_false]
      rfl
    | cons group groups' =>
      rw [groups] at read
      have read : (d.naming true).readPattern = .ok p := read
      obtain ⟨q, first, -⟩ := both p read
      have first : d.readPattern = .ok q := bare ▸ first
      simp only [first]
      split
      · exact congrArg (Except.map fun _ => ()) read
      · rfl

/-- A reference that is first read as a quantified letter. -/
theorem validate_single_quantified :
    let pattern := "\\k<\\u\x7b61\x7d>(?<a>b)".toList
    let d := Dialect.ofFlags pattern [] 15
    d.SparesClasses ∧ (∃ q, (d.naming false).readPattern = .ok q) ∧ d.validate.1 = .ok () := by
  intro pattern d
  have accepted : ((d.naming true).readPattern).isOk = true := by decide +kernel
  have spares : d.SparesClasses := by
    have none : ∀ i < d.units.size, 0 < (d.before i).classes → False := by decide +kernel
    intro i _ inside stands
    exact none i (Array.getElem?_eq_some_iff.1 stands).1 inside
  have groups : (d.named d.units.size).isEmpty = false := by decide +kernel
  cases read : (d.naming true).readPattern with
  | error fault => simp [read, Except.isOk, Except.toBool] at accepted
  | ok p =>
    have single := validate_single 15 pattern [] (by decide) (by decide) spares
    obtain ⟨q, first, -⟩ := single.1 p read
    exact ⟨spares, ⟨q, first⟩, single.2.2 ⟨p, by rw [groups]; exact read⟩⟩

end RegExp
end ScriptSyntax
