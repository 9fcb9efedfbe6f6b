import ScriptSyntax.Proofs.RegExp.Disjunction
import ScriptSyntax.Proofs.RegExp.MirrorClass
import ScriptSyntax.Proofs.RegExp.Run

/-!
Two runs over a whole pattern, alike but for the references that they take note of, while something is
kept of the first.  What is kept may be any property that moves of the cursor, classes and groups do not
break; how escapes outside classes are read is left open.
-/

namespace ScriptSyntax
namespace RegExp

variable {α β ι : Type} {d : Dialect} {named : Bool}

/-- Alike but for the references, and those are related. -/
def Beside (R : List String → List String → Prop) (p q : Progress) : Prop :=
  q = { p with references := q.references } ∧ R p.references q.references

/-- So are both states, and the first has the property. -/
def Abreast (I : Progress → Prop) (R : List String → List String → Prop) (p q : Progress) : Prop :=
  I p ∧ Beside R p q

/-- Nothing is escaped there, outside all classes. -/
structure Outline.Clear (o : Outline) : Prop where
  plain : o.escaped = false
  outside : o.classes = 0

/-- A class is read where its bracket stands. -/
def Dialect.ReadsClass (d : Dialect) (i : Nat) : Prop :=
  ∃ depth p q, p.pos = i ∧ characterClass depth d p = .ok true q

/-- A family of properties that a run outside classes keeps. -/
structure Dialect.Course (d : Dialect) (I : ι → Progress → Prop) : Prop where
  glides : ∀ i (p : Progress), d.Glides fun j => I i { p with pos := j }
  skips : ∀ {i p code}, I i p → d.at? d.unicode p.pos = some code → code ≠ '\\'.toNat → code ≠ '['.toNat →
    I i { p with pos := d.next d.unicode p.pos }
  boundary : ∀ {i p c}, I i p → d.units[p.pos]? = some '\\'.toNat → d.units[p.pos + 1]? = some c →
    isOneOf ['b', 'B'] c = true → I i { p with pos := p.pos + 2 }
  dives : ∀ {i p}, I i p → (d.before p.pos).Clear → d.units[p.pos]? = some '['.toNat → d.ReadsClass p.pos →
    ∃ J, d.Dives J ∧ J (p.pos + 1) ∧ ∀ j, J j → d.before j = (d.before p.pos).opened → d.units[j]? = some ']'.toNat →
      I i { p with pos := j + 1 }
  records : ∀ {i p} names branches branch, I i p →
    I i { p with names := names, branches := branches, branch := branch }
  groups : ∀ {i p}, I i p → (d.before p.pos).Clear → d.units[p.pos]? = some '('.toNat →
    ∃ j, I j { p with pos := p.pos + 1 } ∧
      ((d.units[p.pos + 1]? ≠ some '?'.toNat ∨ (d.nameAt? p.pos).isSome = true) →
        ∀ q, I j q → I i { q with groups := q.groups + 1 })

variable {R : List String → List String → Prop} {I : Progress → Prop} {p q : Progress}

theorem Beside.pos (beside : Beside R p q) : q.pos = p.pos := by rw [beside.1]

/-- What changes no reference changes both alike. -/
theorem Beside.both {f : Progress → Progress} (beside : Beside R p q)
    (apart : ∀ p l, f { p with references := l } = { f p with references := l })
    (keeps : ∀ p, (f p).references = p.references) : Beside R (f p) (f q) := by
  refine ⟨?_, by rw [keeps, keeps]; exact beside.2⟩
  rw [keeps q]
  conv => lhs; rw [beside.1]
  exact apart p q.references

theorem Abreast.moved {K : Progress → Prop} {i : Nat} (abreast : Abreast I R p q) (there : K { p with pos := i }) :
    Abreast K R { p with pos := i } { q with pos := i } :=
  ⟨there, abreast.2.both (f := fun p => { p with pos := i }) (fun _ _ => rfl) fun _ => rfl⟩

theorem Abreast.same (abreast : Abreast I R p q) : p.pos = q.pos := abreast.2.pos.symm

namespace Mirror

variable {A : Progress → Prop} {Q : β → Progress → Progress → Prop} {S : α → Progress → Progress → Prop}

/-- Since these two states only the cursors have moved. -/
def Pinned (I : Progress → Prop) (s t : Progress) : Progress → Progress → Prop :=
  Twin (fun j => I { s with pos := j }) fun a b => a = { s with pos := 0 } ∧ b = { t with pos := 0 }

theorem Pinned.abreast {s t : Progress} (beside : Beside R s t) (pinned : Pinned I s t p q) : Abreast I R p q := by
  have left : p = { s with pos := p.pos } := by
    have same := pinned.rest.1
    cases p
    cases s
    cases same
    rfl
  have right : q = { t with pos := p.pos } := by
    have same := pinned.rest.2
    rw [pinned.same]
    cases q
    cases t
    cases same
    rfl
  rw [left, right]
  exact ⟨pinned.offset, beside.both (f := fun s => { s with pos := p.pos }) (fun _ _ => rfl) fun _ => rfl⟩

/-- A step is followed from where it begins. -/
theorem pin {x : PatternM α} (each : ∀ s t, A s → Abreast I R s t →
      Mirror d named (fun p q => (A p ∧ p.pos = s.pos) ∧ Pinned I s t p q) x S) :
    Mirror d named (fun p q => A p ∧ Abreast I R p q) x S := by
  rintro p q a p' ⟨known, here⟩ run
  exact each p q known here p q a p' ⟨⟨known, rfl⟩, here.same, here.1, rfl, rfl⟩ run

end Mirror

/-- These are the states. -/
def Both (s t p q : Progress) : Prop := p = s ∧ q = t

namespace Mirror

variable {P : Progress → Progress → Prop} {Q : β → Progress → Progress → Prop}
  {S : α → Progress → Progress → Prop} {s t : Progress}

theorem each {x : PatternM α} (mirror : ∀ s t, P s t → Mirror d named (Both s t) x S) : Mirror d named P x S :=
  fun p q a p' here run => mirror p q here p q a p' ⟨rfl, rfl⟩ run

/-- What is to be shown may be shown for a run at hand. -/
theorem presume {x : PatternM α} (mirror : ∀ p q a p', P p q → x d p = .ok a p' → Mirror d named P x S) :
    Mirror d named P x S :=
  fun p q a p' here run => mirror p q a p' here run p q a p' here run

/-- Where none of these characters stands, one step does what another does. -/
theorem becomes {x y : PatternM α} (cs : List Char)
    (equal : ∀ e p, (∀ c ∈ cs, Dialect.at? e e.unicode p.pos ≠ some c.toNat) → x e p = y e p)
    (others : ∀ p q, P p q → p.pos = q.pos ∧ ∀ c ∈ cs, d.at? d.unicode p.pos ≠ some c.toNat)
    (mirror : Mirror d named P y S) : Mirror d named P x S := by
  intro p q a p' here run
  obtain ⟨same, other⟩ := others p q here
  rw [equal d p other] at run
  obtain ⟨q', run', done⟩ := mirror p q a p' here run
  exact ⟨q', (equal (d.naming named) q (same ▸ other)).trans run', done⟩

theorem eatAt [d.Narrow] {c : Char} {f : Bool → PatternM β} (narrow : isNarrow c = true) (same : s.pos = t.pos)
    (yes : d.units[s.pos]? = some c.toNat →
      Mirror d named (Both { s with pos := s.pos + 1 } { t with pos := s.pos + 1 }) (f true) Q)
    (no : d.units[s.pos]? ≠ some c.toNat → Mirror d named (Both s t) (f false) Q) :
    Mirror d named (Both s t) (eat c >>= f) Q := by
  rintro _ _ b p' ⟨rfl, rfl⟩ run
  rename_i p q
  by_cases stands : d.units[p.pos]? = some c.toNat
  · obtain ⟨at', next⟩ := Dialect.next_of_unit narrow stands d.unicode
    rw [run_bind (eat_run at'), next] at run
    have there : (d.naming named).at? (d.naming named).unicode q.pos = some c.toNat := same ▸ at'
    rw [run_bind (eat_run there), show (d.naming named).next (d.naming named).unicode q.pos =
      p.pos + 1 from same ▸ next]
    exact yes stands _ _ b p' ⟨rfl, rfl⟩ run
  · have missed : d.at? d.unicode p.pos ≠ some c.toNat := fun at' =>
      stands (Dialect.at?_char at' (lt_of_isNarrow narrow)).1
    rw [run_bind (eat_missed missed)] at run
    have there : (d.naming named).at? (d.naming named).unicode q.pos ≠ some c.toNat := same ▸ missed
    rw [run_bind (eat_missed there)]
    exact no stands _ _ b p' ⟨rfl, rfl⟩ run

theorem seesAt {c : Char} {f : Bool → PatternM β} (same : s.pos = t.pos)
    (yes : d.at? d.unicode s.pos = some c.toNat → Mirror d named (Both s t) (f true) Q)
    (no : d.at? d.unicode s.pos ≠ some c.toNat → Mirror d named (Both s t) (f false) Q) :
    Mirror d named (Both s t) (RegExp.sees c >>= f) Q := by
  rintro _ _ b p' ⟨rfl, rfl⟩ run
  rename_i p q
  rw [run_bind sees_run] at run
  rw [run_bind sees_run, show (d.naming named).at? (d.naming named).unicode q.pos =
    d.at? d.unicode p.pos from same ▸ rfl]
  by_cases stands : d.at? d.unicode p.pos = some c.toNat
  · rw [beq_iff_eq.2 stands] at run ⊢
    exact yes stands _ _ b p' ⟨rfl, rfl⟩ run
  · rw [beq_eq_false_iff_ne.2 stands] at run ⊢
    exact no stands _ _ b p' ⟨rfl, rfl⟩ run

theorem modify {I K : Progress → Prop} {R : List String → List String → Prop} {f : Progress → Progress}
    (keeps : ∀ p, I p → K (f p)) (apart : ∀ p l, f { p with references := l } = { f p with references := l })
    (same : ∀ p, (f p).references = p.references) : Mirror d named (Abreast I R) (modify f) fun _ => Abreast K R := by
  intro p q a p' here run
  cases run
  exact ⟨f q, rfl, keeps p here.1, here.2.both apart same⟩

end Mirror

theorem Keeps.abreast {x : PatternM α}
    (keeps : ∀ (J : Nat → Prop) (E : Progress → Progress → Prop), d.Glides J → Keeps d named J E x)
    (glides : ∀ p : Progress, d.Glides fun j => I { p with pos := j }) :
    Mirror d named (Abreast I R) x fun _ => Abreast I R := by
  intro p q a p' here run
  refine Mirror.pin (A := fun _ => True) (S := fun _ => Abreast I R) (fun s t _ here => ?_) p q a p' ⟨trivial, here⟩ run
  exact (keeps _ _ (glides s)).mono (fun _ _ here => here.2) fun _ _ _ pinned => Mirror.Pinned.abreast here.2 pinned

/-! ### Groups -/

namespace Mirror

variable [d.Narrow] {I : ι → Progress → Prop} (course : d.Course I) {i : ι} {s t : Progress}
  {n : Nat} {r : Record} {o : Outline} {w : Nat → Prop} {place outer : Place} {first : Nat}

include course

theorem eatPinned {c : Char} (narrow : isNarrow c = true) (other : (c == '\\' || c == '[') = false) :
    Mirror d named (Pinned (I i) s t) (eat c) fun _ => Pinned (I i) s t := by
  refine (eatTo (K := fun j => I i { s with pos := j }) narrow fun j there stands => ?_).weaken fun eaten _ _ here =>
    here.mono fun j is => by cases eaten <;> exact is
  obtain ⟨at', next⟩ := Dialect.next_of_unit narrow stands d.unicode
  have moved : I i { s with pos := d.next d.unicode j } :=
    course.skips there at' (fun same => by simp [Char.toNat_inj.1 same] at other)
      fun same => by simp [Char.toNat_inj.1 same] at other
  rwa [next] at moved

theorem eatAbreast {c : Char} (narrow : isNarrow c = true) (other : (c == '\\' || c == '[') = false) :
    Mirror d named (Abreast (I i) R) (eat c) fun _ => Abreast (I i) R := by
  intro p q a p' here run
  refine pin (A := fun _ => True) (S := fun _ => Abreast (I i) R) (fun s t _ here => ?_) p q a p' ⟨trivial, here⟩ run
  exact (eatPinned course narrow other).mono (fun _ _ here => here.2) fun _ _ _ pinned => pinned.abreast here.2

theorem assertionHead : Mirror d named (Pinned (I i) s t) assertionHead fun _ => Pinned (I i) s t := by
  have glides := course.glides i s
  have boundary {c : Char} (narrow : isNarrow c = true) (is : isOneOf ['b', 'B'] c.toNat = true) :
      Mirror d named (Pinned (I i) s t) (eatPair '\\' c) fun _ => Pinned (I i) s t :=
    Keeps.eatBoth rfl narrow fun j there slash letter => course.boundary there slash letter is
  have none : Mirror d named (Pinned (I i) s t) (return none : PatternM (Option (Bool × Bool))) fun _ =>
    Pinned (I i) s t :=
    pure fun _ _ here => here
  have head {quantifiable : Bool × Bool} : Mirror d named (Pinned (I i) s t) (return some quantifiable)
      fun _ => Pinned (I i) s t := pure fun _ _ here => here
  refine bind (Keeps.anyMatch fun step mem => ?_) fun _ => ite (fun _ => head) fun _ => ?_
  · simp only [List.mem_cons, List.not_mem_nil, or_false] at mem
    rcases mem with rfl | rfl <;> exact .eat glides rfl
  refine bind (boundary rfl rfl) fun _ => ite (fun _ => head) fun _ => ?_
  refine bind (boundary rfl rfl) fun _ => ite (fun _ => head) fun _ => ?_
  refine bind (Keeps.position fun start there => Keeps.bind (eatPinned course rfl rfl) fun _ => .ite
    (.bind (eatPinned course rfl rfl) fun _ => .ite .pure (.bind (.moveTo there) fun _ => .pure)) .pure) fun _ =>
    ite (fun _ => read ?_ rfl) fun _ => none
  have signed (behind : Bool) : Mirror d named (Pinned (I i) s t) (do
      if ← anyMatch [eat '=', eat '!'] then return some (true, !behind)
      return Option.none) fun _ => Pinned (I i) s t := by
    refine bind (Keeps.anyMatch fun step mem => ?_) fun _ => ite (fun _ => head) fun _ => none
    simp only [List.mem_cons, List.not_mem_nil, or_false] at mem
    rcases mem with rfl | rfl <;> exact .eat glides rfl
  exact ite (fun _ => bind (eatPinned course rfl rfl) signed) fun _ => signed false

theorem uncapturingHead : Mirror d named (Pinned (I i) s t) uncapturingHead fun _ => Pinned (I i) s t := by
  have none : Mirror d named (Pinned (I i) s t) (return false : PatternM Bool) fun _ => Pinned (I i) s t :=
    pure fun _ _ here => here
  have colon : Mirror d named (Pinned (I i) s t) (eat ':') fun _ => Pinned (I i) s t :=
    Keeps.eat (course.glides i s) rfl
  refine bind (eatPinned course rfl rfl) fun _ => ite (fun _ => ?_) fun _ => none
  refine bind (eatPinned course rfl rfl) fun _ => ite (fun _ => read ?_ rfl) fun _ => none
  exact ite (fun _ => bind (Keeps.modifiers (course.glides i s)) fun _ => colon) fun _ => colon

omit [d.Narrow] in
theorem declareGroup {name : String} :
    Mirror d named (Abreast (I i) R) (declareGroup name) fun _ => Abreast (I i) R := by
  rintro p q a p' ⟨there, same, related⟩ run
  generalize q.references = l at same related
  subst same
  have runs (e : Dialect) (p : Progress) : RegExp.declareGroup name e p =
      if p.refuses e name = true then .error .duplicateGroupName p
      else .ok () { p with names := p.names ++ [(name, p.branch)] } := by
    unfold RegExp.declareGroup
    rw [run_bind get_run, run_bind read_run]
    split <;> rfl
  rw [runs] at run
  by_cases refused : p.refuses d name = true
  · rw [if_pos refused] at run
    cases run
  · rw [if_neg refused] at run
    cases run
    refine ⟨{ p with references := l, names := p.names ++ [(name, p.branch)] },
      (runs _ _).trans (if_neg refused), ?_, rfl, related⟩
    exact course.records (p.names ++ [(name, p.branch)]) p.branches p.branch there

/-- Behind the parenthesis of a group that captures there stands a name, or no question mark. -/
theorem groupSpecifier {k : Nat} :
    Mirror d named (fun p q => p.pos = k + 1 ∧ Abreast (I i) R p q) groupSpecifier fun _ p q =>
      (d.units[k + 1]? ≠ some '?'.toNat ∨ (d.nameAt? k).isSome = true) ∧ Abreast (I i) R p q := by
  refine each fun p q here => eatAt rfl here.2.same (fun question => ?_) fun other => pure fun _ _ both => ?_
  · have moved : Abreast (I i) R { p with pos := p.pos + 1 } { q with pos := p.pos + 1 } :=
      here.2.moved ((course.glides i p).unit rfl here.2.1 question rfl)
    refine ifTrue (bind (R := fun name p q => (∀ known, name = some known → d.nameAt? k = some known) ∧
      Abreast (I i) R p q)
      ?_ fun name => ?_)
    · rintro _ _ name p' ⟨rfl, rfl⟩ reads
      obtain ⟨q', reads', after⟩ :=
        Keeps.abreast (fun _ _ glides => .groupName glides) (course.glides i) _ _ name p' moved reads
      refine ⟨q', reads', fun known same => ?_, after⟩
      exact Dialect.nameAt?_of_read (here.1 ▸ question) (congrArg (· + 1) here.1) (same ▸ reads)
    · cases name with
      | none => exact throw
      | some name =>
        refine fact (fun _ _ here => here.1 name rfl) fun named => forget ?_
        exact (declareGroup course).weaken fun _ _ _ after => ⟨.inr (Option.isSome_iff_exists.2 ⟨name, named⟩), after⟩
  · obtain ⟨rfl, rfl⟩ := both
    exact ⟨.inl (here.1 ▸ other), here.2⟩

/-- From the parenthesis that begins a capturing group on, one more group is open. -/
theorem capturingHead (clear : o.Clear) :
    Mirror d named (fun p q => Here d n r o w p ∧ Abreast (I i) R p q) capturingHead fun matched p q =>
      bif matched then ∃ j, Abreast (I j) R p q ∧ ∀ q, I j q → I i { q with groups := q.groups + 1 }
      else Abreast (I i) R p q := by
  refine each fun p q here => eatAt rfl here.2.same (fun left => ?_) fun _ => pure fun _ _ both => ?_
  · obtain ⟨j, opened, closes⟩ := course.groups here.2.1 (by rw [here.1.outline]; exact clear) left
    have moved : Abreast (I j) R { p with pos := p.pos + 1 } { q with pos := p.pos + 1 } := here.2.moved opened
    have done : Mirror d named (fun a b => (d.units[p.pos + 1]? ≠ some '?'.toNat ∨ (d.nameAt? p.pos).isSome = true) ∧
        Abreast (I j) R a b) (return true : PatternM Bool) fun matched p q =>
          bif matched then ∃ j, Abreast (I j) R p q ∧ ∀ q, I j q → I i { q with groups := q.groups + 1 }
          else Abreast (I i) R p q := pure fun _ _ here => ⟨j, here.2, closes here.1⟩
    refine ifTrue (read (ite (fun _ => ?_) fun _ => ?_) rfl)
    · refine bind ((groupSpecifier course).mono (fun a b both => ?_) fun _ _ _ done => done) fun _ => done
      obtain ⟨rfl, rfl⟩ := both
      exact ⟨rfl, moved⟩
    · refine seesAt (s := { p with pos := p.pos + 1 }) rfl (fun _ => throwing) fun other =>
        done.mono (fun a b both => ?_) fun _ _ _ done => done
      obtain ⟨rfl, rfl⟩ := both
      exact ⟨.inl fun stands => other (Dialect.next_of_unit (c := '?') rfl stands d.unicode).1, moved⟩
  · obtain ⟨rfl, rfl⟩ := both
    exact here.2

theorem classAbreast (clear : o.Clear) (neutral : d.NeutralInside named) (depth : Nat) :
    Mirror d named (fun p q => Here d n r o w p ∧ Abreast (I i) R p q) (RegExp.characterClass depth) fun _ =>
      Abreast (I i) R := by
  refine pin fun s t here abreast => ?_
  by_cases stands : d.units[s.pos]? = some '['.toNat
  · refine presume fun p q matched p' both run => ?_
    have reads : d.ReadsClass s.pos := ⟨depth, p, p', both.1.2, by
      rw [← characterClass_matched ((both.1.2 ▸ Dialect.next_of_unit (c := '[') rfl stands d.unicode).1) run]
      exact run⟩
    obtain ⟨J, dives, opens, closes⟩ := course.dives abreast.1 (by rw [here.outline]; exact clear) stands reads
    have mirror : Mirror d named (fun p q => Here d n r o (· = s.pos) p ∧ Pinned (I i) s t p q)
        (RegExp.characterClass depth)
        fun _ => Pinned (I i) s t :=
      characterClass dives clear.plain clear.outside neutral (fun _ start _ _ => by cases start; exact opens)
        (fun j there outline stands => closes j there (by rw [here.outline]; exact outline) stands) depth
    exact mirror.mono (fun p q both => ⟨⟨⟨both.1.1.outline, both.1.1.bound, both.1.2⟩, both.1.1.record⟩, both.2⟩)
      fun _ _ _ pinned => pinned.abreast abreast.2
  · refine becomes ['['] (y := Pure.pure false) (fun e p other => characterClass_missed (other _ (.head _)))
      (fun p q both => ⟨both.2.same, fun c mem at' => ?_⟩) (pure fun _ _ both => both.2.abreast abreast.2)
    obtain rfl := List.mem_singleton.1 mem
    exact stands (both.1.2 ▸ (Dialect.at?_char at' (of_decide_eq_true rfl)).1)

omit [d.Narrow] in
theorem eatCodeAbreast {inClass : Nat → Bool} (bracket : inClass '['.toNat = false) :
    Mirror d named (fun p q => (d.at? d.unicode p.pos = some '\\'.toNat → inClass '\\'.toNat = true →
      I i { p with pos := d.next d.unicode p.pos }) ∧ Abreast (I i) R p q) (eatCode inClass) fun _ =>
        Abreast (I i) R := by
  refine each fun s t here => ?_
  refine (eatCodeTo (J := (· = s.pos)) (K := fun j => I i { s with pos := j }) (E := fun a b =>
    a = { s with pos := 0 } ∧ b = { t with pos := 0 }) fun j code there stands is => ?_).mono (fun p q both => ?_)
    fun code p q after => ?_
  · subst there
    by_cases slash : code = '\\'.toNat
    · exact here.1 (slash ▸ stands) (slash ▸ is)
    · exact course.skips here.2.1 stands slash fun same => by cases (same ▸ is).symm.trans bracket
  · obtain ⟨rfl, rfl⟩ := both
    exact ⟨here.2.same, rfl, rfl, rfl⟩
  · refine Pinned.abreast (I := I i) here.2.2 (after.mono fun j there => ?_)
    cases code with
    | some code => exact there
    | none => exact there ▸ here.2.1

section

variable {inner : PatternM Unit} (mirrors : ∀ i n first outer, Mirror d named (fun p q =>
    Standing d n (Entering d first outer) p ∧ Abreast (I i) R p q) inner fun _ => Abreast (I i) R)

include mirrors

theorem closedDisjunction : Mirror d named (fun p q => Standing d n (Entering d first outer) p ∧ Abreast (I i) R p q)
    (closedDisjunction inner) fun _ => Abreast (I i) R := by
  refine bind (mirrors i n first outer) fun _ => bind (eatAbreast course rfl rfl) fun eaten => ?_
  cases eaten with
  | true => exact pure fun _ _ here => here
  | false => exact throw

theorem assertion (within : Within d place r o) : Mirror d named (fun p q => Here d n r o w p ∧ Abreast (I i) R p q)
    (assertion inner) fun _ => Abreast (I i) R := by
  rw [assertion_eq]
  refine pin fun s t here abreast => at' (fun p q here => here.2.same) fun start => fact (c := start = s.pos)
    (fun _ _ here => here.2.symm.trans here.1.1.2) fun start => ?_
  subst start
  refine bind (R := fun head => bif head.isSome then Abreast (I i) R else Pinned (I i) s t) ?_ fun head => ?_
  · refine bind (R := fun head p q => Begins d (n + 1) place o.begun (fun _ => True) head p ∧ Pinned (I i) s t p q)
      (((assertionHead course).along ((assertionHead_steps within s.pos).weaken fun head p begins => ?_)).mono
        (fun p q here => ⟨⟨⟨here.1.1.1.outline, here.1.1.1.bound, here.2⟩, here.1.1.1.record⟩, here.1.2⟩)
        fun _ _ _ done => done) fun head => ?_
    · match head with
      | none => trivial
      | some (false, _) => exact begins
      | some (true, _) => exact begins
    · match head with
      | none => exact pure fun _ _ here => here.2
      | some (false, _) => exact pure fun _ _ here => here.2.abreast abreast.2
      | some (true, _) =>
        refine bind ((closedDisjunction course mirrors).mono (fun _ _ here => ⟨here.1, here.2.abreast abreast.2⟩)
          fun _ _ _ done => done) fun _ => pure fun _ _ here => here
  · cases head with
    | some head => exact pure fun _ _ here => here
    | none =>
      refine bind (R := fun _ => Pinned (I i) s t) (Keeps.moveTo abreast.1) fun _ => ?_
      exact pure fun _ _ pinned => pinned.abreast abreast.2

theorem uncapturingGroup (within : Within d place r o) :
    Mirror d named (fun p q => Here d n r o w p ∧ Abreast (I i) R p q)
    (uncapturingGroup inner) fun _ => Abreast (I i) R := by
  rw [uncapturingGroup_eq]
  refine pin fun s t here abreast => at' (fun p q here => here.2.same) fun start => fact (c := start = s.pos)
    (fun _ _ here => here.2.symm.trans here.1.1.2) fun start => ?_
  subst start
  refine bind ((along (uncapturingHead course) (uncapturingHead_steps within)).mono
    (fun p q here => here.1.imp_left And.left)
    fun _ _ _ done => done) fun head => ?_
  cases head with
  | true =>
    refine bind ((closedDisjunction course mirrors).mono (fun _ _ here => ⟨here.1, here.2.abreast abreast.2⟩)
      fun _ _ _ done => done) fun _ => pure fun _ _ here => here
  | false =>
    refine bind (R := fun _ => Pinned (I i) s t) (forget (Keeps.moveTo abreast.1)) fun _ => ?_
    exact pure fun _ _ pinned => pinned.abreast abreast.2

theorem capturingGroup (within : Within d place r o) (inside : place ≠ []) :
    Mirror d named (fun p q => Here d n r o w p ∧ Abreast (I i) R p q) (capturingGroup inner) fun _ =>
      Abreast (I i) R := by
  rw [capturingGroup_eq]
  refine bind (along' (capturingHead_steps within inside) (capturingHead course ⟨within.plain, within.outside⟩))
    fun matched => ?_
  cases matched with
  | false => exact pure fun _ _ here => here.2
  | true =>
    refine each fun s t here => ?_
    obtain ⟨entering, j, abreast, closes⟩ := here
    have closed : Mirror d named (fun p q => Standing d (n + 1) (Entering d o.begun place) p ∧ Abreast (I j) R p q)
        (RegExp.closedDisjunction inner) fun _ => Abreast (I j) R := closedDisjunction course mirrors
    refine bind (closed.mono (fun p q both => ?_) fun _ _ _ done => done) fun _ =>
      bind (R := fun _ => Abreast (I i) R) ?_ fun _ => pure fun _ _ here => here
    · obtain ⟨rfl, rfl⟩ := both
      exact ⟨entering, abreast⟩
    · exact modify closes (fun _ _ => rfl) fun _ => rfl

end

/-! ### Terms -/

omit course [d.Narrow] in
/-- A step is tried, then the others. -/
theorem anyMatch_cons {A K F : Progress → Prop} {T : Progress → Progress → Prop} {step : PatternM Bool}
    {steps : List (PatternM Bool)} (alone : Steps d A step (Either F K))
    (mirror : Mirror d named (fun p q => A p ∧ T p q) step fun _ => T)
    (rest : Mirror d named (fun p q => K p ∧ T p q) (anyMatch steps) fun _ => T) :
    Mirror d named (fun p q => A p ∧ T p q) (anyMatch (step :: steps)) fun _ => T := by
  refine bind (along' alone mirror) fun matched => ?_
  cases matched with
  | true => exact pure fun _ _ here => here.2
  | false => exact rest

omit course [d.Narrow] in
theorem anyMatch_last {P T : Progress → Progress → Prop} {step : PatternM Bool}
    (mirror : Mirror d named P step fun _ => T) :
    Mirror d named P (anyMatch [step]) fun _ => T :=
  bind mirror fun _ => ite (fun _ => pure fun _ _ here => here) fun _ => pure fun _ _ here => here

/-- How an escape outside classes is read is left open: what is known of where it stands, and that the
backslash is moved past if it is left to stand for itself. -/
def Escapes (d : Dialect) (named : Bool) (I : ι → Progress → Prop) (R : List String → List String → Prop)
    (Calm : Nat → Prop) : Prop :=
  ∀ {i n r o w}, o.Clear → (∀ j, w j → Calm j) → Mirror d named (fun p q => Here d n r o w p ∧
    Abreast (I i) R p q) escapedAtom
    fun matched p q => (matched = false → d.units[p.pos]? = some '\\'.toNat → I i { p with pos := p.pos + 1 }) ∧
      Abreast (I i) R p q

section

variable {Calm : Nat → Prop} (escapes : Escapes d named I R Calm) (neutral : d.NeutralInside named)
  {inner : PatternM Unit} (reads : ∀ n first outer,
    Steps d (Standing d n (Entering d first outer)) inner fun _ => Reading d n (Leaving d first outer))
  (mirrors : ∀ i n first outer, Mirror d named (fun p q =>
    Standing d n (Entering d first outer) p ∧ Abreast (I i) R p q) inner fun _ => Abreast (I i) R)

include escapes neutral reads mirrors

theorem strictAtom (within : Within d place r o) (inside : place ≠ []) (calm : ∀ j, w j → Calm j) (depth : Nat) :
    Mirror d named (fun p q => Here d n r o w p ∧ Abreast (I i) R p q) (strictAtom inner depth) fun _ =>
      Abreast (I i) R := by
  have clear : o.Clear := ⟨within.plain, within.outside⟩
  refine anyMatch_cons (.bind (.eatRun_isEmpty (by decide) within.plain) fun codes => .pure fun _ here => here)
    (forget (bind (Keeps.abreast (fun _ _ glides => .eatRun glides (by decide)) (course.glides i)) fun _ =>
      pure fun _ _ here => here)) ?_
  refine anyMatch_cons (.eatenPlain rfl within.plain) (forget (eatAbreast course rfl rfl)) ?_
  refine anyMatch_cons (escapedAtom_steps within.plain) ((escapes clear fun j there => calm j there.1.1).weaken
    fun _ _ _ here => here.2) ?_
  refine anyMatch_cons (characterClass_steps within.plain within.outside depth)
    (classAbreast course clear neutral depth) ?_
  refine anyMatch_cons (uncapturingGroup_steps reads within) (uncapturingGroup course mirrors within) ?_
  refine anyMatch_cons (capturingGroup_steps reads within inside) (capturingGroup course mirrors within inside) ?_
  exact pure fun _ _ here => here.2

omit escapes neutral reads mirrors [d.Narrow] in
theorem lenientCode : Mirror d named (fun p q => (d.at? d.unicode p.pos = some '\\'.toNat →
      I i { p with pos := d.next d.unicode p.pos }) ∧ Abreast (I i) R p q)
    (do return (← eatCode isLenientCharacter).isSome) fun _ => Abreast (I i) R :=
  bind ((eatCodeAbreast course rfl).mono (fun _ _ here => ⟨fun slash _ => here.1 slash, here.2⟩) fun _ _ _ done => done)
    fun _ => pure fun _ _ here => here

theorem lenientAtom (within : Within d place r o) (inside : place ≠ []) (calm : ∀ j, w j → Calm j) (depth : Nat) :
    Mirror d named (fun p q => Here d n r o w p ∧ Abreast (I i) R p q) (lenientAtom inner depth) fun _ =>
      Abreast (I i) R := by
  have clear : o.Clear := ⟨within.plain, within.outside⟩
  refine each fun s t here => ?_
  obtain ⟨here, abreast⟩ := here
  have at' : Here d n r o (· = s.pos) s := ⟨⟨here.outline, here.bound, rfl⟩, here.record⟩
  by_cases slash : d.units[s.pos]? = some '\\'.toNat
  · -- If no escape matches, nothing else but a character that stands for itself begins with a backslash.
    have others {p q : Progress} {cs : List Char} (pos : p.pos = s.pos) (same : p.pos = q.pos) (safe : '\\' ∉ cs) :
        p.pos = q.pos ∧ ∀ c ∈ cs, d.at? d.unicode p.pos ≠ some c.toNat := by
      refine ⟨same, fun c mem stands => safe ?_⟩
      rw [pos, (Dialect.next_of_unit (c := '\\') rfl slash d.unicode).1] at stands
      exact Char.toNat_inj.1 (Option.some.inj stands) ▸ mem
    refine becomes ['.'] (fun e p other => anyMatch_missed (eat_missed (other _ (.head _)))) (fun p q both => ?_) ?_
    · obtain ⟨rfl, rfl⟩ := both
      exact others rfl abreast.same (of_decide_eq_true rfl)
    · refine bind (R := fun matched p q => (matched = false → p.pos = s.pos ∧ I i { p with pos := p.pos + 1 }) ∧
        Abreast (I i) R p q) ?_ fun matched => ?_
      · refine (along' (escapedAtom_steps (n := n) (r := r) within.plain) (escapes clear fun j (there : j = s.pos) =>
          there ▸ calm _ here.offset)).mono (fun p q both => ?_) fun matched p q after => ⟨fun missed => ?_, after.2.2⟩
        · obtain ⟨rfl, rfl⟩ := both
          exact ⟨at', abreast⟩
        · subst missed
          have pos : p.pos = s.pos := after.1.offset.1
          exact ⟨pos, after.2.1 rfl (pos ▸ slash)⟩
      · cases matched with
        | true => exact pure fun _ _ here => here.2
        | false =>
          refine ifFalse (becomes _ (fun e p => atom_missed) (fun p q both => others (both.1 rfl).1 both.2.same
            (of_decide_eq_true rfl))
              (anyMatch_last ((lenientCode course).mono (fun p q both => ⟨fun stands => ?_, both.2⟩)
              fun _ _ _ done => done)))
          obtain ⟨pos, skips⟩ := both.1 rfl
          rw [(Dialect.at?_char stands (of_decide_eq_true rfl)).2]
          exact skips
  · refine Mirror.mono (P := fun p q => Here d n r o (· = s.pos) p ∧ Abreast (I i) R p q) ?_ (fun p q both => ?_)
      fun _ _ _ done => done
    · refine anyMatch_cons (.eatenPlain rfl within.plain) (forget (eatAbreast course rfl rfl)) ?_
      refine anyMatch_cons (escapedAtom_steps within.plain) ((escapes clear fun j there => by
        rw [there.1]; exact calm _ here.offset).weaken fun _ _ _ here => here.2) ?_
      refine anyMatch_cons (characterClass_steps within.plain within.outside depth)
        (classAbreast course clear neutral depth) ?_
      refine anyMatch_cons (uncapturingGroup_steps reads within) (uncapturingGroup course mirrors within) ?_
      refine anyMatch_cons (capturingGroup_steps reads within inside) (capturingGroup course mirrors within inside) ?_
      refine anyMatch_cons (F := fun _ => True) (strayQuantifier_steps within.plain)
        (forget (Keeps.abreast (fun _ _ glides =>
        .strayQuantifier glides) (course.glides i))) ?_
      refine anyMatch_last ((lenientCode course).mono (fun p q both =>
        ⟨fun stands => ?_, both.2⟩) fun _ _ _ done => done)
      rw [both.1.offset.1.1.1.1] at stands
      exact absurd (Dialect.at?_char stands (of_decide_eq_true rfl)).1 slash
    · obtain ⟨rfl, rfl⟩ := both
      exact ⟨at', abreast⟩

omit escapes neutral reads mirrors [d.Narrow] in
/-- Behind a dangling backslash stands a code that is taken for itself, if any. -/
theorem lenientAtom_dangling (depth : Nat) : Mirror d named (fun p q => d.Dangles p.pos ∧ Abreast (I i) R p q)
    (RegExp.lenientAtom inner depth) fun _ => Abreast (I i) R := by
  refine becomes ['.', '\\', '[', '(', '{'] (fun e p other => ?_) (fun p q here => ⟨here.2.same, fun c mem => ?_⟩)
    (anyMatch_last ((lenientCode course).mono (fun p q here => ⟨fun stands => ?_, here.2⟩) fun _ _ _ done => done))
  · simp only [List.mem_cons, List.not_mem_nil, or_false, forall_eq_or_imp, forall_eq] at other
    refine (anyMatch_missed (eat_missed other.1)).trans ((anyMatch_missed (escapedAtom_missed other.2.1)).trans
      (atom_missed ?_))
    simp only [List.mem_cons, List.not_mem_nil, or_false, forall_eq_or_imp, forall_eq]
    exact other.2.2
  · refine Steps.at?_of_dangles ?_ p.pos here.1
    simp only [List.mem_cons, List.not_mem_nil, or_false] at mem
    rcases mem with rfl | rfl | rfl | rfl | rfl <;> rfl
  · exact absurd stands (Steps.at?_of_dangles rfl p.pos here.1)

omit course escapes neutral reads mirrors [d.Narrow] in
theorem assertion_dangling : Mirror d named (fun p q => d.Dangles p.pos ∧ Abreast (I i) R p q)
    (RegExp.assertion inner) fun head p q => head = none ∧ d.Dangles p.pos ∧ Abreast (I i) R p q := by
  refine becomes _ (y := Pure.pure none) (fun e p other => assertion_missed other)
    (fun p q here => ⟨here.2.same, fun c mem => ?_⟩)
    (pure fun _ _ here => ⟨rfl, here⟩)
  refine Steps.at?_of_dangles ?_ p.pos here.1
  simp only [List.mem_cons, List.not_mem_nil, or_false] at mem
  rcases mem with rfl | rfl | rfl | rfl <;> rfl

theorem term (inside : place ≠ []) (depth : Nat) :
    Mirror d named (fun p q => (Reading d n (Within d place) p ∧ Calm p.pos) ∧ Abreast (I i) R p q) (term inner depth)
      fun _ => Abreast (I i) R := by
  have quantified (matched : Bool) : Mirror d named (Abreast (I i) R) (do
      if matched then let _ ← quantifier false; return true else return false : PatternM Bool) fun _ =>
        Abreast (I i) R :=
    ite (fun _ => bind (Keeps.abreast (fun _ _ glides => .quantifier glides false) (course.glides i)) fun _ =>
      pure fun _ _ here => here) fun _ => pure fun _ _ here => here
  refine each fun s t here => read ?_ rfl
  obtain ⟨⟨⟨r, o, within, here | here⟩, calm⟩, abreast⟩ := here
  · have at' : Here d n r o (· = s.pos) s := ⟨⟨here.outline, here.bound, rfl⟩, here.record⟩
    refine bind (R := fun head p q => Either (fun _ => True) (Here d n r o (· = s.pos)) head.isSome p ∧
      Abreast (I i) R p q)
      ((along' (assertion_steps (n := n) (w := (· = s.pos)) reads within) (assertion course mirrors within)).mono
        (fun p q both => ?_)
        fun head p q after => ⟨?_, after.2⟩) fun head => ?_
    · obtain ⟨rfl, rfl⟩ := both
      exact ⟨at', abreast⟩
    · cases head with
      | some head => trivial
      | none => exact after.1.mono fun _ both => both.1
    · cases head with
      | some quantifiable =>
        refine forget (ite (fun _ => bind (Keeps.abreast (fun _ _ glides => .quantifier glides false) (course.glides i))
          fun _ => ite (fun _ => ?_) fun _ => pure fun _ _ here => here) fun _ => pure fun _ _ here => here)
        exact ite (fun _ => throwing) fun _ => pure fun _ _ here => here
      | none =>
        have calm' : ∀ j, j = s.pos → Calm j := fun j there => there ▸ calm
        refine ite (fun strict => ?_) fun lenient => ?_
        · exact bind (strictAtom course escapes neutral reads mirrors within inside calm' depth) quantified
        · exact bind (lenientAtom course escapes neutral reads mirrors within inside calm' depth) quantified
  · refine bind ((assertion_dangling (I := I) (i := i) (R := R)).mono (fun p q both => ?_) fun _ _ _ done =>
      done) fun head => ?_
    · obtain ⟨rfl, rfl⟩ := both
      exact ⟨here.offset, abreast⟩
    · refine fact (c := head = none ∧ d.unicode = false) (fun _ _ here => ⟨here.1, here.2.1.1⟩) fun known => ?_
      obtain ⟨rfl, lenient⟩ := known
      refine ite (fun strict => absurd strict (by simp [lenient])) fun _ => ?_
      exact bind ((lenientAtom_dangling course depth).mono (fun _ _ here => here.2) fun _ _ _ done => done) quantified

end

/-! ### Disjunctions -/

omit [d.Narrow] in
/-- What an alternative records depends on no reference. -/
theorem recording {x : PatternM Unit} {f : Bool → Array Branch → Option Nat → Array Branch × Option Nat}
    (runs : ∀ e p, x e p = .ok () { p with
      branches := (f (Dialect.tracksBranches e) p.branches p.branch).1
      branch := (f (Dialect.tracksBranches e) p.branches p.branch).2 }) :
    Mirror d named (Abreast (I i) R) x fun _ => Abreast (I i) R := by
  rintro p q a p' ⟨there, same, related⟩ run
  rw [runs] at run
  cases run
  exact ⟨_, runs _ _, course.records p.names _ _ there, (Beside.both ⟨same, related⟩
    (f := fun p => { p with
      branches := (f d.tracksBranches p.branches p.branch).1
      branch := (f d.tracksBranches p.branches p.branch).2 }) (fun _ _ => rfl) fun _ => rfl)⟩

omit [d.Narrow] in
theorem openBranch : Mirror d named (Abreast (I i) R) openBranch fun _ => Abreast (I i) R := by
  refine recording course (f := fun tracks branches branch =>
    if tracks then (branches.push ⟨branch, branches.size⟩, some branches.size) else (branches, branch)) fun e p => ?_
  unfold RegExp.openBranch
  rw [run_bind read_run]
  cases e.tracksBranches <;> rfl

omit [d.Narrow] in
theorem nextBranch : Mirror d named (Abreast (I i) R) nextBranch fun _ => Abreast (I i) R := by
  refine recording course (f := fun tracks branches branch =>
    (branch.bind fun id => branches[id]?).elim (branches, branch)
    fun current => if tracks then (branches.push ⟨current.parent, current.base⟩, some branches.size)
      else (branches, branch))
    fun e p => ?_
  unfold RegExp.nextBranch
  rw [run_bind read_run, show p.branch.bind (fun id => p.branches[id]?) = p.current? from rfl]
  cases current : p.current? with
  | none =>
    cases e.tracksBranches with
    | false => rfl
    | true => rw [if_pos rfl, run_bind get_run, current]; rfl
  | some found =>
    cases e.tracksBranches with
    | false => rfl
    | true => rw [if_pos rfl, run_bind get_run, current]; rfl

omit [d.Narrow] in
theorem closeBranch : Mirror d named (Abreast (I i) R) closeBranch fun _ => Abreast (I i) R := by
  refine recording course (f := fun tracks branches branch =>
    if tracks then (branches, (branch.bind fun id => branches[id]?).bind (·.parent))
      else (branches, branch)) fun e p => ?_
  unfold RegExp.closeBranch
  rw [run_bind read_run]
  cases e.tracksBranches <;> rfl

/-- How a whole alternative is read is left open, given how the disjunctions inside are. -/
def Alternates (d : Dialect) (named : Bool) (I : ι → Progress → Prop) (R : List String → List String → Prop) : Prop :=
  ∀ {inner : PatternM Unit} (depth : Nat),
    (∀ n first outer, Steps d (Standing d n (Entering d first outer)) inner fun _ =>
      Reading d n (Leaving d first outer)) →
    (∀ i n first outer, Mirror d named (fun p q => Standing d n (Entering d first outer) p ∧ Abreast (I i) R p q) inner
      fun _ => Abreast (I i) R) →
    ∀ {i : ι} {n : Nat} {place : Place}, place ≠ [] → Mirror d named (fun p q =>
      Reading d n (Within d place) p ∧ Abreast (I i) R p q) (alternative inner depth) fun _ => Abreast (I i) R

/-- Where both runs read every escape alike, they read every term alike. -/
theorem alternates_of_escapes (escapes : Escapes d named I R fun _ => True) (neutral : d.NeutralInside named) :
    Alternates d named I R := by
  intro inner depth reads mirrors i n place inside
  refine (exhaust (P := fun p q => Reading d n (Within d place) p ∧ Abreast (I i) R p q)
    (fun _ _ here => here.2.same) ?_).weaken
    fun _ _ _ here => here.2
  refine (along' (term_steps reads inside depth) ((term course escapes neutral reads mirrors inside depth).mono
    (fun _ _ here => ⟨⟨here.1, trivial⟩, here.2⟩) fun _ _ _ done => done)).weaken fun matched p q after => ⟨?_, after.2⟩
  cases matched with
  | true => exact after.1.mono (Nat.le_succ n) fun _ _ is => is
  | false => exact after.1.1

variable (alternates : Alternates d named I R)
include alternates

theorem alternatives {inner : PatternM Unit} (reads : ∀ n first outer,
      Steps d (Standing d n (Entering d first outer)) inner fun _ => Reading d n (Leaving d first outer))
    (mirrors : ∀ i n first outer, Mirror d named (fun p q =>
      Standing d n (Entering d first outer) p ∧ Abreast (I i) R p q) inner fun _ => Abreast (I i) R)
        (depth fuel : Nat) :
    ∀ n first outer, Mirror d named (fun p q => Stopped d n (Among d first outer) d.Stuck p ∧ Abreast (I i) R p q)
      (alternatives inner depth fuel) fun _ => Abreast (I i) R := by
  induction fuel with
  | zero => exact fun _ _ _ => pure fun _ _ here => here.2
  | succ fuel ih =>
    refine fun n first outer => bind (along (eatAbreast course rfl rfl) eatBar_steps) fun matched => ?_
    cases matched with
    | false => exact pure fun _ _ here => here.2
    | true =>
      have next (begun : Nat) : Mirror d named (fun p q => Standing d (n + 1) (Turning d first begun outer) p ∧
          Abreast (I i) R p q)
          (do RegExp.nextBranch; alternative inner depth; RegExp.alternatives inner depth fuel) fun _ =>
            Abreast (I i) R := by
        refine bind (along (nextBranch course) nextBranch_steps) fun _ => ?_
        refine bind (along' ((alternative_steps reads (List.cons_ne_nil _ _) depth).mono (fun _ => Standing.reading)
          fun _ _ done => done) ((alternates depth reads mirrors (List.cons_ne_nil _ _)).mono
            (fun _ _ here => ⟨here.1.reading, here.2⟩) fun _ _ _ done => done)) fun _ => ?_
        refine (ih (n + 1) first outer).mono (fun p q here => ⟨?_, here.2⟩) fun _ _ _ done => done
        exact here.1.mono (Nat.le_refl _) (fun _ _ within => ⟨_, within⟩) fun _ stuck => stuck
      rintro p q a p' ⟨⟨begun, turning⟩, abreast⟩ run
      exact next begun p q a p' ⟨turning, abreast⟩ run

theorem disjunction (depth : Nat) : ∀ i n first outer, Mirror d named (fun p q =>
    Standing d n (Entering d first outer) p ∧ Abreast (I i) R p q) (disjunction depth) fun _ => Abreast (I i) R := by
  induction depth with
  | zero => exact fun _ _ _ _ => throw
  | succ depth ih =>
    have reads : ∀ n first outer, Steps d (Standing d n (Entering d first outer)) (RegExp.disjunction depth)
        fun _ => Reading d n (Leaving d first outer) :=
      fun n first outer => (disjunction_steps depth n first outer).weaken fun _ _ => Stopped.reading
    intro i n first outer
    refine bind (along (openBranch course) openBranch_steps) fun _ => ?_
    refine bind (along' ((alternative_steps reads (List.cons_ne_nil _ _) depth).mono (fun _ => Standing.reading)
      fun _ _ done => done) ((alternates depth reads ih (List.cons_ne_nil _ _)).mono
        (fun _ _ here => ⟨here.1.reading, here.2⟩) fun _ _ _ done => done)) fun _ => ?_
    refine read (bind ((alternatives course alternates reads ih depth _ n first outer).mono
      (fun p q here => ⟨?_, here.2⟩)
      fun _ _ _ done => done) fun _ => ?_) rfl
    · exact here.1.mono (Nat.le_refl _) (fun _ _ within => ⟨first, within⟩) fun _ stuck => stuck
    · refine bind (closeBranch course) fun _ => ?_
      refine bind (Keeps.abreast (fun _ _ glides => .quantifier glides true) (course.glides i)) fun _ => ?_
      refine ite (fun _ => throwing) fun _ => bind (eatAbreast course rfl rfl) fun _ => ?_
      exact ite (fun _ => throw) fun _ => pure fun _ _ here => here

end Mirror

end RegExp
end ScriptSyntax
