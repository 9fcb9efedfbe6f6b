import ScriptSyntax.Number.Digits
import ScriptSyntax.Proofs.RegExp.Disjunction
import ScriptSyntax.Proofs.RegExp.MirrorClass
import ScriptSyntax.Proofs.RegExp.Name

/-!
What a run leaves behind it: it only moves forward and not past the end, it counts no more groups than
the outline has by then, and it takes note of every reference that it moves past.
-/

namespace ScriptSyntax
namespace RegExp

variable {α β : Type} {d : Dialect}

/-! ### Runs that do not fail -/

/-- A step that does not fail gets from where `P` holds to where `Q` does. -/
def Ends (d : Dialect) (P : Progress → Prop) (step : PatternM α) (Q : α → Progress → Prop) : Prop :=
  ∀ p a p', P p → step d p = .ok a p' → Q a p'

theorem Steps.ends {P : Progress → Prop} {R : α → Progress → Prop} {x : PatternM α} (steps : Steps d P x R) :
    Ends d P x R := by
  intro p a p' here run
  have done := steps p here
  rwa [run] at done

/-- The states are one, but for the cursor. -/
def Same (p a b : Progress) : Prop := a = { p with pos := 0 } ∧ a = b

theorem Twin.of_same {I : Progress → Prop} {p a b : Progress}
    (twin : Twin (fun j => I { p with pos := j }) (Same p) a b) :
    I a := by
  have rest : a = { p with pos := a.pos } := by
    have same := twin.rest.1
    cases a
    cases p
    cases same
    rfl
  rw [rest]
  exact twin.offset

/-- A step that only moves the cursor, set beside itself. -/
theorem Mirror.ends {A I : Progress → Prop} {x : PatternM α}
    (each : ∀ p, A p → I p → Mirror d d.namedGroups (fun a b => a = p ∧
      Twin (fun j => I { p with pos := j }) (Same p) a b) x
      fun _ => Twin (fun j => I { p with pos := j }) (Same p)) : Ends d (fun p => A p ∧ I p) x fun _ => I := by
  intro p a p' here run
  obtain ⟨q', -, twin⟩ := each p here.1 here.2 p p a p' ⟨rfl, rfl, here.2, rfl, rfl⟩ run
  exact twin.of_same

/-- So is a step that keeps its cursor wherever cursors may glide to. -/
theorem Keeps.ends {I : Progress → Prop} {x : PatternM α}
    (keeps : ∀ (J : Nat → Prop) (E : Progress → Progress → Prop), d.Glides J → Keeps d d.namedGroups J E x)
    (glides : ∀ p : Progress, d.Glides fun j => I { p with pos := j }) : Ends d I x fun _ => I := by
  intro p a p' here run
  refine Mirror.ends (A := fun _ => True) (fun p _ _ => ?_) p a p' ⟨trivial, here⟩ run
  exact (keeps _ (Same p) (glides p)).mono (fun _ _ here => here.2) fun _ _ _ done => done

namespace Ends

variable {P P' I : Progress → Prop} {Q : β → Progress → Prop} {R R' : α → Progress → Prop}

theorem bind {x : PatternM α} {f : α → PatternM β} (first : Ends d P x R) (rest : ∀ a, Ends d (R a) (f a) Q) :
    Ends d P (x >>= f) Q := by
  intro p b p' here run
  obtain ⟨a, r, runs, ends⟩ := bind_eq_ok.1 run
  exact rest a r b p' (first p a r here runs) ends

theorem mono {x : PatternM α} (ends : Ends d P x R) (before : ∀ p, P' p → P p) (after : ∀ a p, R a p → R' a p) :
    Ends d P' x R' := fun p a p' here run => after a p' (ends p a p' (before p here) run)

theorem weaken {x : PatternM α} (ends : Ends d P x R) (after : ∀ a p, R a p → R' a p) : Ends d P x R' :=
  ends.mono (fun _ here => here) after

/-- What is known of a step is known beside something else. -/
theorem along {A : Progress → Prop} {x : PatternM α} (ends : Ends d (fun p => A p ∧ I p) x fun _ => I)
    (steps : Steps d A x R) : Ends d (fun p => A p ∧ I p) x fun a p => R a p ∧ I p :=
  fun p a p' here run => ⟨steps.ends p a p' here.1 run, ends p a p' here run⟩

theorem forget {A : Progress → Prop} {x : PatternM α} (ends : Ends d I x R) : Ends d (fun p => A p ∧ I p) x R :=
  ends.mono (fun _ here => here.2) fun _ _ done => done

theorem pure {a : α} (done : ∀ p, P p → R a p) : Ends d P (pure a) R := by
  intro p _ p' here run
  cases run
  exact done p here

theorem throw {fault : Fault} : Ends d P (throw fault : PatternM α) R := fun _ _ _ _ run => by cases run

theorem throwing {fault : Fault} {f : α → PatternM β} : Ends d P (MonadExcept.throw fault >>= f) Q :=
  fun _ _ _ _ run => by cases run

theorem read {f : Dialect → PatternM β} (rest : Ends d P (f d) Q) : Ends d P (read >>= f) Q := rest

theorem get {f : Progress → PatternM β} (rest : ∀ p, P p → Ends d (· = p) (f p) Q) : Ends d P (get >>= f) Q :=
  fun p b p' here run => rest p here p b p' rfl run

theorem modify {f : Progress → Progress} {R : Unit → Progress → Prop} (done : ∀ p, P p → R () (f p)) :
    Ends d P (modify f) R := by
  intro p _ p' here run
  cases run
  exact done p here

theorem moveTo {i : Nat} {R : Unit → Progress → Prop} (done : ∀ p, P p → R () { p with pos := i }) :
    Ends d P (moveTo i) R := modify done

theorem ite {c : Prop} [Decidable c] {x y : PatternM α} (yes : c → Ends d P x R) (no : ¬ c → Ends d P y R) :
    Ends d P (if c then x else y) R := by
  split
  · exact yes ‹_›
  · exact no ‹_›

theorem position {f : Nat → PatternM β} (rest : ∀ i, Ends d (fun p => P p ∧ p.pos = i) (f i) Q) :
    Ends d P (position >>= f) Q := fun p b p' here run => rest p.pos p b p' ⟨here, rfl⟩ run

theorem fact {c : Prop} {x : PatternM α} (known : ∀ p, P p → c) (ends : c → Ends d P x R) : Ends d P x R :=
  fun p a p' here run => ends (known p here) p a p' here run

/-- A step that matches, or leaves what is known as it was. -/
theorem attempt {A F : Progress → Prop} {step : PatternM Bool} (ends : Ends d (fun p => A p ∧ I p) step fun _ => I)
    (steps : Steps d A step (Either F A)) : Ends d (fun p => A p ∧ I p) step (Either I fun p => A p ∧ I p) := by
  refine (ends.along steps).weaken fun matched p here => ?_
  cases matched with
  | true => exact here.2
  | false => exact here

theorem attemptSome {A F : Progress → Prop} {x : PatternM (Option α)} (ends : Ends d (fun p => A p ∧ I p) x fun _ => I)
    (steps : Steps d A x fun a => Either F A a.isSome) :
    Ends d (fun p => A p ∧ I p) (do return (← x).isSome) (Either I fun p => A p ∧ I p) := by
  refine bind (ends.along steps) fun a => pure fun p here => ?_
  cases a with
  | some a => exact here.2
  | none => exact here

/-- One of several steps that matches, or the next ones are tried. -/
theorem anyMatch_cons {F K M : Progress → Prop} {step : PatternM Bool} {steps : List (PatternM Bool)}
    (first : Ends d P step (Either F K)) (rest : Ends d K (RegExp.anyMatch steps) (Either F M)) :
    Ends d P (RegExp.anyMatch (step :: steps)) (Either F M) := by
  refine bind first fun matched => ?_
  cases matched with
  | true => exact pure fun _ here => here
  | false => exact rest

end Ends

/-! ### References and groups, read off the outline -/

/-- A backslash that is itself not escaped and stands outside classes, and the unit that it escapes. -/
structure Dialect.EscapeAt (d : Dialect) (i unit : Nat) : Prop where
  plain : (d.before i).escaped = false
  outside : (d.before i).classes = 0
  backslash : d.units[i]? = some '\\'.toNat
  escapes : d.units[i + 1]? = some unit

/-- The number that the digits from an offset on write. -/
def Dialect.numberFrom (d : Dialect) (i : Nat) : Nat :=
  (d.run isDigitCode (d.units.size + 1) i).1.foldl (fun total digit => total * 10 + (digit - '0'.toNat)) 0

/-- The name, escapes decoded, that a reference gives whose backslash stands at an offset. -/
def Dialect.referenceAt? (d : Dialect) (i : Nat) : Option String :=
  match groupName d { pos := i + 2 } with
  | .ok name _ => name
  | .error _ _ => none

/-- The name of a reference is the one that is written between brackets behind its letter. -/
theorem Dialect.referenceAt?_eq_some [d.Narrow] {i : Nat} {name : String} :
    d.referenceAt? i = some name ↔ ∃ j, d.WritesGroupName (i + 2) name j := by
  unfold Dialect.referenceAt?
  constructor
  · intro named
    split at named
    · next run =>
      cases named
      exact ⟨_, groupName_writes run⟩
    · cases named
  · rintro ⟨j, writes⟩
    rw [groupName_of_writes (p := { pos := i + 2 }) writes]

/-- Does a group capture?  Of those with a question mark, only those with a name do. -/
def Dialect.captures (d : Dialect) (i : Nat) : Bool :=
  d.units[i + 1]? != some '?'.toNat || (d.nameAt? i).isSome

/-- The capturing groups that begin before an offset. -/
def Dialect.capturing (d : Dialect) (n : Nat) : Nat :=
  ((d.before n).groups.filter fun group => d.captures group.1).length

/-- If a reference stands there, the run has taken note of it. -/
structure Noted (d : Dialect) (p : Progress) (i : Nat) : Prop where
  number : d.unicode = true → ∀ unit, d.EscapeAt i unit → isDigitCode unit = true → unit ≠ '0'.toNat →
    min (d.numberFrom (i + 1)) maxNumber ≤ p.maxReference
  name : d.namedGroups = true → d.EscapeAt i 'k'.toNat → ∃ name ∈ p.references, d.referenceAt? i = some name

/-- What a run has done between two states. -/
structure Trail (d : Dialect) (s p : Progress) : Prop where
  forward : s.pos ≤ p.pos
  bounded : s.pos ≤ d.units.size → p.pos ≤ d.units.size
  counted : p.groups + d.capturing s.pos ≤ s.groups + d.capturing p.pos
  number : s.maxReference ≤ p.maxReference
  references : s.references ⊆ p.references
  noted : ∀ i, s.pos ≤ i → i < p.pos → Noted d p i

/-- No reference that a run takes note of stands there. -/
def Dialect.Idle (d : Dialect) (i : Nat) : Prop := ∀ p, Noted d p i

variable {i : Nat} {s p q : Progress}

theorem Noted.later (noted : Noted d p i) (number : p.maxReference ≤ q.maxReference)
    (references : p.references ⊆ q.references) : Noted d q i :=
  ⟨fun unicode unit escape digit nonzero => Nat.le_trans (noted.number unicode unit escape digit nonzero) number,
    fun named escape => by
      obtain ⟨name, mem, reads⟩ := noted.name named escape
      exact ⟨name, references mem, reads⟩⟩

theorem Trail.refl (p : Progress) : Trail d p p :=
  ⟨Nat.le_refl _, id, Nat.le_refl _, Nat.le_refl _, fun _ mem => mem, fun i above below => by omega⟩

theorem Trail.trans (first : Trail d s p) (second : Trail d p q) : Trail d s q where
  forward := Nat.le_trans first.forward second.forward
  bounded := second.bounded ∘ first.bounded
  counted := by
    have before := first.counted
    have after := second.counted
    omega
  number := Nat.le_trans first.number second.number
  references := fun _ mem => second.references (first.references mem)
  noted i above below := by
    rcases Nat.lt_or_ge i p.pos with early | late
    · exact (first.noted i above early).later second.number second.references
    · exact second.noted i late below

theorem Dialect.idle_of_unit {unit : Nat} (stands : d.units[i]? = some unit) (other : unit ≠ '\\'.toNat) : d.Idle i :=
  fun _ => ⟨fun _ _ escape => absurd (Option.some.inj (stands.symm.trans escape.backslash)) other,
    fun _ escape => absurd (Option.some.inj (stands.symm.trans escape.backslash)) other⟩

theorem Dialect.idle_of_escaped (escaped : (d.before i).escaped = true) : d.Idle i :=
  fun _ => ⟨fun _ _ escape => by simp [escape.plain] at escaped, fun _ escape => by simp [escape.plain] at escaped⟩

theorem Dialect.idle_of_classes (inside : 0 < (d.before i).classes) : d.Idle i :=
  fun _ => ⟨fun _ _ escape => by simp [escape.outside] at inside, fun _ escape => by simp [escape.outside] at inside⟩

theorem Dialect.idle_of_escapes {unit : Nat} (stands : d.units[i + 1]? = some unit)
    (other : isDigitCode unit = false ∧ unit ≠ 'k'.toNat) : d.Idle i := by
  refine fun _ => ⟨fun _ unit' escape digit => ?_, fun _ escape => ?_⟩
  · cases stands.symm.trans escape.escapes
    exact absurd digit (by simp [other.1])
  · cases stands.symm.trans escape.escapes
    exact absurd rfl other.2

theorem Dialect.capturing_mono {m n : Nat} (le : m ≤ n) : d.capturing m ≤ d.capturing n :=
  ((Dialect.groups_prefix le).sublist.filter _).length_le

/-- Only the cursor moves, and past no reference. -/
theorem Trail.move {j : Nat} (trail : Trail d s p) (forward : p.pos ≤ j)
    (bounded : p.pos ≤ d.units.size → j ≤ d.units.size) (idle : ∀ i, p.pos ≤ i → i < j → d.Idle i) :
    Trail d s { p with pos := j } :=
  trail.trans ⟨forward, bounded, by have le := Dialect.capturing_mono (d := d) forward; exact Nat.add_le_add_left le _,
    Nat.le_refl _, fun _ mem => mem, fun i above below => idle i above below _⟩

theorem Dialect.next_le_size [d.Narrow] {joined : Bool} {code : Nat} (stands : d.at? joined i = some code) :
    d.next joined i ≤ d.units.size := by
  obtain ⟨stands, next⟩ | ⟨_, _, -, second, -, -, -, next⟩ := Dialect.at?_cases stands
  · rw [next]
    exact (Array.getElem?_eq_some_iff.1 stands).1
  · rw [next]
    exact (Array.getElem?_eq_some_iff.1 second).1

/-- Past a code that is no backslash, or an idle one. -/
theorem Trail.next [d.Narrow] {joined : Bool} {code : Nat} (trail : Trail d s p)
    (stands : d.at? joined p.pos = some code)
    (idle : code = '\\'.toNat → d.Idle p.pos) : Trail d s { p with pos := d.next joined p.pos } := by
  refine trail.move (d.le_next _ _) (fun _ => Dialect.next_le_size stands) fun i above below => ?_
  obtain ⟨unit, next⟩ | ⟨high, low, first, second, largeHigh, largeLow, -, next⟩ := Dialect.at?_cases stands
  · obtain rfl : i = p.pos := by omega
    by_cases slash : code = '\\'.toNat
    · exact idle slash
    · exact Dialect.idle_of_unit unit slash
  · have large {unit : Nat} (large : 0xd800 ≤ unit) : unit ≠ '\\'.toNat := fun same => absurd (same ▸ large) (by decide)
    obtain rfl | rfl : i = p.pos ∨ i = p.pos + 1 := by omega
    · exact Dialect.idle_of_unit first (large largeHigh)
    · exact Dialect.idle_of_unit second (large largeLow)

/-- Whatever only glides on leaves a trail. -/
theorem Trail.glides [d.Narrow] (s p : Progress) : d.Glides fun j => Trail d s { p with pos := j } where
  plain trail stands plain := trail.next stands fun slash => by simp [slash, Outline.isMark, isOneOf] at plain
  codePoint {i} trail slash letter := by
    refine trail.move (Nat.le_add_right i 2) (fun _ => (Array.getElem?_eq_some_iff.1 letter).1) fun k above below => ?_
    obtain rfl | rfl : k = i ∨ k = i + 1 := by
      have above : i ≤ k := above
      omega
    · exact Dialect.idle_of_escapes letter ⟨rfl, by decide⟩
    · exact Dialect.idle_of_unit letter (by decide)
  escaped trail escaped stands := trail.next stands fun _ => Dialect.idle_of_escaped escaped

/-! ### Classes -/

theorem Outline.classes_le_step {o : Outline} {nested : Bool} {i unit : Nat}
    (other : unit = ']'.toNat → o.escaped = true) : o.classes ≤ (o.step nested i unit).classes := by
  unfold Outline.step
  split
  · exact Nat.le_refl _
  · rename_i plain
    split
    · exact Nat.le_refl _
    · split
      · rw [if_neg fun same => plain (other same)]
        split
        · exact Nat.le_succ _
        · exact Nat.le_refl _
      · rename_i outside
        exact Nat.le_trans (Nat.le_of_not_lt outside) (Nat.zero_le _)

/-- Since a class opened, cursors have not left it. -/
structure Deep (d : Dialect) (first j : Nat) : Prop where
  above : first < j
  bounded : j ≤ d.units.size
  inside : ∀ k, first < k → k ≤ j → 0 < (d.before k).classes

theorem Deep.next [d.Narrow] {first joined code} (deep : Deep d first i) (stands : d.at? joined i = some code)
    (other : code = ']'.toNat → (d.before i).escaped = true) : Deep d first (d.next joined i) := by
  refine ⟨Nat.lt_of_lt_of_le deep.above (d.le_next _ _), Dialect.next_le_size stands, fun k above below => ?_⟩
  have here := deep.inside i deep.above (Nat.le_refl i)
  obtain ⟨unit, next⟩ | ⟨high, low, first, second, largeHigh, largeLow, -, next⟩ := Dialect.at?_cases stands
  · rcases Nat.lt_or_ge i k with later | early
    · obtain rfl : k = i + 1 := by omega
      rw [Dialect.before_succ unit]
      exact Nat.lt_of_lt_of_le here (Outline.classes_le_step other)
    · exact deep.inside k above early
  · have large {unit : Nat} (large : 0xd800 ≤ unit) : unit ≠ ']'.toNat := fun same => absurd (same ▸ large) (by decide)
    have middle : 0 < (d.before (i + 1)).classes := by
      rw [Dialect.before_succ first]
      exact Nat.lt_of_lt_of_le here (Outline.classes_le_step fun same => absurd same (large largeHigh))
    rcases Nat.lt_or_ge i k with later | early
    · obtain rfl | rfl : k = i + 1 ∨ k = i + 1 + 1 := by omega
      · exact middle
      · rw [Dialect.before_succ second]
        exact Nat.lt_of_lt_of_le middle (Outline.classes_le_step fun same => absurd same (large largeLow))
    · exact deep.inside k above early

theorem Deep.dives [d.Narrow] (first : Nat) : d.Dives (Deep d first) where
  plain deep stands plain := deep.next stands fun closes => by simp [closes, Outline.isMark, isOneOf] at plain
  codePoint {i} deep slash letter := by
    obtain ⟨at', next⟩ := Dialect.next_of_unit (c := '\\') rfl slash d.unicode
    have middle : Deep d first (i + 1) := next ▸ deep.next at' fun closes => absurd closes (by decide)
    obtain ⟨at', next⟩ := Dialect.next_of_unit (c := 'u') rfl letter d.unicode
    exact next ▸ middle.next at' fun closes => absurd closes (by decide)
  escaped deep escaped stands := deep.next stands fun _ => escaped
  past deep stands other := deep.next stands other
  closing {i} deep stands inside := by
    refine ⟨Nat.lt_succ_of_lt deep.above, (Array.getElem?_eq_some_iff.1 stands).1, fun k above below => ?_⟩
    rcases Nat.lt_or_ge i k with later | early
    · obtain rfl : k = i + 1 := by omega
      exact inside
    · exact deep.inside k above early

variable [d.Narrow] {n : Nat} {r : Record} {o : Outline} {w : Nat → Prop}

/-! ### Escapes -/

/-- Only the cursor has moved, and left a trail. -/
def Onward (d : Dialect) (s p q : Progress) : Prop := { q with pos := 0 } = { p with pos := 0 } ∧ Trail d s q

theorem Onward.glides (s p q : Progress) : d.Glides fun j => Onward d s p { q with pos := j } where
  plain onward stands plain := ⟨onward.1, (Trail.glides s q).plain onward.2 stands plain⟩
  codePoint onward slash letter := ⟨onward.1, (Trail.glides s q).codePoint onward.2 slash letter⟩
  escaped onward escaped stands := ⟨onward.1, (Trail.glides s q).escaped onward.2 escaped stands⟩

omit [d.Narrow] in
theorem Onward.back (onward : Onward d s p q) : { q with pos := p.pos } = p := by
  have same := onward.1
  cases p
  cases q
  cases same
  rfl

omit [d.Narrow] in
theorem numberOf_run (i : Nat) :
    numberOf 10 ((d.run isDigitCode (d.units.size + 1) i).1.map (· - '0'.toNat)) = min (d.numberFrom i) maxNumber := by
  rw [numberOf_eq (by decide), Number.natOfDigits, List.foldl_map]
  rfl

omit [d.Narrow] in
theorem lt_of_isDigitCode {code : Nat} (digit : isDigitCode code = true) : code < 0xd800 := by
  obtain ⟨c, scalar, is⟩ := (Option.any_eq_true _ _).1 digit
  rw [← scalar?_eq_some scalar]
  have below : c ≤ '9' := of_decide_eq_true (Bool.and_eq_true_iff.1 is).2
  exact Nat.lt_of_le_of_lt (UInt32.le_iff_toNat_le.1 below) (of_decide_eq_true rfl)

omit [d.Narrow] in
/-- Past a reference that the run has taken note of. -/
theorem Trail.past (inside : p.pos < d.units.size) (noted : Noted d q p.pos)
    (trail : Trail d { p with pos := p.pos + 1 } q) :
    Trail d p q := by
  refine ⟨Nat.le_of_succ_le trail.forward, fun _ => trail.bounded inside, ?_, trail.number, trail.references,
    fun i above below => ?_⟩
  · have counted := trail.counted
    have mono := Dialect.capturing_mono (d := d) (Nat.le_add_right p.pos 1)
    dsimp only at counted
    omega
  · rcases Nat.eq_or_lt_of_le above with rfl | later
    · exact noted
    · exact trail.noted i later below

omit [d.Narrow] in
theorem at?_of_digit {unit : Nat} (stands : d.units[i]? = some unit) (digit : isDigitCode unit = true) :
    d.at? d.unicode i = some unit := Dialect.at?_of_unit stands (lt_of_isDigitCode digit)

omit [d.Narrow] in
theorem eatDecimal_run {code : Nat} (stands : d.at? d.unicode p.pos = some code) (digit : isDigitCode code = true) :
    eatDecimal d p = .ok (some (min (d.numberFrom p.pos) maxNumber))
      { p with pos := (d.run isDigitCode (d.units.size + 1) p.pos).2 } := by
  have ran : eatRun isDigitCode d p = .ok (d.run isDigitCode (d.units.size + 1) p.pos).1
      { p with pos := (d.run isDigitCode (d.units.size + 1) p.pos).2 } := rfl
  have some' : ∃ codes, (d.run isDigitCode (d.units.size + 1) p.pos).1 = code :: codes :=
    ⟨(d.run isDigitCode d.units.size (d.next d.unicode p.pos)).1, by simp only [Dialect.run, stands, digit, if_true]⟩
  obtain ⟨codes, first⟩ := some'
  unfold eatDecimal
  rw [run_bind ran, ← numberOf_run, first]
  rfl

/-- What stands behind the backslash of an escape that is not a reference by number. -/
def Dialect.Unnumbered (d : Dialect) (i : Nat) : Prop :=
  d.unicode = true → ∀ unit, d.units[i]? = some unit → isDigitCode unit = true → unit = '0'.toNat

theorem numberedReference_trail (slash : d.units[p.pos]? = some '\\'.toNat) :
    Ends d (· = { p with pos := p.pos + 1 }) numberedReference fun matched q =>
      bif matched then Trail d p q else q = { p with pos := p.pos + 1 } ∧ d.Unnumbered (p.pos + 1) := by
  have inside : p.pos < d.units.size := (Array.getElem?_eq_some_iff.1 slash).1
  intro _ matched q start run
  subst start
  unfold numberedReference at run
  rw [run_bind position_run, run_bind peek_run] at run
  cases stands : d.at? d.unicode (p.pos + 1) with
  | none =>
    rw [stands] at run
    cases run
    refine ⟨rfl, fun _ unit stands' digit => ?_⟩
    cases stands.symm.trans (at?_of_digit stands' digit)
  | some code =>
    by_cases digit : (isDigitCode code && code != '0'.toNat) = true
    · obtain ⟨isDigit, nonzero⟩ := Bool.and_eq_true_iff.1 digit
      have unit := (Dialect.at?_char stands (lt_of_isDigitCode isDigit)).1
      have glided : Trail d { p with pos := p.pos + 1 }
          { p with pos := (d.run isDigitCode (d.units.size + 1) (p.pos + 1)).2 } :=
        Keeps.run (Trail.glides { p with pos := p.pos + 1 } p) plain_isDigitCode _ (p.pos + 1) (Trail.refl _)
      have notK {i : Prop} (escape : d.EscapeAt p.pos 'k'.toNat) : i := by
        cases unit.symm.trans escape.escapes
        cases isDigit
      rw [stands] at run
      rw [show (some code).any (fun code => isDigitCode code && code != '0'.toNat) = true from digit, if_pos rfl,
        run_bind (eatDecimal_run stands isDigit)] at run
      simp only [run_bind read_run] at run
      split at run
      · cases run
        refine Trail.past inside ⟨fun _ _ _ _ _ => Nat.le_max_right _ _, fun _ escape => notK escape⟩ ?_
        exact ⟨glided.forward, glided.bounded, glided.counted, Nat.le_max_left _ _, fun _ mem => mem,
          fun i above below => (glided.noted i above below).later (Nat.le_max_left _ _) fun _ mem => mem⟩
      · rename_i lenient
        rw [run_bind get_run] at run
        split at run
        · cases run
          exact Trail.past inside ⟨fun unicode => absurd unicode lenient, fun _ escape => notK escape⟩ glided
        · cases run
          exact ⟨rfl, fun unicode => absurd unicode lenient⟩
    · rw [stands] at run
      rw [show (some code).any (fun code => isDigitCode code && code != '0'.toNat) = false by simpa using digit] at run
      cases run
      refine ⟨rfl, fun _ unit stands' digit' => ?_⟩
      cases stands.symm.trans (at?_of_digit stands' digit')
      simpa [digit'] using digit

/-- No reference by name that a run takes note of stands there. -/
def Dialect.Unnamed (d : Dialect) (i : Nat) : Prop := d.namedGroups = true → d.units[i]? ≠ some 'k'.toNat

omit [d.Narrow] in
theorem Dialect.idle_of (numbered : d.Unnumbered (i + 1)) (named : d.Unnamed (i + 1)) : d.Idle i :=
  fun _ => ⟨fun unicode unit escape digit nonzero => absurd (numbered unicode unit escape.escapes digit) nonzero,
    fun isNamed escape => absurd escape.escapes (named isNamed)⟩

/-- A reference by name, where the letter of one stands. -/
theorem namedReference_trail (slash : d.units[p.pos]? = some '\\'.toNat)
    (letter : d.units[p.pos + 1]? = some 'k'.toNat) :
    Ends d (· = { p with pos := p.pos + 1 }) namedReference fun matched q => matched = true ∧ Trail d p q := by
  have inside : p.pos < d.units.size := (Array.getElem?_eq_some_iff.1 slash).1
  intro _ matched q start run
  subst start
  obtain ⟨at', next⟩ := Dialect.next_of_unit (c := 'k') rfl letter d.unicode
  unfold namedReference at run
  rw [run_bind (eat_run at'), if_pos rfl] at run
  obtain ⟨name, q', reads, rest⟩ := bind_eq_ok.1 run
  have glided := Keeps.ends (I := Trail d { p with pos := p.pos + 1 }) (fun _ _ glides => Keeps.groupName glides)
    (Trail.glides _) _ name q' ((Trail.refl { p with pos := p.pos + 1 }).next at' fun same => by cases same) reads
  cases name with
  | none => cases rest
  | some name =>
    cases rest
    refine ⟨rfl, Trail.past inside ⟨fun _ unit escape digit => ?_, fun _ _ =>
      ⟨name, List.mem_append_right _ (.head _), ?_⟩⟩ ?_⟩
    · cases letter.symm.trans escape.escapes
      cases digit
    · obtain ⟨q'', reads'⟩ := Dialect.groupName_elsewhere (q := { pos := p.pos + 2 }) d.namedGroups next reads
      unfold Dialect.referenceAt?
      rw [show groupName d { pos := p.pos + 2 } = .ok (some name) q'' from reads']
    · exact ⟨glided.forward, glided.bounded, glided.counted, glided.number,
        fun _ mem => List.mem_append_left _ (glided.references mem), fun i above below =>
          (glided.noted i above below).later (Nat.le_refl _) fun _ mem => List.mem_append_left _ mem⟩

theorem atomEscape_trail (open' : o.escaped = false) (slash : d.units[p.pos]? = some '\\'.toNat) :
    Ends d (fun q => Here d n r o.behind (· = p.pos + 1) q ∧ q = { p with pos := p.pos + 1 }) atomEscape
      (Either (Trail d p) fun q => Onward d p p q ∧ d.Idle p.pos) := by
  obtain ⟨at', next⟩ := Dialect.next_of_unit (c := '\\') rfl slash d.unicode
  let Behind (q : Progress) : Prop := Here d n r o.behind (· = p.pos + 1) q ∧ q = { p with pos := p.pos + 1 }
  have matched : Ends d Behind (anyMatch [numberedReference, return (← classEscape).isSome,
      return (← characterEscape).isSome, (if d.namedGroups then namedReference else return false)])
      (Either (Trail d p) fun q => Onward d p p q ∧ d.Idle p.pos) := by
    refine .anyMatch_cons (K := fun q => Behind q ∧ d.Unnumbered (p.pos + 1)) ?_ ?_
    · intro q matched q' here run
      have done := numberedReference_trail slash q matched q' here.2 run
      cases matched with
      | true => exact done
      | false =>
        obtain ⟨rfl, unnumbered⟩ := done
        exact ⟨⟨here.2 ▸ here.1, rfl⟩, unnumbered⟩
    refine .fact (fun q here => here.2) fun unnumbered =>
      .mono (P := Behind) ?_ (fun _ here => here.1) fun _ _ done => done
    by_cases letter : d.namedGroups = true ∧ d.units[p.pos + 1]? = some 'k'.toNat
    · -- Nothing else than a reference begins with that letter.
      have facing := (Dialect.next_of_unit (c := 'k') rfl letter.2 d.unicode).1
      rintro q matched q' ⟨-, rfl⟩ run
      rw [anyMatch_missed (q := { p with pos := p.pos + 1 }) (by rw [run_bind (classEscape_k facing)]; rfl),
        anyMatch_missed (q := { p with pos := p.pos + 1 }) (by
          rw [run_bind ((characterEscape_k facing).trans (identityEscape_k facing (.inr letter.1)))]; rfl),
        if_pos letter.1] at run
      obtain ⟨found, q'', reads, rest⟩ := bind_eq_ok.1 run
      obtain ⟨rfl, trail⟩ := namedReference_trail slash letter.2 _ found q'' rfl reads
      cases rest
      exact trail
    · have idle : d.Idle p.pos := Dialect.idle_of unnumbered fun named stands => letter ⟨named, stands⟩
      let Beside (q : Progress) : Prop := Here d n r o.behind (· = p.pos + 1) q ∧ Onward d p p q
      have start (q : Progress) (here : Behind q) : Beside q :=
        ⟨here.1, here.2 ▸ ⟨rfl, next ▸ (Trail.refl p).next at' fun _ => idle⟩⟩
      have onward {step : PatternM Bool} (ends : Ends d Beside step (Either (Onward d p p) Beside)) :
          Ends d Beside step (Either (Trail d p) Beside) := by
        refine ends.weaken fun matched q here => ?_
        cases matched with
        | true => exact here.2
        | false => exact here
      refine .mono (P := Beside) ?_ start fun _ _ done => done
      refine .anyMatch_cons (onward (.attemptSome (.forget (Keeps.ends (fun _ _ glides => .classEscape glides)
        (Onward.glides p p))) (classEscape_tries.escapes n r o _ open'))) ?_
      refine .anyMatch_cons
        (onward (.attemptSome (F := At d n r o) ?_ ((characterEscape_steps open').weaken fun a q here => ?_))) ?_
      · refine Mirror.ends fun q here _ => (Mirror.characterEscape (Onward.glides p p q) open' fun _ _ _ => rfl).mono
          (fun a b both => ⟨both.1 ▸ here, both.2⟩) fun _ _ _ done => done
      · cases a with
        | some a => exact here
        | none => exact here.mono fun _ both => both.1
      · refine .anyMatch_cons (K := Beside) ?_ (.pure fun q here => ⟨here.2, idle⟩)
        refine .ite (fun named => ?_) fun _ => .pure fun _ here => here
        intro q matched q' here run
        have other : d.at? d.unicode q.pos ≠ some 'k'.toNat := fun stands =>
          letter ⟨named, here.1.offset ▸ (Dialect.at?_char stands (of_decide_eq_true rfl)).1⟩
        unfold namedReference at run
        rw [run_bind (eat_missed other)] at run
        cases run
        exact here
  refine .read (.bind matched fun matched => ?_)
  refine .ite (fun _ => .bind (R := fun _ _ => True) (fun _ _ _ _ _ => trivial) fun _ =>
    .ite (fun _ => .throwing) fun _ => .throwing)
    fun _ => .pure fun _ here => here

/-- A backslash that is left to stand for itself is no reference. -/
theorem escapedAtom_trail (open' : o.escaped = false) :
    Ends d (fun p => Here d n r o w p ∧ Trail d s p) escapedAtom fun matched p =>
      Trail d s p ∧ (matched = false → d.units[p.pos]? = some '\\'.toNat → d.Idle p.pos) := by
  rintro p matched p' ⟨here, trail⟩ run
  unfold escapedAtom at run
  rw [run_bind position_run] at run
  by_cases stands : d.at? d.unicode p.pos = some '\\'.toNat
  · obtain ⟨slash, next⟩ := Dialect.at?_char stands (of_decide_eq_true rfl)
    rw [run_bind (eat_run stands), if_pos rfl, next] at run
    obtain ⟨found, q, atom, rest⟩ := bind_eq_ok.1 run
    have done := atomEscape_trail open' slash _ found q ⟨here.behind slash open', rfl⟩ atom
    cases found with
    | true =>
      cases rest
      exact ⟨trail.trans done, fun no => by cases no⟩
    | false =>
      cases rest
      obtain ⟨onward, idle⟩ := done
      refine ⟨?_, fun _ _ => idle⟩
      show Trail d s { q with pos := p.pos }
      rwa [onward.back]
  · rw [run_bind (eat_missed stands)] at run
    cases run
    refine ⟨trail, fun _ slash => absurd ?_ stands⟩
    exact (Dialect.next_of_unit (c := '\\') rfl slash d.unicode).1

end RegExp
end ScriptSyntax
