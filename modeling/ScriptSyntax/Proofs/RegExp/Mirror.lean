import ScriptSyntax.Proofs.RegExp.Escape

/-!
Two runs side by side: whatever one run of a step gives, a run from another state gives too, also where
an escaped `k` is read in another way.  Most steps only move the cursor, over codes that mean nothing to
an outline.  Set side by side with itself, a run shows where such a step may get to.  The name of a group
depends on the text alone: wherever a run has been before, it reads the same name at the same offset.
-/

namespace ScriptSyntax
namespace RegExp

variable {α β : Type} {d : Dialect} {named : Bool}

/-- The dialect with named references read, or not, wherever an escaped `k` stands. -/
def Dialect.naming (d : Dialect) (named : Bool) : Dialect := { d with namedGroups := named }

/-- From where `P` holds of two states, whatever a step gives from the first it gives from the second as
well, which it reads in the dialect with or without named references; and then `Q` holds. -/
def Mirror (d : Dialect) (named : Bool) (P : Progress → Progress → Prop) (step : PatternM α)
    (Q : α → Progress → Progress → Prop) : Prop :=
  ∀ p q a p', P p q → step d p = .ok a p' → ∃ q', step (d.naming named) q = .ok a q' ∧ Q a p' q'

theorem bind_eq_ok {x : PatternM α} {f : α → PatternM β} {p p' : Progress} {b : β} :
    (x >>= f) d p = .ok b p' ↔ ∃ a r, x d p = .ok a r ∧ f a d r = .ok b p' := by
  simp only [Bind.bind, ReaderT.bind, EStateM.bind]
  cases run : x d p with
  | ok a r =>
    refine ⟨fun ends => ⟨a, r, rfl, ends⟩, ?_⟩
    rintro ⟨_, _, same, ends⟩
    cases same
    exact ends
  | error fault r => exact ⟨(fun no => by cases no), fun ⟨_, _, no, _⟩ => by cases no⟩

namespace Mirror

variable {P P' : Progress → Progress → Prop} {Q : β → Progress → Progress → Prop}
  {R R' : α → Progress → Progress → Prop}

theorem bind {x : PatternM α} {f : α → PatternM β} (first : Mirror d named P x R)
    (rest : ∀ a, Mirror d named (R a) (f a) Q) : Mirror d named P (x >>= f) Q := by
  intro p q b p' here run
  obtain ⟨a, r, runs, ends⟩ := bind_eq_ok.1 run
  obtain ⟨r', runs', mid⟩ := first p q a r here runs
  obtain ⟨q', ends', done⟩ := rest a r r' b p' mid ends
  exact ⟨q', bind_eq_ok.2 ⟨a, r', runs', ends'⟩, done⟩

theorem mono {x : PatternM α} (mirror : Mirror d named P x R) (before : ∀ p q, P' p q → P p q)
    (after : ∀ a p q, R a p q → R' a p q) : Mirror d named P' x R' := by
  intro p q a p' here run
  obtain ⟨q', run', done⟩ := mirror p q a p' (before p q here) run
  exact ⟨q', run', after a p' q' done⟩

theorem weaken {x : PatternM α} (mirror : Mirror d named P x R)
    (after : ∀ a p q, R a p q → R' a p q) : Mirror d named P x R' := mirror.mono (fun _ _ here => here) after

/-- What is known of the first run is known beside the other. -/
theorem along {A : Progress → Prop} {B : α → Progress → Prop} {x : PatternM α} (mirror : Mirror d named P x R)
    (steps : Steps d A x B) :
    Mirror d named (fun p q => A p ∧ P p q) x fun a p q => B a p ∧ R a p q := by
  intro p q a p' here run
  obtain ⟨q', run', done⟩ := mirror p q a p' here.2 run
  have known := steps p here.1
  rw [run] at known
  exact ⟨q', run', known, done⟩

theorem fact {c : Prop} {x : PatternM α} (known : ∀ p q, P p q → c) (mirror : c → Mirror d named P x R) :
    Mirror d named P x R := fun p q a p' here => mirror (known p q here) p q a p' here

theorem or {x : PatternM α} (left : Mirror d named P x R) (right : Mirror d named P' x R) :
    Mirror d named (fun p q => P p q ∨ P' p q) x R := by
  rintro p q a p' (here | here)
  · exact left p q a p' here
  · exact right p q a p' here

theorem pure {a : α} (done : ∀ p q, P p q → R a p q) : Mirror d named P (pure a) R := by
  intro p q _ p' here run
  cases run
  exact ⟨q, rfl, done p q here⟩

theorem throw {fault : Fault} : Mirror d named P (throw fault : PatternM α) R :=
  fun _ _ _ _ _ run => by cases run

theorem throwing {fault : Fault} {f : α → PatternM β} :
    Mirror d named P (MonadExcept.throw fault >>= f) Q := fun _ _ _ _ _ run => by cases run

theorem ite {c : Prop} [Decidable c] {x y : PatternM α} (yes : c → Mirror d named P x R)
    (no : ¬ c → Mirror d named P y R) : Mirror d named P (if c then x else y) R := by
  split
  · exact yes ‹_›
  · exact no ‹_›

theorem read {f : Dialect → PatternM β} (rest : Mirror d named P (f d) Q)
    (same : f (d.naming named) (d.naming named) = f d (d.naming named)) :
    Mirror d named P (read >>= f) Q := by
  intro p q b p' here run
  obtain ⟨q', run', done⟩ := rest p q b p' here run
  refine ⟨q', ?_, done⟩
  show f (d.naming named) (d.naming named) q = _
  rw [same]
  exact run'

end Mirror

/-! ### Only the cursor moves -/

/-- Both cursors are at one such offset, and so much holds of the rest of the states. -/
structure Twin (J : Nat → Prop) (E : Progress → Progress → Prop) (p q : Progress) : Prop where
  same : p.pos = q.pos
  offset : J p.pos
  rest : E { p with pos := 0 } { q with pos := 0 }

/-- Offsets that cursors get to by codes that mean nothing to an outline, by an escape of a code point
and by the code that a backslash escapes. -/
structure Dialect.Glides (d : Dialect) (J : Nat → Prop) : Prop where
  plain : ∀ {i code : Nat} {joined : Bool}, J i → d.at? joined i = some code → Outline.isMark code = false →
    J (d.next joined i)
  codePoint : ∀ {i : Nat}, J i → d.units[i]? = some '\\'.toNat → d.units[i + 1]? = some 'u'.toNat → J (i + 2)
  escaped : ∀ {i code : Nat}, J i → (d.before i).escaped = true → d.at? d.unicode i = some code →
    J (d.next d.unicode i)

/-- A narrow character is one unit. -/
theorem Dialect.next_of_unit [d.Narrow] {i : Nat} {c : Char} (narrow : isNarrow c = true)
    (stands : d.units[i]? = some c.toNat) (joined : Bool) :
    d.at? joined i = some c.toNat ∧ d.next joined i = i + 1 := by
  have at' : d.at? joined i = some c.toNat := Dialect.at?_of_unit stands (lt_of_isNarrow narrow)
  exact ⟨at', (Dialect.at?_char at' (lt_of_isNarrow narrow)).2⟩

theorem Dialect.Glides.unit [d.Narrow] {J : Nat → Prop} (glides : d.Glides J) {i : Nat} {c : Char}
    (narrow : isNarrow c = true) (there : J i) (stands : d.units[i]? = some c.toNat)
    (plain : Outline.isMark c.toNat = false) : J (i + 1) := by
  obtain ⟨at', next⟩ := Dialect.next_of_unit narrow stands d.unicode
  exact next ▸ glides.plain there at' plain

/-- The step only moves the cursor, to such an offset. -/
def Keeps (d : Dialect) (named : Bool) (J : Nat → Prop) (E : Progress → Progress → Prop) (step : PatternM α) : Prop :=
  Mirror d named (Twin J E) step fun _ => Twin J E

variable {J K : Nat → Prop} {E : Progress → Progress → Prop}

theorem Twin.moved {p q : Progress} {i : Nat} (twin : Twin J E p q) (there : K i) :
    Twin K E { p with pos := i } { q with pos := i } := ⟨rfl, there, twin.rest⟩

theorem Twin.mono {p q : Progress} (twin : Twin J E p q) (weaker : ∀ j, J j → K j) : Twin K E p q :=
  ⟨twin.same, weaker _ twin.offset, twin.rest⟩

namespace Mirror

variable {Q : β → Progress → Progress → Prop}

theorem position {f : Nat → PatternM β}
    (rest : ∀ i, J i → Mirror d named (fun p q => Twin J E p q ∧ p.pos = i) (f i) Q) :
    Mirror d named (Twin J E) (position >>= f) Q := by
  intro p q b p' here run
  obtain ⟨q', run', done⟩ := rest p.pos here.offset p q b p' ⟨here, rfl⟩ run
  refine ⟨q', ?_, done⟩
  show f q.pos (d.naming named) q = _
  rw [← here.same]
  exact run'

theorem peekJoined {joined : Bool} {f : Option Nat → PatternM β}
    (rest : ∀ code, Mirror d named (fun p q => Twin J E p q ∧ d.at? (joined || d.unicode) p.pos = code) (f code) Q) :
    Mirror d named (Twin J E) (peekJoined joined >>= f) Q := by
  intro p q b p' here run
  obtain ⟨q', run', done⟩ := rest _ p q b p' ⟨here, rfl⟩ run
  refine ⟨q', ?_, done⟩
  show f (d.at? (joined || d.unicode) q.pos) (d.naming named) q = _
  rw [← here.same]
  exact run'

theorem peek {f : Option Nat → PatternM β}
    (rest : ∀ code, Mirror d named (fun p q => Twin J E p q ∧ d.at? d.unicode p.pos = code) (f code) Q) :
    Mirror d named (Twin J E) (peek >>= f) Q := by
  rw [← Bool.false_or d.unicode] at rest
  exact peekJoined rest

theorem advanceJoined {joined : Bool} :
    Mirror d named (fun p q => Twin J E p q ∧ K (d.next (joined || d.unicode) p.pos)) (advanceJoined joined)
      fun _ => Twin K E := by
  rintro p q a p' ⟨here, there⟩ run
  cases run
  refine ⟨{ q with pos := d.next (joined || d.unicode) q.pos }, rfl, ?_⟩
  rw [← here.same]
  exact here.moved there

theorem advance :
    Mirror d named (fun p q => Twin J E p q ∧ K (d.next d.unicode p.pos)) advance fun _ => Twin K E := by
  rw [← Bool.false_or d.unicode]
  exact advanceJoined

theorem onward {code : Nat} {f : Unit → PatternM β}
    (there : ∀ i, J i → d.at? d.unicode i = some code → K (d.next d.unicode i))
    (rest : Mirror d named (Twin K E) (f ()) Q) :
    Mirror d named (fun p q => Twin J E p q ∧ d.at? d.unicode p.pos = some code) (RegExp.advance >>= f) Q :=
  bind (advance.mono (fun _ _ here => ⟨here.1, there _ here.1.offset here.2⟩) fun _ _ _ done => done) fun _ => rest

/-- What stands behind the cursor's code matters to both runs alike. -/
theorem peekSecond {f : Option Nat → PatternM β} {P : Progress → Progress → Prop}
    (same : ∀ p q, P p q → p.pos = q.pos) (rest : ∀ code, Mirror d named P (f code) Q) :
    Mirror d named P (peekSecond >>= f) Q := by
  intro p q b p' here run
  obtain ⟨q', run', done⟩ := rest _ p q b p' here run
  refine ⟨q', ?_, done⟩
  show f (d.at? d.unicode (d.next d.unicode q.pos)) (d.naming named) q = _
  rw [← same p q here]
  exact run'

theorem sees {c : Char} {f : Bool → PatternM β}
    (yes : Mirror d named (fun p q => Twin J E p q ∧ d.at? d.unicode p.pos = some c.toNat) (f true) Q)
    (no : Mirror d named (Twin J E) (f false) Q) : Mirror d named (Twin J E) (sees c >>= f) Q := by
  simp only [RegExp.sees, bind_assoc, pure_bind]
  refine peek fun code => ?_
  cases same : code == some c.toNat with
  | true =>
    rw [eq_of_beq same]
    exact yes
  | false => exact no.mono (fun _ _ here => here.1) fun _ _ _ done => done

/-- A character that takes cursors to other offsets. -/
theorem eatTo {c : Char} (narrow : isNarrow c = true) [d.Narrow]
    (there : ∀ i, J i → d.units[i]? = some c.toNat → K (i + 1)) :
    Mirror d named (Twin J E) (eat c) fun eaten => Twin (fun j => bif eaten then K j else J j) E := by
  refine sees (bind (R := fun _ => Twin K E) (advance.mono (fun p q here => ⟨here.1, ?_⟩) fun _ _ _ done => done)
    fun _ => pure fun _ _ here => here) (pure fun _ _ here => here)
  obtain ⟨stands, next⟩ := Dialect.at?_char here.2 (lt_of_isNarrow narrow)
  rw [next]
  exact there _ here.1.offset stands

/-- A code of a class that takes cursors to other offsets. -/
theorem eatCodeTo {inClass : Nat → Bool}
    (there : ∀ i code, J i → d.at? d.unicode i = some code → inClass code = true → K (d.next d.unicode i)) :
    Mirror d named (Twin J E) (eatCode inClass) fun code => Twin (fun j => bif code.isSome then K j else J j) E := by
  refine peek fun code => ?_
  cases code with
  | none => exact pure fun _ _ here => here.1
  | some code =>
    refine ite (fun is => bind (R := fun _ => Twin K E) ?_ fun _ => pure fun _ _ here => here)
      fun _ => pure fun _ _ here => here.1
    exact advance.mono (fun p q here => ⟨here.1, there _ _ here.1.offset here.2 is⟩) fun _ _ _ done => done

theorem moveBack {i : Nat} {f : Unit → PatternM β} {w : Nat → Prop} (there : w i)
    (rest : Mirror d named (Twin w E) (f ()) Q) : Mirror d named (Twin J E) (moveTo i >>= f) Q :=
  bind (R := fun _ => Twin w E) (fun p q a p' here run => by
    cases run
    exact ⟨{ q with pos := i }, rfl, here.moved there⟩) fun _ => rest

/-- A step that is taken back unless it matches. -/
theorem orRewind {step : PatternM (Option α)}
    (mirror : Mirror d named (Twin J E) step fun a => Twin (fun j => a.isSome = true → J j) E) :
    Keeps d named J E (orRewind step) := by
  refine position fun start there => bind (mirror.mono (fun _ _ here => here.1) fun _ _ _ done => done) fun a => ?_
  cases a with
  | some a => exact pure fun _ _ here => here.mono fun _ known => known rfl
  | none => exact moveBack there (pure fun _ _ here => here)

end Mirror

namespace Keeps

theorem bind {x : PatternM α} {f : α → PatternM β} (first : Keeps d named J E x)
    (rest : ∀ a, Keeps d named J E (f a)) : Keeps d named J E (x >>= f) := Mirror.bind first rest

theorem pure {a : α} : Keeps d named J E (pure a) := Mirror.pure fun _ _ here => here

theorem throw {fault : Fault} : Keeps d named J E (throw fault : PatternM α) := Mirror.throw

theorem throwing {fault : Fault} {f : α → PatternM β} :
    Keeps d named J E (MonadExcept.throw fault >>= f) := Mirror.throwing

theorem ite {c : Prop} [Decidable c] {x y : PatternM α} (yes : Keeps d named J E x) (no : Keeps d named J E y) :
    Keeps d named J E (if c then x else y) := Mirror.ite (fun _ => yes) fun _ => no

theorem read {f : Dialect → PatternM β} (rest : Keeps d named J E (f d))
    (same : f (d.naming named) (d.naming named) = f d (d.naming named)) :
    Keeps d named J E (MonadReader.read >>= f) := Mirror.read rest same

theorem position {f : Nat → PatternM β} (rest : ∀ i, J i → Keeps d named J E (f i)) :
    Keeps d named J E (position >>= f) :=
  Mirror.position fun i there => (rest i there).mono (fun _ _ here => here.1) fun _ _ _ done => done

theorem moveTo {i : Nat} (there : J i) : Keeps d named J E (moveTo i) := by
  intro p q a p' here run
  cases run
  exact ⟨{ q with pos := i }, rfl, here.moved there⟩

theorem orRewind {step : PatternM (Option α)} (keeps : Keeps d named J E step) : Keeps d named J E (orRewind step) :=
  Mirror.orRewind (keeps.weaken fun _ _ _ here => here.mono fun _ there _ => there)

theorem sees {c : Char} : Keeps d named J E (sees c) :=
  Mirror.peek fun _ => Mirror.pure fun _ _ here => here.1

theorem anyMatch {steps : List (PatternM Bool)} (each : ∀ step ∈ steps, Keeps d named J E step) :
    Keeps d named J E (anyMatch steps) := by
  induction steps with
  | nil => exact pure
  | cons step steps ih =>
    exact bind (each step (.head _)) fun _ => ite pure (ih fun step mem => each step (.tail _ mem))

end Keeps

namespace Keeps

variable [d.Narrow] (glides : d.Glides J)
include glides

theorem eat {c : Char} (plain : isPlain c = true) : Keeps d named J E (eat c) := by
  refine (Mirror.eatTo (K := J) (isNarrow_of_isPlain plain) fun i there stands => ?_).weaken
    fun eaten _ _ here => here.mono fun j is => by cases eaten <;> exact is
  exact glides.unit (isNarrow_of_isPlain plain) there stands (not_isMark_of_isPlain plain)

theorem eatPair {c c' : Char} (plain : isPlain c = true) (plain' : isPlain c' = true) :
    Keeps d named J E (eatPair c c') :=
  .position fun _ there => .bind (.eat glides plain) fun _ =>
    .ite (.bind (.eat glides plain') fun _ => .ite .pure (.bind (.moveTo there) fun _ => .pure)) .pure

omit [d.Narrow] in
theorem eatCode {inClass : Nat → Bool} (plain : Plain inClass) : Keeps d named J E (eatCode inClass) :=
  (Mirror.eatCodeTo (K := J) fun _ _ there stands is => glides.plain there stands (plain.not_isMark is)).weaken
    fun code _ _ here => here.mono fun j is => by cases code <;> exact is

omit [d.Narrow] in
theorem run {inClass : Nat → Bool} (plain : Plain inClass) (fuel : Nat) : ∀ i, J i → J (d.run inClass fuel i).2 := by
  induction fuel with
  | zero => exact fun i there => there
  | succ fuel ih =>
    intro i there
    unfold Dialect.run
    cases stands : d.at? d.unicode i with
    | none => exact there
    | some code =>
      by_cases is : inClass code = true
      · simp only [is, if_true]
        exact ih _ (glides.plain there stands (plain.not_isMark is))
      · simpa only [is, Bool.false_eq_true, if_false] using there

omit [d.Narrow] glides in
theorem run_naming (inClass : Nat → Bool) (fuel : Nat) :
    ∀ i, (d.naming named).run inClass fuel i = d.run inClass fuel i := by
  have at' (i : Nat) : (d.naming named).at? (d.naming named).unicode i = d.at? d.unicode i := rfl
  have next (i : Nat) : (d.naming named).next (d.naming named).unicode i = d.next d.unicode i := rfl
  induction fuel with
  | zero => exact fun _ => rfl
  | succ fuel ih => exact fun i => by simp only [Dialect.run, at', next, ih]

omit [d.Narrow] in
theorem eatRun {inClass : Nat → Bool} (plain : Plain inClass) : Keeps d named J E (eatRun inClass) := by
  intro p q codes p' here ran
  have gives (d : Dialect) (p : Progress) : RegExp.eatRun inClass d p =
      .ok (d.run inClass (d.units.size + 1) p.pos).1 { p with pos := (d.run inClass (d.units.size + 1) p.pos).2 } := rfl
  rw [gives] at ran
  obtain ⟨rfl, rfl⟩ := EStateM.Result.ok.inj ran
  refine ⟨{ q with pos := (d.run inClass (d.units.size + 1) p.pos).2 }, ?_,
    here.moved (run glides plain _ _ here.offset)⟩
  rw [gives, run_naming, here.same]
  rfl

omit [d.Narrow] in
theorem eatDecimal : Keeps d named J E eatDecimal := by
  refine .bind (.eatRun glides plain_isDigitCode) fun digits => ?_
  cases digits <;> exact .pure

omit [d.Narrow] in
theorem eatHex : Keeps d named J E eatHex := by
  refine .bind (.eatRun glides plain_hexValue?) fun digits => ?_
  cases digits <;> exact .pure

omit [d.Narrow] in
theorem eatFixedHex (count : Nat) : Keeps d named J E (eatFixedHex count) := by
  refine .position fun start there => ?_
  suffices all : ∀ total, Keeps d named J E (eatFixedHex.go start count total) from all 0
  induction count with
  | zero => exact fun _ => .pure
  | succ count ih =>
    refine fun total => Mirror.peek fun code => ?_
    cases digit : code.bind hexValue? with
    | none =>
      exact (moveTo there |>.bind fun _ => .pure).mono (fun _ _ here => here.1) fun _ _ _ done => done
    | some value =>
      obtain ⟨code, rfl, is⟩ := Option.bind_eq_some_iff.1 digit
      exact Mirror.onward (fun _ there stands => glides.plain there stands (plain_hexValue?.not_isMark (by simp [is])))
        (ih _)

/-! ### Escapes of characters -/

omit [d.Narrow] in
theorem controlEscape : Keeps d named J E controlEscape := by
  refine Mirror.peek fun code => ?_
  cases known : code.bind controlValue? with
  | none => exact Mirror.pure fun _ _ here => here.1
  | some value =>
    obtain ⟨code, rfl, is⟩ := Option.bind_eq_some_iff.1 known
    exact Mirror.onward (fun _ there stands => glides.plain there stands
      (plain_controlValue?.not_isMark (by simp [is])))
      Keeps.pure

theorem controlLetterEscape : Keeps d named J E controlLetterEscape :=
  .orRewind (.bind (.eat glides rfl) fun _ => .ite (.bind (.eatCode glides plain_isLetterCode) fun _ => .pure) .pure)

omit [d.Narrow] in
theorem zeroEscape : Keeps d named J E zeroEscape := by
  refine Mirror.sees (Mirror.peekSecond (fun _ _ here => here.1.same) fun _ => Mirror.ite (fun _ => ?_) fun _ => ?_)
    (Mirror.peekSecond (fun _ _ here => here.same) fun _ => Mirror.pure fun _ _ here => here)
  · exact Mirror.onward (fun _ there stands => glides.plain there stands rfl) Keeps.pure
  · exact Mirror.pure fun _ _ here => here.1

theorem hexEscape : Keeps d named J E hexEscape := by
  refine .position fun start there => .bind (.eat glides rfl) fun _ =>
    .ite (.bind (.eatFixedHex glides 2) fun value => ?_) .pure
  cases value with
  | some value => exact .pure
  | none => exact .read (.ite .throwing (.bind (.moveTo there) fun _ => .pure)) rfl

omit glides in
/-- Two characters that lead back together. -/
theorem eatBoth {c c' : Char} (narrow : isNarrow c = true) (narrow' : isNarrow c' = true)
    (there : ∀ i, J i → d.units[i]? = some c.toNat → d.units[i + 1]? = some c'.toNat → J (i + 2)) :
    Keeps d named J E (RegExp.eatPair c c') := by
  refine .position fun start back => Mirror.bind
    (Mirror.eatTo (K := fun j => ∃ i, J i ∧ d.units[i]? = some c.toNat ∧ j = i + 1)
    narrow fun i here stands => ⟨i, here, stands, rfl⟩) fun first => Mirror.ite (fun found => ?_) fun missed => ?_
  · subst found
    refine Mirror.bind (Mirror.eatTo (K := J) narrow' fun i here stands => ?_) fun second =>
      Mirror.ite (fun found => ?_) fun _ => Mirror.moveBack back (Mirror.pure fun _ _ here => here)
    · obtain ⟨i, here, before, rfl⟩ := here
      exact there i here before stands
    · subst found
      exact Mirror.pure fun _ _ here => here
  · rw [Bool.eq_false_iff.2 missed]
    exact Mirror.pure fun _ _ here => here

theorem lowSurrogateEscape : Keeps d named J E lowSurrogateEscape := by
  refine .orRewind (.bind (.eatBoth rfl rfl fun _ => glides.codePoint) fun both =>
    .ite (.bind (.eatFixedHex glides 4) fun low => ?_) .pure)
  cases low <;> exact .pure

/-- An escape by code point may begin elsewhere if its letter leads back. -/
theorem unicodeEscapeFrom {w : Nat → Prop} (letter : ∀ i, w i → d.units[i]? = some 'u'.toNat → J (i + 1))
    (joined : Bool) :
    Mirror d named (Twin w E) (unicodeEscape joined) fun value =>
      Twin (fun j => bif value.isSome then J j else w j) E := by
  refine Mirror.position fun start there => Mirror.read (Mirror.bind (Mirror.mono (Mirror.eatTo rfl letter)
    (fun _ _ here => here.1) fun _ _ _ done => done) fun eaten => Mirror.ite (fun eaten => ?_) fun missed => ?_) rfl
  · subst eaten
    refine Mirror.bind (Keeps.eatFixedHex glides 4) fun value => ?_
    cases value with
    | some value =>
      refine Mirror.ite (fun _ => Mirror.bind (Keeps.lowSurrogateEscape glides) fun low => ?_) fun _ =>
        Mirror.pure fun _ _ here => here
      cases low <;> exact Mirror.pure fun _ _ here => here
    | none =>
      refine Mirror.ite (fun _ => Mirror.bind (Keeps.eat glides rfl) fun _ =>
        Mirror.ite (fun _ => ?_) fun _ => .throwing)
        fun _ => Mirror.moveBack there (Mirror.pure fun _ _ here => here)
      refine Mirror.bind (Keeps.eatHex glides) fun value => ?_
      cases value with
      | none => exact .throwing
      | some value =>
        refine Mirror.bind (Keeps.eat glides rfl) fun _ => Mirror.ite (fun _ => ?_) fun _ => .throwing
        exact Mirror.ite (fun _ => Mirror.pure fun _ _ here => here) fun _ => .throwing
  · rw [Bool.eq_false_iff.2 missed]
    exact Mirror.pure fun _ _ here => here

theorem unicodeEscape (joined : Bool) : Keeps d named J E (unicodeEscape joined) := by
  refine (unicodeEscapeFrom glides (fun i there stands => ?_) joined).weaken fun value _ _ here =>
    here.mono fun j is => by cases value <;> exact is
  exact glides.unit rfl there stands rfl

omit [d.Narrow] in
theorem octalDigit : Keeps d named J E octalDigit := .bind (.eatCode glides plain_isOctalCode) fun _ => .pure

omit [d.Narrow] in
theorem octalEscape : Keeps d named J E octalEscape := by
  refine .bind (.octalDigit glides) fun first => ?_
  cases first with
  | none => exact .pure
  | some first =>
    refine .bind (.octalDigit glides) fun second => ?_
    cases second with
    | none => exact .pure
    | some second =>
      refine .ite (.bind (.octalDigit glides) fun third => ?_) .pure
      cases third <;> exact .pure

/-! ### Escapes of classes -/

omit [d.Narrow] in
theorem eatPropertyName : Keeps d named J E eatPropertyName :=
  .bind (.eatRun glides (plain_of_any rfl)) fun _ => .pure

omit [d.Narrow] in
theorem eatPropertyValue : Keeps d named J E eatPropertyValue :=
  .bind (.eatRun glides (plain_of_any rfl)) fun _ => .pure

omit [d.Narrow] glides in
theorem checkPropertyValue (edition : Nat) (name value : String) :
    Keeps d named J E (checkPropertyValue edition name value) := by
  have verdict (known : Bool) : Keeps d named J E
      (unless known do (MonadExcept.throw Fault.invalidPropertyValue : PatternM PUnit)) := by
    cases known with
    | true => exact .pure
    | false => exact .throw
  exact .ite (.bind .pure verdict) (.ite (.bind .pure verdict) .throwing)

omit [d.Narrow] glides in
theorem loneProperty (name : String) : Keeps d named J E (loneProperty d name) :=
  .ite .pure (.ite .pure .throw)

theorem propertyExpression : Keeps d named J E propertyExpression := by
  refine .read (.position fun start there => .bind (.eatPropertyName glides) fun name => ?_) rfl
  have alone : Keeps d named J E (do
      RegExp.moveTo start
      let name ← RegExp.eatPropertyValue
      if name != "" then return some (← RegExp.loneProperty d name) else return none) :=
    .bind (.moveTo there) fun _ => .bind (.eatPropertyValue glides) fun name =>
      .ite (.bind (.loneProperty name) fun _ => .pure) .pure
  exact .ite (.bind (.eat glides rfl) fun _ => .ite (.bind (.eatPropertyValue glides) fun _ =>
    .ite (.bind (.checkPropertyValue _ _ _) fun _ => .pure) alone) alone) alone

theorem classEscape : Keeps d named J E classEscape := by
  refine .read (.bind (.eatCode glides (by decide)) fun simple => .ite .pure ?_) rfl
  refine .ite (.bind (.eatCode glides (by decide)) fun letter => ?_) .pure
  cases letter with
  | none => exact .pure
  | some letter =>
    refine .bind (.eat glides rfl) fun _ => .ite (.bind (.propertyExpression glides) fun set => ?_) .throwing
    cases set with
    | none => exact .throwing
    | some set => exact .bind (.eat glides rfl) fun _ => .ite (.ite .throwing .pure) .throwing

/-! ### Names and quantifiers -/

theorem nameCode (joined : Bool) : Mirror d named (Twin J E) (nameCode joined) fun code =>
    Twin (fun j => ∀ unit, code = some unit → Outline.isMark unit = false → J j) E := by
  refine Mirror.peekJoined fun plain => ?_
  cases plain with
  | none =>
    intro p q a p' here run
    have stays (d : Dialect) (q : Progress) (past : d.at? (joined || d.unicode) q.pos = none) :
        (do advanceJoined joined; return none : PatternM (Option Nat)) d q = .ok none q := by
      show EStateM.Result.ok none { q with pos := d.next (joined || d.unicode) q.pos } = _
      simp only [Dialect.next, past]
    have none' : (d.naming named).at? (joined || (d.naming named).unicode) q.pos = none := here.1.same ▸ here.2
    cases (stays d p here.2).symm.trans run
    exact ⟨q, stays _ q none', here.1.mono fun _ there _ _ _ => there⟩
  | some unit =>
    by_cases slash : unit = '\\'.toNat
    · subst slash
      refine Mirror.bind (R := fun _ => Twin (fun j => ∃ i, J i ∧ d.units[i]? = some '\\'.toNat ∧ j = i + 1) E)
        (Mirror.advanceJoined.mono (fun p q here => ⟨here.1, ?_⟩) fun _ _ _ done => done) fun _ => ?_
      · obtain ⟨stands, next⟩ := Dialect.at?_char here.2 (of_decide_eq_true rfl)
        exact ⟨p.pos, here.1.offset, stands, next⟩
      · rw [if_pos (beq_self_eq_true _)]
        refine Mirror.bind (unicodeEscapeFrom glides (fun j there letter => ?_) joined) fun value => ?_
        · obtain ⟨i, there, stands, rfl⟩ := there
          exact glides.codePoint there stands letter
        · cases value with
          | some value => exact Mirror.pure fun _ _ here => here.mono fun _ there _ _ _ => there
          | none => exact Mirror.pure fun _ _ here => here.mono fun _ _ _ same plain => by cases same; cases plain
    · refine Mirror.bind (R := fun _ => Twin (fun j => Outline.isMark unit = false → J j) E)
        (Mirror.advanceJoined.mono (fun p q here => ⟨here.1, fun plain => ?_⟩) fun _ _ _ done => done) fun _ => ?_
      · exact glides.plain here.1.offset here.2 plain
      · rw [if_neg (by simpa using slash)]
        exact Mirror.pure fun _ _ here => here.mono fun _ there _ same plain => by cases same; exact there plain

theorem nameCharacter (atStart : Bool) : Keeps d named J E (nameCharacter atStart) := by
  refine Mirror.orRewind (Mirror.read (Mirror.bind (nameCode glides _) fun code => Mirror.pure fun _ _ here =>
    here.mono fun j there found => ?_) rfl)
  obtain ⟨c, found⟩ := Option.isSome_iff_exists.1 found
  obtain ⟨scalar, is⟩ := Option.filter_eq_some_iff.1 found
  obtain ⟨unit, rfl, known⟩ := Option.bind_eq_some_iff.1 scalar
  exact there unit rfl ((plain_belongsToName atStart).not_isMark (by rw [known]; exact is))

theorem nameRest (fuel : Nat) : Keeps d named J E (nameRest fuel) := by
  induction fuel with
  | zero => exact .pure
  | succ fuel ih =>
    refine .bind (.nameCharacter glides false) fun c => ?_
    cases c with
    | none => exact .pure
    | some c => exact .bind ih fun _ => .pure

theorem identifierName : Keeps d named J E identifierName := by
  refine .bind (.nameCharacter glides true) fun c => ?_
  cases c with
  | none => exact .pure
  | some c => exact .read (.bind (.nameRest glides _) fun _ => .pure) rfl

theorem groupName : Keeps d named J E groupName := by
  refine .bind (.eat glides rfl) fun _ => .ite (.bind (.identifierName glides) fun name => ?_) .pure
  cases name with
  | none => exact .throw
  | some name => exact .bind (.eat glides rfl) fun _ => .ite .pure .throw

theorem bracedQuantifier (lenient : Bool) : Keeps d named J E (bracedQuantifier lenient) := by
  refine .position fun start there => .bind (.eat glides rfl) fun _ =>
    .ite (.bind (.eatDecimal glides) fun low => ?_) .pure
  have back : Keeps d named J E (do
      if (← MonadReader.read).unicode && !lenient then MonadExcept.throw Fault.incompleteQuantifier
      RegExp.moveTo start
      return false : PatternM Bool) :=
    .read (.ite .throwing (.bind (.moveTo there) fun _ => .pure)) rfl
  cases low with
  | none => exact back
  | some low =>
    have closes (high : Option Nat) : Keeps d named J E (do
        if ← RegExp.eat '}' then
          if high.any (· < low) && !lenient then MonadExcept.throw Fault.quantifierOutOfOrder
          return true
        if (← MonadReader.read).unicode && !lenient then MonadExcept.throw Fault.incompleteQuantifier
        RegExp.moveTo start
        return false : PatternM Bool) := .bind (.eat glides rfl) fun _ => .ite (.ite .throwing .pure) back
    exact .bind (.eat glides rfl) fun _ => .ite (.bind (.eatDecimal glides) closes) (closes none)

theorem quantifier (lenient : Bool) : Keeps d named J E (quantifier lenient) := by
  refine .bind (.anyMatch fun step mem => ?_) fun _ => .ite (.bind (.eat glides rfl) fun _ => .pure) .pure
  simp only [List.mem_cons, List.not_mem_nil, or_false] at mem
  rcases mem with rfl | rfl | rfl | rfl
  · exact .eat glides rfl
  · exact .eat glides rfl
  · exact .eat glides rfl
  · exact .bracedQuantifier glides lenient

theorem strayQuantifier : Keeps d named J E strayQuantifier :=
  .bind (.bracedQuantifier glides true) fun _ => .ite .throwing .pure

theorem modifiers : Keeps d named J E modifiers := by
  refine .bind (.eatRun glides (by decide)) fun added => .bind (.eat glides rfl) fun hyphen => ?_
  refine .ite (.ite .throwing (.ite ?_ .pure)) .pure
  exact .bind (.eatRun glides (by decide)) fun removed => .bind .sees fun _ => .ite .throwing (.ite .throw .pure)

end Keeps

/-! ### Escapes that may be of a `k` -/

/-- Both dialects read the code there alike, also if it is escaped. -/
def Dialect.Neutral (d : Dialect) (named : Bool) (i : Nat) : Prop :=
  d.at? d.unicode i = some 'k'.toNat → named = d.namedGroups

theorem eatCode_congr {inClass inClass' : Nat → Bool} {p : Progress}
    (same : ∀ code, d.at? d.unicode p.pos = some code → inClass code = inClass' code) :
    eatCode inClass d p = eatCode inClass' d p := by
  have peeks {f : Option Nat → PatternM (Option Nat)} : (peek >>= f) d p = f (d.at? d.unicode p.pos) d p := by
    rw [← Bool.false_or d.unicode]
    rfl
  unfold eatCode
  rw [peeks, peeks]
  cases stands : d.at? d.unicode p.pos with
  | none => rfl
  | some code => simp only [same code stands]

namespace Mirror

variable {n : Nat} {r : Record} {o : Outline} {w : Nat → Prop} (glides : d.Glides J)
include glides

theorem identityEscape (neutral : ∀ j, Spot d n o.behind w j → d.Neutral named j) :
    Mirror d named (fun p q => Here d n r o.behind w p ∧ Twin J E p q) identityEscape fun _ => Twin J E := by
  have takes (inClass : Nat → Bool) : Mirror d named (fun p q => Here d n r o.behind w p ∧ Twin J E p q)
      (eatCode inClass) fun _ => Twin J E := by
    refine Mirror.mono (eatCodeTo (J := fun j => J j ∧ (d.before j).escaped = true) (K := J) fun _ _ there stands _ =>
      glides.escaped there.1 there.2 stands) (fun p q here =>
        ⟨here.2.same, ⟨here.2.offset, ?_⟩, here.2.rest⟩) fun code _ _ here =>
      here.mono fun j is => ?_
    · rw [here.1.outline]
      rfl
    · cases code with
      | some code => exact is
      | none => exact is.1
  intro p q a p' here run
  let stands (d : Dialect) (code : Nat) : Bool :=
    if d.unicode then isSyntaxCharacter code || code == '/'.toNat
    else code != 'c'.toNat && !(d.namedGroups && code == 'k'.toNat)
  have reads (d : Dialect) : RegExp.identityEscape d = eatCode (stands d) d := by
    show (if d.unicode then _ else _ : PatternM (Option Nat)) d = _
    cases lenient : d.unicode <;> simp only [stands, lenient, Bool.false_eq_true, if_false, if_true]
  rw [reads] at run
  obtain ⟨q', run', done⟩ := takes _ p q a p' here run
  refine ⟨q', ?_, done⟩
  rw [reads, ← run']
  refine eatCode_congr fun code there => ?_
  have known := neutral p.pos here.1.toSpot
  rw [here.2.same] at known
  by_cases letter : code = 'k'.toNat
  · rw [known (letter ▸ there)]
    rfl
  · have other : (code == 'k'.toNat) = false := by simpa using letter
    simp only [stands, other, Bool.and_false]
    rfl

omit glides in
/-- A step is tried, and if it does not match, so is the next. -/
theorem firstMatch {A : Progress → Progress → Prop} {last : PatternM (Option α)} {steps : List (PatternM (Option α))}
    (each : ∀ step ∈ steps, Mirror d named A step fun a p q => (a.isSome = true → Twin J E p q) ∧
      (a.isSome = false → A p q))
    (final : Mirror d named A last fun _ => Twin J E) :
    Mirror d named A (firstMatch (steps ++ [last])) fun _ => Twin J E := by
  induction steps with
  | nil =>
    refine bind final fun a => ?_
    cases a <;> exact pure fun _ _ here => here
  | cons step steps ih =>
    refine bind (each step (.head _)) fun a => ?_
    cases a with
    | some a => exact pure fun _ _ here => here.1 rfl
    | none => exact (ih fun step mem => each step (.tail _ mem)).mono (fun _ _ here =>
        here.2 rfl) fun _ _ _ done => done

theorem characterEscape [d.Narrow] (open' : o.escaped = false)
    (neutral : ∀ j, Spot d n o.behind w j → d.Neutral named j) :
    Mirror d named (fun p q => Here d n r o.behind w p ∧ Twin J E p q) characterEscape fun _ => Twin J E := by
  refine read (?_ : Mirror d named _ (RegExp.firstMatch ([controlEscape, controlLetterEscape, zeroEscape, hexEscape,
    unicodeEscape false, if d.unicode then return none else octalEscape] ++ [RegExp.identityEscape])) _) rfl
  refine firstMatch (fun step mem => ?_) (identityEscape glides neutral)
  have tries : Escapes d step ∧ Keeps d named J E step := by
    simp only [List.mem_cons, List.not_mem_nil, or_false] at mem
    rcases mem with rfl | rfl | rfl | rfl | rfl | rfl
    · exact ⟨controlEscape_tries.escapes, .controlEscape glides⟩
    · exact ⟨controlLetterEscape_tries.escapes, .controlLetterEscape glides⟩
    · exact ⟨zeroEscape_tries.escapes, .zeroEscape glides⟩
    · exact ⟨hexEscape_tries.escapes, .hexEscape glides⟩
    · exact ⟨(unicodeEscape_tries false).escapes, .unicodeEscape glides false⟩
    · split
      · exact ⟨fun _ _ _ _ _ => .pure fun _ here => here, .pure⟩
      · exact ⟨octalEscape_tries.escapes, .octalEscape glides⟩
  refine (Mirror.along tries.2 (tries.1 n r o w open')).weaken fun a p q here =>
    ⟨fun _ => here.2, fun missed => ⟨?_, here.2⟩⟩
  rw [missed] at here
  exact here.1

end Mirror

/-! ### Groups with and without a name -/

namespace Dialect

variable {i : Nat}

/-- The cursor may get anywhere. -/
theorem glides_true : d.Glides fun _ => True :=
  ⟨fun _ _ _ => trivial, fun _ _ _ => trivial, fun _ _ _ => trivial⟩

/-- A step that only moves the cursor gives the same from wherever else a run is at that offset. -/
theorem run_elsewhere {α : Type} {x : PatternM α} {p q r : Progress} {a : α} (named : Bool)
    (keeps : ∀ (J : Nat → Prop) (E : Progress → Progress → Prop), d.Glides J → Keeps d named J E x)
    (same : p.pos = q.pos) (run : x d p = .ok a r) : x (d.naming named) q = .ok a { q with pos := r.pos } := by
  obtain ⟨q', run', twin⟩ := keeps _ (fun _ b => b = { q with pos := 0 }) d.glides_true p q a r ⟨same, trivial, rfl⟩ run
  rw [run', twin.same]
  have rest := twin.rest
  cases q
  cases q'
  cases rest
  rfl

/-- And it moves the cursor forward, if at all. -/
theorem run_forward {α : Type} {x : PatternM α} {p r : Progress} {a : α}
    (keeps : ∀ (J : Nat → Prop) (E : Progress → Progress → Prop), d.Glides J → Keeps d d.namedGroups J E x)
    (run : x d p = .ok a r) : p.pos ≤ r.pos := by
  have glides : d.Glides fun j => p.pos ≤ j :=
    ⟨fun above _ _ => Nat.le_trans above (d.le_next _ _), fun above _ _ => Nat.le_add_right_of_le above,
      fun above _ _ => Nat.le_trans above (d.le_next _ _)⟩
  obtain ⟨_, -, twin⟩ := keeps _ (fun _ _ => True) glides p p a r ⟨rfl, Nat.le_refl _, trivial⟩ run
  exact twin.offset

theorem groupName_elsewhere [d.Narrow] {p p' q : Progress} {name : Option String} (named : Bool)
    (same : p.pos = q.pos)
    (reads : groupName d p = .ok name p') : ∃ q', groupName (d.naming named) q = .ok name q' :=
  ⟨_, run_elsewhere named (fun _ _ glides => .groupName glides) same reads⟩

theorem nameAt?_of_read [d.Narrow] {p p' : Progress} {name : String}
    (question : d.units[i + 1]? = some '?'.toNat) (stands : p.pos = i + 2)
    (reads : groupName d p = .ok (some name) p') : d.nameAt? i = some name := by
  obtain ⟨q', reads'⟩ := groupName_elsewhere (q := { pos := i + 2 }) d.namedGroups stands reads
  unfold nameAt?
  rw [if_pos question, show groupName d { pos := i + 2 } = .ok (some name) q' from reads']

instance [d.Narrow] {named : Bool} : (d.naming named).Narrow :=
  ⟨fun i unit stands => Dialect.Narrow.le (d := d) i unit stands⟩

/-- How an escaped `k` is read does not matter to names. -/
theorem nameAt?_naming [d.Narrow] {named : Bool} : (d.naming named).nameAt? i = d.nameAt? i := by
  by_cases question : d.units[i + 1]? = some '?'.toNat
  · simp only [nameAt?, show (d.naming named).units = d.units from rfl, question, if_true]
    cases run : groupName d { pos := i + 2 } with
    | ok name p =>
      obtain ⟨q, run'⟩ := groupName_elsewhere named rfl run
      rw [run']
    | error fault p =>
      cases run' : groupName (d.naming named) { pos := i + 2 } with
      | ok name q =>
        obtain ⟨p', again⟩ := groupName_elsewhere d.namedGroups rfl run'
        cases run.symm.trans again
      | error fault' q => rfl
  · simp only [nameAt?, show (d.naming named).units = d.units from rfl, question, if_false]

theorem nameAt?_of_plain (plain : d.units[i + 1]? ≠ some '?'.toNat) : d.nameAt? i = none :=
  if_neg plain

theorem nameAt?_of_unread
    (unread : Steps d (fun p => p.pos = i + 2) groupName fun name _ => name = none) :
    d.nameAt? i = none := by
  have outcome := unread { pos := i + 2 } rfl
  unfold nameAt?
  split
  · cases run : groupName d { pos := i + 2 } with
    | ok name p =>
      rw [run] at outcome
      exact outcome
    | error fault p => rfl
  · rfl

theorem nameAt?_of_other (other : d.at? d.unicode (i + 2) ≠ some '<'.toNat) : d.nameAt? i = none := by
  refine nameAt?_of_unread ?_
  refine .bind (R := fun eaten _ => eaten = false) ?_ fun eaten => ?_
  · refine .bind (R := fun seen _ => seen = false) (fun p stands => ?_) fun seen => ?_
    · exact Bool.eq_false_iff.2 fun same => other (stands ▸ eq_of_beq same)
    · cases seen with
      | false => exact .pure fun _ _ => rfl
      | true => exact fun _ no => by cases no
  · cases eaten with
    | false => exact .pure fun _ _ => rfl
    | true => exact fun _ no => by cases no

/-- What may not begin a name. -/
theorem nameCharacter_refuses {c : Char} {i : Nat} (stands : d.units[i]? = some c.toNat)
    (small : c.toNat < 0xd800) (plain : c ≠ '\\') (refused : belongsToName true c = false)
    (scalar : scalar? c.toNat = some c) :
    Steps d (fun p => p.pos = i) (nameCharacter true) fun a _ => a = none := by
  have code (joined : Bool) : Steps d (fun p => p.pos = i) (nameCode joined) fun code _ =>
      code = some c.toNat := by
    refine .bind (R := fun code _ => code = some c.toNat) (fun p here => ?_) fun code => ?_
    · subst here
      exact at?_of_unit stands small
    · refine .choose fun p same => ?_
      subst same
      refine .bind (R := fun _ _ => True) (fun _ _ => trivial) fun _ => ?_
      rw [if_neg (by simpa using fun same => plain (Char.toNat_inj.1 same))]
      exact .pure fun _ _ => rfl
  refine .bind (R := fun _ p => p.pos = i) (fun p here => here) fun start => ?_
  refine .bind (R := fun a _ => a = none) (.read (.bind (code _) fun code => .pure fun p same => ?_))
    fun a => ?_
  · rw [same, Option.bind_some, scalar]
    exact Option.filter_eq_none_iff.2 fun _ found => by cases found; simp [refused]
  · cases a with
    | none => exact fun _ _ => rfl
    | some a => exact fun _ no => by cases no

theorem nameAt?_of_lookbehind [d.Narrow] {c : Char} (stands : d.units[i + 3]? = some c.toNat)
    (assertion : c = '=' ∨ c = '!') : d.nameAt? i = none := by
  have refused : Steps d (fun p => p.pos = i + 3) (nameCharacter true) fun a _ => a = none := by
    rcases assertion with rfl | rfl <;>
      exact nameCharacter_refuses stands (by decide) (by decide) (by decide) rfl
  have eaten : Steps d (fun p => p.pos = i + 2) (eat '<') fun eaten p => eaten = true → p.pos = i + 3 := by
    refine .bind (R := fun seen p => p.pos = i + 2 ∧ (seen = true → d.at? d.unicode (i + 2) = some '<'.toNat))
      (fun p here => ⟨here, fun same => here ▸ eq_of_beq same⟩) fun seen => ?_
    cases seen with
    | false => exact .pure fun _ _ no => by cases no
    | true =>
      intro p here
      show true = true → d.next (false || d.unicode) p.pos = i + 3
      rw [here.1, Bool.false_or, (at?_char (here.2 rfl) (by decide)).2]
      exact fun _ => rfl
  refine nameAt?_of_unread (.bind eaten fun eaten => ?_)
  cases eaten with
  | false => exact .pure fun _ _ => rfl
  | true =>
    refine .bind (R := fun name _ => name = none) ?_ fun name => ?_
    · refine .bind (refused.mono (fun _ here => here rfl) fun _ _ done => done) fun a => ?_
      cases a with
      | none => exact .pure fun _ _ => rfl
      | some a => exact fun _ no => by cases no
    · cases name with
      | none => exact (.throw rfl)
      | some name => exact fun _ no => by cases no

end Dialect

end RegExp
end ScriptSyntax
