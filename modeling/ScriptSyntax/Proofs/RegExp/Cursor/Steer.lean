import ScriptSyntax.Proofs.RegExp.Trail

/-!
How steps over a pattern move its cursor.  A step that looks for a match moves it on if there is one and leaves it
where it was if not, and no step moves it past the last code unit, not even one that fails.
-/

namespace ScriptSyntax
namespace RegExp

variable {α β σ : Type} {d : Dialect} {i : Nat}

/-- From a cursor where `P` holds a step gets to one where `Q` does, or it fails; either way the cursor does not leave
the pattern. -/
def Steers (d : Dialect) (P : Nat → Prop) (step : PatternM α) (Q : α → Nat → Prop) : Prop :=
  ∀ p, p.pos ≤ d.units.size → P p.pos →
    match step d p with
    | .ok a q => q.pos ≤ d.units.size ∧ Q a q.pos
    | .error _ q => q.pos ≤ d.units.size

/-- Where the cursor is after a look for a match at `i`. -/
def Moved (i : Nat) (matched : Bool) (j : Nat) : Prop := bif matched then i < j else j = i

/-- A step that looks for a match; `found` says of what it gives whether there was one. -/
def Probes (d : Dialect) (step : PatternM α) (found : α → Bool) : Prop :=
  ∀ i ≤ d.units.size, Steers d (· = i) step fun a => Moved i (found a)

/-- A step that does not move the cursor back. -/
def Proceeds (d : Dialect) (step : PatternM α) : Prop := ∀ i, Steers d (i ≤ ·) step fun _ => (i ≤ ·)

theorem Moved.le {matched : Bool} {j : Nat} (moved : Moved i matched j) : i ≤ j := by
  cases matched with
  | true => exact Nat.le_of_lt moved
  | false => exact Nat.le_of_eq (Eq.symm moved)

/-! ### Rules -/

namespace Steers

variable {P P' : Nat → Prop} {Q : β → Nat → Prop} {R R' : α → Nat → Prop}

theorem bind {x : PatternM α} {f : α → PatternM β} (first : Steers d P x R) (rest : ∀ a, Steers d (R a) (f a) Q) :
    Steers d P (x >>= f) Q := by
  intro p within here
  have done := first p within here
  cases run : x d p with
  | ok a q =>
    rw [run] at done
    rw [run_bind run]
    exact rest a q done.1 done.2
  | error fault q =>
    rw [run] at done
    rw [run_fails run]
    exact done

theorem mono {x : PatternM α} (steers : Steers d P x R) (before : ∀ j, P' j → P j) (after : ∀ a j, R a j → R' a j) :
    Steers d P' x R' := by
  intro p within here
  have done := steers p within (before p.pos here)
  cases run : x d p with
  | ok a q =>
    rw [run] at done
    exact ⟨done.1, after a q.pos done.2⟩
  | error fault q =>
    rw [run] at done
    exact done

theorem weaken {x : PatternM α} (steers : Steers d P x R) (after : ∀ a j, R a j → R' a j) : Steers d P x R' :=
  steers.mono (fun _ here => here) after

theorem pure {a : α} (done : ∀ j, P j → R a j) : Steers d P (pure a) R := fun p within here => ⟨within, done p.pos here⟩

theorem throw {fault : Fault} : Steers d P (throw fault : PatternM α) R := fun _ within _ => within

theorem throwing {fault : Fault} {f : α → PatternM β} : Steers d P (MonadExcept.throw fault >>= f) Q :=
  fun _ within _ => within

theorem read {f : Dialect → PatternM β} (rest : Steers d P (f d) Q) : Steers d P (read >>= f) Q := rest

/-- A look at what is read so far, whatever it is. -/
theorem look {f : Progress → PatternM β} (rest : ∀ p, Steers d P (f p) Q) : Steers d P (MonadState.get >>= f) Q :=
  fun p within here => rest p p within here

/-- A change of what is noted that leaves the cursor alone. -/
theorem note {f : Progress → Progress} {R : Unit → Nat → Prop} (alone : ∀ p, (f p).pos = p.pos)
    (done : ∀ j, P j → R () j) : Steers d P (modify f) R := by
  intro p within here
  show (f p).pos ≤ d.units.size ∧ R () (f p).pos
  rw [alone]
  exact ⟨within, done p.pos here⟩

theorem ite {c : Prop} [Decidable c] {x y : PatternM α} (yes : c → Steers d P x R) (no : ¬ c → Steers d P y R) :
    Steers d P (if c then x else y) R := by
  split
  · exact yes ‹_›
  · exact no ‹_›

/-- Wherever the cursor is, it is at a place of its own. -/
theorem each {x : PatternM α} (steers : ∀ j, P j → Steers d (· = j) x R) : Steers d P x R :=
  fun p within here => steers p.pos here p within rfl

theorem position {f : Nat → PatternM β} (rest : Steers d (· = i) (f i) Q) : Steers d (· = i) (position >>= f) Q := by
  rintro p within rfl
  exact rest p within rfl

theorem back {f : Unit → PatternM β} (within : i ≤ d.units.size) (rest : Steers d (· = i) (f ()) Q) :
    Steers d P (moveTo i >>= f) Q := fun p _ _ => rest { p with pos := i } within rfl

theorem lt_size {joined : Bool} {code : Nat} (stands : d.at? joined i = some code) : i < d.units.size :=
  Nat.lt_of_not_le fun past => by cases (Dialect.at?_eq_none.2 past).symm.trans stands

theorem peek {joined : Bool} {f : Option Nat → PatternM β} (none : Steers d (· = i) (f none) Q)
    (some : ∀ code, i < d.units.size → Steers d (· = i) (f (some code)) Q) :
    Steers d (· = i) (peekJoined joined >>= f) Q := by
  rintro p within rfl
  show match f (d.at? (joined || d.unicode) p.pos) d p with
    | .ok a q => q.pos ≤ d.units.size ∧ Q a q.pos
    | .error _ q => q.pos ≤ d.units.size
  cases stands : d.at? (joined || d.unicode) p.pos with
  | none => exact none p within rfl
  | some code => exact some code (lt_size stands) p within rfl

theorem peekSecond {f : Option Nat → PatternM β} (rest : ∀ code, Steers d P (f code) Q) :
    Steers d P (peekSecond >>= f) Q :=
  fun p within here => rest _ p within here

theorem sees {c : Char} {f : Bool → PatternM β}
    (rest : ∀ seen, (seen = true → i < d.units.size) → Steers d (· = i) (f seen) Q) :
    Steers d (· = i) (sees c >>= f) Q := by
  rintro p within rfl
  rw [run_bind sees_run]
  exact rest _ (fun seen => lt_size (beq_iff_eq.1 seen)) p within rfl

/-- What stands inside the pattern is moved past. -/
theorem advance [d.Narrow] {joined : Bool} {f : Unit → PatternM β} (inside : i < d.units.size)
    (rest : Steers d (i < ·) (f ()) Q) : Steers d (· = i) (advanceJoined joined >>= f) Q := by
  rintro p - rfl
  obtain ⟨code, stands⟩ : ∃ code, d.at? (joined || d.unicode) p.pos = some code :=
    Option.ne_none_iff_exists'.1 fun none => Nat.not_le.2 inside (Dialect.at?_eq_none.1 none)
  exact rest { p with pos := d.next (joined || d.unicode) p.pos } (Dialect.next_le_size stands) (Dialect.lt_next stands)

/-- A step that looks for a match, and what follows in either case. -/
theorem probe {x : PatternM α} {found : α → Bool} {f : α → PatternM β} (probes : Probes d x found)
    (within : i ≤ d.units.size)
    (yes : ∀ a, found a = true → Steers d (i < ·) (f a) Q) (no : ∀ a, found a = false → Steers d (· = i) (f a) Q) :
    Steers d (· = i) (x >>= f) Q := by
  refine bind (probes i within) fun a => ?_
  cases matched : found a with
  | true => exact (yes a matched).mono (fun _ moved => moved) fun _ _ done => done
  | false => exact (no a matched).mono (fun _ moved => moved) fun _ _ done => done

theorem probeIf {x : PatternM Bool} {f : Bool → PatternM β} (probes : Probes d x id) (within : i ≤ d.units.size)
    (yes : Steers d (i < ·) (f true) Q) (no : Steers d (· = i) (f false) Q) : Steers d (· = i) (x >>= f) Q := by
  refine probe probes within (fun matched is => ?_) fun matched is => ?_
  · cases is
    exact yes
  · cases is
    exact no

theorem probeSome {x : PatternM (Option α)} {f : Option α → PatternM β} (probes : Probes d x Option.isSome)
    (within : i ≤ d.units.size) (yes : ∀ a, Steers d (i < ·) (f (some a)) Q) (no : Steers d (· = i) (f none) Q) :
    Steers d (· = i) (x >>= f) Q := by
  refine probe probes within (fun a is => ?_) fun a is => ?_
  · obtain ⟨a, rfl⟩ := Option.isSome_iff_exists.1 is
    exact yes a
  · rw [Option.isSome_eq_false_iff, Option.isNone_iff_eq_none] at is
    exact is ▸ no

end Steers

namespace Proceeds

theorem bind {x : PatternM α} {f : α → PatternM β} (first : Proceeds d x) (rest : ∀ a, Proceeds d (f a)) :
    Proceeds d (x >>= f) := fun i => .bind (first i) fun a => rest a i

theorem pure {a : α} : Proceeds d (pure a) := fun _ => .pure fun _ here => here

theorem throw {fault : Fault} : Proceeds d (throw fault : PatternM α) := fun _ => .throw

theorem throwing {fault : Fault} {f : α → PatternM β} : Proceeds d (MonadExcept.throw fault >>= f) := fun _ => .throwing

theorem read {f : Dialect → PatternM β} (rest : Proceeds d (f d)) : Proceeds d (read >>= f) := rest

theorem look {f : Progress → PatternM β} (rest : ∀ p, Proceeds d (f p)) : Proceeds d (MonadState.get >>= f) :=
  fun i => .look fun p => rest p i

theorem note {f : Progress → Progress} (alone : ∀ p, (f p).pos = p.pos) : Proceeds d (modify f) :=
  fun _ => .note alone fun _ here => here

theorem position {f : Nat → PatternM β} (rest : ∀ start, Proceeds d (f start)) : Proceeds d (position >>= f) :=
  fun i p within here => rest p.pos i p within here

theorem ite {c : Prop} [Decidable c] {x y : PatternM α} (yes : c → Proceeds d x) (no : ¬ c → Proceeds d y) :
    Proceeds d (if c then x else y) := by
  split
  · exact yes ‹_›
  · exact no ‹_›

theorem sees {c : Char} {f : Bool → PatternM β} (rest : ∀ seen, Proceeds d (f seen)) : Proceeds d (sees c >>= f) :=
  fun i p within here => by
    rw [run_bind sees_run]
    exact rest _ i p within here

/-- Past where it began, a step that does not move back stays past. -/
theorem past {x : PatternM α} (proceeds : Proceeds d x) : Steers d (i < ·) x fun _ => (i < ·) := proceeds (i + 1)

theorem onwards {x : PatternM α} (proceeds : Proceeds d x) : Steers d (· = i) x fun _ => (i ≤ ·) :=
  (proceeds i).mono (fun _ here => Nat.le_of_eq here.symm) fun _ _ done => done

end Proceeds

/-! ### Looks for a match -/

namespace Probes

variable {found : α → Bool}

theorem proceeds {x : PatternM α} (probes : Probes d x found) : Proceeds d x := by
  intro i p within here
  have done := probes p.pos within p within rfl
  cases run : x d p with
  | ok a q =>
    rw [run] at done
    exact ⟨done.1, Nat.le_trans here done.2.le⟩
  | error fault q =>
    rw [run] at done
    exact done

theorem missed {a : α} (no : found a = false) : Probes d (pure a) found :=
  fun _ _ => .pure fun j here => by rw [Moved, no]; exact here

/-- What is made of what a step gives may say as well whether there was a match. -/
theorem map {x : PatternM α} {g : α → β} {found' : β → Bool} (probes : Probes d x found)
    (same : ∀ a, found' (g a) = found a) : Probes d (do return g (← x)) found' :=
  fun i within => .bind (probes i within) fun a => .pure fun _ moved => (same a).symm ▸ moved

theorem ite {c : Prop} [Decidable c] {x y : PatternM α} (yes : c → Probes d x found) (no : ¬ c → Probes d y found) :
    Probes d (if c then x else y) found := by
  split
  · exact yes ‹_›
  · exact no ‹_›

theorem anyMatch {steps : List (PatternM Bool)} (each : ∀ step ∈ steps, Probes d step id) :
    Probes d (RegExp.anyMatch steps) id := by
  induction steps with
  | nil => exact missed rfl
  | cons step steps ih =>
    intro i within
    refine .probeIf (each step (.head _)) within (.pure fun _ past => past) ?_
    exact ih (fun step mem => each step (.tail _ mem)) i within

theorem firstMatch {steps : List (PatternM (Option α))} (each : ∀ step ∈ steps, Probes d step Option.isSome) :
    Probes d (RegExp.firstMatch steps) Option.isSome := by
  induction steps with
  | nil => exact missed rfl
  | cons step steps ih =>
    intro i within
    refine .probeSome (each step (.head _)) within (fun a => .pure fun _ past => past) ?_
    exact ih (fun step mem => each step (.tail _ mem)) i within

/-- Going back makes up for whatever a step without a match has done to the cursor. -/
theorem orRewind {x : PatternM (Option α)}
    (steers : ∀ i ≤ d.units.size, Steers d (· = i) x fun a j => a.isSome = true → i < j) :
    Probes d (RegExp.orRewind x) Option.isSome := by
  intro i within
  refine .position (.bind (steers i within) fun a => ?_)
  cases a with
  | some a => exact .pure fun _ past => past rfl
  | none => exact .back within (.pure fun _ here => here)

end Probes

theorem Dialect.run_moved [d.Narrow] (inClass : Nat → Bool) (fuel : Nat) (within : i ≤ d.units.size) :
    (d.run inClass fuel i).2 ≤ d.units.size ∧ Moved i (!(d.run inClass fuel i).1.isEmpty) (d.run inClass fuel i).2 := by
  induction fuel generalizing i with
  | zero => exact ⟨within, rfl⟩
  | succ fuel ih =>
    cases stands : d.at? d.unicode i with
    | none => simpa only [Dialect.run, stands] using ⟨within, rfl⟩
    | some code =>
      cases is : inClass code with
      | false => simpa only [Dialect.run, stands, is] using ⟨within, rfl⟩
      | true =>
        obtain ⟨inside, moved⟩ := ih (Dialect.next_le_size stands)
        simp only [Dialect.run, stands, is, if_true]
        exact ⟨inside, Nat.lt_of_lt_of_le (Dialect.lt_next stands) moved.le⟩

section

variable [d.Narrow]

theorem advanceJoined_proceeds (joined : Bool) : Proceeds d (advanceJoined joined) := by
  intro i p within here
  refine ⟨?_, Nat.le_trans here (d.le_next _ _)⟩
  show d.next (joined || d.unicode) p.pos ≤ d.units.size
  cases stands : d.at? (joined || d.unicode) p.pos with
  | none => simpa only [Dialect.next, stands] using within
  | some code => exact Dialect.next_le_size stands

theorem eat_probes (c : Char) : Probes d (eat c) id := by
  intro i within
  refine .sees fun seen inside => ?_
  cases seen with
  | false => exact .pure fun _ here => here
  | true => exact .advance (inside rfl) (.pure fun _ past => past)

theorem eatAny_probes (cs : List Char) : Probes d (anyMatch (cs.map eat)) id := by
  refine .anyMatch fun step mem => ?_
  obtain ⟨c, -, rfl⟩ := List.mem_map.1 mem
  exact eat_probes c

theorem eatPair_probes (c c' : Char) : Probes d (eatPair c c') id := by
  intro i within
  refine .position (.probeIf (eat_probes c) within ?_ (.pure fun _ here => here))
  refine .bind (eat_probes c').proceeds.past fun second => ?_
  cases second with
  | true => exact .pure fun _ past => past
  | false => exact .back within (.pure fun _ here => here)

theorem eatCode_probes (inClass : Nat → Bool) : Probes d (eatCode inClass) Option.isSome := by
  intro i within
  refine .peek (.pure fun _ here => here) fun code inside => ?_
  exact .ite (fun _ => .advance inside (.pure fun _ past => past)) fun _ => .pure fun _ here => here

theorem eatRun_probes (inClass : Nat → Bool) : Probes d (eatRun inClass) fun codes => !codes.isEmpty := by
  rintro i - p within rfl
  exact Dialect.run_moved inClass (d.units.size + 1) within

theorem eatDecimal_probes : Probes d eatDecimal Option.isSome := by
  intro i within
  refine .bind (eatRun_probes _ i within) fun digits => ?_
  cases digits <;> exact .pure fun _ moved => moved

theorem eatHex_probes : Probes d eatHex Option.isSome := by
  intro i within
  refine .bind (eatRun_probes _ i within) fun digits => ?_
  cases digits <;> exact .pure fun _ moved => moved

/-- A digit is read, and then the others, or the cursor goes back. -/
theorem eatFixedHex_digit (within : i ≤ d.units.size) {j count : Nat} (from' : i ≤ j)
    (others : ∀ total, Steers d (i < ·) (eatFixedHex.go i count total) fun value => Moved i value.isSome)
    (total : Nat) :
    Steers d (· = j) (eatFixedHex.go i (count + 1) total) fun value => Moved i value.isSome := by
  refine .peek ?_ fun code inside => ?_
  · exact .back within (.pure fun _ here => here)
  · rw [Option.bind_some]
    cases hexValue? code with
    | none => exact .back within (.pure fun _ here => here)
    | some value => exact .advance inside ((others _).mono (fun _ => Nat.lt_of_le_of_lt from') fun _ _ done => done)

/-- No digits at all would be found anywhere. -/
theorem eatFixedHex_probes (count : Nat) : Probes d (eatFixedHex (count + 1)) Option.isSome := by
  intro i within
  have all : ∀ count total, Steers d (i < ·) (eatFixedHex.go i count total) fun value => Moved i value.isSome := by
    intro count
    induction count with
    | zero => exact fun total => .pure fun _ past => past
    | succ count ih => exact fun total => .each fun j past => eatFixedHex_digit within (Nat.le_of_lt past) ih total
  exact .position (eatFixedHex_digit within (Nat.le_refl i) (all count) 0)

end

/-! ### Loops -/

/-- A loop under a bound: as many rounds, or fewer.  A round gives what the next one goes on with, or nothing where the
loop ends. -/
def repeated (round : σ → PatternM (Option σ)) : Nat → σ → PatternM σ
  | 0, s => return s
  | bound + 1, s => do
    match ← round s with
    | some t => repeated round bound t
    | none => return s

/-- Runs of a loop without a bound: from a value and a state on, there are `n` rounds after which it goes on, and one
that ends it or fails. -/
inductive Rounds (d : Dialect) (round : σ → PatternM (Option σ)) :
    σ → Progress → Nat → EStateM.Result Fault Progress σ → Prop
  | ends {s : σ} {p q : Progress} : round s d p = .ok none q → Rounds d round s p 0 (.ok s q)
  | fails {s : σ} {p q : Progress} {fault : Fault} :
      round s d p = .error fault q → Rounds d round s p 0 (.error fault q)
  | next {s t : σ} {p q : Progress} {n : Nat} {r : EStateM.Result Fault Progress σ} :
    round s d p = .ok (some t) q → Rounds d round t q n r → Rounds d round s p (n + 1) r

section

variable {round : σ → PatternM (Option σ)}

/-- There is one way at most to run a loop. -/
theorem Rounds.unique {s : σ} {p : Progress} {n m : Nat} {r t : EStateM.Result Fault Progress σ}
    (runs : Rounds d round s p n r) (runs' : Rounds d round s p m t) : m = n ∧ t = r := by
  induction runs generalizing m with
  | ends step =>
    cases runs' with
    | ends step' => cases step.symm.trans step'; exact ⟨rfl, rfl⟩
    | fails step' => cases step.symm.trans step'
    | next step' _ => cases step.symm.trans step'
  | fails step =>
    cases runs' with
    | ends step' => cases step.symm.trans step'
    | fails step' => cases step.symm.trans step'; exact ⟨rfl, rfl⟩
    | next step' _ => cases step.symm.trans step'
  | next step _ ih =>
    cases runs' with
    | ends step' => cases step.symm.trans step'
    | fails step' => cases step.symm.trans step'
    | next step' rest =>
      cases step.symm.trans step'
      obtain ⟨rfl, rfl⟩ := ih rest
      exact ⟨rfl, rfl⟩

variable (rounds : ∀ s, Probes d (round s) Option.isSome)
include rounds

theorem repeated_proceeds (bound : Nat) (s : σ) : Proceeds d (repeated round bound s) := by
  induction bound generalizing s with
  | zero => exact .pure
  | succ bound ih =>
    refine .bind (rounds s).proceeds fun t => ?_
    cases t with
    | none => exact .pure
    | some t => exact ih t

/-- Where each round that goes on moves the cursor on, there are no more such rounds than code units left, so a loop
ends, and a larger bound is no bound. -/
theorem repeated_rounds {p : Progress} (within : p.pos ≤ d.units.size) {bound : Nat}
    (enough : d.units.size - p.pos < bound)
    (s : σ) : ∃ n ≤ d.units.size - p.pos, Rounds d round s p n (repeated round bound s d p) := by
  induction bound generalizing s p with
  | zero => exact absurd enough (Nat.not_lt_zero _)
  | succ bound ih =>
    have done := rounds s p.pos within p within rfl
    rw [repeated]
    cases run : round s d p with
    | error fault q =>
      rw [run_fails run]
      exact ⟨0, Nat.zero_le _, .fails run⟩
    | ok t q =>
      rw [run] at done
      rw [run_bind run]
      cases t with
      | none => exact ⟨0, Nat.zero_le _, .ends run⟩
      | some t =>
        have past : p.pos < q.pos := done.2
        obtain ⟨n, few, rest⟩ := ih done.1 (by omega) t
        exact ⟨n + 1, by omega, .next run rest⟩

end

/-! ### Steps taken as long as they match -/

section

variable {step : PatternM Bool}

/-- One more match. -/
def matchRound (step : PatternM Bool) (_ : Unit) : PatternM (Option Unit) := return if ← step then some () else none

theorem whileMatch_eq (step : PatternM Bool) (bound : Nat) :
    whileMatch step bound = repeated (matchRound step) bound () := by
  induction bound with
  | zero => rfl
  | succ bound ih =>
    rw [whileMatch, repeated, matchRound]
    simp only [bind_assoc, pure_bind]
    refine bind_congr fun matched => ?_
    cases matched with
    | false => rfl
    | true => exact ih

variable (probes : Probes d step id)
include probes

theorem matchRound_probes (u : Unit) : Probes d (matchRound step u) Option.isSome :=
  .map probes fun matched => by cases matched <;> rfl

theorem exhaust_proceeds : Proceeds d (exhaust step) :=
  .read (.position fun _ => whileMatch_eq step _ ▸ repeated_proceeds (matchRound_probes probes) _ ())

end

end RegExp
end ScriptSyntax
