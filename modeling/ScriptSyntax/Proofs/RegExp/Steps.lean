import ScriptSyntax.RegExp.Validator

/-!
Steps over a pattern, by what they ask of the cursor and what they leave behind.

The outline of a pattern says how its groups nest and in which alternatives they stand.  It is read off the code units
one by one, with no more grammar than backslashes, brackets, parentheses and bars, so it says what a pattern holds
without saying whether the pattern is valid.  Most steps touch neither the names nor the alternatives recorded, and
leave the outline as it was, but for a backslash whose escape they complete.
-/

namespace ScriptSyntax
namespace RegExp

/-! ### Outlines -/

/-- Where something stands in a pattern: the alternatives around it, innermost first.  Each is known
by how many alternatives begin before it, and its disjunction by the first of its alternatives. -/
abbrev Place := List (Nat × Nat)

/-- Some disjunction around both places has them in different alternatives. -/
def Place.Separated (a b : Place) : Prop :=
  ∃ disjunction x y, (disjunction, x) ∈ a ∧ (disjunction, y) ∈ b ∧ x ≠ y

/-- What the code units before an offset say. -/
structure Outline where
  /-- Does a backslash take the meaning of the next code unit away? -/
  escaped : Bool := false
  /-- Character classes open. -/
  classes : Nat := 0
  /-- The alternatives open. -/
  place : Place := [(0, 0)]
  /-- Alternatives begun. -/
  begun : Nat := 1
  /-- The groups and lookarounds begun: where the parenthesis stands, and the place around it. -/
  groups : List (Nat × Place) := []

namespace Outline

/-- Takes in the code unit at an offset.  Classes may be `nested`. -/
def step (nested : Bool) (o : Outline) (i unit : Nat) : Outline :=
  if o.escaped then { o with escaped := false }
  else if unit = '\\'.toNat then { o with escaped := true }
  else if 0 < o.classes then
    if unit = ']'.toNat then { o with classes := o.classes - 1 }
    else if unit = '['.toNat ∧ nested = true then { o with classes := o.classes + 1 }
    else o
  else if unit = '['.toNat then { o with classes := 1 }
  else if unit = '('.toNat then
    { o with
      place := (o.begun, o.begun) :: o.place
      begun := o.begun + 1
      groups := o.groups ++ [(i, o.place)] }
  else if unit = '|'.toNat then
    match o.place with
    | (disjunction, _) :: outer =>
      { o with place := (disjunction, o.begun) :: outer, begun := o.begun + 1 }
    | [] => o
  else if unit = ')'.toNat then { o with place := o.place.tail }
  else o

/-- A parenthesis begins a group, and nothing else does. -/
theorem groups_step (o : Outline) (nested : Bool) (i unit : Nat) :
    (o.step nested i unit).groups = o.groups ∨
      unit = '('.toNat ∧ (o.step nested i unit).groups = o.groups ++ [(i, o.place)] := by
  unfold step
  repeat' split
  all_goals first | exact .inl rfl | exact .inr ⟨by assumption, rfl⟩

/-- The groups known stay known. -/
theorem groups_prefix (o : Outline) (nested : Bool) (i unit : Nat) :
    o.groups <+: (o.step nested i unit).groups := by
  obtain same | ⟨-, more⟩ := o.groups_step nested i unit
  · exact same ▸ List.prefix_rfl
  · exact more ▸ List.prefix_append _ _

end Outline

namespace Dialect

/-- The outline of the code units before an offset. -/
def before (d : Dialect) : Nat → Outline
  | 0 => {}
  | i + 1 =>
    match d.units[i]? with
    | some unit => (d.before i).step d.unicodeSets i unit
    | none => d.before i

theorem groups_prefix {d : Dialect} {m n : Nat} (le : m ≤ n) : (d.before m).groups <+: (d.before n).groups := by
  induction le with
  | refl => exact List.prefix_rfl
  | step _ ih =>
    refine ih.trans ?_
    rw [before]
    split
    · exact Outline.groups_prefix _ _ _ _
    · exact List.prefix_rfl

/-- The name, escapes decoded, of a group whose parenthesis stands at an offset. -/
def nameAt? (d : Dialect) (i : Nat) : Option String :=
  if d.units[i + 1]? = some '?'.toNat then
    match groupName d { pos := i + 2 } with
    | .ok name _ => name
    | .error _ _ => none
  else none

/-- Those of the groups that have a name, by their names. -/
def namesIn (d : Dialect) (groups : List (Nat × Place)) : List (String × Place) :=
  groups.filterMap fun group => (d.nameAt? group.1).map fun name => (name, group.2)

/-- The named groups that begin before an offset, each with its place. -/
def named (d : Dialect) (n : Nat) : List (String × Place) := d.namesIn (d.before n).groups

/-- May two groups stand in one pattern?  They may share a name only from the sixteenth edition on,
and only if they are separated. -/
def MayStand (d : Dialect) (a b : String × Place) : Prop :=
  a.1 = b.1 → 16 ≤ d.edition ∧ Place.Separated a.2 b.2

end Dialect

/-! ### Records -/

/-- What is recorded of groups: their names, the alternatives begun and the one at the cursor. -/
structure Record where
  names : List (String × Option Nat)
  branches : Array Branch
  branch : Option Nat

def Progress.record (p : Progress) : Record := ⟨p.names, p.branches, p.branch⟩

@[simp] theorem Progress.record_moved (p : Progress) (i : Nat) :
    { p with pos := i }.record = p.record := rfl

/-- Two groups of what is read so far cannot stand in one pattern. -/
def Dialect.Clash (d : Dialect) (p : Progress) : Prop := ¬ (d.named p.pos).Pairwise d.MayStand

variable {α β : Type} {d : Dialect}

/-- From where `P` holds a step gets to where `Q` does, or fails; and it only blames a name if two
groups clash. -/
def Steps (d : Dialect) (P : Progress → Prop) (step : PatternM α) (Q : α → Progress → Prop) : Prop :=
  ∀ p, P p →
    match step d p with
    | .ok a p' => Q a p'
    | .error fault p' => fault = .duplicateGroupName → d.Clash p'

namespace Steps

variable {P P' : Progress → Prop} {Q : β → Progress → Prop} {R R' : α → Progress → Prop}

theorem bind {x : PatternM α} {f : α → PatternM β} (first : Steps d P x R)
    (rest : ∀ a, Steps d (R a) (f a) Q) : Steps d P (x >>= f) Q := by
  intro p here
  have done := first p here
  simp only [Bind.bind, ReaderT.bind, EStateM.bind]
  cases run : x d p with
  | ok a p' => rw [run] at done; exact rest a p' done
  | error fault p' => rw [run] at done; exact done

theorem mono {x : PatternM α} (steps : Steps d P x R) (before : ∀ p, P' p → P p)
    (after : ∀ a p, R a p → R' a p) : Steps d P' x R' := by
  intro p here
  have done := steps p (before p here)
  cases run : x d p with
  | ok a p' => rw [run] at done; exact after a p' done
  | error fault p' => rw [run] at done; exact done

theorem weaken {x : PatternM α} (steps : Steps d P x R) (after : ∀ a p, R a p → R' a p) :
    Steps d P x R' := steps.mono (fun _ here => here) after

theorem pure {a : α} (done : ∀ p, P p → R a p) : Steps d P (pure a) R := done

theorem throw {fault : Fault} (other : (fault == .duplicateGroupName) = false) :
    Steps d P (throw fault : PatternM α) R := fun _ _ blamed => absurd blamed (by simpa using other)

theorem throwing {fault : Fault} {f : α → PatternM β} (other : (fault == .duplicateGroupName) = false) :
    Steps d P (MonadExcept.throw fault >>= f) Q := fun _ _ blamed => absurd blamed (by simpa using other)

theorem and {x : PatternM α} (steps : Steps d P x R) (steps' : Steps d P x R') :
    Steps d P x fun a p => R a p ∧ R' a p := by
  intro p here
  have done := steps p here
  have done' := steps' p here
  cases run : x d p with
  | ok a p' => rw [run] at done done'; exact ⟨done, done'⟩
  | error fault p' => rw [run] at done; exact done

theorem exists' {ι : Type} {P : ι → Progress → Prop} {x : PatternM α}
    (each : ∀ i, Steps d (P i) x R) : Steps d (fun p => ∃ i, P i p) x R := by
  rintro p ⟨i, here⟩
  exact each i p here

theorem also {T : α → Progress → Prop} {x : PatternM α} (steps : Steps d P x R)
    (more : ∀ p a p', P p → x d p = .ok a p' → T a p') : Steps d P x fun a p => R a p ∧ T a p := by
  intro p here
  have done := steps p here
  cases run : x d p with
  | ok a p' => rw [run] at done; exact ⟨done, more p a p' here run⟩
  | error fault p' => rw [run] at done; exact done

/-- What is known where a step begins is known throughout. -/
theorem fact {c : Prop} {x : PatternM α} (known : ∀ p, P p → c) (steps : c → Steps d P x R) :
    Steps d P x R := fun p here => steps (known p here) p here

/-- What a step may see depends on where it stands. -/
theorem choose {x : PatternM α} (steps : ∀ p, P p → Steps d (· = p) x R) : Steps d P x R :=
  fun p here => steps p here p rfl

theorem read {f : Dialect → PatternM β} (rest : Steps d P (f d) Q) : Steps d P (read >>= f) Q := rest

theorem get {f : Progress → PatternM β} (rest : ∀ p, P p → Steps d (· = p) (f p) Q) :
    Steps d P (get >>= f) Q := fun p here => rest p here p rfl

/-- A look at the state whose outcome does not matter. -/
theorem look {f : Progress → PatternM β} (rest : ∀ p, Steps d P (f p) Q) :
    Steps d P (MonadState.get >>= f) Q := fun p here => rest p p here

theorem modify {f : Progress → Progress} {Q : Unit → Progress → Prop}
    (done : ∀ p, P p → Q () (f p)) : Steps d P (modify f) Q := done

theorem ite {c : Prop} [Decidable c] {x y : PatternM α} (yes : c → Steps d P x R)
    (no : ¬ c → Steps d P y R) : Steps d P (if c then x else y) R := by
  split
  · exact yes ‹_›
  · exact no ‹_›

end Steps

/-- One of two, by whether a step found a match. -/
def Either (found missed : Progress → Prop) (matched : Bool) (p : Progress) : Prop :=
  bif matched then found p else missed p

namespace Steps

variable {P F I : Progress → Prop}

/-- The last step may say more of what it does not match. -/
theorem firstMatch {M : Progress → Prop} {steps : List (PatternM (Option α))}
    {last : PatternM (Option α)} (each : ∀ step ∈ steps, Steps d P step fun a => Either F P a.isSome)
    (final : Steps d P last fun a => Either F M a.isSome) :
    Steps d P (RegExp.firstMatch (steps ++ [last])) fun a => Either F M a.isSome := by
  induction steps with
  | nil =>
    refine bind final fun a => ?_
    cases a <;> exact pure fun _ here => here
  | cons step steps ih =>
    refine bind (each step (.head _)) fun a => ?_
    cases a with
    | some a => exact pure fun _ here => here
    | none => exact ih fun step mem => each step (.tail _ mem)

theorem anyMatch {steps : List (PatternM Bool)}
    (each : ∀ step ∈ steps, Steps d P step (Either F P)) : Steps d P (anyMatch steps) (Either F P) := by
  induction steps with
  | nil => exact pure fun _ here => here
  | cons step steps ih =>
    refine bind (each step (.head _)) fun matched => ?_
    cases matched with
    | true => exact pure fun _ here => here
    | false => exact ih fun step mem => each step (.tail _ mem)

theorem anyMatch_cons {K M : Progress → Prop} {step : PatternM Bool} {steps : List (PatternM Bool)}
    (first : Steps d P step (Either F K)) (rest : Steps d K (RegExp.anyMatch steps) (Either F M)) :
    Steps d P (RegExp.anyMatch (step :: steps)) (Either F M) := by
  refine bind first fun matched => ?_
  cases matched with
  | true => exact pure fun _ here => here
  | false => exact rest

theorem whileMatch {step : PatternM Bool} (keeps : Steps d I step fun _ => I) (fuel : Nat) :
    Steps d I (whileMatch step fuel) fun _ => I := by
  induction fuel with
  | zero => exact pure fun _ here => here
  | succ fuel ih =>
    exact bind keeps fun _ => ite (fun _ => ih) fun _ => pure fun _ here => here

theorem exhaust {step : PatternM Bool} (keeps : Steps d I step fun _ => I) :
    Steps d I (exhaust step) fun _ => I :=
  fun p here => whileMatch keeps _ p here

end Steps

/-! ### Where the outline is known -/

namespace Outline

/-- The outline right after a backslash. -/
def behind (o : Outline) : Outline := { o with escaped := true }

/-- The outline after the code unit that a backslash escapes, if one does. -/
def settled (o : Outline) : Outline := { o with escaped := false }

/-- Codes that the outline takes note of. -/
def isMark : Nat → Bool := isOneOf ['\\', '[', ']', '(', ')', '|']

variable {o : Outline} {nested : Bool} {i unit : Nat}

theorem step_behind : o.behind.step nested i unit = o.settled := rfl

@[simp] theorem settled_of (plain : o.escaped = false) : o.settled = o := by
  cases o; simp_all [settled]

theorem step_plain (plain : isMark unit = false) : o.step nested i unit = o.settled := by
  simp only [isMark, isOneOf, List.any_cons, List.any_nil, Bool.or_false, Bool.or_eq_false_iff,
    beq_eq_false_iff_ne] at plain
  obtain ⟨slash, opens, closes, left, right, bar⟩ := plain
  cases escaped : o.escaped
  · rw [settled_of escaped]
    simp only [step, escaped, slash.symm, opens.symm, closes.symm, left.symm, right.symm, bar.symm,
      Bool.false_eq_true, false_and, if_false, ite_self]
  · simp [step, settled, escaped]

@[simp] theorem settled_behind : o.behind.settled = o.settled := rfl

theorem step_backslash (plain : o.escaped = false) :
    o.step nested i '\\'.toNat = o.behind := by simp [step, behind, plain]

end Outline

theorem scalar?_eq_some {code : Nat} {c : Char} (known : scalar? code = some c) : c.toNat = code := by
  obtain ⟨valid, found⟩ := Option.dite_none_right_eq_some.1 known
  cases found
  rfl

theorem scalar?_toNat (c : Char) : scalar? c.toNat = some c := by
  have valid : c.toNat.isValidChar := c.valid
  rw [scalar?, dif_pos valid]
  rfl

/-- A character that is one code unit. -/
def isNarrow (c : Char) : Bool := c.toNat < 0xd800

theorem lt_of_isNarrow {c : Char} (narrow : isNarrow c = true) : c.toNat < 0xd800 := of_decide_eq_true narrow

/-- A character that is one code unit, of which the outline takes no note. -/
def isPlain (c : Char) : Bool := isNarrow c && !Outline.isMark c.toNat

theorem isNarrow_of_isPlain {c : Char} (plain : isPlain c = true) : isNarrow c = true :=
  (Bool.and_eq_true_iff.1 plain).1

theorem not_isMark_of_isPlain {c : Char} (plain : isPlain c = true) : Outline.isMark c.toNat = false := by
  simpa using (Bool.and_eq_true_iff.1 plain).2

/-- The units of a dialect are UTF-16 code units. -/
class Dialect.Narrow (d : Dialect) : Prop where
  le : ∀ i unit : Nat, d.units[i]? = some unit → unit ≤ 0xffff

namespace Dialect

variable [d.Narrow] {joined : Bool} {i code : Nat} {o : Outline}

omit [d.Narrow] in
theorem before_succ {unit : Nat} (stands : d.units[i]? = some unit) :
    d.before (i + 1) = (d.before i).step d.unicodeSets i unit := by
  simp only [before, stands]

theorem large_joinSurrogates (high low : Nat) : 0xffff < joinSurrogates high low := by
  unfold joinSurrogates
  omega

theorem le_of_isHighSurrogate {unit : Nat} (high : isHighSurrogate unit = true) : 0xd800 ≤ unit := by
  simp only [isHighSurrogate, Bool.and_eq_true, decide_eq_true_eq] at high
  exact high.1

theorem le_of_isLowSurrogate {unit : Nat} (low : isLowSurrogate unit = true) : 0xd800 ≤ unit := by
  simp only [isLowSurrogate, Bool.and_eq_true, decide_eq_true_eq] at low
  omega

/-- A code is one unit, or it joins two surrogates. -/
theorem at?_cases (here : d.at? joined i = some code) :
    (d.units[i]? = some code ∧ d.next joined i = i + 1) ∨
    ∃ high low, d.units[i]? = some high ∧ d.units[i + 1]? = some low ∧
      0xd800 ≤ high ∧ 0xd800 ≤ low ∧ 0xd800 ≤ code ∧ d.next joined i = i + 2 := by
  have width : d.next joined i = if 0xffff < code then i + 2 else i + 1 := by simp only [next, here]
  have single {unit : Nat} (stands : d.units[i]? = some unit) (same : some unit = some code) :
      some unit = some code ∧ d.next joined i = i + 1 := by
    cases same
    have small := Narrow.le i code stands
    exact ⟨rfl, by rw [width, if_neg (by omega)]⟩
  unfold at? at here
  cases stands : d.units[i]? with
  | none => simp [stands] at here
  | some unit =>
    simp only [stands] at here
    cases surrogate : joined && isHighSurrogate unit with
    | false => exact .inl (single stands (by simpa [surrogate] using here))
    | true =>
      rw [if_pos surrogate] at here
      cases after : d.units[i + 1]? with
      | none => exact .inl (single stands (by simpa [after] using here))
      | some low =>
        simp only [after] at here
        cases isLow : isLowSurrogate low with
        | false => exact .inl (single stands (by simpa [isLow] using here))
        | true =>
          rw [if_pos isLow] at here
          have large := large_joinSurrogates unit low
          rw [Option.some.inj here] at large
          have high := le_of_isHighSurrogate (Bool.and_eq_true _ _ ▸ surrogate).2
          exact .inr ⟨unit, low, rfl, rfl, high, le_of_isLowSurrogate isLow, by omega,
            by rw [width, if_pos large]⟩

omit [d.Narrow] in
theorem at?_eq_none : d.at? joined i = none ↔ d.units.size ≤ i := by
  rw [← Array.getElem?_eq_none_iff]
  unfold at?
  constructor
  · intro none
    cases stands : d.units[i]? with
    | none => rfl
    | some unit =>
      simp only [stands] at none
      split at none
      · split at none
        · split at none <;> cases none
        · cases none
      · cases none
  · intro none
    simp only [none]

omit [d.Narrow] in
theorem lt_next (here : d.at? joined i = some code) : i < d.next joined i := by
  simp only [next, here]
  split <;> omega

/-- A character before the surrogates is one unit. -/
theorem at?_char (here : d.at? joined i = some code) (small : code < 0xd800) :
    d.units[i]? = some code ∧ d.next joined i = i + 1 := by
  obtain single | ⟨_, _, -, -, -, -, large, -⟩ := at?_cases here
  · exact single
  · omega

omit [d.Narrow] in
theorem at?_of_unit (stands : d.units[i]? = some code) (small : code < 0xd800) :
    d.at? joined i = some code := by
  have plain : isHighSurrogate code = false := by
    simp only [isHighSurrogate, Bool.and_eq_false_iff, decide_eq_false_iff_not]
    omega
  simp only [at?, stands, plain, Bool.and_false, Bool.false_eq_true, if_false]

theorem not_isMark_of_large (large : 0xd800 ≤ code) : Outline.isMark code = false := by
  simp only [Outline.isMark, isOneOf, List.any_cons, List.any_nil, Bool.or_false,
    Bool.or_eq_false_iff, beq_eq_false_iff_ne]
  refine ⟨?_, ?_, ?_, ?_, ?_, ?_⟩ <;> exact fun same => absurd (same ▸ large) (by decide)

theorem before_next_plain (here : d.at? joined i = some code) (plain : Outline.isMark code = false) :
    d.before (d.next joined i) = (d.before i).settled := by
  obtain ⟨stands, next⟩ | ⟨high, low, first, second, largeHigh, largeLow, -, next⟩ := at?_cases here
  · rw [next, before_succ stands, Outline.step_plain plain]
  · rw [next, before_succ second, before_succ first,
      Outline.step_plain (not_isMark_of_large largeHigh),
      Outline.step_plain (not_isMark_of_large largeLow)]
    rfl

theorem before_next_behind (here : d.at? joined i = some code) (behind : d.before i = o.behind) :
    d.before (d.next joined i) = o.settled := by
  obtain ⟨stands, next⟩ | ⟨high, low, first, second, -, largeLow, -, next⟩ := at?_cases here
  · rw [next, before_succ stands, behind, Outline.step_behind]
  · rw [next, before_succ second, before_succ first, behind, Outline.step_behind,
      Outline.step_plain (not_isMark_of_large largeLow)]
    rfl

end Dialect

/-! ### Looks and moves -/

/-- At an offset the outline is known, and so is something more. -/
structure Spot (d : Dialect) (n : Nat) (o : Outline) (w : Nat → Prop) (i : Nat) : Prop where
  outline : d.before i = o
  bound : n ≤ i
  offset : w i

/-- The record is as it was, and the cursor stands at such an offset. -/
structure Here (d : Dialect) (n : Nat) (r : Record) (o : Outline) (w : Nat → Prop) (p : Progress) :
    Prop extends Spot d n o w p.pos where
  record : p.record = r

/-- The record is as it was, and the outline is known. -/
abbrev At (d : Dialect) (n : Nat) (r : Record) (o : Outline) : Progress → Prop :=
  Here d n r o fun _ => True

/-- The code at the cursor is known as well. -/
def Facing (d : Dialect) (n : Nat) (r : Record) (o : Outline) (w : Nat → Prop) (joined : Bool)
    (code : Option Nat) (p : Progress) : Prop :=
  Here d n r o w p ∧ d.at? joined p.pos = code

variable {n : Nat} {r : Record} {o : Outline} {w w' : Nat → Prop}

theorem Here.mono {p : Progress} (here : Here d n r o w p) (weaker : ∀ j, w j → w' j) :
    Here d n r o w' p := ⟨⟨here.outline, here.bound, weaker _ here.offset⟩, here.record⟩

theorem Here.at {p : Progress} (here : Here d n r o w p) : At d n r o p :=
  here.mono fun _ _ => trivial

/-- Past a backslash that is not escaped. -/
theorem Here.behind {p : Progress} (here : Here d n r o w p) (slash : d.units[p.pos]? = some '\\'.toNat)
    (open' : o.escaped = false) : Here d n r o.behind (· = p.pos + 1) { p with pos := p.pos + 1 } :=
  ⟨⟨by rw [Dialect.before_succ slash, here.outline, Outline.step_backslash open'], Nat.le_succ_of_le here.bound, rfl⟩,
    here.record⟩

/-- Right past a unit that is `code`. -/
def Dialect.Past (d : Dialect) (w : Nat → Prop) (code : Nat) (j : Nat) : Prop :=
  ∃ i, w i ∧ d.units[i]? = some code ∧ j = i + 1

namespace Steps

variable {Q : β → Progress → Prop} {P : Progress → Prop}

theorem anywhere {x : PatternM β} (steps : Steps d (At d n r o) x Q) :
    Steps d (Here d n r o w) x Q :=
  steps.mono (fun _ here => here.at) fun _ _ done => done

theorem lower {x : PatternM β} (steps : Steps d (Here d n r o w) x Q) :
    Steps d (Here d (n + 1) r o w) x Q :=
  steps.mono (fun _ here => ⟨⟨here.outline, Nat.le_of_succ_le here.bound, here.offset⟩, here.record⟩)
    fun _ _ done => done

theorem position {f : Nat → PatternM β}
    (rest : ∀ i, Spot d n o w i → Steps d (Here d n r o w) (f i) Q) :
    Steps d (Here d n r o w) (position >>= f) Q := fun p here => rest p.pos here.toSpot p here

theorem positionAt {f : Nat → PatternM β}
    (rest : ∀ i, Spot d n o w i → Steps d (Here d n r o (· = i)) (f i) Q) :
    Steps d (Here d n r o w) (RegExp.position >>= f) Q :=
  fun p here => rest p.pos here.toSpot p ⟨⟨here.outline, here.bound, rfl⟩, here.record⟩

theorem moveTo {o' : Outline} {i m : Nat} (spot : Spot d n o w i) :
    Steps d (Here d m r o' w') (moveTo i) (fun _ => Here d n r o w) :=
  fun _ here => ⟨spot, here.record⟩

theorem peekJoined {joined : Bool} {f : Option Nat → PatternM β}
    (rest : ∀ code, Steps d (Facing d n r o w (joined || d.unicode) code) (f code) Q) :
    Steps d (Here d n r o w) (peekJoined joined >>= f) Q :=
  fun p here => rest _ p ⟨here, rfl⟩

theorem peek {f : Option Nat → PatternM β}
    (rest : ∀ code, Steps d (Facing d n r o w d.unicode code) (f code) Q) :
    Steps d (Here d n r o w) (peek >>= f) Q := by
  rw [← Bool.false_or d.unicode] at rest
  exact peekJoined rest

theorem peekSecond {f : Option Nat → PatternM β} (rest : ∀ code, Steps d P (f code) Q) :
    Steps d P (peekSecond >>= f) Q := fun p here => rest _ p here

/-- A look at the cursor whose outcome does not matter. -/
theorem sees {c : Char} {f : Bool → PatternM β} (rest : ∀ seen, Steps d P (f seen) Q) :
    Steps d P (sees c >>= f) Q := fun p here => rest _ p here

theorem seesFacing {c : Char} {f : Bool → PatternM β}
    (yes : Steps d (Facing d n r o w d.unicode (some c.toNat)) (f true) Q)
    (no : Steps d (Here d n r o fun j => w j ∧ d.at? d.unicode j ≠ some c.toNat) (f false) Q) :
    Steps d (Here d n r o w) (RegExp.sees c >>= f) Q := by
  simp only [RegExp.sees, bind_assoc, pure_bind]
  refine peek fun code => ?_
  cases same : code == some c.toNat with
  | true =>
    rw [eq_of_beq same]
    exact yes
  | false =>
    refine no.mono (fun p here => ?_) fun _ _ done => done
    refine ⟨⟨here.1.outline, here.1.bound, here.1.offset, fun stands => ?_⟩, here.1.record⟩
    exact absurd (beq_iff_eq.2 (here.2.symm.trans stands)) (Bool.eq_false_iff.1 same)

section

variable [d.Narrow]

theorem advanceJoined_plain {joined : Bool} {code : Nat} (plain : Outline.isMark code = false) :
    Steps d (Facing d n r o w (joined || d.unicode) (some code)) (advanceJoined joined)
      (fun _ => At d n r o.settled) :=
  fun p here => ⟨⟨by rw [← here.1.outline]; exact Dialect.before_next_plain here.2 plain,
    Nat.le_trans here.1.bound (d.le_next _ _), trivial⟩, here.1.record⟩

theorem advanceJoined_behind {joined : Bool} {code : Nat} :
    Steps d (Facing d n r o.behind w (joined || d.unicode) (some code)) (advanceJoined joined)
      (fun _ => At d n r o.settled) :=
  fun _ here => ⟨⟨Dialect.before_next_behind here.2 here.1.outline,
    Nat.le_trans here.1.bound (d.le_next _ _), trivial⟩, here.1.record⟩

theorem advanceJoined_backslash {joined : Bool} (open' : o.escaped = false) :
    Steps d (Facing d n r o w (joined || d.unicode) (some '\\'.toNat)) (advanceJoined joined)
      (fun _ => Here d n r o.behind (d.Past w '\\'.toNat)) := by
  intro p here
  obtain ⟨stands, next⟩ := Dialect.at?_char here.2 (by decide)
  have landed : d.before (d.next (joined || d.unicode) p.pos) = o.behind := by
    rw [next, Dialect.before_succ stands, here.1.outline, Outline.step_backslash open']
  exact ⟨⟨landed, Nat.le_trans here.1.bound (d.le_next _ _), p.pos, here.1.offset, stands, next⟩,
    here.1.record⟩

theorem advance_plain {code : Nat} (plain : Outline.isMark code = false) :
    Steps d (Facing d n r o w d.unicode (some code)) advance (fun _ => At d n r o.settled) := by
  rw [← Bool.false_or d.unicode]
  exact advanceJoined_plain plain

theorem advance_behind {code : Nat} :
    Steps d (Facing d n r o.behind w d.unicode (some code)) advance (fun _ => At d n r o.settled) := by
  rw [← Bool.false_or d.unicode]
  exact advanceJoined_behind

theorem advance_backslash (open' : o.escaped = false) :
    Steps d (Facing d n r o w d.unicode (some '\\'.toNat)) advance
      (fun _ => Here d n r o.behind (d.Past w '\\'.toNat)) := by
  rw [← Bool.false_or d.unicode]
  exact advanceJoined_backslash open'

/-- A character is one unit, and the outline takes it in. -/
theorem eaten {c : Char} {J : Progress → Prop} (narrow : isNarrow c = true)
    (lands : ∀ p : Progress, d.units[p.pos]? = some c.toNat → Here d n r o w p →
      d.before (p.pos + 1) = o.step d.unicodeSets p.pos c.toNat → J { p with pos := p.pos + 1 }) :
    Steps d (Here d n r o w) (RegExp.eat c)
      (Either J (Here d n r o fun j => w j ∧ d.at? d.unicode j ≠ some c.toNat)) := by
  refine seesFacing (bind (R := fun _ => J) (fun p here => ?_) fun _ => pure fun _ done => done)
    (pure fun p here => here)
  obtain ⟨stands, next⟩ := Dialect.at?_char here.2 (lt_of_isNarrow narrow)
  have moved : { p with pos := d.next d.unicode p.pos } = { p with pos := p.pos + 1 } := by
    rw [next]
  show J { p with pos := d.next (false || d.unicode) p.pos }
  rw [Bool.false_or, moved]
  exact lands p stands here.1 (by rw [Dialect.before_succ stands, here.1.outline])

theorem eatUnit {c : Char} {f : Bool → PatternM β} {J : Progress → Prop} (narrow : isNarrow c = true)
    (lands : ∀ p : Progress, d.units[p.pos]? = some c.toNat → Here d n r o w p →
      d.before (p.pos + 1) = o.step d.unicodeSets p.pos c.toNat → J { p with pos := p.pos + 1 })
    (yes : Steps d J (f true) Q)
    (no : Steps d (Here d n r o fun j => w j ∧ d.at? d.unicode j ≠ some c.toNat) (f false) Q) :
    Steps d (Here d n r o w) (RegExp.eat c >>= f) Q := by
  refine bind (eaten narrow lands) fun eaten => ?_
  cases eaten with
  | true => exact yes
  | false => exact no

/-- The outline passes from `o` to `u` over a character. -/
theorem eatOver {c : Char} {f : Bool → PatternM β} {u : Outline} (narrow : isNarrow c = true)
    (takes : ∀ i, w i → o.step d.unicodeSets i c.toNat = u)
    (yes : Steps d (Here d (n + 1) r u (d.Past w c.toNat)) (f true) Q)
    (no : Steps d (Here d n r o fun j => w j ∧ d.at? d.unicode j ≠ some c.toNat) (f false) Q) :
    Steps d (Here d n r o w) (RegExp.eat c >>= f) Q :=
  eatUnit narrow (fun p stands here moved => ⟨⟨moved.trans (takes _ here.offset), Nat.succ_le_succ here.bound,
    p.pos, here.offset, stands, rfl⟩, here.record⟩) yes no

/-- A step that is one plain character. -/
theorem eatenPlain {c : Char} (plain : isPlain c = true) (open' : o.escaped = false) :
    Steps d (Here d n r o w) (RegExp.eat c) (Either (At d (n + 1) r o)
      (Here d n r o fun j => w j ∧ d.at? d.unicode j ≠ some c.toNat)) :=
  eaten (isNarrow_of_isPlain plain) (fun _ _ here moved =>
    ⟨⟨by rw [moved, Outline.step_plain (not_isMark_of_isPlain plain), Outline.settled_of open'],
    Nat.succ_le_succ here.bound, trivial⟩, here.record⟩)

theorem eat {c : Char} {f : Bool → PatternM β} (plain : isPlain c = true)
    (yes : Steps d (At d n r o.settled) (f true) Q) (no : Steps d (Here d n r o w) (f false) Q) :
    Steps d (Here d n r o w) (RegExp.eat c >>= f) Q :=
  eatOver (isNarrow_of_isPlain plain) (fun _ _ => Outline.step_plain (not_isMark_of_isPlain plain))
    yes.anywhere.lower (no.mono (fun _ here => here.mono fun _ both => both.1) fun _ _ done => done)

theorem eatBackslash {f : Bool → PatternM β}
    (yes : Steps d (Here d n r o.behind (d.Past w '\\'.toNat)) (f true) Q)
    (no : Steps d (Here d n r o fun j => w j ∧ d.at? d.unicode j ≠ some '\\'.toNat) (f false) Q)
    (open' : o.escaped = false) : Steps d (Here d n r o w) (RegExp.eat '\\' >>= f) Q :=
  eatOver rfl (fun _ _ => Outline.step_backslash open') yes.lower no

theorem eatPair {c c' : Char} {f : Bool → PatternM β} (plain : isPlain c = true) (plain' : isPlain c' = true)
    (yes : Steps d (At d n r o.settled) (f true) Q) (no : Steps d (Here d n r o w) (f false) Q) :
    Steps d (Here d n r o w) (RegExp.eatPair c c' >>= f) Q := by
  refine bind (R := Either (At d n r o.settled) (Here d n r o w)) ?_ fun eaten => ?_
  · exact position fun start spot => eat plain (eat plain' (pure fun _ here => here)
      (bind (moveTo spot) fun _ => pure fun _ here => here)) (pure fun _ here => here)
  · cases eaten with
    | true => exact yes
    | false => exact no

/-- A backslash and the character that it escapes. -/
theorem eatEscaped {c : Char} {f : Bool → PatternM β} (plain : isPlain c = true)
    (yes : Steps d (At d (n + 1) r o) (f true) Q) (no : Steps d (Here d n r o w) (f false) Q)
    (open' : o.escaped = false) :
    Steps d (Here d n r o w) (RegExp.eatPair '\\' c >>= f) Q := by
  refine bind (R := Either (At d (n + 1) r o) (Here d n r o w)) ?_ fun eaten => ?_
  · refine position fun start spot => eatOver rfl (fun _ _ => Outline.step_backslash open')
      (eat plain (pure fun _ here => ?_) (bind (moveTo spot) fun _ => pure fun _ here => here))
      (pure fun _ here => here.mono fun _ both => both.1)
    rwa [Outline.settled_behind, Outline.settled_of open'] at here
  · cases eaten with
    | true => exact yes
    | false => exact no

end

theorem eatCode {J : Progress → Prop} {inClass : Nat → Bool}
    (moves : ∀ code, inClass code = true →
      Steps d (Facing d n r o w d.unicode (some code)) advance fun _ => J) :
    Steps d (Here d n r o w) (eatCode inClass) fun code =>
      Either J (Here d n r o fun j => w j ∧
        ∀ code, d.at? d.unicode j = some code → inClass code = false) code.isSome := by
  refine peek fun code => ?_
  cases code with
  | none =>
    refine pure fun _ here => ⟨⟨here.1.outline, here.1.bound, here.1.offset, fun _ same => ?_⟩,
      here.1.record⟩
    rw [here.2] at same
    cases same
  | some code =>
    refine ite (fun is => bind (moves code is) fun _ => pure fun _ here => here) fun other =>
      pure fun _ here => ⟨⟨here.1.outline, here.1.bound, here.1.offset, fun _ same => ?_⟩,
        here.1.record⟩
    rw [here.2] at same
    cases same
    exact Bool.eq_false_iff.2 other

theorem advance_forward {code : Nat} :
    Steps d (Facing d n r o w d.unicode (some code)) advance fun _ p => n + 1 ≤ p.pos := by
  intro p here
  show n + 1 ≤ d.next (false || d.unicode) p.pos
  rw [Bool.false_or]
  exact Nat.le_trans (Nat.succ_le_succ here.1.bound) (Dialect.lt_next here.2)

/-- A step that finds no match is taken back, wherever it stopped; but it may have learned something
of where it began. -/
theorem orRewindAt {J : Progress → Prop} {F : Nat → Prop} {step : PatternM (Option α)}
    (steps : ∀ start, Steps d (Here d n r o (· = start)) step fun a =>
      Either J (fun p => p.record = r ∧ F start) a.isSome) :
    Steps d (Here d n r o w) (orRewind step) fun a =>
      Either J (Here d n r o fun j => w j ∧ F j) a.isSome := by
  refine positionAt fun start spot => bind (steps start) fun a => ?_
  cases a with
  | some a => exact pure fun _ here => here
  | none => exact fun _ here => ⟨⟨spot.outline, spot.bound, spot.offset, here.2⟩, here.1⟩

theorem orRewind {J : Progress → Prop} {step : PatternM (Option α)}
    (steps : Steps d (Here d n r o w) step fun a => Either J (fun p => p.record = r) a.isSome) :
    Steps d (Here d n r o w) (orRewind step) fun a => Either J (Here d n r o w) a.isSome := by
  refine position fun start spot => bind steps fun a => ?_
  cases a with
  | some a => exact pure fun _ here => here
  | none => exact fun _ same => ⟨spot, same⟩

end Steps

/-! ### Classes of plain codes -/

/-- No mark is in the class. -/
def Plain (inClass : Nat → Bool) : Prop :=
  ∀ c ∈ ['\\', '[', ']', '(', ')', '|'], inClass c.toNat = false

instance (inClass : Nat → Bool) : Decidable (Plain inClass) := List.decidableBAll _ _

theorem Plain.not_isMark {inClass : Nat → Bool} (plain : Plain inClass) {code : Nat}
    (is : inClass code = true) : Outline.isMark code = false := by
  cases mark : Outline.isMark code with
  | false => rfl
  | true =>
    simp only [Outline.isMark, isOneOf, List.any_eq_true, beq_iff_eq] at mark
    obtain ⟨c, mem, rfl⟩ := mark
    exact absurd is (by rw [plain c mem]; exact Bool.false_ne_true)

namespace Steps

variable [d.Narrow] {Q : β → Progress → Prop}

theorem eatPlain {inClass : Nat → Bool} (plain : Plain inClass) :
    Steps d (Here d n r o w) (RegExp.eatCode inClass) fun code =>
      Either (At d n r o.settled) (Here d n r o w) code.isSome :=
  (eatCode fun _ is => advance_plain (plain.not_isMark is)).weaken fun code _ here => by
    cases code with
    | some code => exact here
    | none => exact here.mono fun _ both => both.1

theorem spot_run {inClass : Nat → Bool} (plain : Plain inClass) (open' : o.escaped = false)
    (fuel : Nat) : ∀ i, Spot d n o (fun _ => True) i →
      Spot d n o (fun _ => True) (d.run inClass fuel i).2 := by
  induction fuel with
  | zero => exact fun i spot => spot
  | succ fuel ih =>
    intro i spot
    unfold Dialect.run
    cases code : d.at? d.unicode i with
    | none => exact spot
    | some code' =>
      by_cases is : inClass code' = true
      · simp only [is, if_true]
        refine ih _ ⟨?_, Nat.le_trans spot.bound (d.le_next _ _), trivial⟩
        rw [Dialect.before_next_plain code (plain.not_isMark is), spot.outline,
          Outline.settled_of open']
      · simpa only [is, Bool.false_eq_true, if_false] using spot

/-- A run takes in something unless another code stands at the cursor. -/
theorem eatRun_isEmpty {inClass : Nat → Bool} (plain : Plain inClass) (open' : o.escaped = false) :
    Steps d (Here d n r o w) (RegExp.eatRun inClass) fun codes =>
      Either (At d (n + 1) r o) (Here d n r o fun j => w j ∧
        ∀ code, d.at? d.unicode j = some code → inClass code = false) (!codes.isEmpty) := by
  intro p here
  show Either _ _ (!(d.run inClass (d.units.size + 1) p.pos).1.isEmpty)
    { p with pos := (d.run inClass (d.units.size + 1) p.pos).2 }
  have stay (other : ∀ code, d.at? d.unicode p.pos = some code → inClass code = false) :
      Here d n r o (fun j => w j ∧ ∀ code, d.at? d.unicode j = some code → inClass code = false) p :=
    ⟨⟨here.outline, here.bound, here.offset, other⟩, here.record⟩
  unfold Dialect.run
  cases stands : d.at? d.unicode p.pos with
  | none => exact stay fun _ same => by rw [stands] at same; cases same
  | some code =>
    cases is : inClass code with
    | true =>
      simp only [is, if_true]
      have after : Spot d (n + 1) o (fun _ => True) (d.next d.unicode p.pos) := by
        refine ⟨?_, Nat.le_trans (Nat.succ_le_succ here.bound) (Dialect.lt_next stands), trivial⟩
        rw [Dialect.before_next_plain stands (plain.not_isMark is), here.outline,
          Outline.settled_of open']
      exact ⟨spot_run plain open' _ _ after, here.record⟩
    | false =>
      simp only [is, Bool.false_eq_true, if_false]
      exact stay fun _ same => by rw [stands] at same; cases same; exact is

theorem eatRun {inClass : Nat → Bool} (plain : Plain inClass) (open' : o.escaped = false) :
    Steps d (At d n r o) (RegExp.eatRun inClass) fun _ => At d n r o :=
  fun p here => ⟨spot_run plain open' (d.units.size + 1) p.pos here.toSpot, here.record⟩

omit [d.Narrow] in
/-- A run that has nothing to take in. -/
theorem eatRun_none {inClass : Nat → Bool} {i code : Nat} (stands : d.at? d.unicode i = some code)
    (no : inClass code = false) : Steps d (Here d n r o (· = i)) (RegExp.eatRun inClass)
      fun codes p => codes = [] ∧ Here d n r o (· = i) p := by
  intro p here
  have run : d.run inClass (d.units.size + 1) p.pos = ([], p.pos) := by
    simp only [Dialect.run, here.offset, stands, no, Bool.false_eq_true, if_false]
  show (d.run inClass (d.units.size + 1) p.pos).1 = [] ∧
    Here d n r o (· = i) { p with pos := (d.run inClass (d.units.size + 1) p.pos).2 }
  rw [run]
  exact ⟨rfl, here⟩

/-- A run that begins with the escaped code. -/
theorem eatRun_behind {inClass : Nat → Bool} (plain : Plain inClass) {code : Nat}
    (is : inClass code = true) :
    Steps d (Facing d n r o.behind w d.unicode (some code)) (RegExp.eatRun inClass) fun codes p =>
      codes ≠ [] ∧ At d n r o.settled p := by
  intro p here
  have run : d.run inClass (d.units.size + 1) p.pos =
      (code :: (d.run inClass d.units.size (d.next d.unicode p.pos)).1,
        (d.run inClass d.units.size (d.next d.unicode p.pos)).2) := by
    simp only [Dialect.run, here.2, is, if_true]
  have after : Spot d n o.settled (fun _ => True) (d.next d.unicode p.pos) :=
    ⟨Dialect.before_next_behind here.2 here.1.outline, Nat.le_trans here.1.bound (d.le_next _ _), trivial⟩
  show (d.run inClass (d.units.size + 1) p.pos).1 ≠ [] ∧
    At d n r o.settled { p with pos := (d.run inClass (d.units.size + 1) p.pos).2 }
  rw [run]
  exact ⟨List.cons_ne_nil _ _, spot_run plain rfl _ _ after, here.1.record⟩

end Steps
end RegExp
end ScriptSyntax
