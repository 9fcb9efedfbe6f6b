import ScriptSyntax.Proofs.RegExp.Branch
import ScriptSyntax.Proofs.RegExp.Class
import ScriptSyntax.Proofs.RegExp.Mirror
import ScriptSyntax.Proofs.RegExp.Run

/-!
Reading a pattern keeps the record of its groups in agreement with its outline, from one term to the
next and through every level of nesting.
-/

namespace ScriptSyntax
namespace RegExp

variable {α β : Type} {d : Dialect} {n : Nat} {r : Record} {o : Outline} {w : Nat → Prop}
  {place outer : Place} {first : Nat}

/-! ### Where a reading stands -/

/-- Outside classes, with the alternatives `shown` open and the record made for `place`. -/
structure Between (d : Dialect) (shown place : Place) (begun : Nat) (r : Record) (o : Outline) :
    Prop where
  plain : o.escaped = false
  outside : o.classes = 0
  shown : o.place = shown
  agrees : Agrees d r o.groups begun place

/-- Inside an alternative. -/
def Within (d : Dialect) (place : Place) (r : Record) (o : Outline) : Prop :=
  Between d place place o.begun r o

/-- Before the first alternative of a disjunction, which is not yet recorded. -/
def Entering (d : Dialect) (first : Nat) (outer : Place) (r : Record) (o : Outline) : Prop :=
  o.begun = first + 1 ∧ Between d ((first, first) :: outer) outer first r o

/-- After the last alternative of a disjunction, which the record is done with. -/
def Leaving (d : Dialect) (first : Nat) (outer : Place) (r : Record) (o : Outline) : Prop :=
  ∃ current, Between d ((first, current) :: outer) outer o.begun r o

/-- The record and the outline are in some relation. -/
def Standing (d : Dialect) (n : Nat) (C : Record → Outline → Prop) (p : Progress) : Prop :=
  ∃ r o, C r o ∧ At d n r o p

/-- So they are, but for a backslash that stands for itself. -/
def Reading (d : Dialect) (n : Nat) (C : Record → Outline → Prop) (p : Progress) : Prop :=
  ∃ r o, C r o ∧ Loose d n r o p

theorem Standing.reading {C : Record → Outline → Prop} {p : Progress} (here : Standing d n C p) :
    Reading d n C p := by
  obtain ⟨r, o, is, here⟩ := here
  exact ⟨r, o, is, .inl here⟩

theorem Reading.mono {m : Nat} {C C' : Record → Outline → Prop} {p : Progress}
    (here : Reading d m C p) (below : n ≤ m) (weaker : ∀ r o, C r o → C' r o) : Reading d n C' p := by
  obtain ⟨r, o, is, here | here⟩ := here
  · exact ⟨r, o, weaker r o is, .inl ⟨⟨here.outline, Nat.le_trans below here.bound, trivial⟩, here.record⟩⟩
  · exact ⟨r, o, weaker r o is,
      .inr ⟨⟨here.outline, Nat.le_trans below here.bound, here.offset⟩, here.record⟩⟩

theorem Loose.forward {m : Nat} {p : Progress} (here : Loose d n r o p) (bound : m ≤ p.pos) :
    Loose d m r o p :=
  here.imp (fun here => ⟨⟨here.outline, bound, here.offset⟩, here.record⟩)
    fun here => ⟨⟨here.outline, bound, here.offset⟩, here.record⟩

namespace Steps

variable {C : Record → Outline → Prop} {Q : β → Progress → Prop}

theorem standing {x : PatternM β} (each : ∀ r o, C r o → Steps d (At d n r o) x Q) :
    Steps d (Standing d n C) x Q := by
  rintro p ⟨r, o, is, here⟩
  exact each r o is p here

theorem reading {x : PatternM β} (each : ∀ r o, C r o → Steps d (At d n r o) x Q)
    (dangling : ∀ r o, C r o → Steps d (Here d n r o.behind d.Dangles) x Q) :
    Steps d (Reading d n C) x Q := by
  rintro p ⟨r, o, is, here | here⟩
  · exact each r o is p here
  · exact dangling r o is p here

/-- A match that leaves the outline as it was. -/
theorem atom {P : Progress → Prop} {m : Nat} {step : PatternM Bool} (within : Within d place r o)
    (steps : Steps d P step (Either (At d m r o) (Here d n r o w))) :
    Steps d P step (Either (Reading d m (Within d place)) (Here d n r o w)) :=
  steps.weaken fun matched p here => by
    cases matched with
    | true => exact ⟨r, o, within, .inl here⟩
    | false => exact here

end Steps

/-! ### Groups -/

namespace Outline

/-- The outline after the parenthesis that begins a group. -/
def entered (o : Outline) (i : Nat) : Outline :=
  { o with
    place := (o.begun, o.begun) :: o.place
    begun := o.begun + 1
    groups := o.groups ++ [(i, o.place)] }

theorem step_left {nested : Bool} {i : Nat} (plain : o.escaped = false) (outside : o.classes = 0) :
    o.step nested i '('.toNat = o.entered i := by
  simp [step, plain, outside, entered]

theorem step_right {nested : Bool} {i : Nat} (plain : o.escaped = false) (outside : o.classes = 0) :
    o.step nested i ')'.toNat = { o with place := o.place.tail } := by
  simp [step, plain, outside]

theorem step_outside {nested : Bool} {i : Nat} (plain : o.escaped = false) (outside : o.classes = 0) :
    o.step nested i ']'.toNat = o := by
  simp [step, plain, outside]

theorem step_bar {nested : Bool} {i current : Nat} (plain : o.escaped = false)
    (outside : o.classes = 0) (place : o.place = (first, current) :: outer) :
    o.step nested i '|'.toNat =
      { o with place := (first, o.begun) :: outer, begun := o.begun + 1 } := by
  simp [step, plain, outside, place]

end Outline

/-- A group that has no name begins. -/
theorem Within.entering {i : Nat} (within : Within d place r o) (unnamed : d.nameAt? i = none) :
    Entering d o.begun place r (o.entered i) :=
  ⟨rfl, within.plain, within.outside, by rw [← within.shown]; rfl, within.agrees.unnamed unnamed⟩

/-- A group that has a name begins. -/
theorem Within.declaring {i : Nat} {name : String} (within : Within d place r o)
    (inside : place ≠ []) (named : d.nameAt? i = some name) (passes : r.refuses d name = false) :
    Entering d o.begun place (r.declare name) (o.entered i) :=
  ⟨rfl, within.plain, within.outside, by rw [← within.shown]; rfl,
    by rw [← within.shown] at *; exact within.agrees.declare inside named passes⟩

variable [d.Narrow]

/-- The parenthesis that begins a group. -/
theorem Steps.eatLeft {Q : β → Progress → Prop} {f : Bool → PatternM β} (within : Within d place r o)
    (yes : ∀ i, w i → d.units[i]? = some '('.toNat →
      Steps d (Here d (n + 1) r (o.entered i) (· = i + 1)) (f true) Q)
    (no : Steps d (Here d n r o fun j => w j ∧ d.at? d.unicode j ≠ some '('.toNat) (f false) Q) :
    Steps d (Here d n r o w) (RegExp.eat '(' >>= f) Q := by
  refine eatUnit rfl (J := fun p => ∃ i, w i ∧ d.units[i]? = some '('.toNat ∧
    Here d (n + 1) r (o.entered i) (· = i + 1) p) (fun p stands here moved => ?_) ?_ no
  · rw [Outline.step_left within.plain within.outside] at moved
    exact ⟨p.pos, here.offset, stands, ⟨moved, Nat.succ_le_succ here.bound, rfl⟩, here.record⟩
  · rintro p ⟨i, there, stands, here⟩
    exact yes i there stands p here

theorem eatQuestioned (within : Within d place r o) :
    Steps d (Here d n r o w) (eatPair '(' '?') (Either
      (fun p => ∃ i, Here d (n + 1) r (o.entered i) (· = i + 2) p) (Here d n r o w)) := by
  refine .position fun start spot => .eatLeft within (fun i _ stands => ?_)
    (.pure fun _ here => here.mono fun _ both => both.1)
  refine .eatOver rfl (u := o.entered i) (fun _ _ => ?_)
    (.lower (.pure fun p here => ⟨i, here.mono ?_⟩)) (.bind (.moveTo spot) fun _ => .pure fun _ here => here)
  · rw [Outline.step_plain rfl, Outline.settled_of (o := o.entered i) within.plain]
  · rintro _ ⟨j, rfl, -, rfl⟩
    rfl

/-- What follows the question mark of a group without a name. -/
theorem assertionSign {i : Nat} {c : Char} (open' : o.escaped = false) (sign : c = '=' ∨ c = '!') :
    Steps d (Here d n r o fun j => j = i + 2 ∨ j = i + 3) (eat c)
      (Either (fun p => d.nameAt? i = none ∧ At d n r o p) (Here d n r o fun j => j = i + 2 ∨ j = i + 3)) := by
  have plain : isPlain c = true := by rcases sign with rfl | rfl <;> rfl
  refine .weaken (.eaten (J := fun p => d.nameAt? i = none ∧ At d n r o p) (isNarrow_of_isPlain plain)
    fun p stands here moved => ⟨?_, ⟨?_, Nat.le_succ_of_le here.bound, trivial⟩, here.record⟩)
    fun eaten p here => ?_
  · rcases here.offset with ahead | behind
    · refine Dialect.nameAt?_of_other ?_
      rw [← ahead, Dialect.at?_of_unit stands (lt_of_isNarrow (isNarrow_of_isPlain plain))]
      rcases sign with rfl | rfl <;> decide
    · exact Dialect.nameAt?_of_lookbehind (behind ▸ stands) sign
  · rw [moved, Outline.step_plain (not_isMark_of_isPlain plain), Outline.settled_of open']
  · cases eaten with
    | true => exact here
    | false => exact here.mono fun _ both => both.1

/-- What an assertion begins with, if there is one: it stands alone, or a disjunction follows. -/
def Begins (d : Dialect) (n : Nat) (place : Place) (first : Nat) (missed : Progress → Prop) :
    Option (Bool × Bool) → Progress → Prop
  | none => missed
  | some (false, _) => Standing d n (Within d place)
  | some (true, _) => Standing d n (Entering d first place)

theorem assertionHead_steps (within : Within d place r o) (start : Nat) :
    Steps d (Here d n r o (· = start)) assertionHead (Begins d (n + 1) place o.begun fun p => p.record = r ∧
      (d.at? d.unicode start ≠ some '^'.toNat ∧ d.at? d.unicode start ≠ some '$'.toNat)) := by
  have done {p : Progress} (here : At d (n + 1) r o p) : Standing d (n + 1) (Within d place) p :=
    ⟨r, o, within, here⟩
  refine .bind (.anyMatch_cons (F := At d (n + 1) r o) (.eatenPlain rfl within.plain)
    (.anyMatch_cons (.eatenPlain rfl within.plain) (.pure fun _ here => here))) fun matched => ?_
  cases matched with
  | true => exact .pure fun _ here => done here
  | false =>
    refine .fact (c := d.at? d.unicode start ≠ some '^'.toNat ∧ d.at? d.unicode start ≠ some '$'.toNat)
      (fun p here => ?_) fun fact => ?_
    · obtain ⟨⟨rfl, first⟩, second⟩ := here.offset
      exact ⟨first, second⟩
    refine .eatEscaped rfl (.pure fun _ here => done here) ?_ within.plain
    refine .eatEscaped rfl (.pure fun _ here => done here) ?_ within.plain
    refine .bind (eatQuestioned within) fun both => ?_
    cases both with
    | false => exact .pure fun _ here => ⟨here.record, fact⟩
    | true =>
      refine .exists' fun i => .read ?_
      have open' : (o.entered i).escaped = false := within.plain
      have signed (behind : Bool) : Steps d (Here d (n + 1) r (o.entered i) fun j => j = i + 2 ∨ j = i + 3) (do
          if ← anyMatch [eat '=', eat '!'] then return some (true, !behind)
          return none) (Begins d (n + 1) place o.begun fun p => p.record = r ∧
            (d.at? d.unicode start ≠ some '^'.toNat ∧ d.at? d.unicode start ≠ some '$'.toNat)) := by
        refine .bind (.anyMatch (F := fun p => d.nameAt? i = none ∧ At d (n + 1) r (o.entered i) p)
          fun step mem => ?_) fun sign => ?_
        · simp only [List.mem_cons, List.not_mem_nil, or_false] at mem
          rcases mem with rfl | rfl
          · exact assertionSign open' (.inl rfl)
          · exact assertionSign open' (.inr rfl)
        · cases sign with
          | false => exact .pure fun _ here => ⟨here.record, fact⟩
          | true => exact .pure fun _ here => ⟨r, o.entered i, within.entering here.1, here.2⟩
      refine .ite (fun _ => ?_) fun _ => (signed false).mono (fun _ here => here.mono fun _ at' => .inl at')
        fun _ _ done => done
      refine .bind (R := fun _ => Here d (n + 1) r (o.entered i) fun j => j = i + 2 ∨ j = i + 3) ?_ signed
      refine .weaken (.eaten rfl (J := Here d (n + 1) r (o.entered i) (· = i + 3))
        fun p stands here moved => ⟨⟨?_, Nat.le_succ_of_le here.bound, ?_⟩, here.record⟩) fun eaten p here => ?_
      · rw [moved, Outline.step_plain rfl, Outline.settled_of open']
      · exact congrArg (· + 1) here.offset
      · cases eaten with
        | true => exact here.mono fun _ at' => .inr at'
        | false => exact here.mono fun _ both => .inl both.1

theorem modifiers_keeps (open' : o.escaped = false) :
    Steps d (At d n r o) modifiers fun _ => At d n r o := by
  refine .bind (.eatRun (by decide) open') fun added => .eat rfl ?_ ?_
  · rw [Outline.settled_of open']
    refine .ite (fun _ => .ite (fun _ => (.throwing rfl)) fun _ => ?_) fun _ => .pure fun _ here => here
    refine .bind (.eatRun (by decide) open') fun removed => .sees fun colon => ?_
    exact .ite (fun _ => (.throwing rfl)) fun _ => .ite (fun _ => (.throw rfl)) fun _ => .pure fun _ here => here
  · exact .ite (fun _ => .ite (fun _ => (.throwing rfl)) fun _ => .pure fun _ here => here)
      fun _ => .pure fun _ here => here

theorem modifiers_stays {i : Nat} (stands : d.at? d.unicode i = some '<'.toNat) :
    Steps d (Here d n r o (· = i)) modifiers fun _ => Here d n r o (· = i) := by
  refine .bind (.eatRun_none stands (by decide)) fun added => ?_
  refine .fact (fun p here => here.1) fun none => ?_
  subst none
  refine .mono (P := Here d n r o (· = i)) ?_ (fun _ here => here.2) fun _ _ done => done
  refine .eatUnit rfl (J := fun _ => False) (fun p hyphen here _ => ?_) (fun _ no => no.elim)
    (.pure fun _ here => here.mono fun _ both => both.1)
  have hyphen' : d.at? d.unicode i = some '-'.toNat :=
    Dialect.at?_of_unit (here.offset ▸ hyphen) (by decide)
  exact absurd (stands.symm.trans hyphen') (by decide)

theorem uncapturingHead_steps (within : Within d place r o) :
    Steps d (Here d n r o w) uncapturingHead
      (Either (Standing d (n + 1) (Entering d o.begun place)) fun p => p.record = r) := by
  refine .eatLeft within (fun i _ _ => ?_) (.pure fun _ here => here.record)
  have open' : (o.entered i).escaped = false := within.plain
  have back {w' : Nat → Prop} : Steps d (Here d (n + 1) r (o.entered i) w') (return false)
      (Either (Standing d (n + 1) (Entering d o.begun place)) fun p => p.record = r) :=
    .pure fun _ here => here.record
  -- What may stand for modifiers begins no name, and an angle bracket takes no modifiers.
  by_cases angle : d.at? d.unicode (i + 2) = some '<'.toNat
  · have colon : Steps d (Here d (n + 1) r (o.entered i) (· = i + 2)) (eat ':')
        (Either (Standing d (n + 1) (Entering d o.begun place)) fun p => p.record = r) := by
      refine (Steps.missing (F := fun _ => False) fun j at' stands => ?_).weaken fun eaten p here => ?_
      · exact absurd (angle.symm.trans (at' ▸ stands)) (by decide)
      · cases eaten with
        | true => exact here.elim
        | false => exact here.record
    refine .eatOver rfl (u := o.entered i) (fun _ _ => ?_) (.lower ?_) back
    · rw [Outline.step_plain rfl, Outline.settled_of open']
    refine .mono (P := Here d (n + 1) r (o.entered i) (· = i + 2)) ?_ (fun p here => here.mono ?_)
      fun _ _ done => done
    · exact .read (.ite (fun _ => .bind (modifiers_stays angle) fun _ => colon) fun _ => colon)
    · rintro _ ⟨_, rfl, -, rfl⟩
      rfl
  · have unnamed := Dialect.nameAt?_of_other angle
    have colon : Steps d (At d (n + 1) r (o.entered i)) (eat ':')
        (Either (Standing d (n + 1) (Entering d o.begun place)) fun p => p.record = r) := by
      refine (Steps.eaten rfl (J := At d (n + 1) r (o.entered i)) fun p _ here moved =>
        ?_).weaken fun eaten p here => ?_
      · rw [Outline.step_plain rfl, Outline.settled_of open'] at moved
        exact ⟨⟨moved, Nat.le_succ_of_le here.bound, trivial⟩, here.record⟩
      · cases eaten with
        | true => exact ⟨r, o.entered i, within.entering unnamed, here⟩
        | false => exact here.record
    refine .eat rfl ?_ back
    rw [Outline.settled_of open']
    exact .read (.ite (fun _ => .bind (modifiers_keeps open') fun _ => colon) fun _ => colon)

omit [d.Narrow] in
theorem declareGroup_steps {i : Nat} {name : String} (within : Within d place r o)
    (inside : place ≠ []) (named : d.nameAt? i = some name) :
    Steps d (At d n r (o.entered i)) (declareGroup name) fun _ =>
      Standing d n (Entering d o.begun place) := by
  refine .get fun p here => .read (.ite (fun refused => ?_) fun passes => ?_)
  · have clash : d.Clash p := by
      have groups : (d.before p.pos).groups = o.groups ++ [(i, place)] := by
        rw [here.outline, ← within.shown]
        rfl
      unfold Dialect.Clash Dialect.named
      rw [groups]
      exact within.agrees.clash inside named (here.record ▸ refused)
    rintro p' rfl _
    exact clash
  · refine .modify fun p' same => ?_
    subst same
    obtain rfl := here.record
    exact ⟨p'.record.declare name, o.entered i,
      within.declaring inside named (Bool.eq_false_iff.2 passes), here.toSpot, rfl⟩

theorem groupSpecifier_steps {i : Nat} (within : Within d place r o) (inside : place ≠ []) :
    Steps d (Here d n r (o.entered i) (· = i + 1)) groupSpecifier fun _ =>
      Standing d n (Entering d o.begun place) := by
  have open' : (o.entered i).escaped = false := within.plain
  refine .eatOver rfl (u := o.entered i) (fun _ _ => ?_) (.lower ?_) (.pure fun p here => ?_)
  · rw [Outline.step_plain rfl, Outline.settled_of open']
  · refine .fact (c := d.units[i + 1]? = some '?'.toNat) (fun p here => ?_) fun question => ?_
    · obtain ⟨_, rfl, stands, -⟩ := here.offset
      exact stands
    · refine .bind (.also (T := fun name _ => ∀ known, name = some known → d.nameAt? i = some known)
        (groupName_keeps open').anywhere fun p name p' here reads known same => ?_) fun name => ?_
      · obtain ⟨_, rfl, -, at'⟩ := here.offset
        exact Dialect.nameAt?_of_read question at' (same ▸ reads)
      · cases name with
        | none => exact (.throw rfl)
        | some name =>
          refine .fact (fun p here => here.2 name rfl) fun named => ?_
          exact (declareGroup_steps within inside named).mono (fun _ here => here.1) fun _ _ done => done
  · obtain ⟨at', other⟩ := here.offset
    refine ⟨r, o.entered i, within.entering (Dialect.nameAt?_of_plain fun stands => other ?_), here.at⟩
    rw [at']
    exact Dialect.at?_of_unit stands (by decide)

theorem capturingHead_steps (within : Within d place r o) (inside : place ≠ []) :
    Steps d (Here d n r o w) capturingHead (Either (Standing d (n + 1) (Entering d o.begun place))
      (Here d n r o fun j => w j ∧ d.at? d.unicode j ≠ some '('.toNat)) := by
  refine .eatLeft within (fun i _ _ => .read ?_) (.pure fun _ here => here)
  refine .ite (fun _ => .bind (groupSpecifier_steps within inside) fun _ => .pure fun _ here => here) fun _ => ?_
  refine .seesFacing (.throwing rfl) (.pure fun p here => ?_)
  obtain ⟨at', other⟩ := here.offset
  refine ⟨r, o.entered i, within.entering (Dialect.nameAt?_of_plain fun stands => other ?_), here.at⟩
  rw [at']
  exact Dialect.at?_of_unit stands (of_decide_eq_true rfl)

section

variable {inner : PatternM Unit} (reads : ∀ n first outer,
  Steps d (Standing d n (Entering d first outer)) inner fun _ => Reading d n (Leaving d first outer))

include reads

theorem closedDisjunction_steps :
    Steps d (Standing d n (Entering d first outer)) (closedDisjunction inner) fun _ =>
      Standing d n (Within d outer) := by
  refine .bind (reads n first outer) fun _ => .reading (fun r o leaving => ?_) fun r o leaving => ?_
  · obtain ⟨current, between⟩ := leaving
    refine .eatOver rfl (fun _ _ => Outline.step_right between.plain between.outside) (.lower ?_) (.throw rfl)
    refine .pure fun p here => ⟨r, _, ?_, here.at⟩
    exact ⟨between.plain, between.outside, by simp [between.shown], between.agrees⟩
  · exact .eatDangling rfl (.throw rfl)

theorem assertion_steps (within : Within d place r o) :
    Steps d (Here d n r o w) (assertion inner) fun q =>
      Either (Standing d (n + 1) (Within d place)) (Here d n r o fun j => w j ∧
        (d.at? d.unicode j ≠ some '^'.toNat ∧ d.at? d.unicode j ≠ some '$'.toNat)) q.isSome := by
  rw [assertion_eq]
  refine .orRewindAt fun start => .bind (assertionHead_steps within start) fun head => ?_
  match head with
  | none => exact .pure fun _ here => here
  | some (false, _) => exact .pure fun _ here => here
  | some (true, _) => exact .bind (closedDisjunction_steps reads) fun _ => .pure fun _ here => here

theorem uncapturingGroup_steps (within : Within d place r o) :
    Steps d (Here d n r o w) (uncapturingGroup inner)
      (Either (Standing d (n + 1) (Within d place)) (Here d n r o w)) := by
  rw [uncapturingGroup_eq]
  refine .position fun start spot => .bind (uncapturingHead_steps within) fun head => ?_
  cases head with
  | true => exact .bind (closedDisjunction_steps reads) fun _ => .pure fun _ here => here
  | false => exact .bind (R := fun _ => Here d n r o w) (fun _ same => ⟨spot, same⟩) fun _ => .pure fun _ here => here

theorem capturingGroup_steps (within : Within d place r o) (inside : place ≠ []) :
    Steps d (Here d n r o w) (capturingGroup inner) (Either (Standing d (n + 1) (Within d place))
      (Here d n r o fun j => w j ∧ d.at? d.unicode j ≠ some '('.toNat)) := by
  rw [capturingGroup_eq]
  refine .bind (capturingHead_steps within inside) fun head => ?_
  cases head with
  | false => exact .pure fun _ here => here
  | true =>
    refine .bind (closedDisjunction_steps reads) fun _ => ?_
    refine .bind (R := fun _ => Standing d (n + 1) (Within d place)) (.modify ?_) fun _ =>
      .pure fun _ here => here
    rintro p ⟨r, o, within, here⟩
    exact ⟨r, o, within, here.toSpot, here.record⟩

end

/-! ### Terms -/

theorem bracedQuantifier_steps (open' : o.escaped = false) (lenient : Bool) :
    Steps d (Here d n r o w) (bracedQuantifier lenient) (Either (At d n r o) (Here d n r o w)) := by
  refine .position fun start spot => .eat rfl ?_ (.pure fun _ here => here)
  rw [Outline.settled_of open']
  have back : Steps d (At d n r o) (do
      if (← read).unicode && !lenient then throw .incompleteQuantifier
      moveTo start
      return false) (Either (At d n r o) (Here d n r o w)) :=
    .read (.ite (fun _ => (.throwing rfl)) fun _ => .bind (.moveTo spot) fun _ => .pure fun _ here => here)
  refine .bind (eatDecimal_keeps open') fun low => ?_
  cases low with
  | none => exact back
  | some low =>
    have closes (high : Option Nat) : Steps d (At d n r o) (do
        if ← eat '}' then
          if high.any (· < low) && !lenient then throw .quantifierOutOfOrder
          return true
        if (← read).unicode && !lenient then throw .incompleteQuantifier
        moveTo start
        return false) (Either (At d n r o) (Here d n r o w)) := by
      refine .eat rfl ?_ back
      rw [Outline.settled_of open', if_pos rfl]
      exact .ite (fun _ => (.throwing rfl)) fun _ => .pure fun _ here => here
    refine .eat rfl ?_ (closes none)
    rw [Outline.settled_of open']
    exact .bind (eatDecimal_keeps open') closes

theorem quantifier_steps (open' : o.escaped = false) (lenient : Bool) :
    Steps d (Here d n r o w) (quantifier lenient) (Either (At d n r o) (Here d n r o fun j => w j ∧
      ∀ c ∈ ['*', '+', '?'], d.at? d.unicode j ≠ some c.toNat)) := by
  have lowered {c : Char} {w : Nat → Prop} (plain : isPlain c = true) : Steps d (Here d n r o w) (eat c)
        (Either (At d n r o)
        (Here d n r o fun j => w j ∧ d.at? d.unicode j ≠ some c.toNat)) := by
    refine (Steps.eatenPlain plain open').weaken fun eaten p here => ?_
    cases eaten with
    | true => exact ⟨⟨here.outline, Nat.le_of_succ_le here.bound, trivial⟩, here.record⟩
    | false => exact here
  refine .bind (.anyMatch_cons (F := At d n r o) (lowered rfl)
    (.anyMatch_cons (lowered rfl) (.anyMatch_cons (lowered rfl)
      (.anyMatch_cons (bracedQuantifier_steps open' lenient) (.pure fun _ here => here)))))
    fun matched => ?_
  cases matched with
  | true =>
    refine .eat rfl ?_ (.pure fun _ here => here)
    rw [Outline.settled_of open']
    exact .pure fun _ here => here
  | false =>
    refine .pure fun p here => here.mono fun j facts => ⟨facts.1.1.1, ?_⟩
    simp only [List.mem_cons, List.not_mem_nil, or_false, forall_eq_or_imp, forall_eq]
    exact ⟨facts.1.1.2, facts.1.2, facts.2⟩

omit [d.Narrow] in
/-- No quantifier begins there. -/
theorem quantifier_missing (lenient : Bool)
    (missing : ∀ c ∈ ['*', '+', '?', '{'], ∀ j, w j → d.at? d.unicode j ≠ some c.toNat) :
    Steps d (Here d n r o w) (quantifier lenient) (Either (fun _ => False) (Here d n r o w)) := by
  refine .bind (.anyMatch (F := fun _ => False) fun step mem => ?_) fun matched => ?_
  · simp only [List.mem_cons, List.not_mem_nil, or_false] at mem
    rcases mem with rfl | rfl | rfl | rfl
    · exact .missing (missing _ (by decide))
    · exact .missing (missing _ (by decide))
    · exact .missing (missing _ (by decide))
    · exact .position fun start spot => .eatMissing (.pure fun _ here => here) (missing _ (by decide))
  · cases matched with
    | true => exact fun _ here => here.elim
    | false => exact .pure fun _ here => here

omit [d.Narrow] in
/-- Nothing behind a dangling backslash is a quantifier. -/
theorem quantifier_dangling (lenient : Bool) : Steps d (Here d n r o d.Dangles) (quantifier lenient)
    (Either (fun _ => False) (Here d n r o d.Dangles)) :=
  quantifier_missing lenient fun c mem => Steps.at?_of_dangles (by
    simp only [List.mem_cons, List.not_mem_nil, or_false] at mem
    rcases mem with rfl | rfl | rfl | rfl <;> decide)

theorem strayQuantifier_steps {F : Progress → Prop} (open' : o.escaped = false) :
    Steps d (Here d n r o w) strayQuantifier (Either F (Here d n r o w)) := by
  refine .bind (bracedQuantifier_steps open' true) fun matched => ?_
  cases matched with
  | true => exact (.throwing rfl)
  | false => exact .pure fun _ here => here

theorem lenient_plain :
    Plain fun code => isLenientCharacter code && code != '\\'.toNat && code != ']'.toNat := by decide

/-- No term begins there. -/
def Dialect.Stuck (d : Dialect) (i : Nat) : Prop :=
  ∀ code, d.at? d.unicode i = some code →
    isOneOf ['*', '+', '?', '{', '}', '|', ')', ']'] code = true

omit [d.Narrow] in
theorem isOneOf_rest {cs rest : List Char} (excluded : List Char) {i : Nat}
    (one : ∀ code, d.at? d.unicode i = some code → isOneOf cs code = true)
    (others : ∀ c ∈ excluded, d.at? d.unicode i ≠ some c.toNat)
    (split : (cs.all fun c => excluded.contains c || rest.contains c) = true) :
    ∀ code, d.at? d.unicode i = some code → isOneOf rest code = true := by
  intro code stands
  have is := one code stands
  simp only [isOneOf, List.any_eq_true, beq_iff_eq] at is ⊢
  obtain ⟨c, mem, rfl⟩ := is
  rcases Bool.or_eq_true_iff.1 (List.all_eq_true.1 split c mem) with mem | mem
  · exact absurd stands (others c (by simpa using mem))
  · exact ⟨c, by simpa using mem, rfl⟩

section

variable {inner : PatternM Unit} (reads : ∀ n first outer,
  Steps d (Standing d n (Entering d first outer)) inner fun _ => Reading d n (Leaving d first outer))

include reads

theorem groups_steps (within : Within d place r o) (inside : place ≠ [])
    {steps : List (PatternM Bool)} {M : Progress → Prop}
    (rest : Steps d (Here d n r o fun j => w j ∧ d.at? d.unicode j ≠ some '('.toNat) (anyMatch steps)
      (Either (Reading d (n + 1) (Within d place)) M)) :
    Steps d (Here d n r o w) (anyMatch (uncapturingGroup inner :: capturingGroup inner :: steps))
      (Either (Reading d (n + 1) (Within d place)) M) := by
  refine .anyMatch_cons (K := Here d n r o w) (.weaken (uncapturingGroup_steps reads within) ?_)
    (.anyMatch_cons (.weaken (capturingGroup_steps reads within inside) ?_) rest)
  · intro matched p here
    cases matched with
    | true => exact Standing.reading here
    | false => exact here
  · intro matched p here
    cases matched with
    | true => exact Standing.reading here
    | false => exact here

theorem strictAtom_steps (within : Within d place r o) (inside : place ≠ [])
    (strict : d.unicode = true) (depth : Nat) :
    Steps d (Here d n r o fun j => True ∧
        (d.at? d.unicode j ≠ some '^'.toNat ∧ d.at? d.unicode j ≠ some '$'.toNat))
      (strictAtom inner depth) (Either (Reading d (n + 1) (Within d place))
        (Here d n r o d.Stuck)) := by
  refine .anyMatch_cons (.atom within (.bind (.eatRun_isEmpty (by decide) within.plain) fun codes =>
    .pure fun _ here => here)) ?_
  refine .anyMatch_cons (.atom within (.eatenPlain rfl within.plain)) ?_
  refine .anyMatch_cons (.atom within (escapedAtom_steps within.plain)) ?_
  refine .anyMatch_cons (.atom within (characterClass_steps within.plain within.outside depth)) ?_
  refine groups_steps reads within inside (.pure fun p here => here.mono fun j facts => ?_)
  obtain ⟨⟨⟨⟨⟨⟨-, caret, dollar⟩, marks⟩, dot⟩, slash⟩, bracket⟩, left⟩ := facts
  refine isOneOf_rest ['^', '$', '.', '\\', '[', '(']
    (fun code stands => show isSyntaxCharacter code = true by simpa using marks code stands) ?_
    (by decide)
  simp only [List.mem_cons, List.not_mem_nil, or_false, forall_eq_or_imp, forall_eq]
  refine ⟨caret, dollar, dot, fun stands => ?_, bracket, left⟩
  exact absurd (slash stands).1 (by simp [strict])

omit reads in
/-- A code that stands for itself outside unicode mode, a backslash among them. -/
theorem lenientCode_steps (within : Within d place r o)
    (dangles : ∀ j, w j → d.at? d.unicode j = some '\\'.toNat → d.Dangles (j + 1)) :
    Steps d (Here d n r o w) (do return (← eatCode isLenientCharacter).isSome)
      (Either (Reading d (n + 1) (Within d place)) (Here d n r o fun j => w j ∧
        ∀ code, d.at? d.unicode j = some code → isLenientCharacter code = false)) := by
  refine .bind (.eatCode (J := Reading d (n + 1) (Within d place)) fun code is => ?_) fun code =>
    .pure fun _ here => here
  have moved : Steps d (Facing d n r o w d.unicode (some code)) advance fun _ => Loose d n r o := by
    by_cases slash : code = '\\'.toNat
    · subst slash
      refine (Steps.advance_backslash within.plain).weaken fun _ p here => .inr (here.mono ?_)
      rintro _ ⟨i, there, stands, rfl⟩
      exact dangles i there (Dialect.at?_of_unit stands (by decide))
    · by_cases bracket : code = ']'.toNat
      · subst bracket
        intro p here
        obtain ⟨stands, next⟩ := Dialect.at?_char here.2 (by decide)
        refine .inl ⟨⟨?_, Nat.le_trans here.1.bound (d.le_next _ _), trivial⟩, here.1.record⟩
        show d.before (d.next (false || d.unicode) p.pos) = o
        rw [Bool.false_or, next, Dialect.before_succ stands, here.1.outline,
          Outline.step_outside within.plain within.outside]
      · have plain : Outline.isMark code = false :=
          lenient_plain.not_isMark (by
            rw [is, bne_iff_ne.2 slash, bne_iff_ne.2 bracket]; rfl)
        have moved := Steps.advance_plain (d := d) (n := n) (r := r) (o := o) (w := w) plain
        rw [Outline.settled_of within.plain] at moved
        exact moved.weaken fun _ _ here => .inl here
  exact (moved.and .advance_forward).weaken fun _ p here => ⟨r, o, within, here.1.forward here.2⟩

theorem lenientAtom_steps (within : Within d place r o) (inside : place ≠ [])
    (depth : Nat) :
    Steps d (Here d n r o fun j => True ∧
        (d.at? d.unicode j ≠ some '^'.toNat ∧ d.at? d.unicode j ≠ some '$'.toNat))
      (lenientAtom inner depth) (Either (Reading d (n + 1) (Within d place))
        (Here d n r o d.Stuck)) := by
  refine .anyMatch_cons (.atom within (.eatenPlain rfl within.plain)) ?_
  refine .anyMatch_cons (.atom within (escapedAtom_steps within.plain)) ?_
  refine .anyMatch_cons (.atom within (characterClass_steps within.plain within.outside depth)) ?_
  refine groups_steps reads within inside ?_
  refine .anyMatch_cons (strayQuantifier_steps within.plain) ?_
  refine .anyMatch_cons (lenientCode_steps within fun j facts => facts.1.1.2)
    (.pure fun p here => here.mono fun j facts => ?_)
  obtain ⟨⟨⟨⟨⟨⟨-, caret, dollar⟩, dot⟩, -⟩, bracket⟩, left⟩, excluded⟩ := facts
  have one : ∀ code, d.at? d.unicode j = some code →
      isOneOf ['$', '(', ')', '*', '+', '.', '?', '[', '^', '|'] code = true :=
    fun code stands => by simpa [isLenientCharacter] using excluded code stands
  refine isOneOf_rest ['^', '$', '.', '[', '('] one ?_ (by decide)
  simp only [List.mem_cons, List.not_mem_nil, or_false, forall_eq_or_imp, forall_eq]
  exact ⟨caret, dollar, dot, bracket, left⟩

end

end RegExp
end ScriptSyntax
