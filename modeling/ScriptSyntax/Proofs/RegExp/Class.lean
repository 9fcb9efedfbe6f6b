import ScriptSyntax.Proofs.RegExp.Escape

/-!
Character classes leave the outline as it was before their opening bracket.  Inside a class
parentheses and bars mean nothing to the outline, and neither do they to the steps below.
-/

namespace ScriptSyntax
namespace RegExp

namespace Outline

/-- The next code stands in a class and means what it says. -/
structure Inside (o : Outline) : Prop where
  plain : o.escaped = false
  within : 0 < o.classes

/-- One more class is open. -/
def opened (o : Outline) : Outline := { o with classes := o.classes + 1 }

variable {o : Outline} {nested : Bool} {i unit : Nat}

theorem Inside.opened (inside : o.Inside) : o.opened.Inside := ⟨inside.plain, Nat.succ_pos _⟩

theorem step_inside (inside : o.Inside) (slash : unit ≠ '\\'.toNat) (closes : unit ≠ ']'.toNat)
    (opens : unit = '['.toNat → nested = false) : o.step nested i unit = o := by
  simp only [step, inside.plain, inside.within, slash, closes, Bool.false_eq_true, if_false, if_true]
  refine if_neg fun both => ?_
  rw [opens both.1] at both
  exact Bool.false_ne_true both.2

theorem step_opening (plain : o.escaped = false) (nests : 0 < o.classes → nested = true) :
    o.step nested i '['.toNat = o.opened := by
  by_cases within : 0 < o.classes
  · simp [step, plain, within, nests within, opened]
  · have none : o.classes = 0 := by omega
    simp [step, plain, none, opened]

theorem step_closing (plain : o.escaped = false) : o.opened.step nested i ']'.toNat = o := by
  cases o
  simp_all [step, opened]

end Outline

variable {α β : Type} {d : Dialect} {n : Nat} {r : Record} {o : Outline} {w : Nat → Prop}

/-- The outline is known, or it will be once the code at the cursor is taken in. -/
def Loose (d : Dialect) (n : Nat) (r : Record) (o : Outline) (p : Progress) : Prop :=
  At d n r o p ∨ Here d n r o.behind d.Dangles p

namespace Steps

variable {P P' : Progress → Prop} {Q : β → Progress → Prop}

theorem or {x : PatternM β} (left : Steps d P x Q) (right : Steps d P' x Q) :
    Steps d (fun p => P p ∨ P' p) x Q := by
  rintro p (here | here)
  · exact left p here
  · exact right p here

/-- Another character stands there, or none. -/
theorem eatMissing {c : Char} {f : Bool → PatternM β} (no : Steps d (Here d n r o w) (f false) Q)
    (missing : ∀ j, w j → d.at? d.unicode j ≠ some c.toNat) :
    Steps d (Here d n r o w) (RegExp.eat c >>= f) Q := by
  refine bind (R := Either (fun _ => False) (Here d n r o w)) ?_ fun eaten => ?_
  · exact seesFacing (fun p here => absurd here.2 (missing _ here.1.offset))
      (pure fun _ here => here.mono fun _ both => both.1)
  · cases eaten with
    | true => exact fun _ here => here.elim
    | false => exact no

theorem missing {c : Char} {F : Progress → Prop}
    (missing : ∀ j, w j → d.at? d.unicode j ≠ some c.toNat) :
    Steps d (Here d n r o w) (RegExp.eat c) (Either F (Here d n r o w)) := by
  have steps := eatMissing (n := n) (r := r) (o := o) (f := Pure.pure)
    (Q := Either F (Here d n r o w)) (pure fun _ here => here) missing
  rwa [bind_pure] at steps

theorem at?_of_dangles {c : Char} (other : isOneOf ['c', 'k'] c.toNat = false) (j : Nat)
    (dangles : d.Dangles j) : d.at? d.unicode j ≠ some c.toNat := by
  intro stands
  rcases dangles.2 _ stands with same | same <;> simp [isOneOf, same] at other

/-- Nothing else than a refused code stands behind a dangling backslash. -/
theorem eatDangling {c : Char} {f : Bool → PatternM β} (other : isOneOf ['c', 'k'] c.toNat = false)
    (no : Steps d (Here d n r o d.Dangles) (f false) Q) :
    Steps d (Here d n r o d.Dangles) (RegExp.eat c >>= f) Q :=
  eatMissing no (at?_of_dangles other)

/-- The outline does not mind a character in a class. -/
theorem eatInside [d.Narrow] {c : Char} {f : Bool → PatternM β} (narrow : isNarrow c = true)
    (plain : isOneOf ['\\', ']', '['] c.toNat = false) (inside : o.Inside)
    (yes : Steps d (At d n r o) (f true) Q) (no : Steps d (Here d n r o w) (f false) Q) :
    Steps d (Here d n r o w) (RegExp.eat c >>= f) Q := by
  refine eatOver narrow (fun _ _ => ?_) yes.anywhere.lower
    (no.mono (fun _ here => here.mono fun _ both => both.1) fun _ _ done => done)
  simp only [isOneOf, List.any_cons, List.any_nil, Bool.or_false, Bool.or_eq_false_iff,
    beq_eq_false_iff_ne] at plain
  obtain ⟨slash, closes, opens⟩ := plain
  exact Outline.step_inside inside slash.symm closes.symm fun same => absurd same.symm opens

theorem eatClosing [d.Narrow] {f : Bool → PatternM β} (open' : o.escaped = false)
    (yes : Steps d (At d n r o) (f true) Q) (no : Steps d (Here d n r o.opened w) (f false) Q) :
    Steps d (Here d n r o.opened w) (RegExp.eat ']' >>= f) Q :=
  eatOver rfl (fun _ _ => Outline.step_closing open') yes.anywhere.lower
    (no.mono (fun _ here => here.mono fun _ both => both.1) fun _ _ done => done)

theorem eatOpening [d.Narrow] {f : Bool → PatternM β} (open' : o.escaped = false)
    (nests : 0 < o.classes → d.unicodeSets = true)
    (yes : Steps d (At d (n + 1) r o.opened) (f true) Q)
    (no : Steps d (Here d n r o fun j => w j ∧ d.at? d.unicode j ≠ some '['.toNat) (f false) Q) :
    Steps d (Here d n r o w) (RegExp.eat '[' >>= f) Q :=
  eatOver rfl (fun _ _ => Outline.step_opening open' nests) yes.anywhere no

end Steps

variable [d.Narrow]

/-! ### Plain classes -/

theorem escapedClassAtom_steps (open' : o.escaped = false) :
    Steps d (Here d n r o.behind w) escapedClassAtom fun a =>
      Either (At d n r o) (Here d n r o.behind fun j => w j ∧ (d.unicode = false → d.Refuses j)) a.isSome := by
  have settled : o.behind.settled = o := Outline.settled_of open'
  have rest : Steps d (Here d n r o.behind w) (do
      if (← classEscape).isSome then return some none
      return (← characterEscape).map some) fun a : Option ClassAtom =>
        Either (At d n r o) (Here d n r o.behind fun j => w j ∧ (d.unicode = false → d.Refuses j)) a.isSome := by
    refine .bind (classEscape_tries.escapes n r o w open') fun set => ?_
    cases set with
    | some set => exact .pure fun _ here => here
    | none =>
      refine .bind (characterEscape_steps open') fun code => ?_
      cases code <;> exact .pure fun _ here => here
  refine .read (.eat rfl ?_ ?_)
  · rw [settled]
    exact .pure fun _ here => here
  simp only [Bool.false_eq_true, if_false]
  refine .ite (fun _ => ?_) fun _ => ?_
  · refine .eat rfl ?_ rest
    rw [settled]
    exact .pure fun _ here => here
  · refine .bind (.orRewind (J := At d n r o) ?_) fun control => ?_
    · refine .eat rfl ?_ (.pure fun _ here => here.record)
      rw [settled]
      refine .weaken (.eatPlain (by decide)) fun code p here => ?_
      rw [Outline.settled_of open'] at here
      cases code with
      | some code => exact here
      | none => exact here.record
    · cases control with
      | some code => exact .pure fun _ here => here
      | none => exact rest

theorem advance_inside (inside : o.Inside) (nested : d.unicodeSets = false) {code : Nat}
    (slash : code ≠ '\\'.toNat) (closes : code ≠ ']'.toNat) :
    Steps d (Facing d n r o w d.unicode (some code)) advance fun _ => At d n r o := by
  refine fun p here =>
    ⟨⟨?_, Nat.le_trans here.1.bound (d.le_next _ _), trivial⟩, here.1.record⟩
  show d.before (d.next d.unicode p.pos) = o
  obtain ⟨stands, next⟩ | ⟨_, _, -, -, -, -, large, -⟩ := Dialect.at?_cases here.2
  · rw [next, Dialect.before_succ stands, here.1.outline,
      Outline.step_inside inside slash closes fun _ => nested]
  · rw [Dialect.before_next_plain here.2 (Dialect.not_isMark_of_large large), here.1.outline,
      Outline.settled_of inside.plain]

/-- A code that stands for itself, a backslash among them if no escape begins there. -/
theorem classCode_steps (inside : o.Inside) (nested : d.unicodeSets = false)
    (dangles : ∀ j, w j → d.units[j]? = some '\\'.toNat → d.Dangles (j + 1)) :
    Steps d (Here d n r o w) (do return (← eatCode fun code => code != ']'.toNat).map some)
      fun _ : Option ClassAtom => Loose d n r o := by
  refine .bind (.eatCode (J := Loose d n r o) fun code is => ?_) fun code => .pure fun p here => ?_
  · by_cases slash : code = '\\'.toNat
    · subst slash
      refine (Steps.advance_backslash inside.plain).weaken fun _ p here => .inr (here.mono ?_)
      rintro _ ⟨i, there, stands, rfl⟩
      exact dangles i there stands
    · exact (advance_inside inside nested slash (by simpa using is)).weaken fun _ _ here => .inl here
  · cases code with
    | some code => exact here
    | none => exact .inl here.at

theorem classAtom_steps (inside : o.Inside) (nested : d.unicodeSets = false) :
    Steps d (Loose d n r o) classAtom fun _ => Loose d n r o := by
  refine .or (.positionAt fun start spot => .eatBackslash ?_ ?_ inside.plain) ?_
  · refine .bind (escapedClassAtom_steps inside.plain) fun atom => ?_
    cases atom with
    | some atom => exact .pure fun _ here => .inl here
    | none =>
      refine .read (.ite (fun _ => ?_) fun unicode => ?_)
      · exact .peek fun _ => .ite (fun _ => (.throwing rfl)) fun _ => (.throwing rfl)
      · have lenient := Bool.eq_false_iff.2 unicode
        refine .choose fun p here => ?_
        obtain ⟨⟨i, rfl, stands, after⟩, refused⟩ := here.offset
        refine .bind (R := fun _ => Here d n r o (· = i)) ?_ fun _ =>
          classCode_steps inside nested ?_
        · rintro _ rfl
          exact ⟨⟨spot.outline, spot.bound, rfl⟩, here.record⟩
        · rintro j rfl -
          exact ⟨lenient, after ▸ refused lenient⟩
  · refine classCode_steps inside nested fun j there stands => absurd ?_ there.2
    exact Dialect.at?_of_unit stands (by decide)
  · refine .position fun start spot => .eatDangling rfl ?_
    refine .bind (.eatCode (J := At d n r o) fun code _ => ?_) fun code => .pure fun p here => ?_
    · have settled : o.settled = o := Outline.settled_of inside.plain
      exact settled ▸ Steps.advance_behind
    · cases code with
      | some code => exact .inl here
      | none => exact .inr (here.mono fun _ both => both.1)

/-- A plain character is not behind a dangling backslash. -/
theorem Steps.eatLoose {Q : β → Progress → Prop} {c : Char} {f : Bool → PatternM β}
    (plain : isPlain c = true) (other : isOneOf ['c', 'k'] c.toNat = false) (open' : o.escaped = false)
    (yes : Steps d (At d n r o) (f true) Q) (no : Steps d (Loose d n r o) (f false) Q) :
    Steps d (Loose d n r o) (RegExp.eat c >>= f) Q := by
  refine .or (.eat plain ?_ (no.mono (fun _ here => .inl here) fun _ _ done => done))
    (.eatDangling other (no.mono (fun _ here => .inr here) fun _ _ done => done))
  rwa [Outline.settled_of open']

theorem classRange_steps (inside : o.Inside) (nested : d.unicodeSets = false) :
    Steps d (Loose d n r o) classRange fun _ => Loose d n r o := by
  refine .bind (classAtom_steps inside nested) fun left => ?_
  cases left with
  | none => exact .pure fun _ here => here
  | some left =>
    refine .eatLoose rfl rfl inside.plain ?_ (.pure fun _ here => here)
    refine .bind ((classAtom_steps inside nested).mono (fun _ here => .inl here) fun _ _ done => done) fun right => ?_
    cases right with
    | none => exact .pure fun _ here => here
    | some right =>
      refine .read (.ite (fun _ => (.throwing rfl)) fun _ => ?_)
      cases left with
      | none => exact .pure fun _ here => here
      | some left =>
        cases right with
        | none => exact .pure fun _ here => here
        | some right => exact .ite (fun _ => (.throwing rfl)) fun _ => .pure fun _ here => here

/-! ### Set expressions -/

theorem plain_notSetSyntax : Plain fun code => !isSetSyntaxCharacter code := by decide

theorem setCharacter_keeps (open' : o.escaped = false) :
    Steps d (At d n r o) setCharacter fun _ => At d n r o := by
  refine .position fun start spot => .eatBackslash ?_ ?_ open'
  · refine .bind (characterEscape_steps open') fun code => ?_
    cases code with
    | some code => exact .pure fun _ here => here
    | none =>
      refine .bind (.eatPlain (by decide)) fun code => ?_
      rw [Outline.settled_behind, Outline.settled_of open']
      cases code with
      | some code => exact .pure fun _ here => here
      | none =>
        refine .eat rfl ?_ (.bind (.moveTo spot) fun _ => .pure fun _ here => here)
        rw [Outline.settled_behind, Outline.settled_of open']
        exact .pure fun _ here => here
  · refine .peek fun code => ?_
    cases code with
    | none => exact .pure fun _ here => here.1.at
    | some code =>
      refine .peekSecond fun second => .ite (fun _ => .pure fun _ here => here.1.at) fun _ => ?_
      refine .ite (fun _ => .pure fun _ here => here.1.at) fun other => ?_
      have plain : Outline.isMark code = false :=
        plain_notSetSyntax.not_isMark (by simpa using other)
      refine .bind (.advance_plain plain) fun _ => .pure fun _ here => ?_
      rwa [Outline.settled_of open'] at here

theorem setRange_keeps (open' : o.escaped = false) :
    Steps d (At d n r o) setRange fun _ => At d n r o := by
  refine .position fun start spot => .bind (setCharacter_keeps open') fun left => ?_
  have back' : Steps d (At d n r o) (do moveTo start; return false) fun _ => At d n r o :=
    .bind (.moveTo spot) fun _ => .pure fun _ here => here
  cases left with
  | none => exact .pure fun _ here => here
  | some left =>
    refine .eat rfl ?_ back'
    rw [Outline.settled_of open']
    refine .bind (setCharacter_keeps open') fun right => ?_
    cases right with
    | none => exact back'
    | some right => exact .ite (fun _ => (.throwing rfl)) fun _ => .pure fun _ here => here

theorem setString_keeps (open' : o.escaped = false) :
    Steps d (At d n r o) setString fun _ => At d n r o := by
  have count (fuel : Nat) : Steps d (At d n r o) (setString.count fuel) fun _ => At d n r o := by
    induction fuel with
    | zero => exact .pure fun _ here => here
    | succ fuel ih =>
      exact .bind (setCharacter_keeps open') fun _ =>
        .ite (fun _ => .bind ih fun _ => .pure fun _ here => here) fun _ => .pure fun _ here => here
  exact .read (.bind (count _) fun _ => .pure fun _ here => here)

theorem setStrings_keeps (inside : o.Inside) (fuel : Nat) :
    ∀ first, Steps d (At d n r o) (setStrings first fuel) fun _ => At d n r o := by
  induction fuel with
  | zero => exact fun _ => .pure fun _ here => here
  | succ fuel ih =>
    refine fun first => .eatInside rfl rfl inside ?_ (.pure fun _ here => here)
    refine .bind (setString_keeps inside.plain) fun set => ?_
    cases set <;> exact ih _

theorem stringDisjunction_keeps (inside : o.Inside) :
    Steps d (At d n r o) stringDisjunction fun _ => At d n r o := by
  refine .position fun start spot => .eatEscaped rfl ?_ (.pure fun _ here => here) inside.plain
  refine .lower (.eat rfl ?_ (.throwing rfl))
  rw [Outline.settled_of inside.plain]
  refine .bind (setString_keeps inside.plain) fun first => .read (.bind (setStrings_keeps inside _ _) fun set => ?_)
  refine .eat rfl (.pure fun _ here => ?_) (.bind (.moveTo spot) fun _ => .pure fun _ here => here)
  rwa [Outline.settled_of inside.plain] at here

section

variable {nested : PatternM (Option CharSet)} (inside : o.Inside)
  (keeps : Steps d (At d n r o) nested fun _ => At d n r o)

include inside keeps

theorem setOperand_keeps : Steps d (At d n r o) (setOperand nested) fun _ => At d n r o := by
  refine .bind (setCharacter_keeps inside.plain) fun code => ?_
  cases code with
  | some code => exact .pure fun _ here => here
  | none =>
    refine .bind (stringDisjunction_keeps inside) fun set => ?_
    cases set with
    | some set => exact .pure fun _ here => here
    | none => exact keeps

theorem intersection_keeps (fuel : Nat) :
    ∀ set, Steps d (At d n r o) (intersection nested set fuel) fun _ => At d n r o := by
  induction fuel with
  | zero => exact fun _ => .pure fun _ here => here
  | succ fuel ih =>
    refine fun set => .eatPair rfl rfl ?_ (.pure fun _ here => here)
    rw [Outline.settled_of inside.plain]
    refine .sees fun third => .ite (fun _ => ?_) fun _ => (.throw rfl)
    refine .bind (setOperand_keeps inside keeps) fun operand => ?_
    cases operand with
    | none => exact (.throw rfl)
    | some operand => exact ih _

theorem subtraction_keeps (fuel : Nat) :
    Steps d (At d n r o) (subtraction nested fuel) fun _ => At d n r o := by
  induction fuel with
  | zero => exact .pure fun _ here => here
  | succ fuel ih =>
    refine .eatPair rfl rfl ?_ (.pure fun _ here => here)
    rw [Outline.settled_of inside.plain]
    exact .bind (setOperand_keeps inside keeps) fun operand => .ite (fun _ => (.throwing rfl)) fun _ => ih

theorem union_keeps (fuel : Nat) :
    ∀ set, Steps d (At d n r o) (union nested set fuel) fun _ => At d n r o := by
  induction fuel with
  | zero => exact fun _ => .pure fun _ here => here
  | succ fuel ih =>
    refine fun set => .bind (setRange_keeps inside.plain) fun ranged => .ite (fun _ => ih _) fun _ => ?_
    refine .bind (setOperand_keeps inside keeps) fun operand => ?_
    cases operand with
    | none => exact .pure fun _ here => here
    | some operand => cases operand <;> exact ih _

theorem setExpression_keeps : Steps d (At d n r o) (setExpression nested) fun _ => At d n r o := by
  refine .read (.bind (setRange_keeps inside.plain) fun ranged => ?_)
  refine .ite (fun _ => union_keeps inside keeps _ _) fun _ => ?_
  refine .bind (setOperand_keeps inside keeps) fun first => ?_
  cases first with
  | none => exact (.throw rfl)
  | some first =>
    refine .position fun start _ => .bind (intersection_keeps inside keeps _ _) fun set => ?_
    refine .position fun _ _ => .ite (fun _ => .pure fun _ here => here) fun _ => ?_
    refine .bind (subtraction_keeps inside keeps _) fun _ => .position fun _ _ => ?_
    exact .ite (fun _ => .pure fun _ here => here) fun _ => union_keeps inside keeps _ _

end

/-! ### Brackets -/

/-- What holds of a class inside an outermost one, or of any class where classes do not nest. -/
theorem classContents_steps {nested : PatternM (Option CharSet)} (inside : o.Inside)
    (keeps : d.unicodeSets = true → Steps d (At d n r o) nested fun _ => At d n r o) :
    Steps d (At d n r o) (classContents nested) fun _ => Loose d n r o := by
  refine .sees fun closes => .ite (fun _ => .pure fun _ here => .inl here) fun _ => .read ?_
  refine .ite (fun sets => ?_) fun plain => ?_
  · exact (setExpression_keeps inside (keeps sets)).weaken fun _ _ here => .inl here
  · have ranges := Steps.exhaust (classRange_steps (n := n) (r := r) inside (Bool.eq_false_iff.2 plain))
    refine .bind (ranges.mono (fun _ here => .inl here) fun _ _ done => done) fun _ => ?_
    exact .pure fun _ here => here

theorem bracketed_steps {nested unclosed : PatternM (Option CharSet)} {M : Progress → Prop}
    (open' : o.escaped = false)
    (keeps : d.unicodeSets = true → Steps d (At d n r o.opened) nested fun _ => At d n r o.opened)
    (fails : Steps d (fun p => p.record = r) unclosed fun set p => set.isNone = true ∧ M p) :
    Steps d (At d n r o.opened) (bracketed nested unclosed) fun set => Either (At d n r o) M set.isSome := by
  have inside : o.opened.Inside := ⟨open', Nat.succ_pos _⟩
  have unclosed' {P : Progress → Prop} (same : ∀ p, P p → p.record = r) :
      Steps d P unclosed fun set => Either (At d n r o) M set.isSome :=
    fails.mono same fun set p done => by
      cases set with
      | none => exact done.2
      | some set => simp at done
  have close (negated : Bool) : Steps d (At d n r o.opened) (do
      let set ← classContents nested
      if ← eat ']' then
        if negated && set = .strings then throw .negatedStringClass
        return some set
      else unclosed) fun set => Either (At d n r o) M set.isSome := by
    refine .bind (classContents_steps inside keeps) fun set =>
      .or (.eatClosing open' ?_ (unclosed' fun _ here => here.record))
        (.eatDangling rfl (unclosed' fun _ here => here.record))
    simp only [if_true]
    exact .ite (fun _ => (.throwing rfl)) fun _ => .pure fun _ here => here
  refine .eat rfl ?_ (close false)
  rw [Outline.settled_of inside.plain]
  exact close true

theorem nestedClass_keeps (sets : d.unicodeSets = true) (depth : Nat) :
    ∀ {o : Outline}, o.Inside → Steps d (At d n r o) (nestedClass depth) fun _ => At d n r o := by
  induction depth with
  | zero => exact fun _ => (.throw rfl)
  | succ depth ih =>
    intro o inside
    have escape : Steps d (At d n r o) (orRewind do if ← eat '\\' then classEscape else return none)
        fun _ => At d n r o := by
      refine .weaken (.orRewind (J := At d n r o) (.eatBackslash ?_ ?_ inside.plain))
        fun a p here => ?_
      · refine (classEscape_tries.escapes n r o _ inside.plain).weaken fun set p here => ?_
        cases set with
        | some set => exact here
        | none => exact here.record
      · exact .pure fun p here => here.record
      · cases a <;> exact here
    refine .position fun start spot => .eatOpening inside.plain (fun _ => sets) ?_ escape.anywhere
    refine .lower (.bind (bracketed_steps (M := fun p => p.record = r) inside.plain (fun _ => ih inside.opened)
      (.pure fun p same => ⟨rfl, same⟩)) fun set => ?_)
    cases set with
    | some set => exact .pure fun _ here => here
    | none => exact .bind (R := fun _ => At d n r o) (fun p same => ⟨spot, same⟩) fun _ => escape

theorem characterClass_steps (open' : o.escaped = false) (outside : o.classes = 0) (depth : Nat) :
    Steps d (Here d n r o w) (characterClass depth) (Either (At d (n + 1) r o)
      (Here d n r o fun j => w j ∧ d.at? d.unicode j ≠ some '['.toNat)) := by
  refine .eatOpening open' (fun within => by omega) ?_ (.pure fun _ here => here)
  refine .bind (bracketed_steps (M := fun _ => False) open' (fun sets => ?_) (.throw rfl)) fun set => ?_
  · exact nestedClass_keeps sets depth ⟨open', Nat.succ_pos _⟩
  · cases set with
    | some set => exact .pure fun _ here => here
    | none => exact .pure fun _ here => here.elim

end RegExp
end ScriptSyntax
