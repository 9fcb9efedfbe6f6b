import ScriptSyntax.Proofs.RegExp.Class
import ScriptSyntax.Proofs.RegExp.Mirror

/-!
Character classes side by side.  Inside a class cursors get to all that stands before the bracket that
closes it, parentheses and bars among it.
-/

namespace ScriptSyntax
namespace RegExp

variable {α β : Type} {d : Dialect} {named : Bool} {J K : Nat → Prop} {E : Progress → Progress → Prop}
  {n : Nat} {r : Record} {o : Outline} {w : Nat → Prop}

/-- Offsets that cursors get to inside a class. -/
structure Dialect.Dives (d : Dialect) (J : Nat → Prop) : Prop extends d.Glides J where
  past : ∀ {i code : Nat}, J i → d.at? d.unicode i = some code →
    (code = ']'.toNat → (d.before i).escaped = true) → J (d.next d.unicode i)
  closing : ∀ {i : Nat}, J i → d.units[i]? = some ']'.toNat → 0 < (d.before (i + 1)).classes → J (i + 1)

/-- Both dialects read alike all that is escaped in a class. -/
def Dialect.NeutralInside (d : Dialect) (named : Bool) : Prop :=
  ∀ i, (d.before i).escaped = true → 0 < (d.before i).classes → d.Neutral named i

namespace Mirror

variable {A F : Progress → Prop} {P T : Progress → Progress → Prop} {Q : β → Progress → Progress → Prop}

/-- A step that matches or leaves what is known as it was. -/
theorem attempt {x : PatternM Bool} {f : Bool → PatternM β} (steps : Steps d A x (Either F A))
    (keeps : Mirror d named T x fun _ => T) (yes : Mirror d named (fun p q => F p ∧ T p q) (f true) Q)
    (no : Mirror d named (fun p q => A p ∧ T p q) (f false) Q) :
    Mirror d named (fun p q => A p ∧ T p q) (x >>= f) Q := by
  refine bind (along keeps steps) fun matched => ?_
  cases matched with
  | true => exact yes
  | false => exact no

theorem attemptSome {x : PatternM (Option α)} {f : Option α → PatternM β}
    (steps : Steps d A x fun a => Either F A a.isSome) (keeps : Mirror d named T x fun _ => T)
    (yes : ∀ a, Mirror d named (fun p q => F p ∧ T p q) (f (some a)) Q)
    (no : Mirror d named (fun p q => A p ∧ T p q) (f none) Q) :
    Mirror d named (fun p q => A p ∧ T p q) (x >>= f) Q := by
  refine bind (along keeps steps) fun a => ?_
  cases a with
  | some a => exact yes a
  | none => exact no

theorem at' {f : Nat → PatternM β} (same : ∀ p q, P p q → p.pos = q.pos)
    (rest : ∀ i, Mirror d named (fun p q => P p q ∧ p.pos = i) (f i) Q) :
    Mirror d named P (RegExp.position >>= f) Q := by
  intro p q b p' here run
  obtain ⟨q', run', done⟩ := rest p.pos p q b p' ⟨here, rfl⟩ run
  refine ⟨q', ?_, done⟩
  show f q.pos (d.naming named) q = _
  rw [← same p q here]
  exact run'

theorem along' {B : α → Progress → Prop} {R : α → Progress → Progress → Prop} {x : PatternM α} (steps : Steps d A x B)
    (mirror : Mirror d named (fun p q => A p ∧ T p q) x R) :
    Mirror d named (fun p q => A p ∧ T p q) x fun a p q => B a p ∧ R a p q :=
  (along mirror steps).mono (fun _ _ here => ⟨here.1, here⟩) fun _ _ _ done => done

theorem ifTrue {x y : PatternM β} (mirror : Mirror d named P x Q) : Mirror d named P (if true = true then x else y) Q :=
  mirror

theorem ifFalse {x y : PatternM β} (mirror : Mirror d named P y Q) :
    Mirror d named P (if false = true then x else y) Q :=
  mirror

/-- Nothing more needs to be known. -/
theorem forget {x : PatternM β} (mirror : Mirror d named T x Q) :
    Mirror d named (fun p q => A p ∧ T p q) x Q := mirror.mono (fun _ _ here => here.2) fun _ _ _ done => done

theorem whileMatch {step : PatternM Bool} (keeps : Mirror d named P step fun _ => P) (fuel : Nat) :
    Mirror d named P (whileMatch step fuel) fun _ => P := by
  induction fuel with
  | zero => exact pure fun _ _ here => here
  | succ fuel ih => exact bind keeps fun _ => ite (fun _ => ih) fun _ => pure fun _ _ here => here

theorem exhaust {step : PatternM Bool} (same : ∀ p q, P p q → p.pos = q.pos)
    (keeps : Mirror d named P step fun _ => P) : Mirror d named P (exhaust step) fun _ => P := by
  intro p q a p' here run
  obtain ⟨q', run', done⟩ := whileMatch keeps (d.units.size + 1 - p.pos) p q a p' here run
  refine ⟨q', ?_, done⟩
  show RegExp.whileMatch step (d.units.size + 1 - q.pos) (d.naming named) q = _
  rw [← same p q here]
  exact run'

end Mirror

/-! ### Moves past a character, by what they leave behind -/

namespace Steps

variable [d.Narrow] {c c' : Char}

omit [d.Narrow] in
theorem alone {P : Progress → Prop} {R : α → Progress → Prop} {x : PatternM α}
    (steps : Steps d P (x >>= Pure.pure) R) : Steps d P x R := by rwa [bind_pure] at steps

theorem eats (plain : isPlain c = true) :
    Steps d (Here d n r o w) (RegExp.eat c) (Either (At d n r o.settled) (Here d n r o w)) :=
  alone (eat plain (.pure fun _ here => here) (.pure fun _ here => here))

theorem eatsLoose (plain : isPlain c = true) (other : isOneOf ['c', 'k'] c.toNat = false) (open' : o.escaped = false) :
    Steps d (Loose d n r o) (RegExp.eat c) (Either (At d n r o) (Loose d n r o)) :=
  alone (eatLoose plain other open' (.pure fun _ here => here) (.pure fun _ here => here))

/-- The backslash of an escape. -/
theorem eatsBackslash (open' : o.escaped = false) :
    Steps d (Here d n r o w) (RegExp.eat '\\') (Either (Here d n r o.behind (d.Past w '\\'.toNat)) (Here d n r o w)) :=
  alone (eatBackslash (.pure fun _ here => here) (.pure fun _ here => here.mono fun _ both => both.1) open')

theorem eatsInside (narrow : isNarrow c = true) (plain : isOneOf ['\\', ']', '['] c.toNat = false) (inside : o.Inside) :
    Steps d (At d n r o) (RegExp.eat c) (Either (At d n r o) (At d n r o)) :=
  alone (eatInside narrow plain inside (.pure fun _ here => here) (.pure fun _ here => here))

theorem eatsOpening (open' : o.escaped = false) (nests : 0 < o.classes → d.unicodeSets = true) :
    Steps d (Here d n r o w) (RegExp.eat '[') (Either (At d n r o.opened) (Here d n r o w)) :=
  alone (eatOpening open' nests (.lower (.pure fun _ here => here))
    (.pure fun _ here => here.mono fun _ both => both.1))

theorem eatsPair (plain : isPlain c = true) (plain' : isPlain c' = true) :
    Steps d (Here d n r o w) (RegExp.eatPair c c') (Either (At d n r o.settled) (Here d n r o w)) :=
  alone (eatPair plain plain' (.pure fun _ here => here) (.pure fun _ here => here))

theorem eatsEscaped (plain : isPlain c = true) (open' : o.escaped = false) :
    Steps d (At d n r o) (RegExp.eatPair '\\' c) (Either (At d n r o) (At d n r o)) :=
  alone (eatEscaped plain (.lower (.pure fun _ here => here)) (.pure fun _ here => here) open')

end Steps

namespace Mirror

variable [d.Narrow]

/-! ### Plain classes -/

theorem escapedClassAtom (glides : d.Glides J) (open' : o.escaped = false)
    (neutral : ∀ j, Spot d n o.behind w j → d.Neutral named j) :
    Mirror d named (fun p q => Here d n r o.behind w p ∧ Twin J E p q) escapedClassAtom fun _ => Twin J E := by
  have rest : Mirror d named (fun p q => Here d n r o.behind w p ∧ Twin J E p q) (do
      if (← classEscape).isSome then return some none
      return (← RegExp.characterEscape).map some) fun _ : Option ClassAtom => Twin J E := by
    refine attemptSome (classEscape_tries.escapes n r o w open') (Keeps.classEscape glides)
      (fun _ => forget (ifTrue Keeps.pure)) ?_
    exact bind (characterEscape glides open' neutral) fun _ => Keeps.pure
  refine read (attempt (Steps.eats rfl) (Keeps.eat glides rfl) (forget (ifTrue Keeps.pure)) ?_) rfl
  refine ifFalse (ite (fun _ => attempt (Steps.eats rfl) (Keeps.eat glides rfl)
    (forget (ifTrue Keeps.pure)) rest) fun _ => ?_)
  refine attemptSome (F := fun _ => True) (.weaken (Steps.orRewind (J := fun _ => True) ?_) fun a _ here => ?_)
    (Keeps.orRewind (.bind (Keeps.eat glides rfl) fun _ => .ite (Keeps.eatCode glides (by decide)) .pure))
      (fun _ => forget Keeps.pure) rest
  · refine .eat rfl ?_ (.pure fun _ here => here.record)
    refine (Steps.eatPlain (by decide)).weaken fun code p here => ?_
    cases code with
    | some code => trivial
    | none => exact here.record
  · cases a <;> exact here

variable (dives : d.Dives J)
include dives

/-- Only the bracket that closes a class is not moved past. -/
theorem eatAny {c : Char} (narrow : isNarrow c = true) (other : (c == ']') = false) :
    Keeps d named J E (RegExp.eat c) := by
  refine (eatTo (K := J) narrow fun i there stands => ?_).weaken fun eaten _ _ here =>
    here.mono fun j is => by cases eaten <;> exact is
  obtain ⟨at', next⟩ := Dialect.next_of_unit narrow stands d.unicode
  refine next ▸ dives.past there at' fun closes => ?_
  exact absurd (Char.toNat_inj.1 closes) (by simpa using other)

theorem eatsPair {c : Char} (plain : isPlain c = true) : Keeps d named J E (eatPair '\\' c) :=
  .position fun _ there => .bind (eatAny dives rfl rfl) fun _ =>
    .ite (.bind (Keeps.eat dives.toGlides plain) fun _ => .ite .pure (.bind (.moveTo there) fun _ => .pure)) .pure

omit [d.Narrow] in
/-- Both runs move past a code that stands for itself. -/
theorem classCode :
    Keeps d named J E (do return (← eatCode fun code => code != ']'.toNat).map some : PatternM (Option ClassAtom)) := by
  refine bind (eatCodeTo (K := J) fun i code there stands is => dives.past there stands fun closes => ?_) fun code =>
    pure fun _ _ here => here.mono fun j is => by cases code <;> exact is
  simp [closes] at is

theorem classAtom (inside : o.Inside) (neutral : d.NeutralInside named) :
    Mirror d named (fun p q => Loose d n r o p ∧ Twin J E p q) classAtom fun _ => Twin J E := by
  have escaped : Mirror d named (fun p q => At d n r o p ∧ Twin J E p q) RegExp.classAtom fun _ => Twin J E := by
    refine at' (fun _ _ here => here.2.same) fun start =>
      fact (fun _ _ here => here.2 ▸ here.1.2.offset) fun there => ?_
    refine mono (P := fun p q => At d n r o p ∧ Twin J E p q) ?_ (fun _ _ here => here.1) fun _ _ _ done => done
    refine attempt (Steps.eatsBackslash inside.plain) (eatAny dives rfl rfl) ?_ (forget (classCode dives))
    refine bind (escapedClassAtom dives.toGlides inside.plain fun j spot => ?_) fun atom => ?_
    · exact neutral j (by rw [spot.outline]; rfl) (by rw [spot.outline]; exact inside.within)
    · cases atom with
      | some atom => exact Keeps.pure
      | none => exact read (ite (fun _ => peek fun _ => ite (fun _ => throwing) fun _ => throwing) fun _ =>
          moveBack there (classCode dives)) rfl
  have dangling : Mirror d named (fun p q => Here d n r o.behind d.Dangles p ∧ Twin J E p q) RegExp.classAtom
      fun _ => Twin J E := by
    refine at' (fun _ _ here => here.2.same) fun start => ?_
    refine mono (P := fun p q => Here d n r o.behind d.Dangles p ∧ Twin J E p q) ?_
      (fun _ _ here => here.1) fun _ _ _ done => done
    refine attempt (F := fun _ => False) (Steps.missing (Steps.at?_of_dangles rfl)) (eatAny dives rfl rfl) ?_
      (forget (classCode dives))
    exact fact (fun _ _ no => no.1) False.elim
  refine (or escaped dangling).mono (fun _ _ here => ?_) fun _ _ _ done => done
  exact here.1.imp (fun known => ⟨known, here.2⟩) fun known => ⟨known, here.2⟩

theorem classRange (inside : o.Inside) (nested : d.unicodeSets = false) (neutral : d.NeutralInside named) :
    Mirror d named (fun p q => Loose d n r o p ∧ Twin J E p q) classRange fun _ p q => Loose d n r o p ∧
      Twin J E p q := by
  refine along' (classRange_steps inside nested) ?_
  refine bind (along' (classAtom_steps inside nested) (classAtom dives inside neutral)) fun left => ?_
  cases left with
  | none => exact forget Keeps.pure
  | some left =>
    refine attempt (F := At d n r o) (Steps.eatsLoose rfl rfl inside.plain) (Keeps.eat dives.toGlides rfl) ?_
      (forget (ifFalse Keeps.pure))
    refine bind (mono (classAtom dives inside neutral) (fun _ _ here => ⟨.inl here.1, here.2⟩) fun _ _ _ done =>
      done) fun right => ?_
    cases right with
    | none => exact Keeps.pure
    | some right =>
      refine read (ite (fun _ => throwing) fun _ => ?_) rfl
      cases left with
      | none => exact Keeps.pure
      | some left =>
        cases right with
        | none => exact Keeps.pure
        | some right => exact ite (fun _ => throwing) fun _ => Keeps.pure

/-! ### Set expressions -/

theorem setCharacter (inside : o.Inside) (neutral : d.NeutralInside named) :
    Mirror d named (fun p q => At d n r o p ∧ Twin J E p q) setCharacter fun _ => Twin J E := by
  refine at' (fun _ _ here => here.2.same) fun start => fact (fun _ _ here => here.2 ▸ here.1.2.offset) fun there => ?_
  refine mono (P := fun p q => At d n r o p ∧ Twin J E p q) ?_ (fun _ _ here => here.1) fun _ _ _ done => done
  refine attempt (Steps.eatsBackslash inside.plain) (eatAny dives rfl rfl) ?_ ?_
  · refine bind (characterEscape dives.toGlides inside.plain fun j spot => ?_) fun code => ?_
    · exact neutral j (by rw [spot.outline]; rfl) (by rw [spot.outline]; exact inside.within)
    · cases code with
      | some code => exact Keeps.pure
      | none =>
        refine Keeps.bind (Keeps.eatCode dives.toGlides (by decide)) fun code => ?_
        cases code with
        | some code => exact Keeps.pure
        | none =>
          exact Keeps.bind (Keeps.eat dives.toGlides rfl) fun _ => .ite .pure (.bind (.moveTo there) fun _ => .pure)
  · refine forget (peek fun code => ?_)
    cases code with
    | none => exact pure fun _ _ here => here.1
    | some code =>
      refine peekSecond (fun _ _ here => here.1.same) fun _ => ite (fun _ => pure fun _ _ here => here.1) fun _ => ?_
      refine ite (fun _ => pure fun _ _ here => here.1) fun other => onward (fun i there stands => ?_) Keeps.pure
      exact dives.plain there stands (plain_notSetSyntax.not_isMark (by simpa using other))

theorem setRange (inside : o.Inside) (neutral : d.NeutralInside named) :
    Mirror d named (fun p q => At d n r o p ∧ Twin J E p q) setRange fun _ p q => At d n r o p ∧ Twin J E p q := by
  refine along' (setRange_keeps inside.plain) ?_
  refine at' (fun _ _ here => here.2.same) fun start => fact (fun _ _ here => here.2 ▸ here.1.2.offset) fun there => ?_
  have back : Keeps d named J E (do moveTo start; return false) := .bind (.moveTo there) fun _ => .pure
  refine mono (P := fun p q => At d n r o p ∧ Twin J E p q) ?_ (fun _ _ here => here.1) fun _ _ _ done => done
  refine bind (along' (setCharacter_keeps inside.plain) (setCharacter dives inside neutral)) fun left => ?_
  cases left with
  | none => exact forget Keeps.pure
  | some left =>
    refine attempt (F := At d n r o.settled) (Steps.eats rfl) (Keeps.eat dives.toGlides rfl) ?_ (forget (ifFalse back))
    rw [Outline.settled_of inside.plain]
    refine bind (setCharacter dives inside neutral) fun right => ?_
    cases right with
    | none => exact back
    | some right => exact ite (fun _ => throwing) fun _ => Keeps.pure

theorem setString (inside : o.Inside) (neutral : d.NeutralInside named) :
    Mirror d named (fun p q => At d n r o p ∧ Twin J E p q) setString fun _ p q => At d n r o p ∧ Twin J E p q := by
  have count (fuel : Nat) : Mirror d named (fun p q => At d n r o p ∧ Twin J E p q) (setString.count fuel)
      fun _ p q => At d n r o p ∧ Twin J E p q := by
    induction fuel with
    | zero => exact pure fun _ _ here => here
    | succ fuel ih =>
      exact bind (along' (setCharacter_keeps inside.plain) (setCharacter dives inside neutral)) fun _ =>
        ite (fun _ => bind ih fun _ => pure fun _ _ here => here) fun _ => pure fun _ _ here => here
  exact read (bind (count _) fun _ => pure fun _ _ here => here) rfl

theorem setStrings (inside : o.Inside) (neutral : d.NeutralInside named) (fuel : Nat) : ∀ first,
    Mirror d named (fun p q => At d n r o p ∧ Twin J E p q) (setStrings first fuel) fun _ p q =>
      At d n r o p ∧ Twin J E p q := by
  induction fuel with
  | zero => exact fun _ => pure fun _ _ here => here
  | succ fuel ih =>
    refine fun first => attempt (F := At d n r o) (Steps.eatsInside rfl rfl inside) (eatAny dives rfl rfl) ?_
      (ifFalse (pure fun _ _ here => here))
    refine bind (setString dives inside neutral) fun set => ?_
    cases set <;> exact ih _

theorem stringDisjunction (inside : o.Inside) (neutral : d.NeutralInside named) :
    Mirror d named (fun p q => At d n r o p ∧ Twin J E p q) stringDisjunction fun _ p q =>
      At d n r o p ∧ Twin J E p q := by
  refine along' (stringDisjunction_keeps inside) ?_
  refine at' (fun _ _ here => here.2.same) fun start => fact (fun _ _ here => here.2 ▸ here.1.2.offset) fun there => ?_
  refine mono (P := fun p q => At d n r o p ∧ Twin J E p q) ?_ (fun _ _ here => here.1) fun _ _ _ done => done
  refine attempt (F := At d n r o) (Steps.eatsEscaped rfl inside.plain) (eatsPair dives rfl) ?_
    (forget (ifFalse Keeps.pure))
  refine attempt (F := At d n r o.settled) (Steps.eats rfl) (Keeps.eat dives.toGlides rfl) (ifTrue ?_) throwing
  rw [Outline.settled_of inside.plain]
  refine bind (setString dives inside neutral) fun first => read ?_ rfl
  refine bind (setStrings dives inside neutral _ _) fun set =>
    forget (Keeps.bind (Keeps.eat dives.toGlides rfl) fun _ => ?_)
  exact .ite .pure (.bind (.moveTo there) fun _ => .pure)

section

variable {nested : PatternM (Option CharSet)} (inside : o.Inside) (neutral : d.NeutralInside named)
  (keeps : Steps d (At d n r o) nested fun _ => At d n r o)
  (mirrors : Mirror d named (fun p q => At d n r o p ∧ Twin J E p q) nested fun _ => Twin J E)

include inside neutral keeps mirrors

theorem setOperand : Mirror d named (fun p q => At d n r o p ∧ Twin J E p q) (setOperand nested) fun _ p q =>
    At d n r o p ∧ Twin J E p q := by
  refine bind (along' (setCharacter_keeps inside.plain) (setCharacter dives inside neutral)) fun code => ?_
  refine ite (fun _ => pure fun _ _ here => here) fun _ => ?_
  refine bind (stringDisjunction dives inside neutral) fun set => ?_
  cases set with
  | some set => exact pure fun _ _ here => here
  | none => exact along' keeps mirrors

theorem intersection (fuel : Nat) : ∀ set, Mirror d named (fun p q => At d n r o p ∧ Twin J E p q)
    (intersection nested set fuel) fun _ p q => At d n r o p ∧ Twin J E p q := by
  induction fuel with
  | zero => exact fun _ => pure fun _ _ here => here
  | succ fuel ih =>
    refine fun set => attempt (F := At d n r o.settled) (Steps.eatsPair rfl rfl)
      (Keeps.eatPair dives.toGlides rfl rfl) (ifTrue ?_)
      (ifFalse (pure fun _ _ here => here))
    rw [Outline.settled_of inside.plain]
    refine bind (R := fun _ p q => At d n r o p ∧ Twin J E p q)
      (along' (.sees fun _ => .pure fun _ here => here) (forget Keeps.sees))
      fun third => ite (fun _ => ?_) fun _ => throw
    refine bind (setOperand dives inside neutral keeps mirrors) fun operand => ?_
    cases operand with
    | none => exact throw
    | some operand => exact ih _

theorem subtraction (fuel : Nat) : Mirror d named (fun p q => At d n r o p ∧ Twin J E p q)
    (subtraction nested fuel) fun _ p q => At d n r o p ∧ Twin J E p q := by
  induction fuel with
  | zero => exact pure fun _ _ here => here
  | succ fuel ih =>
    refine attempt (F := At d n r o.settled) (Steps.eatsPair rfl rfl) (Keeps.eatPair dives.toGlides rfl rfl) (ifTrue ?_)
      (ifFalse (pure fun _ _ here => here))
    rw [Outline.settled_of inside.plain]
    exact bind (setOperand dives inside neutral keeps mirrors) fun operand => ite (fun _ => throwing) fun _ => ih

theorem union (fuel : Nat) : ∀ set, Mirror d named (fun p q => At d n r o p ∧ Twin J E p q)
    (union nested set fuel) fun _ p q => At d n r o p ∧ Twin J E p q := by
  induction fuel with
  | zero => exact fun _ => pure fun _ _ here => here
  | succ fuel ih =>
    refine fun set => bind (setRange dives inside neutral) fun ranged => ite (fun _ => ih _) fun _ => ?_
    refine bind (setOperand dives inside neutral keeps mirrors) fun operand => ?_
    cases operand with
    | none => exact pure fun _ _ here => here
    | some operand => cases operand <;> exact ih _

theorem setExpression : Mirror d named (fun p q => At d n r o p ∧ Twin J E p q)
    (setExpression nested) fun _ p q => At d n r o p ∧ Twin J E p q := by
  have same {p q : Progress} (here : At d n r o p ∧ Twin J E p q) : p.pos = q.pos := here.2.same
  refine read (bind (setRange dives inside neutral) fun ranged => ?_) rfl
  refine ite (fun _ => union dives inside neutral keeps mirrors _ _) fun _ => ?_
  refine bind (setOperand dives inside neutral keeps mirrors) fun first => ?_
  cases first with
  | none => exact throw
  | some first =>
    refine at' (fun _ _ => same) fun start => bind (mono (intersection dives inside neutral keeps mirrors _ _)
      (fun _ _ here => here.1) fun _ _ _ done => done) fun set => ?_
    refine at' (fun _ _ => same) fun _ => ite (fun _ => pure fun _ _ here => here.1) fun _ => ?_
    refine bind (mono (subtraction dives inside neutral keeps mirrors _)
      (fun _ _ here => here.1) fun _ _ _ done => done)
      fun _ => at' (fun _ _ => same) fun _ => ?_
    refine ite (fun _ => pure fun _ _ here => here.1) fun _ => ?_
    exact mono (union dives inside neutral keeps mirrors _ _) (fun _ _ here => here.1) fun _ _ _ done => done

end

/-! ### Brackets -/

theorem classContents {nested : PatternM (Option CharSet)} (inside : o.Inside) (neutral : d.NeutralInside named)
    (keeps : d.unicodeSets = true → Steps d (At d n r o) nested fun _ => At d n r o)
    (mirrors : d.unicodeSets = true →
      Mirror d named (fun p q => At d n r o p ∧ Twin J E p q) nested fun _ => Twin J E) :
    Mirror d named (fun p q => At d n r o p ∧ Twin J E p q) (classContents nested) fun _ p q =>
      Loose d n r o p ∧ Twin J E p q := by
  refine bind (R := fun _ p q => At d n r o p ∧ Twin J E p q)
    (along' (.sees fun _ => .pure fun _ here => here) (forget Keeps.sees))
    fun closes => ite (fun _ => pure fun _ _ here => ⟨.inl here.1, here.2⟩) fun _ => read ?_ rfl
  refine ite (fun sets => ?_) fun plain => ?_
  · exact weaken (setExpression dives inside neutral (keeps sets) (mirrors sets)) fun _ _ _ here =>
      ⟨.inl here.1, here.2⟩
  · refine bind (mono (exhaust (fun _ _ here => here.2.same)
      (classRange dives inside (Bool.eq_false_iff.2 plain) neutral))
      (fun _ _ here => ⟨.inl here.1, here.2⟩) fun _ _ _ done => done) fun _ => pure fun _ _ here => here

/-- Where a class is closed, the cursors may be bound by something else than inside. -/
theorem bracketed {nested unclosed : PatternM (Option CharSet)} (open' : o.escaped = false)
    (neutral : d.NeutralInside named)
    (keeps : d.unicodeSets = true → Steps d (At d n r o.opened) nested fun _ => At d n r o.opened)
    (mirrors : d.unicodeSets = true →
      Mirror d named (fun p q => At d n r o.opened p ∧ Twin J E p q) nested fun _ => Twin J E)
    (closes : ∀ i, J i → d.before i = o.opened → d.units[i]? = some ']'.toNat → K (i + 1))
    {S : Option CharSet → Progress → Progress → Prop} (closed : ∀ set p q, Twin K E p q → S (some set) p q)
    (fails : Mirror d named (Twin J E) unclosed S) :
    Mirror d named (fun p q => At d n r o.opened p ∧ Twin J E p q) (bracketed nested unclosed) S := by
  have inside : o.opened.Inside := ⟨open', Nat.succ_pos _⟩
  have close (negated : Bool) : Mirror d named (fun p q => At d n r o.opened p ∧ Twin J E p q) (do
      let set ← RegExp.classContents nested
      if ← RegExp.eat ']' then
        if negated && set = .strings then MonadExcept.throw Fault.negatedStringClass
        return some set
      else unclosed) S := by
    refine bind (classContents dives inside neutral keeps mirrors) fun set => ?_
    have shut : Mirror d named (Twin (fun j => J j ∧ d.before j = o.opened) E) (RegExp.eat ']') fun eaten =>
        Twin (fun j => bif eaten then K j else J j) E :=
      (eatTo (K := K) rfl fun i there stands => closes i there.1 there.2 stands).weaken fun eaten _ _ here =>
        here.mono fun j is => by
          cases eaten with
          | true => exact is
          | false => exact is.1
    have ends (eaten : Bool) : Mirror d named (Twin (fun j => bif eaten then K j else J j) E) (do
        if eaten then
          if negated && set = .strings then MonadExcept.throw Fault.negatedStringClass
          return some set
        else unclosed) S := by
      cases eaten with
      | true => exact ifTrue (ite (fun _ => throwing) fun _ => pure (closed set))
      | false => exact ifFalse fails
    have known : Mirror d named (fun p q => At d n r o.opened p ∧ Twin J E p q) (do
        if ← RegExp.eat ']' then
          if negated && set = .strings then MonadExcept.throw Fault.negatedStringClass
          return some set
        else unclosed) S :=
      bind (mono shut (fun _ _ here => ⟨here.2.same, ⟨here.2.offset, here.1.outline⟩, here.2.rest⟩)
        fun _ _ _ done => done) ends
    have dangling : Mirror d named (fun p q => Here d n r o.opened.behind d.Dangles p ∧ Twin J E p q) (do
        if ← RegExp.eat ']' then
          if negated && set = .strings then MonadExcept.throw Fault.negatedStringClass
          return some set
        else unclosed) S := by
      have stuck : Steps d (Here d n r o.opened.behind d.Dangles) (RegExp.eat ']')
        (Either (fun _ => False) fun _ => True) :=
        (Steps.missing (Steps.at?_of_dangles rfl)).weaken fun eaten _ here => by
          cases eaten with
          | true => exact here
          | false => trivial
      refine bind (along (eatTo (K := fun _ => True) rfl fun _ _ _ => trivial) stuck) fun eaten => ?_
      cases eaten with
      | true => exact fact (fun _ _ no => no.1) False.elim
      | false => exact ifFalse (mono fails (fun _ _ here => here.2) fun _ _ _ done => done)
    refine (or known dangling).mono (fun _ _ here => ?_) fun _ _ _ done => done
    exact here.1.imp (fun known => ⟨known, here.2⟩) fun known => ⟨known, here.2⟩
  refine attempt (F := At d n r o.opened.settled) (Steps.eats rfl) (Keeps.eat dives.toGlides rfl) ?_ (close false)
  rw [Outline.settled_of inside.plain]
  exact close true

theorem nestedClass (sets : d.unicodeSets = true) (neutral : d.NeutralInside named) (depth : Nat) :
    ∀ {o : Outline}, o.Inside →
      Mirror d named (fun p q => At d n r o p ∧ Twin J E p q) (nestedClass depth) fun _ => Twin J E := by
  induction depth with
  | zero => exact fun _ => throw
  | succ depth ih =>
    intro o inside
    have escape : Keeps d named J E (RegExp.orRewind do if ← eat '\\' then classEscape else return none) :=
      .orRewind (.bind (eatAny dives rfl rfl) fun _ => .ite (Keeps.classEscape dives.toGlides) .pure)
    refine at' (fun _ _ here => here.2.same) fun start =>
      fact (fun _ _ here => here.2 ▸ here.1.2.offset) fun there => ?_
    refine mono (P := fun p q => At d n r o p ∧ Twin J E p q) ?_ (fun _ _ here => here.1) fun _ _ _ done => done
    refine attempt (F := At d n r o.opened) (Steps.eatsOpening inside.plain fun _ => sets)
      (eatAny dives rfl rfl) (ifTrue ?_)
      (forget (ifFalse escape))
    refine bind (bracketed dives (K := J) inside.plain neutral (fun _ => nestedClass_keeps sets depth inside.opened)
      (fun _ => ih inside.opened) (fun i there stands closes => ?_) (S := fun _ => Twin J E)
        (fun _ _ _ here => here) Keeps.pure)
      fun set => ?_
    · have after : d.before (i + 1) = o := by
        rw [Dialect.before_succ closes, stands, Outline.step_closing inside.plain]
      exact dives.closing there closes (after ▸ inside.within)
    · cases set with
      | some set => exact Keeps.pure
      | none => exact moveBack there escape

/-- A class, with a bound for the cursors before and after it and one for those inside. -/
theorem characterClass {L : Nat → Prop} (open' : o.escaped = false) (outside : o.classes = 0)
    (neutral : d.NeutralInside named)
    (opens : ∀ i, w i → L i → d.units[i]? = some '['.toNat → J (i + 1))
    (closes : ∀ i, J i → d.before i = o.opened → d.units[i]? = some ']'.toNat → L (i + 1)) (depth : Nat) :
    Mirror d named (fun p q => Here d n r o w p ∧ Twin L E p q) (characterClass depth) fun _ => Twin L E := by
  have opening : Mirror d named (fun p q => Here d n r o w p ∧ Twin L E p q) (RegExp.eat '[') fun eaten p q =>
      Either (At d n r o.opened) (Here d n r o w) eaten p ∧ Twin (fun j => bif eaten then J j else L j) E p q := by
    have steps : Steps d (Here d n r o w) (RegExp.eat '[') (Either (At d n r o.opened) (Here d n r o w)) :=
      Steps.eatsOpening open' fun within => by omega
    refine mono (along (eatTo (J := fun j => w j ∧ L j) (K := J) (E := E) rfl fun i there stands =>
      opens i there.1 there.2 stands) steps) (fun _ _ here =>
        ⟨here.1, here.2.same, ⟨here.1.offset, here.2.offset⟩, here.2.rest⟩)
      fun eaten _ _ here => ⟨here.1, here.2.mono fun j is => ?_⟩
    cases eaten with
    | true => exact is
    | false => exact is.2
  refine bind opening fun eaten => ?_
  cases eaten with
  | false => exact ifFalse (forget Keeps.pure)
  | true =>
    refine ifTrue (bind (bracketed dives (K := L) open' neutral (fun sets => ?_) (fun sets => ?_) closes
      (S := fun _ => Twin L E) (fun _ _ _ here => here) throw) fun _ => Keeps.pure)
    · exact nestedClass_keeps sets depth ⟨open', Nat.succ_pos _⟩
    · exact nestedClass dives sets neutral depth ⟨open', Nat.succ_pos _⟩

end Mirror

end RegExp
end ScriptSyntax
