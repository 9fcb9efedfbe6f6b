import ScriptSyntax.Proofs.RegExp.Steps

/-!
Escapes leave the outline alone: whatever an escape takes up, only its first code needs the backslash
to mean nothing, and none of the others means anything to the outline.
-/

namespace ScriptSyntax
namespace RegExp

variable {α : Type} {d : Dialect} [d.Narrow] {n : Nat} {r : Record} {o : Outline} {w : Nat → Prop}

/-- A match takes up the code that a backslash escapes, if one does, and plain codes. -/
def Tries (d : Dialect) (step : PatternM (Option α)) : Prop :=
  ∀ n r o w, Steps d (Here d n r o w) step fun a => Either (At d n r o.settled) (Here d n r o w) a.isSome

/-- So it does after a backslash. -/
def Escapes (d : Dialect) (step : PatternM (Option α)) : Prop :=
  ∀ n r o w, o.escaped = false → Steps d (Here d n r o.behind w) step fun a =>
    Either (At d n r o) (Here d n r o.behind w) a.isSome

omit [d.Narrow] in
theorem Tries.escapes {step : PatternM (Option α)} (tries : Tries d step) : Escapes d step := by
  intro n r o w open'
  have steps := tries n r o.behind w
  rwa [Outline.settled_behind, Outline.settled_of open'] at steps

omit [d.Narrow] in
theorem Tries.keeps {step : PatternM (Option α)} (tries : Tries d step) (open' : o.escaped = false) :
    Steps d (Here d n r o w) step fun _ => At d n r o := by
  refine (tries n r o w).weaken fun a p here => ?_
  rw [Outline.settled_of open'] at here
  cases a with
  | some a => exact here
  | none => exact here.at

/-! ### Characters -/

theorem plain_of_any {inClass : Char → Bool}
    (plain : (['\\', '[', ']', '(', ')', '|'].all fun c => !inClass c) = true) :
    Plain fun code => (scalar? code).any inClass := by
  intro c mem
  have other : inClass c = false := by simpa using List.all_eq_true.1 plain c mem
  have scalar : scalar? c.toNat = some c := by
    simp only [List.mem_cons, List.not_mem_nil, or_false] at mem
    rcases mem with rfl | rfl | rfl | rfl | rfl | rfl <;> rfl
  simp only [scalar, Option.any_some, other]

theorem plain_controlValue? : Plain fun code => (controlValue? code).isSome := by decide
theorem plain_isDigitCode : Plain isDigitCode := by decide
theorem plain_isOctalCode : Plain isOctalCode := by decide
theorem plain_isLetterCode : Plain isLetterCode := by decide
theorem plain_hexValue? : Plain fun code => (hexValue? code).isSome := by decide

theorem eatFixedHex_keeps (open' : o.escaped = false) (count : Nat) :
    Steps d (At d n r o) (eatFixedHex count) fun _ => At d n r o := by
  refine .position fun start spot => ?_
  suffices all : ∀ total, Steps d (At d n r o) (eatFixedHex.go start count total) fun _ => At d n r o from
    all 0
  induction count with
  | zero => exact fun total => .pure fun _ here => here
  | succ count ih =>
    intro total
    refine .peek fun code => ?_
    cases digit : code.bind hexValue? with
    | none => exact fun p here => ⟨spot, here.1.record⟩
    | some value =>
      obtain ⟨code, rfl, is⟩ := Option.bind_eq_some_iff.1 digit
      have plain : Outline.isMark code = false := plain_hexValue?.not_isMark (by simp [is])
      refine .bind (.advance_plain plain) fun _ => ?_
      rw [Outline.settled_of open']
      exact ih _

theorem controlEscape_tries : Tries d controlEscape := by
  intro n r o w
  refine .peek fun code => ?_
  cases known : code.bind controlValue? with
  | none => exact .pure fun _ here => here.1
  | some value =>
    obtain ⟨code, rfl, is⟩ := Option.bind_eq_some_iff.1 known
    have plain : Outline.isMark code = false := plain_controlValue?.not_isMark (by simp [is])
    exact .bind (.advance_plain plain) fun _ => .pure fun _ here => here

theorem controlLetterEscape_tries : Tries d controlLetterEscape := by
  intro n r o w
  refine .orRewind (.eat rfl ?_ (.pure fun _ here => here.record))
  refine .bind (.eatPlain plain_isLetterCode) fun code => .pure fun p here => ?_
  cases code with
  | none => exact here.record
  | some code => exact here

theorem zeroEscape_tries : Tries d zeroEscape := by
  intro n r o w
  refine .seesFacing (.peekSecond fun second => .ite (fun _ => ?_) fun _ => ?_)
    (.peekSecond fun second => .pure fun _ here => here.mono fun _ both => both.1)
  · exact .bind (.advance_plain (by decide)) fun _ => .pure fun _ here => here
  · exact .pure fun _ here => here.1

theorem hexEscape_tries : Tries d hexEscape := by
  intro n r o w
  refine .position fun start spot => .eat rfl ?_ (.pure fun _ here => here)
  refine .bind (eatFixedHex_keeps rfl 2) fun value => ?_
  cases value with
  | some value => exact .pure fun _ here => here
  | none =>
    refine .read (.ite (fun _ => (.throwing rfl)) fun _ => ?_)
    exact .bind (.moveTo spot) fun _ => .pure fun _ here => here

theorem lowSurrogateEscape_keeps (open' : o.escaped = false) :
    Steps d (At d n r o) lowSurrogateEscape fun _ => At d n r o := by
  refine (Steps.orRewind (J := At d n r o) (.eatEscaped rfl ?_ ?_ open')).weaken fun a p here => ?_
  · refine .lower (.bind (eatFixedHex_keeps open' 4) fun low => ?_)
    cases low with
    | none => exact .pure fun p here => here.record
    | some low =>
      refine .pure fun p here => ?_
      cases isLowSurrogate low
      · exact here.record
      · exact here
  · exact .pure fun p here => here.record
  · cases a <;> exact here

theorem eatHex_keeps (open' : o.escaped = false) : Steps d (At d n r o) eatHex fun _ => At d n r o := by
  refine .bind (.eatRun plain_hexValue? open') fun digits => ?_
  cases digits <;> exact .pure fun _ here => here

theorem eatDecimal_keeps (open' : o.escaped = false) :
    Steps d (At d n r o) eatDecimal fun _ => At d n r o := by
  refine .bind (.eatRun plain_isDigitCode open') fun digits => ?_
  cases digits <;> exact .pure fun _ here => here

theorem unicodeEscape_tries (joined : Bool) : Tries d (unicodeEscape joined) := by
  intro n r o w
  refine .position fun start spot => .read (.eat rfl ?_ (.pure fun _ here => here))
  refine .bind (eatFixedHex_keeps rfl 4) fun value => ?_
  cases value with
  | some value =>
    refine .ite (fun _ => .bind (lowSurrogateEscape_keeps rfl) fun low => ?_)
      fun _ => .pure fun _ here => here
    cases low <;> exact .pure fun _ here => here
  | none =>
    refine .ite (fun _ => .eat rfl (.bind (eatHex_keeps rfl) fun value => ?_) (.throwing rfl))
      fun _ => .bind (.moveTo spot) fun _ => .pure fun _ here => here
    cases value with
    | none => exact (.throwing rfl)
    | some value =>
      refine .eat rfl (?_ : Steps d _ (if value ≤ 0x10ffff then _ else _) _) (.throwing rfl)
      exact .ite (fun _ => .pure fun _ here => here) fun _ => (.throwing rfl)

theorem octalDigit_tries : Tries d octalDigit := by
  intro n r o w
  refine .bind (.eatPlain plain_isOctalCode) fun code => .pure fun _ here => ?_
  cases code <;> exact here

theorem octalEscape_tries : Tries d octalEscape := by
  intro n r o w
  refine .bind (octalDigit_tries n r o w) fun first => ?_
  cases first with
  | none => exact .pure fun _ here => here
  | some first =>
    refine .bind (octalDigit_tries.keeps rfl) fun second => ?_
    cases second with
    | none => exact .pure fun _ here => here
    | some second =>
      refine .ite (fun _ => .bind (octalDigit_tries.keeps rfl) fun third => ?_)
        fun _ => .pure fun _ here => here
      cases third <;> exact .pure fun _ here => here

/-- Only two letters cannot stand for themselves outside unicode mode. -/
def Dialect.Refuses (d : Dialect) (i : Nat) : Prop :=
  ∀ code, d.at? d.unicode i = some code → code = 'c'.toNat ∨ code = 'k'.toNat

/-- A backslash right before is no escape and stands for itself. -/
def Dialect.Dangles (d : Dialect) (i : Nat) : Prop := d.unicode = false ∧ d.Refuses i

theorem identityEscape_steps (open' : o.escaped = false) :
    Steps d (Here d n r o.behind w) identityEscape fun code =>
      Either (At d n r o) (Here d n r o.behind fun j => w j ∧ (d.unicode = false → d.Refuses j)) code.isSome := by
  have moves (code : Nat) : Steps d (Facing d n r o.behind w d.unicode (some code)) advance
      fun _ => At d n r o := by
    have settled : o.settled = o := Outline.settled_of open'
    exact settled ▸ Steps.advance_behind
  refine .read (.ite (fun unicode => ?_) fun _ => ?_)
  · refine (Steps.eatCode fun code _ => moves code).weaken fun code p here => ?_
    cases code with
    | some code => exact here
    | none => exact here.mono fun _ both => ⟨both.1, fun lenient => absurd unicode (by simp [lenient])⟩
  · refine (Steps.eatCode fun code _ => moves code).weaken fun code p here => ?_
    cases code with
    | some code => exact here
    | none =>
      refine here.mono fun _ both => ⟨both.1, fun _ code stands => ?_⟩
      have refused := both.2 code stands
      simp only [Bool.and_eq_false_iff, bne_eq_false_iff_eq, Bool.not_eq_false', Bool.and_eq_true,
        beq_iff_eq] at refused
      exact refused.imp id fun named => named.2

theorem characterEscape_steps (open' : o.escaped = false) :
    Steps d (Here d n r o.behind w) characterEscape fun code =>
      Either (At d n r o) (Here d n r o.behind fun j => w j ∧ (d.unicode = false → d.Refuses j)) code.isSome := by
  refine .read (?_ : Steps d _ (firstMatch ([controlEscape, controlLetterEscape, zeroEscape, hexEscape,
    unicodeEscape false, if d.unicode then return none else octalEscape] ++ [identityEscape])) _)
  refine Steps.firstMatch (fun step mem => ?_) (identityEscape_steps open')
  have escapes : Escapes d step := by
    simp only [List.mem_cons, List.not_mem_nil, or_false] at mem
    rcases mem with rfl | rfl | rfl | rfl | rfl | rfl
    · exact controlEscape_tries.escapes
    · exact controlLetterEscape_tries.escapes
    · exact zeroEscape_tries.escapes
    · exact hexEscape_tries.escapes
    · exact (unicodeEscape_tries false).escapes
    · split
      · exact fun _ _ _ _ _ => .pure fun _ here => here
      · exact octalEscape_tries.escapes
  exact escapes n r o w open'

/-! ### Classes -/

theorem eatPropertyName_keeps (open' : o.escaped = false) :
    Steps d (At d n r o) eatPropertyName fun _ => At d n r o :=
  .bind (.eatRun (plain_of_any (by decide)) open') fun _ => .pure fun _ here => here

theorem eatPropertyValue_keeps (open' : o.escaped = false) :
    Steps d (At d n r o) eatPropertyValue fun _ => At d n r o :=
  .bind (.eatRun (plain_of_any (by decide)) open') fun _ => .pure fun _ here => here

omit [d.Narrow] in
theorem checkPropertyValue_keeps (edition : Nat) (name value : String) :
    Steps d (At d n r o) (checkPropertyValue edition name value) fun _ => At d n r o := by
  have verdict (known : Bool) : Steps d (At d n r o)
      (unless known do throw (m := PatternM) .invalidPropertyValue) fun _ => At d n r o := by
    cases known with
    | true => exact .pure fun _ here => here
    | false => exact (.throw rfl)
  refine .ite (fun _ => .bind (.pure fun _ here => here) verdict) fun _ => ?_
  exact .ite (fun _ => .bind (.pure fun _ here => here) verdict) fun _ => (.throwing rfl)

omit [d.Narrow] in
theorem loneProperty_keeps (name : String) :
    Steps d (At d n r o) (loneProperty d name) fun _ => At d n r o :=
  .ite (fun _ => .pure fun _ here => here) fun _ =>
    .ite (fun _ => .pure fun _ here => here) fun _ => (.throw rfl)

theorem propertyExpression_keeps (open' : o.escaped = false) :
    Steps d (At d n r o) propertyExpression fun _ => At d n r o := by
  refine .read (.position fun start spot => .bind (eatPropertyName_keeps open') fun name => ?_)
  have alone : Steps d (At d n r o) (do
      moveTo start
      let name ← eatPropertyValue
      if name != "" then return some (← loneProperty d name) else return none) fun _ => At d n r o := by
    refine .bind (.moveTo spot) fun _ => .bind (eatPropertyValue_keeps open') fun name => ?_
    exact .ite (fun _ => .bind (loneProperty_keeps name) fun _ => .pure fun _ here => here)
      fun _ => .pure fun _ here => here
  refine .ite (fun _ => .eat rfl ?_ alone) fun _ => alone
  rw [Outline.settled_of open']
  refine .bind (eatPropertyValue_keeps open') fun value => .ite (fun _ => ?_) fun _ => alone
  exact .bind (checkPropertyValue_keeps _ _ _) fun _ => .pure fun _ here => here

theorem classEscape_tries : Tries d classEscape := by
  intro n r o w
  refine .read ?_
  refine .bind (.eatPlain (by decide)) fun simple => ?_
  cases simple with
  | some simple => exact .pure fun _ here => here
  | none =>
    simp only [Option.isSome_none, Bool.false_eq_true, if_false]
    refine .ite (fun _ => .bind (.eatPlain (by decide)) fun letter => ?_)
      fun _ => .pure fun _ here => here
    cases letter with
    | none => exact .pure fun _ here => here
    | some letter =>
      refine .eat rfl (.bind (propertyExpression_keeps rfl) fun set => ?_) (.throwing rfl)
      cases set with
      | none => exact (.throwing rfl)
      | some set =>
        refine .eat rfl ?_ (.throwing rfl)
        exact .ite (fun _ => .ite (fun _ => (.throwing rfl)) fun _ => .pure fun _ here => here)
          fun _ => (.throwing rfl)

/-! ### Names of groups -/

theorem plain_belongsToName (atStart : Bool) :
    Plain fun code => (scalar? code).any (belongsToName atStart) := by
  cases atStart <;> exact plain_of_any (by decide)

/-- Whatever stands there, the outline is as it was if the code is no mark. -/
theorem nameCode_steps (open' : o.escaped = false) (joined : Bool) :
    Steps d (At d n r o) (nameCode joined) fun code p => p.record = r ∧
      ∀ unit, code = some unit → Outline.isMark unit = false → At d n r o p := by
  refine .peekJoined fun plain => ?_
  cases plain with
  | none => exact fun p here => ⟨here.1.record, fun _ same => by cases same⟩
  | some unit =>
    by_cases slash : unit = '\\'.toNat
    · subst slash
      refine .bind (.advanceJoined_backslash open') fun _ => ?_
      rw [if_pos (beq_self_eq_true _)]
      refine .bind (unicodeEscape_tries joined n r o.behind _) fun value => ?_
      rw [Outline.settled_behind, Outline.settled_of open']
      cases value with
      | some value => exact .pure fun p here => ⟨here.record, fun _ _ _ => here⟩
      | none =>
        refine .pure fun p here => ⟨here.record, fun _ same plain => ?_⟩
        cases same
        exact absurd plain (by decide)
    · refine .bind (R := fun _ p => p.record = r ∧ (Outline.isMark unit = false → At d n r o p)) ?_
        fun _ => ?_
      · cases mark : Outline.isMark unit with
        | true => exact fun p here => ⟨here.1.record, fun no => by cases no⟩
        | false =>
          refine (Steps.advanceJoined_plain mark).weaken fun _ p here => ⟨here.record, fun _ => ?_⟩
          rwa [Outline.settled_of open'] at here
      · rw [if_neg (by simpa using slash)]
        exact .pure fun p here => ⟨here.1, fun _ same plain => by cases same; exact here.2 plain⟩

theorem nameCharacter_keeps (open' : o.escaped = false) (atStart : Bool) :
    Steps d (At d n r o) (nameCharacter atStart) fun _ => At d n r o := by
  have steps : Steps d (At d n r o) (nameCharacter atStart) fun c =>
      Either (At d n r o) (At d n r o) c.isSome := by
    refine .orRewind (.read (.bind (nameCode_steps open' _) fun code => .pure fun p here => ?_))
    cases found : (code.bind scalar?).filter (belongsToName atStart) with
    | none => exact here.1
    | some c =>
      obtain ⟨scalar, is⟩ := Option.filter_eq_some_iff.1 found
      obtain ⟨unit, rfl, known⟩ := Option.bind_eq_some_iff.1 scalar
      exact here.2 unit rfl ((plain_belongsToName atStart).not_isMark (by rw [known]; exact is))
  refine steps.weaken fun c p here => ?_
  cases c <;> exact here

theorem nameRest_keeps (open' : o.escaped = false) (fuel : Nat) :
    Steps d (At d n r o) (nameRest fuel) fun _ => At d n r o := by
  induction fuel with
  | zero => exact .pure fun _ here => here
  | succ fuel ih =>
    refine .bind (nameCharacter_keeps open' false) fun c => ?_
    cases c with
    | none => exact .pure fun _ here => here
    | some c => exact .bind ih fun _ => .pure fun _ here => here

theorem identifierName_keeps (open' : o.escaped = false) :
    Steps d (At d n r o) identifierName fun _ => At d n r o := by
  refine .bind (nameCharacter_keeps open' true) fun c => ?_
  cases c with
  | none => exact .pure fun _ here => here
  | some c => exact .read (.bind (nameRest_keeps open' _) fun _ => .pure fun _ here => here)

theorem groupName_keeps (open' : o.escaped = false) :
    Steps d (At d n r o) groupName fun _ => At d n r o := by
  refine .eat rfl ?_ (.pure fun _ here => here)
  rw [Outline.settled_of open']
  refine .bind (identifierName_keeps open') fun name => ?_
  cases name with
  | none => exact (.throw rfl)
  | some name =>
    refine .eat rfl (.pure fun _ here => ?_) (.throw rfl)
    rwa [Outline.settled_of open'] at here

/-! ### References -/

theorem numberedReference_escapes (open' : o.escaped = false) :
    Steps d (Here d n r o.behind w) numberedReference (Either (At d n r o) (Here d n r o.behind w)) := by
  refine .position fun start spot => .peek fun code => ?_
  refine .ite (fun digit => ?_) fun _ => .pure fun _ here => here.1
  obtain ⟨code, rfl, is⟩ : ∃ code', code = some code' ∧
      (isDigitCode code' && code' != '0'.toNat) = true := by
    cases code with
    | none => simp at digit
    | some code => exact ⟨code, rfl, digit⟩
  have digits : Steps d (Facing d n r o.behind w d.unicode (some code)) eatDecimal fun number p =>
      number.isSome = true ∧ At d n r o p := by
    refine .bind (.eatRun_behind plain_isDigitCode (Bool.and_eq_true _ _ ▸ is).1) fun digits => ?_
    rw [Outline.settled_of open']
    cases digits with
    | nil => exact fun p here => absurd rfl here.1
    | cons digit digits => exact .pure fun _ here => ⟨rfl, here.2⟩
  refine .bind digits fun number => ?_
  cases number with
  | none => exact fun p here => absurd here.1 (by simp)
  | some number =>
    refine .read (.ite (fun _ => ?_) fun _ => ?_)
    · refine .bind (R := fun _ => At d n r o) (.modify fun _ here => ?_) fun _ => .pure fun _ here => here
      exact ⟨here.2.toSpot, here.2.record⟩
    · refine .look fun p => .ite (fun _ => .pure fun _ here => here.2) fun _ => ?_
      exact fun p here => ⟨spot, here.2.record⟩

theorem namedReference_escapes (open' : o.escaped = false) :
    Steps d (Here d n r o.behind w) namedReference (Either (At d n r o) (Here d n r o.behind w)) := by
  refine .eat rfl ?_ (.pure fun _ here => here)
  rw [Outline.settled_behind, Outline.settled_of open']
  refine .bind (groupName_keeps open') fun name => ?_
  cases name with
  | none => exact (.throw rfl)
  | some name =>
    refine .bind (R := fun _ => At d n r o) (.modify fun _ here => ?_) fun _ => .pure fun _ here => here
    exact ⟨here.toSpot, here.record⟩

theorem atomEscape_steps (open' : o.escaped = false) :
    Steps d (Here d n r o.behind w) atomEscape
      (Either (At d n r o) (Here d n r o.behind fun j => w j ∧ d.Dangles j)) := by
  refine .read (.bind (R := Either (At d n r o)
    (Here d n r o.behind fun j => w j ∧ (d.unicode = false → d.Refuses j))) ?_ fun matched => ?_)
  · refine .anyMatch_cons (numberedReference_escapes open') ?_
    refine .anyMatch_cons (.bind (classEscape_tries.escapes n r o w open') fun _ =>
      .pure fun _ here => here) ?_
    refine .anyMatch_cons (.bind (characterEscape_steps open') fun _ => .pure fun _ here => here) ?_
    refine .anyMatch_cons (.ite (fun _ => ?_) fun _ => .pure fun _ here => here)
      (.pure fun _ here => here)
    exact namedReference_escapes open'
  · refine .ite (fun _ => .sees fun seen => .ite (fun _ => (.throwing rfl)) fun _ => (.throwing rfl)) fun forgiven => ?_
    cases matched with
    | true => exact .pure fun _ here => here
    | false =>
      have lenient : d.unicode = false := by simpa using forgiven
      exact .pure fun _ here => here.mono fun _ both => ⟨both.1, lenient, both.2 lenient⟩

/-- Where no escape matches, the backslash stands for itself. -/
theorem escapedAtom_steps (open' : o.escaped = false) :
    Steps d (Here d n r o w) escapedAtom (Either (At d (n + 1) r o) (Here d n r o fun j => w j ∧
      (d.at? d.unicode j = some '\\'.toNat → d.Dangles (j + 1)))) := by
  refine .positionAt fun start spot =>
    .eatOver rfl (fun _ _ => Outline.step_backslash open') ?_ (.pure fun p here => ?_)
  · refine .bind (atomEscape_steps open') fun matched => ?_
    cases matched with
    | true => exact .pure fun _ here => here
    | false =>
      intro p here
      obtain ⟨⟨i, rfl, -, after⟩, dangles⟩ := here.offset
      exact ⟨⟨spot.outline, spot.bound, spot.offset, fun _ => after ▸ dangles⟩, here.record⟩
  · exact here.mono fun _ both => ⟨both.1 ▸ spot.offset, fun stands => absurd stands both.2⟩

end RegExp
end ScriptSyntax
