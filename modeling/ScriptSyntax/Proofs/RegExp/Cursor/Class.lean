import ScriptSyntax.Proofs.RegExp.Cursor.Steer

/-!
Escapes, names and character classes look for a match, and many go back from well behind where they began.  Ranges and
set expressions are loops whose rounds look for one, and classes nest.
-/

namespace ScriptSyntax
namespace RegExp

variable {d : Dialect} [d.Narrow] {i : Nat}

/-! ### Escaped characters -/

theorem controlEscape_probes : Probes d controlEscape Option.isSome := by
  intro i within
  refine .peek (.pure fun _ here => here) fun code inside => ?_
  rw [Option.bind_some]
  cases controlValue? code with
  | none => exact .pure fun _ here => here
  | some value => exact .advance inside (.pure fun _ past => past)

theorem controlLetterEscape_probes : Probes d controlLetterEscape Option.isSome := by
  refine .orRewind fun i within => .probeIf (eat_probes 'c') within ?_ (.pure fun _ _ none => by cases none)
  exact .bind (eatCode_probes isLetterCode).proceeds.past fun letter => .pure fun _ past _ => past

theorem zeroEscape_probes : Probes d zeroEscape Option.isSome := by
  intro i within
  refine .sees fun seen inside => .peekSecond fun second => .ite (fun zero => ?_) fun _ => .pure fun _ here => here
  exact .advance (inside (Bool.and_eq_true_iff.1 zero).1) (.pure fun _ past => past)

theorem hexEscape_probes : Probes d hexEscape Option.isSome := by
  intro i within
  refine .position (.probeIf (eat_probes 'x') within ?_ (.pure fun _ here => here))
  refine .bind (eatFixedHex_probes 1).proceeds.past fun value => ?_
  cases value with
  | some value => exact .pure fun _ past => past
  | none =>
    refine .read (.ite (fun _ => .throwing) fun _ => ?_)
    exact .back within (.pure fun _ here => here)

theorem lowSurrogateEscape_probes : Probes d lowSurrogateEscape Option.isSome := by
  refine .orRewind fun i within => .probeIf (eatPair_probes '\\' 'u') within ?_ (.pure fun _ _ none => by cases none)
  refine .bind (eatFixedHex_probes 3).proceeds.past fun low => ?_
  cases low <;> exact .pure fun _ past _ => past

theorem unicodeEscape_probes (joined : Bool) : Probes d (unicodeEscape joined) Option.isSome := by
  intro i within
  refine .position (.read (.probeIf (eat_probes 'u') within ?_ (.pure fun _ here => here)))
  refine .bind (eatFixedHex_probes 3).proceeds.past fun value => ?_
  cases value with
  | some value =>
    refine .ite (fun _ => .bind lowSurrogateEscape_probes.proceeds.past fun low => ?_) fun _ => .pure fun _ past => past
    cases low <;> exact .pure fun _ past => past
  | none =>
    refine .ite (fun _ => ?_) fun _ => .back within (.pure fun _ here => here)
    -- Braces hold a number that is small enough, or the escape is refused.
    refine .bind (eat_probes '{').proceeds.past fun opened => .ite (fun _ => ?_) fun _ => .throwing
    refine .bind eatHex_probes.proceeds.past fun value => ?_
    cases value with
    | none => exact .throwing
    | some value =>
      refine .bind (eat_probes '}').proceeds.past fun closed => .ite (fun _ => ?_) fun _ => .throwing
      exact .ite (fun _ => .pure fun _ past => past) fun _ => .throwing

theorem octalDigit_probes : Probes d octalDigit Option.isSome :=
  .map (eatCode_probes isOctalCode) fun code => by cases code <;> rfl

theorem octalEscape_probes : Probes d octalEscape Option.isSome := by
  intro i within
  refine .probeSome octalDigit_probes within (fun first => ?_) (.pure fun _ here => here)
  refine .bind octalDigit_probes.proceeds.past fun second => ?_
  cases second with
  | none => exact .pure fun _ past => past
  | some second =>
    refine .ite (fun _ => .bind octalDigit_probes.proceeds.past fun third => ?_) fun _ => .pure fun _ past => past
    cases third <;> exact .pure fun _ past => past

theorem identityEscape_probes : Probes d identityEscape Option.isSome :=
  fun i within => .read (.ite (fun _ => eatCode_probes _ i within) fun _ => eatCode_probes _ i within)

theorem characterEscape_probes : Probes d characterEscape Option.isSome := by
  refine fun i within => .read (Probes.firstMatch (fun step mem => ?_) i within)
  simp only [List.mem_cons, List.not_mem_nil, or_false] at mem
  rcases mem with rfl | rfl | rfl | rfl | rfl | rfl | rfl
  · exact controlEscape_probes
  · exact controlLetterEscape_probes
  · exact zeroEscape_probes
  · exact hexEscape_probes
  · exact unicodeEscape_probes false
  · exact .ite (fun _ => .missed rfl) fun _ => octalEscape_probes
  · exact identityEscape_probes

/-! ### Escaped classes -/

omit [d.Narrow] in
/-- A run of characters has a text, if it is one of any. -/
theorem textOf_run (inClass : Char → Bool) (fuel : Nat) :
    (textOf (d.run (fun code => (scalar? code).any inClass) (fuel + 1) i).1 != "") =
      !(d.run (fun code => (scalar? code).any inClass) (fuel + 1) i).1.isEmpty := by
  cases stands : d.at? d.unicode i with
  | none => simp only [Dialect.run, stands]; rfl
  | some code =>
    cases scalar : scalar? code with
    | none => simp only [Dialect.run, stands, scalar, Option.any_none]; rfl
    | some c =>
      cases is : inClass c with
      | false => simp only [Dialect.run, stands, scalar, Option.any_some, is]; rfl
      | true => simp [Dialect.run, stands, scalar, is, textOf]

theorem textRun_probes (inClass : Char → Bool) :
    Probes d (do return textOf (← eatRun fun code => (scalar? code).any inClass)) (· != "") := by
  rintro i - p within rfl
  obtain ⟨inside, moved⟩ :=
    Dialect.run_moved (fun code => (scalar? code).any inClass) (d.units.size + 1) within
  refine ⟨inside, ?_⟩
  rw [← textOf_run] at moved
  exact moved

theorem eatPropertyName_probes : Probes d eatPropertyName (· != "") := textRun_probes _

theorem eatPropertyValue_probes : Probes d eatPropertyValue (· != "") := textRun_probes _

omit [d.Narrow] in
theorem checkPropertyValue_proceeds (edition : Nat) (name value : String) :
    Proceeds d (checkPropertyValue edition name value) := by
  have verdict (known : Bool) : Proceeds d (unless known do throw (m := PatternM) .invalidPropertyValue) := by
    cases known with
    | true => exact .pure
    | false => exact .throw
  exact .ite (fun _ => .bind .pure verdict) fun _ => .ite (fun _ => .bind .pure verdict) fun _ => .throwing

omit [d.Narrow] in
theorem loneProperty_proceeds (name : String) : Proceeds d (loneProperty d name) :=
  .ite (fun _ => .pure) fun _ => .ite (fun _ => .pure) fun _ => .throw

theorem propertyExpression_probes : Probes d propertyExpression Option.isSome := by
  intro i within
  have alone : ∀ {P : Nat → Prop}, Steers d P (do
      moveTo i
      let name ← eatPropertyValue
      if name != "" then return some (← loneProperty d name) else return none)
      fun set => Moved i (Option.isSome set) := by
    refine .back within (.probe eatPropertyValue_probes within (fun name some => ?_) fun name none => ?_)
    · exact .ite (fun _ => .bind (loneProperty_proceeds name).past fun set => .pure fun _ past => past)
        fun none => absurd some none
    · exact .ite (fun some => by cases none.symm.trans some) fun _ => .pure fun _ here => here
  refine .read (.position (.probe eatPropertyName_probes within (fun name some => ?_) fun name none => ?_))
  · refine .ite (fun _ => ?_) fun none => absurd some none
    refine .bind (eat_probes '=').proceeds.past fun equals => .ite (fun _ => ?_) fun _ => alone
    refine .bind eatPropertyValue_probes.proceeds.past fun value => .ite (fun _ => ?_) fun _ => alone
    exact .bind (checkPropertyValue_proceeds d.edition name value).past fun _ => .pure fun _ past => past
  · exact .ite (fun some => by cases none.symm.trans some) fun _ => alone

theorem classEscape_probes : Probes d classEscape Option.isSome := by
  intro i within
  refine .read (.probe (eatCode_probes _) within (fun simple is => ?_) fun simple none => ?_)
  · exact .ite (fun _ => .pure fun _ past => past) fun none => absurd is none
  · refine .ite (fun is => by cases none.symm.trans is) fun _ => .ite (fun _ => ?_) fun _ => .pure fun _ here => here
    refine .probeSome (eatCode_probes _) within (fun letter => ?_) (.pure fun _ here => here)
    refine .bind (eat_probes '{').proceeds.past fun opened => .ite (fun _ => ?_) fun _ => .throwing
    refine .bind propertyExpression_probes.proceeds.past fun set => ?_
    cases set with
    | none => exact .throwing
    | some set =>
      refine .bind (eat_probes '}').proceeds.past fun closed => .ite (fun _ => ?_) fun _ => .throwing
      exact .ite (fun _ => .throwing) fun _ => .pure fun _ past => past

/-! ### Names of groups -/

/-- There is a code only where the cursor is not at the end. -/
theorem nameCode_steers (joined : Bool) :
    Steers d (· = i) (nameCode joined) fun code j => code.isSome = true → i < j := by
  refine .peek ?_ fun unit inside => .advance inside (.ite (fun _ => ?_) fun _ => .pure fun _ past _ => past)
  · exact .bind (advanceJoined_proceeds joined).onwards fun _ => .pure fun _ _ none => by cases none
  · refine .bind (unicodeEscape_probes joined).proceeds.past fun value => ?_
    cases value <;> exact .pure fun _ past _ => past

theorem nameCharacter_probes (atStart : Bool) : Probes d (nameCharacter atStart) Option.isSome := by
  refine .orRewind fun i within => .read (.bind (nameCode_steers _) fun code => .pure fun j past found => ?_)
  obtain ⟨c, known⟩ := Option.isSome_iff_exists.1 found
  obtain ⟨unit, rfl, -⟩ := Option.bind_eq_some_iff.1 (Option.filter_eq_some_iff.1 known).1
  exact past rfl

/-- One more character of a name. -/
def nameRound (name : List Char) : PatternM (Option (List Char)) :=
  return (← nameCharacter false).map fun c => name ++ [c]

theorem nameRest_eq (bound : Nat) (name : List Char) :
    (do return name ++ (← nameRest bound)) = repeated nameRound bound name := by
  induction bound generalizing name with
  | zero => exact congrArg (pure (f := PatternM)) (List.append_nil name)
  | succ bound ih =>
    rw [nameRest, repeated, nameRound]
    simp only [bind_assoc, pure_bind]
    refine bind_congr fun c => ?_
    cases c with
    | none => exact (pure_bind _ _).trans (congrArg pure (List.append_nil name))
    | some c =>
      simp only [Option.map_some, bind_assoc, pure_bind]
      rw [← ih (name ++ [c])]
      exact bind_congr fun rest => congrArg pure (List.append_cons name c rest)

theorem nameRound_probes (name : List Char) : Probes d (nameRound name) Option.isSome :=
  .map (nameCharacter_probes false) fun c => by cases c <;> rfl

theorem nameRest_proceeds (bound : Nat) : Proceeds d (nameRest bound) := by
  have same : nameRest bound = repeated nameRound bound [] := by
    rw [← nameRest_eq]
    exact (bind_pure (nameRest bound)).symm
  exact same ▸ repeated_proceeds nameRound_probes bound []

theorem identifierName_probes : Probes d identifierName Option.isSome := by
  intro i within
  refine .probeSome (nameCharacter_probes true) within (fun c => .read ?_) (.pure fun _ here => here)
  exact .bind (nameRest_proceeds _).past fun rest => .pure fun _ past => past

theorem groupName_probes : Probes d groupName Option.isSome := by
  intro i within
  refine .probeIf (eat_probes '<') within ?_ (.pure fun _ here => here)
  refine .bind identifierName_probes.proceeds.past fun name => ?_
  cases name with
  | none => exact .throw
  | some name =>
    refine .bind (eat_probes '>').proceeds.past fun closed => ?_
    exact .ite (fun _ => .pure fun _ past => past) fun _ => .throw

/-! ### References -/

/-- The number of a reference, which does not begin with a zero. -/
def referenceNumber : PatternM (Option Nat) := do
  if (← peek).any fun code => isDigitCode code && code != '0'.toNat then eatDecimal else return none

theorem referenceNumber_probes : Probes d referenceNumber Option.isSome := by
  intro i within
  refine .peek (.pure fun _ here => here) fun code inside => ?_
  exact .ite (fun _ => eatDecimal_probes i within) fun _ => .pure fun _ here => here

theorem numberedReference_eq : numberedReference = (do
    let start ← position
    if let some number ← referenceNumber then
      if (← read).unicode then
        modify fun p => { p with maxReference := max p.maxReference number }
        return true
      if number ≤ (← get).groups then return true
      moveTo start
    return false : PatternM Bool) := by
  unfold numberedReference referenceNumber
  simp only [bind_assoc]
  refine bind_congr fun start => bind_congr fun code => ?_
  split
  · rfl
  · exact (pure_bind _ _).symm

theorem numberedReference_probes : Probes d numberedReference id := by
  intro i within
  rw [numberedReference_eq]
  refine .position (.probeSome referenceNumber_probes within (fun number => ?_) (.pure fun _ here => here))
  refine .read (.ite (fun _ => ?_) fun _ => .look fun p => .ite (fun _ => .pure fun _ past => past) fun _ => ?_)
  · exact .bind (Proceeds.note fun _ => rfl).past fun _ => .pure fun _ past => past
  · exact .back within (.pure fun _ here => here)

theorem namedReference_probes : Probes d namedReference id := by
  intro i within
  refine .probeIf (eat_probes 'k') within ?_ (.pure fun _ here => here)
  refine .bind groupName_probes.proceeds.past fun name => ?_
  cases name with
  | none => exact .throw
  | some name =>
    exact .bind (Proceeds.note fun _ => rfl).past fun _ => .pure fun _ past => past

theorem atomEscape_probes : Probes d atomEscape id := by
  intro i within
  refine .read (.probeIf (.anyMatch fun step mem => ?_) within (.pure fun _ past => past) ?_)
  · simp only [List.mem_cons, List.not_mem_nil, or_false] at mem
    rcases mem with rfl | rfl | rfl | rfl
    · exact numberedReference_probes
    · exact .map classEscape_probes fun _ => rfl
    · exact .map characterEscape_probes fun _ => rfl
    · exact .ite (fun _ => namedReference_probes) fun _ => .missed rfl
  · refine .ite (fun _ => ?_) fun _ => .pure fun _ here => here
    exact .sees fun _ _ => .ite (fun _ => .throwing) fun _ => .throwing

theorem escapedAtom_probes : Probes d escapedAtom id := by
  intro i within
  refine .position (.probeIf (eat_probes '\\') within ?_ (.pure fun _ here => here))
  refine .bind atomEscape_probes.proceeds.past fun matched => ?_
  cases matched with
  | true => exact .pure fun _ past => past
  | false => exact .back within (.pure fun _ here => here)

/-! ### Plain classes -/

/-- Outside unicode mode more stands for a control character. -/
theorem classControl_probes : Probes d (orRewind do
    if ← eat 'c' then eatCode fun code => isDigitCode code || code == '_'.toNat else return none) Option.isSome := by
  refine .orRewind fun i within => .probeIf (eat_probes 'c') within ?_ (.pure fun _ _ none => by cases none)
  exact (eatCode_probes _).proceeds.past.weaken fun _ _ past _ => past

theorem escapedClassAtom_probes : Probes d escapedClassAtom Option.isSome := by
  intro i within
  have escape : Steers d (· = i) (do
      if (← classEscape).isSome then return some none
      return (← characterEscape).map some : PatternM (Option ClassAtom)) fun atom => Moved i atom.isSome := by
    refine .probeSome classEscape_probes within (fun set => .pure fun _ past => past) ?_
    exact Probes.map characterEscape_probes (fun code => by cases code <;> rfl) i within
  refine .read (.probeIf (eat_probes 'b') within (.pure fun _ past => past) ?_)
  refine .ite (fun is => by cases is) fun _ => .ite (fun _ => ?_) fun _ => ?_
  · exact .probeIf (eat_probes '-') within (.pure fun _ past => past) escape
  · exact .probeSome classControl_probes within (fun code => .pure fun _ past => past) escape

theorem classAtom_probes : Probes d classAtom Option.isSome := by
  intro i within
  have code : Steers d (· = i) (do return (← eatCode fun code => code != ']'.toNat).map some : PatternM
      (Option ClassAtom))
      fun atom => Moved i atom.isSome :=
    Probes.map (eatCode_probes _) (fun code => by cases code <;> rfl) i within
  refine .position (.probeIf (eat_probes '\\') within ?_ code)
  refine .bind escapedClassAtom_probes.proceeds.past fun atom => ?_
  cases atom with
  | some atom => exact .pure fun _ past => past
  | none =>
    refine .read (.ite (fun _ => ?_) fun _ => .back within code)
    refine .each fun j _ => .peek ?_ fun next _ => ?_
    · exact .ite (fun _ => .throwing) fun _ => .throwing
    · exact .ite (fun _ => .throwing) fun _ => .throwing

theorem classRange_probes : Probes d classRange id := by
  intro i within
  refine .probeSome classAtom_probes within (fun left => ?_) (.pure fun _ here => here)
  refine .bind (eat_probes '-').proceeds.past fun hyphen => .ite (fun _ => ?_) fun _ => .pure fun _ past => past
  refine .bind classAtom_probes.proceeds.past fun right => ?_
  cases right with
  | none => exact .pure fun _ past => past
  | some right =>
    refine .read (.ite (fun _ => .throwing) fun _ => ?_)
    cases left with
    | none => exact .pure fun _ past => past
    | some left =>
      cases right with
      | none => exact .pure fun _ past => past
      | some right => exact .ite (fun _ => .throwing) fun _ => .pure fun _ past => past

/-! ### Set expressions -/

theorem setCharacter_probes : Probes d setCharacter Option.isSome := by
  intro i within
  refine .position (.probeIf (eat_probes '\\') within ?_ ?_)
  · refine .bind characterEscape_probes.proceeds.past fun code => ?_
    cases code with
    | some code => exact .pure fun _ past => past
    | none =>
      refine .bind (eatCode_probes isReservedPunctuator).proceeds.past fun code => ?_
      cases code with
      | some code => exact .pure fun _ past => past
      | none =>
        refine .bind (eat_probes 'b').proceeds.past fun backspace =>
          .ite (fun _ => .pure fun _ past => past) fun _ => ?_
        exact .back within (.pure fun _ here => here)
  · refine .peek (.pure fun _ here => here) fun code inside => .peekSecond fun second => ?_
    refine .ite (fun _ => .pure fun _ here => here) fun _ => .ite (fun _ => .pure fun _ here => here) fun _ => ?_
    exact .advance inside (.pure fun _ past => past)

theorem setRange_probes : Probes d setRange id := by
  intro i within
  have back {P : Nat → Prop} : Steers d P (do moveTo i; return false) (Moved i) :=
    .back within (.pure fun _ here => here)
  refine .position (.probeSome setCharacter_probes within (fun left => ?_) (.pure fun _ here => here))
  refine .bind (eat_probes '-').proceeds.past fun hyphen => .ite (fun _ => ?_) fun _ => back
  refine .bind setCharacter_probes.proceeds.past fun right => ?_
  cases right with
  | none => exact back
  | some right => exact .ite (fun _ => .throwing) fun _ => .pure fun _ past => past

/-- One more character of a string. -/
def stringRound (length : Nat) : PatternM (Option Nat) :=
  return (← setCharacter).map fun _ => length + 1

theorem stringRound_probes (length : Nat) : Probes d (stringRound length) Option.isSome :=
  .map setCharacter_probes fun code => by cases code <;> rfl

theorem count_eq (bound length : Nat) :
    (do return length + (← setString.count bound)) = repeated stringRound bound length := by
  induction bound generalizing length with
  | zero => rfl
  | succ bound ih =>
    rw [setString.count, repeated, stringRound]
    simp only [bind_assoc, pure_bind]
    refine bind_congr fun code => ?_
    cases code with
    | none => exact pure_bind _ _
    | some code =>
      simp only [Option.isSome_some, if_true, Option.map_some, bind_assoc, pure_bind]
      rw [← ih (length + 1)]
      exact bind_congr fun rest => congrArg pure (by omega)

theorem setString_proceeds : Proceeds d setString := by
  have same (bound : Nat) : setString.count bound = repeated stringRound bound 0 := by
    rw [← count_eq]
    simp only [Nat.zero_add, bind_pure]
  refine .read (.bind ?_ fun _ => .pure)
  exact same _ ▸ repeated_proceeds stringRound_probes _ 0

/-- One more string of a disjunction. -/
def stringsRound (set : CharSet) : PatternM (Option CharSet) := do
  if ← eat '|' then
    match ← setString with
    | .strings => return some .strings
    | .characters => return some set
  else return none

theorem stringsRound_probes (set : CharSet) : Probes d (stringsRound set) Option.isSome := by
  intro i within
  refine .probeIf (eat_probes '|') within ?_ (.pure fun _ here => here)
  refine .bind setString_proceeds.past fun string => ?_
  cases string <;> exact .pure fun _ past => past

theorem setStrings_eq (bound : Nat) (set : CharSet) : setStrings set bound = repeated stringsRound bound set := by
  induction bound generalizing set with
  | zero => rfl
  | succ bound ih =>
    rw [setStrings, repeated, stringsRound]
    simp only [bind_assoc]
    refine bind_congr fun bar => ?_
    cases bar with
    | false => rfl
    | true =>
      simp only [if_true, bind_assoc]
      refine bind_congr fun string => ?_
      cases string with
      | strings => exact ih .strings
      | characters => exact ih set

theorem stringDisjunction_probes : Probes d stringDisjunction Option.isSome := by
  intro i within
  refine .position (.probeIf (eatPair_probes '\\' 'q') within ?_ (.pure fun _ here => here))
  refine .bind (eat_probes '{').proceeds.past fun opened => .ite (fun _ => ?_) fun _ => .throwing
  refine .bind setString_proceeds.past fun string => .read (.bind (R := fun _ => (i < ·)) ?_ fun set => ?_)
  · exact setStrings_eq _ _ ▸ (repeated_proceeds stringsRound_probes _ _).past
  · refine .bind (eat_probes '}').proceeds.past fun closed => .ite (fun _ => .pure fun _ past => past) fun _ => ?_
    exact .back within (.pure fun _ here => here)

/-! ### Operands and operators -/

section

variable {nested : PatternM (Option CharSet)}

/-- One more operand of an intersection. -/
def intersectionRound (nested : PatternM (Option CharSet)) (set : CharSet) : PatternM (Option CharSet) := do
  if ← eatPair '&' '&' then
    if !(← sees '&') then
      if let some operand ← setOperand nested then
        return some (if operand = .strings then set else .characters)
    throw .invalidClassCharacter
  else return none

/-- One more operand that is taken away. -/
def subtractionRound (nested : PatternM (Option CharSet)) (_ : Unit) : PatternM (Option Unit) := do
  if ← eatPair '-' '-' then
    if (← setOperand nested).isNone then throw .invalidClassCharacter
    return some ()
  else return none

/-- One more member of a union. -/
def unionRound (nested : PatternM (Option CharSet)) (set : CharSet) : PatternM (Option CharSet) := do
  if ← setRange then return some set
  else
    match ← setOperand nested with
    | none => return none
    | some .strings => return some .strings
    | some .characters => return some set

theorem intersection_eq (bound : Nat) (set : CharSet) :
    intersection nested set bound = repeated (intersectionRound nested) bound set := by
  induction bound generalizing set with
  | zero => rfl
  | succ bound ih =>
    rw [intersection, repeated, intersectionRound]
    simp only [bind_assoc]
    refine bind_congr fun both => ?_
    cases both with
    | false => rfl
    | true =>
      simp only [if_true, bind_assoc]
      refine bind_congr fun third => ?_
      cases third with
      | true => rfl
      | false =>
        simp only [Bool.not_false, if_true, bind_assoc]
        refine bind_congr fun operand => ?_
        cases operand with
        | none => rfl
        | some operand => exact ih _

theorem subtraction_eq (nested : PatternM (Option CharSet)) (bound : Nat) :
    subtraction nested bound = repeated (subtractionRound nested) bound () := by
  induction bound with
  | zero => rfl
  | succ bound ih =>
    rw [subtraction, repeated, subtractionRound]
    simp only [bind_assoc]
    refine bind_congr fun both => ?_
    cases both with
    | false => rfl
    | true =>
      simp only [if_true, bind_assoc]
      refine bind_congr fun operand => ?_
      cases operand with
      | none => rfl
      | some operand => exact ih

theorem union_eq (bound : Nat) (set : CharSet) : union nested set bound = repeated (unionRound nested) bound set := by
  induction bound generalizing set with
  | zero => rfl
  | succ bound ih =>
    rw [union, repeated, unionRound]
    simp only [bind_assoc]
    refine bind_congr fun range => ?_
    cases range with
    | true => exact ih set
    | false =>
      simp only [Bool.false_eq_true, if_false, bind_assoc]
      refine bind_congr fun operand => ?_
      cases operand with
      | none => rfl
      | some operand =>
        cases operand with
        | strings => exact ih .strings
        | characters => exact ih set

variable (nests : Probes d nested Option.isSome)
include nests

theorem setOperand_probes : Probes d (setOperand nested) Option.isSome := by
  intro i within
  refine .probeSome setCharacter_probes within (fun code => .pure fun _ past => past) ?_
  exact .probeSome stringDisjunction_probes within (fun set => .pure fun _ past => past) (nests i within)

theorem intersectionRound_probes (set : CharSet) : Probes d (intersectionRound nested set) Option.isSome := by
  intro i within
  refine .probeIf (eatPair_probes '&' '&') within ?_ (.pure fun _ here => here)
  refine .each fun j past => .sees fun third _ => .ite (fun _ => ?_) fun _ => .throw
  refine .bind (R := fun _ => (j ≤ ·)) (setOperand_probes nests).proceeds.onwards fun operand => ?_
  cases operand with
  | none => exact .throw
  | some operand => exact .pure fun _ from' => Nat.lt_of_lt_of_le past from'

theorem subtractionRound_probes (u : Unit) : Probes d (subtractionRound nested u) Option.isSome := by
  intro i within
  refine .probeIf (eatPair_probes '-' '-') within ?_ (.pure fun _ here => here)
  refine .bind (setOperand_probes nests).proceeds.past fun operand => ?_
  exact .ite (fun _ => .throwing) fun _ => .pure fun _ past => past

theorem unionRound_probes (set : CharSet) : Probes d (unionRound nested set) Option.isSome := by
  intro i within
  refine .probeIf setRange_probes within (.pure fun _ past => past) ?_
  refine .probeSome (setOperand_probes nests) within (fun operand => ?_) (.pure fun _ here => here)
  cases operand <;> exact .pure fun _ past => past

theorem setExpression_proceeds : Proceeds d (setExpression nested) := by
  have members (set : CharSet) (bound : Nat) : Proceeds d (union nested set bound) :=
    union_eq bound set ▸ repeated_proceeds (unionRound_probes nests) bound set
  refine .read (.bind setRange_probes.proceeds fun range => .ite (fun _ => members .characters _) fun _ => ?_)
  refine .bind (setOperand_probes nests).proceeds fun operand => ?_
  cases operand with
  | none => exact .throw
  | some first =>
    refine .position fun start => .bind ?_ fun set => .position fun _ => .ite (fun _ => .pure) fun _ => ?_
    · exact intersection_eq _ first ▸ repeated_proceeds (intersectionRound_probes nests) _ first
    · refine .bind ?_ fun _ => .position fun _ => .ite (fun _ => .pure) fun _ => members set _
      exact subtraction_eq nested _ ▸ repeated_proceeds (subtractionRound_probes nests) _ ()

theorem classContents_proceeds : Proceeds d (classContents nested) :=
  .sees fun _ => .ite (fun _ => .pure) fun _ => .read (.ite (fun _ => setExpression_proceeds nests) fun _ =>
    .bind (exhaust_proceeds classRange_probes) fun _ => .pure)

theorem bracketed_proceeds {unclosed : PatternM (Option CharSet)} (otherwise : Proceeds d unclosed) :
    Proceeds d (bracketed nested unclosed) := by
  refine .bind (eat_probes '^').proceeds fun negated => .bind (classContents_proceeds nests) fun set => ?_
  refine .bind (eat_probes ']').proceeds fun closed => .ite (fun _ => ?_) fun _ => otherwise
  exact .ite (fun _ => .throwing) fun _ => .pure

end

/-- A class within a class may be given up at its end, however much of it has been read. -/
theorem nestedClass_probes (depth : Nat) : Probes d (nestedClass depth) Option.isSome := by
  induction depth with
  | zero => exact fun _ _ => .throw
  | succ depth ih =>
    have escape : Probes d (orRewind do if ← eat '\\' then classEscape else return none) Option.isSome := by
      refine .orRewind fun i within => .probeIf (eat_probes '\\') within ?_ (.pure fun _ _ none => by cases none)
      exact classEscape_probes.proceeds.past.weaken fun _ _ past _ => past
    intro i within
    refine .position (.probeIf (eat_probes '[') within ?_ (escape i within))
    refine .bind (bracketed_proceeds ih .pure).past fun set => ?_
    cases set with
    | some set => exact .pure fun _ past => past
    | none => exact .back within (escape i within)

theorem characterClass_probes (depth : Nat) : Probes d (characterClass depth) id := by
  intro i within
  refine .probeIf (eat_probes '[') within ?_ (.pure fun _ here => here)
  exact .bind (bracketed_proceeds (nestedClass_probes depth) .throw).past fun set => .pure fun _ past => past

end RegExp
end ScriptSyntax
