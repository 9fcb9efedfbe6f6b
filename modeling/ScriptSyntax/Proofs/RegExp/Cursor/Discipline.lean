import ScriptSyntax.Proofs.RegExp.Cursor.Class
import ScriptSyntax.Proofs.RegExp.Duplicate

/-!
The discipline of the cursor.  Whatever looks for a match moves the cursor on if it reports one and leaves it where it
was if not, terms among the rest whatever nests in them, so that each loop that goes on as long as there are matches
comes to an end.
-/

namespace ScriptSyntax
namespace RegExp

variable {d : Dialect} {p : Progress}

section

variable [d.Narrow] {i : Nat}

/-! ### Quantifiers -/

theorem bracedQuantifier_probes (lenient : Bool) : Probes d (bracedQuantifier lenient) id := by
  intro i within
  refine .position (.probeIf (eat_probes '{') within ?_ (.pure fun _ here => here))
  -- What is no quantifier after all is refused, or read again from the brace on.
  have otherwise : Steers d (i < ·) (do
      if (← read).unicode && !lenient then throw .incompleteQuantifier
      moveTo i
      return false) (Moved i) := .read (.ite (fun _ => .throwing) fun _ => .back within (.pure fun _ here => here))
  refine .bind eatDecimal_probes.proceeds.past fun low => ?_
  cases low with
  | none => exact otherwise
  | some low =>
    have closes (high : Option Nat) : Steers d (i < ·) (do
        if ← eat '}' then
          if high.any (· < low) && !lenient then throw .quantifierOutOfOrder
          return true
        if (← read).unicode && !lenient then throw .incompleteQuantifier
        moveTo i
        return false) (Moved i) := by
      refine .bind (eat_probes '}').proceeds.past fun closed => .ite (fun _ => ?_) fun _ => otherwise
      exact .ite (fun _ => .throwing) fun _ => .pure fun _ past => past
    refine .bind (eat_probes ',').proceeds.past fun comma => .ite (fun _ => ?_) fun _ => closes none
    exact .bind eatDecimal_probes.proceeds.past closes

/-- A quantifier without the mark that makes it lazy. -/
def quantifierSign (lenient : Bool) : PatternM Bool := anyMatch [eat '*', eat '+', eat '?', bracedQuantifier lenient]

theorem quantifierSign_probes (lenient : Bool) : Probes d (quantifierSign lenient) id := by
  refine .anyMatch fun step mem => ?_
  simp only [List.mem_cons, List.not_mem_nil, or_false] at mem
  rcases mem with rfl | rfl | rfl | rfl
  · exact eat_probes '*'
  · exact eat_probes '+'
  · exact eat_probes '?'
  · exact bracedQuantifier_probes lenient

theorem quantifier_probes (lenient : Bool) : Probes d (quantifier lenient) id := by
  intro i within
  refine .probeIf (quantifierSign_probes lenient) within ?_ (.pure fun _ here => here)
  exact .bind (eat_probes '?').proceeds.past fun lazy => .pure fun _ past => past

theorem strayQuantifier_probes : Probes d strayQuantifier id := by
  intro i within
  refine .probeIf (bracedQuantifier_probes true) within ?_ (.pure fun _ here => here)
  exact .throwing

/-! ### Alternatives and groups -/

/-- One more alternative. -/
def alternativeRound (inner : PatternM Unit) (depth : Nat) (_ : Unit) : PatternM (Option Unit) := do
  if ← eat '|' then
    nextBranch
    alternative inner depth
    return some ()
  else return none

theorem alternatives_eq (inner : PatternM Unit) (depth bound : Nat) :
    alternatives inner depth bound = repeated (alternativeRound inner depth) bound () := by
  induction bound with
  | zero => rfl
  | succ bound ih =>
    rw [alternatives, repeated, alternativeRound]
    simp only [bind_assoc]
    refine bind_congr fun bar => ?_
    cases bar with
    | false => rfl
    | true =>
      simp only [if_true, bind_assoc]
      exact bind_congr fun _ => bind_congr fun _ => ih

omit [d.Narrow] in
theorem beginBranch_proceeds (parent base : Option Nat) : Proceeds d (beginBranch parent base) := .note fun _ => rfl

omit [d.Narrow] in
theorem openBranch_proceeds : Proceeds d openBranch :=
  .read (.ite (fun _ => .look fun p => beginBranch_proceeds p.branch none) fun _ => .pure)

omit [d.Narrow] in
theorem nextBranch_proceeds : Proceeds d nextBranch := by
  refine .read (.ite (fun _ => .look fun p => ?_) fun _ => .pure)
  cases p.current? with
  | none => exact .pure
  | some branch => exact beginBranch_proceeds _ _

omit [d.Narrow] in
theorem closeBranch_proceeds : Proceeds d closeBranch := .read (.ite (fun _ => .note fun _ => rfl) fun _ => .pure)

omit [d.Narrow] in
theorem declareGroup_proceeds (name : String) : Proceeds d (declareGroup name) :=
  .look fun _ => .read (.ite (fun _ => .throwing) fun _ => .note fun _ => rfl)

theorem groupSpecifier_proceeds : Proceeds d groupSpecifier := by
  refine .bind (eat_probes '?').proceeds fun question => .ite (fun _ => ?_) fun _ => .pure
  refine .bind groupName_probes.proceeds fun name => ?_
  cases name with
  | none => exact .throw
  | some name => exact declareGroup_proceeds name

theorem modifiers_proceeds : Proceeds d modifiers := by
  refine .bind (eatRun_probes _).proceeds fun added => .bind (eat_probes '-').proceeds fun hyphen => ?_
  refine .ite (fun _ => .ite (fun _ => .throwing) fun _ => .ite (fun _ => ?_) fun _ => .pure) fun _ => .pure
  refine .bind (eatRun_probes _).proceeds fun removed => .sees fun colon => ?_
  exact .ite (fun _ => .throwing) fun _ => .ite (fun _ => .throw) fun _ => .pure

section

variable {inner : PatternM Unit} (reads : Proceeds d inner) (depth : Nat)
include reads

theorem closedDisjunction_proceeds : Proceeds d (closedDisjunction inner) :=
  .bind reads fun _ => .bind (eat_probes ')').proceeds fun _ => .ite (fun _ => .pure) fun _ => .throw

theorem assertion_probes : Probes d (assertion inner) Option.isSome := by
  refine .orRewind fun i within => ?_
  refine .probeIf (eatAny_probes ['^', '$']) within (.pure fun _ past _ => past) ?_
  refine .probeIf (eatPair_probes '\\' 'B') within (.pure fun _ past _ => past) ?_
  refine .probeIf (eatPair_probes '\\' 'b') within (.pure fun _ past _ => past) ?_
  refine .probeIf (eatPair_probes '(' '?') within ?_ (.pure fun _ _ none => by cases none)
  have around (behind : Bool) : Steers d (i < ·) (do
      if ← anyMatch [eat '=', eat '!'] then
        closedDisjunction inner
        return some !behind
      return none) fun a j => a.isSome = true → i < j := by
    refine .bind (eatAny_probes ['=', '!']).proceeds.past fun found => .ite (fun _ => ?_) fun _ =>
      .pure fun _ past _ => past
    exact .bind (closedDisjunction_proceeds reads).past fun _ => .pure fun _ past _ => past
  exact .read (.ite (fun _ => .bind (eat_probes '<').proceeds.past around) fun _ => around false)

theorem uncapturingGroup_probes : Probes d (uncapturingGroup inner) id := by
  intro i within
  have back : Steers d (i < ·) (do moveTo i; return false) (Moved i) := .back within (.pure fun _ here => here)
  have body : Steers d (i < ·) (do
      if ← eat ':' then
        closedDisjunction inner
        return true
      moveTo i
      return false) (Moved i) := by
    refine .bind (eat_probes ':').proceeds.past fun colon => .ite (fun _ => ?_) fun _ => back
    exact .bind (closedDisjunction_proceeds reads).past fun _ => .pure fun _ past => past
  refine .position (.probeIf (eat_probes '(') within ?_ (.pure fun _ here => here))
  refine .bind (eat_probes '?').proceeds.past fun question => .ite (fun _ => ?_) fun _ => back
  exact .read (.ite (fun _ => .bind modifiers_proceeds.past fun _ => body) fun _ => body)

theorem capturingGroup_probes : Probes d (capturingGroup inner) id := by
  intro i within
  have body : Steers d (i < ·) (do
      closedDisjunction inner
      modify fun p => { p with groups := p.groups + 1 }
      return true) (Moved i) := by
    refine .bind (closedDisjunction_proceeds reads).past fun _ => ?_
    exact .bind (Proceeds.note fun _ => rfl).past fun _ => .pure fun _ past => past
  refine .probeIf (eat_probes '(') within ?_ (.pure fun _ here => here)
  refine .read (.ite (fun _ => .bind groupSpecifier_proceeds.past fun _ => body) fun _ => ?_)
  exact .each fun j past => .sees fun question _ => .ite (fun _ => .throwing) fun _ =>
    body.mono (fun _ same => same ▸ past) fun _ _ done => done

/-! ### Terms -/

theorem strictAtom_probes : Probes d (strictAtom inner depth) id := by
  refine .anyMatch fun step mem => ?_
  simp only [List.mem_cons, List.not_mem_nil, or_false] at mem
  rcases mem with rfl | rfl | rfl | rfl | rfl | rfl
  · exact .map (eatRun_probes _) fun _ => rfl
  · exact eat_probes '.'
  · exact escapedAtom_probes
  · exact characterClass_probes depth
  · exact uncapturingGroup_probes reads
  · exact capturingGroup_probes reads

theorem lenientAtom_probes : Probes d (lenientAtom inner depth) id := by
  refine .anyMatch fun step mem => ?_
  simp only [List.mem_cons, List.not_mem_nil, or_false] at mem
  rcases mem with rfl | rfl | rfl | rfl | rfl | rfl | rfl
  · exact eat_probes '.'
  · exact escapedAtom_probes
  · exact characterClass_probes depth
  · exact uncapturingGroup_probes reads
  · exact capturingGroup_probes reads
  · exact strayQuantifier_probes
  · exact .map (eatCode_probes _) fun _ => rfl

theorem term_probes : Probes d (term inner depth) id := by
  intro i within
  have quantified : ∀ {matched : Bool}, Steers d (Moved i matched) (do
      if matched then
        let _ ← quantifier false
        return true
      else return false) (Moved i) := by
    intro matched
    cases matched with
    | true => exact .bind (quantifier_probes false).proceeds.past fun _ => .pure fun _ past => past
    | false => exact .pure fun _ here => here
  refine .read (.probeSome (assertion_probes reads) within (fun quantifiable => .ite (fun _ => ?_) fun _ => ?_) ?_)
  · refine .bind (quantifier_probes false).proceeds.past fun found => .ite (fun _ => ?_) fun _ =>
      .pure fun _ past => past
    exact .ite (fun _ => .throwing) fun _ => .pure fun _ past => past
  · exact .pure fun _ past => past
  · refine .ite (fun _ => ?_) fun _ => ?_
    · exact .bind (strictAtom_probes reads depth i within) fun matched => quantified
    · exact .bind (lenientAtom_probes reads depth i within) fun matched => quantified

theorem alternative_proceeds : Proceeds d (alternative inner depth) := exhaust_proceeds (term_probes reads depth)

theorem alternativeRound_probes (u : Unit) : Probes d (alternativeRound inner depth u) Option.isSome := by
  intro i within
  refine .probeIf (eat_probes '|') within ?_ (.pure fun _ here => here)
  refine .bind nextBranch_proceeds.past fun _ => .bind (alternative_proceeds reads depth).past fun _ => ?_
  exact .pure fun _ past => past

end

/-- However deep groups nest. -/
theorem disjunction_proceeds (depth : Nat) : Proceeds d (disjunction depth) := by
  induction depth with
  | zero => exact .throw
  | succ depth ih =>
    refine .bind openBranch_proceeds fun _ => .bind (alternative_proceeds ih depth) fun _ =>
      .read (.bind ?_ fun _ => ?_)
    · exact alternatives_eq (disjunction depth) depth _ ▸
        repeated_proceeds (alternativeRound_probes ih depth) _ ()
    · refine .bind closeBranch_proceeds fun _ => .bind (quantifier_probes true).proceeds fun _ => ?_
      refine .ite (fun _ => .throwing) fun _ => .bind (eat_probes '{').proceeds fun _ => ?_
      exact .ite (fun _ => .throw) fun _ => .pure

theorem pattern_proceeds : Proceeds d pattern := by
  have checks : Proceeds d (do
      let p ← get
      if p.groups < p.maxReference then throw .invalidEscape
      unless p.references.all fun name => p.names.any (·.1 == name) do throw .invalidNamedCapture : PatternM Unit) :=
    .look fun _ => .ite (fun _ => .throwing) fun _ => .ite (fun _ => .pure) fun _ => .throw
  refine .bind (disjunction_proceeds maxDepth) fun _ => .position fun stop => .read (.ite (fun _ => ?_) fun _ => checks)
  refine .bind (eat_probes ')').proceeds fun right => .ite (fun _ => .throwing) fun _ => ?_
  exact .bind (eatAny_probes [']', '}']).proceeds fun closing => .ite (fun _ => .throwing) fun _ => checks

end

/-! ### Whatever looks for a match -/

/-- What looks for a match at the cursor.  A `depth` is how much deeper groups and classes may nest. -/
inductive Matcher
  | character (c : Char)
  | pair (c c' : Char)
  | code (inClass : Nat → Bool)
  | run (inClass : Nat → Bool)
  | decimal
  | hex
  /-- So many digits and one. -/
  | fixedHex (more : Nat)
  | controlEscape
  | controlLetterEscape
  | zeroEscape
  | hexEscape
  | lowSurrogateEscape
  | unicodeEscape (joined : Bool)
  | octalDigit
  | octalEscape
  | identityEscape
  | characterEscape
  | propertyName
  | propertyValue
  | propertyExpression
  | classEscape
  | nameCharacter (atStart : Bool)
  | identifierName
  | groupName
  | referenceNumber
  | numberedReference
  | namedReference
  | atomEscape
  | escapedAtom
  | escapedClassAtom
  | classAtom
  | classRange
  | setCharacter
  | setRange
  | stringDisjunction
  | setOperand (depth : Nat)
  | nestedClass (depth : Nat)
  | characterClass (depth : Nat)
  | bracedQuantifier (lenient : Bool)
  | quantifierSign (lenient : Bool)
  | quantifier (lenient : Bool)
  | strayQuantifier
  | assertion (depth : Nat)
  | uncapturingGroup (depth : Nat)
  | capturingGroup (depth : Nat)
  | strictAtom (depth : Nat)
  | lenientAtom (depth : Nat)
  | term (depth : Nat)

/-- Looks for the match and reports whether there is one. -/
def Matcher.report : Matcher → PatternM Bool
  | character c => eat c
  | pair c c' => eatPair c c'
  | code inClass => return (← eatCode inClass).isSome
  | run inClass => return !(← eatRun inClass).isEmpty
  | decimal => return (← eatDecimal).isSome
  | hex => return (← eatHex).isSome
  | fixedHex more => return (← eatFixedHex (more + 1)).isSome
  | controlEscape => return (← RegExp.controlEscape).isSome
  | controlLetterEscape => return (← RegExp.controlLetterEscape).isSome
  | zeroEscape => return (← RegExp.zeroEscape).isSome
  | hexEscape => return (← RegExp.hexEscape).isSome
  | lowSurrogateEscape => return (← RegExp.lowSurrogateEscape).isSome
  | unicodeEscape joined => return (← RegExp.unicodeEscape joined).isSome
  | octalDigit => return (← RegExp.octalDigit).isSome
  | octalEscape => return (← RegExp.octalEscape).isSome
  | identityEscape => return (← RegExp.identityEscape).isSome
  | characterEscape => return (← RegExp.characterEscape).isSome
  | propertyName => return (← eatPropertyName) != ""
  | propertyValue => return (← eatPropertyValue) != ""
  | propertyExpression => return (← RegExp.propertyExpression).isSome
  | classEscape => return (← RegExp.classEscape).isSome
  | nameCharacter atStart => return (← RegExp.nameCharacter atStart).isSome
  | identifierName => return (← RegExp.identifierName).isSome
  | groupName => return (← RegExp.groupName).isSome
  | referenceNumber => return (← RegExp.referenceNumber).isSome
  | numberedReference => RegExp.numberedReference
  | namedReference => RegExp.namedReference
  | atomEscape => RegExp.atomEscape
  | escapedAtom => RegExp.escapedAtom
  | escapedClassAtom => return (← RegExp.escapedClassAtom).isSome
  | classAtom => return (← RegExp.classAtom).isSome
  | classRange => RegExp.classRange
  | setCharacter => return (← RegExp.setCharacter).isSome
  | setRange => RegExp.setRange
  | stringDisjunction => return (← RegExp.stringDisjunction).isSome
  | setOperand depth => return (← RegExp.setOperand (RegExp.nestedClass depth)).isSome
  | nestedClass depth => return (← RegExp.nestedClass depth).isSome
  | characterClass depth => RegExp.characterClass depth
  | bracedQuantifier lenient => RegExp.bracedQuantifier lenient
  | quantifierSign lenient => RegExp.quantifierSign lenient
  | quantifier lenient => RegExp.quantifier lenient
  | strayQuantifier => RegExp.strayQuantifier
  | assertion depth => return (← RegExp.assertion (disjunction depth)).isSome
  | uncapturingGroup depth => RegExp.uncapturingGroup (disjunction depth)
  | capturingGroup depth => RegExp.capturingGroup (disjunction depth)
  | strictAtom depth => RegExp.strictAtom (disjunction depth) depth
  | lenientAtom depth => RegExp.lenientAtom (disjunction depth) depth
  | term depth => RegExp.term (disjunction depth) depth

/-- May a look for a match at `i` have that outcome?  The cursor is further on behind a match, where it was without one,
and never past the last code unit. -/
def Dialect.Admits (d : Dialect) (i : Nat) : EStateM.Result Fault Progress Bool → Prop
  | .ok true q => i < q.pos ∧ q.pos ≤ d.units.size
  | .ok false q => q.pos = i
  | .error _ q => q.pos ≤ d.units.size

theorem Probes.admits {step : PatternM Bool} (probes : Probes d step id) (within : p.pos ≤ d.units.size) :
    d.Admits p.pos (step d p) := by
  have done := probes p.pos within p within rfl
  cases run : step d p with
  | error fault q =>
    rw [run] at done
    exact done
  | ok matched q =>
    rw [run] at done
    cases matched with
    | true => exact ⟨done.2, done.1⟩
    | false => exact done.2

theorem Matcher.probes [d.Narrow] (m : Matcher) : Probes d m.report id := by
  cases m with
  | character c => exact eat_probes c
  | pair c c' => exact eatPair_probes c c'
  | code inClass => exact .map (eatCode_probes inClass) fun _ => rfl
  | run inClass => exact .map (eatRun_probes inClass) fun _ => rfl
  | decimal => exact .map eatDecimal_probes fun _ => rfl
  | hex => exact .map eatHex_probes fun _ => rfl
  | fixedHex more => exact .map (eatFixedHex_probes more) fun _ => rfl
  | controlEscape => exact .map controlEscape_probes fun _ => rfl
  | controlLetterEscape => exact .map controlLetterEscape_probes fun _ => rfl
  | zeroEscape => exact .map zeroEscape_probes fun _ => rfl
  | hexEscape => exact .map hexEscape_probes fun _ => rfl
  | lowSurrogateEscape => exact .map lowSurrogateEscape_probes fun _ => rfl
  | unicodeEscape joined => exact .map (unicodeEscape_probes joined) fun _ => rfl
  | octalDigit => exact .map octalDigit_probes fun _ => rfl
  | octalEscape => exact .map octalEscape_probes fun _ => rfl
  | identityEscape => exact .map identityEscape_probes fun _ => rfl
  | characterEscape => exact .map characterEscape_probes fun _ => rfl
  | propertyName => exact .map eatPropertyName_probes fun _ => rfl
  | propertyValue => exact .map eatPropertyValue_probes fun _ => rfl
  | propertyExpression => exact .map propertyExpression_probes fun _ => rfl
  | classEscape => exact .map classEscape_probes fun _ => rfl
  | nameCharacter atStart => exact .map (nameCharacter_probes atStart) fun _ => rfl
  | identifierName => exact .map identifierName_probes fun _ => rfl
  | groupName => exact .map groupName_probes fun _ => rfl
  | referenceNumber => exact .map referenceNumber_probes fun _ => rfl
  | numberedReference => exact numberedReference_probes
  | namedReference => exact namedReference_probes
  | atomEscape => exact atomEscape_probes
  | escapedAtom => exact escapedAtom_probes
  | escapedClassAtom => exact .map escapedClassAtom_probes fun _ => rfl
  | classAtom => exact .map classAtom_probes fun _ => rfl
  | classRange => exact classRange_probes
  | setCharacter => exact .map setCharacter_probes fun _ => rfl
  | setRange => exact setRange_probes
  | stringDisjunction => exact .map stringDisjunction_probes fun _ => rfl
  | setOperand depth => exact .map (setOperand_probes (nestedClass_probes depth)) fun _ => rfl
  | nestedClass depth => exact .map (nestedClass_probes depth) fun _ => rfl
  | characterClass depth => exact characterClass_probes depth
  | bracedQuantifier lenient => exact bracedQuantifier_probes lenient
  | quantifierSign lenient => exact quantifierSign_probes lenient
  | quantifier lenient => exact quantifier_probes lenient
  | strayQuantifier => exact strayQuantifier_probes
  | assertion depth => exact .map (assertion_probes (disjunction_proceeds depth)) fun _ => rfl
  | uncapturingGroup depth => exact uncapturingGroup_probes (disjunction_proceeds depth)
  | capturingGroup depth => exact capturingGroup_probes (disjunction_proceeds depth)
  | strictAtom depth => exact strictAtom_probes (disjunction_proceeds depth) depth
  | lenientAtom depth => exact lenientAtom_probes (disjunction_proceeds depth) depth
  | term depth => exact term_probes (disjunction_proceeds depth) depth

/-! ### Loops -/

/-- The loops, by what they carry from round to round and give in the end. -/
inductive Loop : Type → Type
  | alternative (depth : Nat) : Loop Unit
  | disjunction (depth : Nat) : Loop Unit
  | classRanges : Loop Unit
  | union (depth : Nat) : Loop CharSet
  | intersection (depth : Nat) : Loop CharSet
  | subtraction (depth : Nat) : Loop Unit
  | strings : Loop CharSet
  | string : Loop Nat
  | name : Loop (List Char)
  | run (inClass : Nat → Bool) : Loop (List Nat)

/-- One more code of a run. -/
def codeRound (inClass : Nat → Bool) (codes : List Nat) : PatternM (Option (List Nat)) :=
  return (← eatCode inClass).map fun code => codes ++ [code]

theorem repeated_codeRound (inClass : Nat → Bool) (bound : Nat) (codes : List Nat) (p : Progress) :
    repeated (codeRound inClass) bound codes d p =
      .ok (codes ++ (d.run inClass bound p.pos).1) { p with pos := (d.run inClass bound p.pos).2 } := by
  induction bound generalizing codes p with
  | zero =>
    rw [Dialect.run, List.append_nil]
    rfl
  | succ bound ih =>
    have missed (other : ∀ code, d.at? d.unicode p.pos = some code → inClass code = false) :
        repeated (codeRound inClass) (bound + 1) codes d p = .ok codes p := by
      rw [repeated, codeRound, bind_assoc, run_bind (eatCode_missed other)]
      rfl
    cases stands : d.at? d.unicode p.pos with
    | none =>
      rw [missed (by simp [stands])]
      simp only [Dialect.run, stands, List.append_nil]
    | some code =>
      cases is : inClass code with
      | false =>
        rw [missed (by simp [stands, is])]
        simp only [Dialect.run, stands, is, Bool.false_eq_true, if_false, List.append_nil]
      | true =>
        rw [repeated, codeRound, bind_assoc, run_bind (eatCode_run stands is)]
        refine (ih (codes ++ [code]) { p with pos := d.next d.unicode p.pos }).trans ?_
        simp only [Dialect.run, stands, is, if_true, List.append_assoc, List.singleton_append]

namespace Loop

variable {σ : Type}

/-- One round. -/
def round : Loop σ → σ → PatternM (Option σ)
  | alternative depth => matchRound (term (RegExp.disjunction depth) depth)
  | disjunction depth => alternativeRound (RegExp.disjunction depth) depth
  | classRanges => matchRound classRange
  | union depth => unionRound (nestedClass depth)
  | intersection depth => intersectionRound (nestedClass depth)
  | subtraction depth => subtractionRound (nestedClass depth)
  | strings => stringsRound
  | string => stringRound
  | name => nameRound
  | run inClass => codeRound inClass

/-- The whole loop as it is run, under its bound. -/
def whole : Loop σ → σ → PatternM σ
  | alternative depth, _ => RegExp.alternative (RegExp.disjunction depth) depth
  | disjunction depth, _ => do alternatives (RegExp.disjunction depth) depth ((← read).units.size + 1)
  | classRanges, _ => exhaust classRange
  | union depth, set => do RegExp.union (nestedClass depth) set ((← read).units.size + 1)
  | intersection depth, set => do RegExp.intersection (nestedClass depth) set ((← read).units.size + 1)
  | subtraction depth, _ => do RegExp.subtraction (nestedClass depth) ((← read).units.size + 1)
  | strings, set => do setStrings set ((← read).units.size + 1)
  | string, length => do return length + (← setString.count ((← read).units.size + 1))
  | name, letters => do return letters ++ (← nameRest ((← read).units.size + 1))
  | run inClass, codes => do return codes ++ (← eatRun inClass)

theorem round_probes [d.Narrow] (l : Loop σ) (s : σ) : Probes d (l.round s) Option.isSome := by
  cases l with
  | alternative depth => exact matchRound_probes (term_probes (disjunction_proceeds depth) depth) s
  | disjunction depth => exact alternativeRound_probes (disjunction_proceeds depth) depth s
  | classRanges => exact matchRound_probes classRange_probes s
  | union depth => exact unionRound_probes (nestedClass_probes depth) s
  | intersection depth => exact intersectionRound_probes (nestedClass_probes depth) s
  | subtraction depth => exact subtractionRound_probes (nestedClass_probes depth) s
  | strings => exact stringsRound_probes s
  | string => exact stringRound_probes s
  | name => exact nameRound_probes s
  | run inClass => exact .map (eatCode_probes inClass) fun code => by cases code <;> rfl

/-- The bound exceeds the code units left. -/
theorem whole_eq (l : Loop σ) (s : σ) (within : p.pos ≤ d.units.size) :
    ∃ bound, d.units.size - p.pos < bound ∧ l.whole s d p = repeated l.round bound s d p := by
  have tight : d.units.size - p.pos < d.units.size + 1 - p.pos := by omega
  have loose : d.units.size - p.pos < d.units.size + 1 := by omega
  cases l with
  | alternative depth => exact ⟨_, tight, congrFun (congrFun (whileMatch_eq _ _) d) p⟩
  | disjunction depth => exact ⟨_, loose, congrFun (congrFun (alternatives_eq _ depth _) d) p⟩
  | classRanges => exact ⟨_, tight, congrFun (congrFun (whileMatch_eq _ _) d) p⟩
  | union depth => exact ⟨_, loose, congrFun (congrFun (union_eq _ s) d) p⟩
  | intersection depth => exact ⟨_, loose, congrFun (congrFun (intersection_eq _ s) d) p⟩
  | subtraction depth => exact ⟨_, loose, congrFun (congrFun (subtraction_eq _ _) d) p⟩
  | strings => exact ⟨_, loose, congrFun (congrFun (setStrings_eq _ s) d) p⟩
  | string => exact ⟨_, loose, congrFun (congrFun (count_eq _ s) d) p⟩
  | name => exact ⟨_, loose, congrFun (congrFun (nameRest_eq _ s) d) p⟩
  | run inClass => exact ⟨_, loose, (repeated_codeRound inClass (d.units.size + 1) s p).symm⟩

end Loop

/-- The cursor is where it was wherever no match is reported, further on behind each match, and never past the last code
unit.  Hence every loop ends without a bound, after no more rounds than there are code units left, as it does under
its bound. -/
theorem cursor_disciplined [d.Narrow] (within : p.pos ≤ d.units.size) :
    (∀ m : Matcher, d.Admits p.pos (m.report d p)) ∧
    (∀ (σ : Type) (l : Loop σ) (s : σ), ∃ n ≤ d.units.size - p.pos, ∀ k r,
      Rounds d l.round s p k r ↔ k = n ∧ r = l.whole s d p) ∧
    match pattern d p with
    | .ok _ q => p.pos ≤ q.pos ∧ q.pos ≤ d.units.size
    | .error _ q => q.pos ≤ d.units.size := by
  refine ⟨fun m => m.probes.admits within, fun σ l s => ?_, ?_⟩
  · obtain ⟨bound, enough, same⟩ := l.whole_eq s within
    obtain ⟨n, few, rounds⟩ := repeated_rounds l.round_probes within enough s
    rw [← same] at rounds
    refine ⟨n, few, fun k r => ⟨rounds.unique, ?_⟩⟩
    rintro ⟨rfl, rfl⟩
    exact rounds
  · have done := pattern_proceeds p.pos p within (Nat.le_refl _)
    cases run : pattern d p with
    | ok u q =>
      rw [run] at done
      exact ⟨done.2, done.1⟩
    | error fault q =>
      rw [run] at done
      exact done

theorem ended_of_run' {step : PatternM Bool} {matched : Bool} (run : EStateM.run' (step.run d) p = some matched) :
    ∃ q, step d p = .ok matched q := by
  delta EStateM.run' EStateM.run ReaderT.run at run
  cases ends : step d p with
  | ok a q =>
    rw [ends] at run
    exact ⟨q, by rw [Option.some.inj run]⟩
  | error fault q =>
    rw [ends] at run
    cases run

/-- Where a group with a name stands in front of a surrogate pair and of a reference to it, a term is found and no
escape, and the terms from there on are a loop that ends. -/
theorem cursor_disciplined_group :
    let d := Dialect.ofFlags "a(?<n>[b-d])😀\\k<n>".toList ['u'] 16
    let p : Progress := { pos := 1 }
    p.pos ≤ d.units.size ∧ (∃ q, (Matcher.term 2).report d p = .ok true q ∧ 1 < q.pos ∧ q.pos ≤ 19) ∧
      (∃ q, Matcher.escapedAtom.report d p = .ok false q ∧ q.pos = 1) ∧
      ∃ n ≤ 18, ∀ k r, Rounds d (Loop.alternative 2).round () p k r ↔ k = n ∧
        r = (Loop.alternative 2).whole () d p := by
  intro d p
  have size : d.units.size = 19 := by decide +kernel
  have within : p.pos ≤ d.units.size := by rw [size]; decide
  have finds : EStateM.run' ((Matcher.term 2).report.run d) p = some true := by decide +kernel
  have misses : EStateM.run' (Matcher.escapedAtom.report.run d) p = some false := by decide +kernel
  obtain ⟨q, found⟩ := ended_of_run' finds
  obtain ⟨r, missed⟩ := ended_of_run' misses
  have disciplined := cursor_disciplined (d := d) within
  -- Nothing is to be computed from here on.
  clear_value d
  have further := disciplined.1 (.term 2)
  have same := disciplined.1 .escapedAtom
  have few := disciplined.2.1 Unit (.alternative 2) ()
  rw [found] at further
  rw [missed] at same
  rw [size] at few
  obtain ⟨past, inside⟩ : 1 < q.pos ∧ q.pos ≤ d.units.size := further
  rw [size] at inside
  exact ⟨within, ⟨q, found, past, inside⟩, ⟨r, missed, same⟩, few⟩

end RegExp
end ScriptSyntax
