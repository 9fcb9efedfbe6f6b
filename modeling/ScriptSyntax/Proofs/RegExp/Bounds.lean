import ScriptSyntax.Proofs.RegExp.Text
import ScriptSyntax.Proofs.RegExp.Whole

/-!
Bounds in braces.  Behind one character the numbers decide, in every mode, and they count no further than the largest
number there is.
-/

namespace ScriptSyntax
namespace RegExp

variable {d : Dialect} {p q : Progress} {c : Char} {low high rest : List Char} {depth : Nat} {inner : PatternM Unit}

/-- Is the character an atom by itself? -/
def isAtomCharacter (unicode : Bool) (c : Char) : Bool :=
  c == '.' || if unicode then !isSyntaxCharacter c.toNat else isLenientCharacter c.toNat && c != '\\'

/-- An atom that is one character, and bounds behind it. -/
def bounded (c : Char) (low high : List Char) : List Char := c :: bounds low high

/-! ### Terms -/

/-- An atom in the grammar of the mode. -/
def atom (inner : PatternM Unit) (depth : Nat) (unicode : Bool) : PatternM Bool :=
  if unicode then strictAtom inner depth else lenientAtom inner depth

theorem term_missed (other : ∀ c ∈ ['^', '$', '\\', '('], d.at? d.unicode p.pos ≠ some c.toNat) :
    term inner depth d p = (do
      if ← atom inner depth d.unicode then
        let _ ← quantifier false
        return true
      else return false : PatternM Bool) d p := by
  unfold term atom
  rw [run_bind read_run, run_bind (assertion_missed other)]
  cases d.unicode <;> rfl

/-- Behind an atom may be a quantifier. -/
theorem term_found (other : ∀ c ∈ ['^', '$', '\\', '('], d.at? d.unicode p.pos ≠ some c.toNat)
    (found : atom inner depth d.unicode d p = .ok true q) :
    term inner depth d p = (quantifier false >>= fun _ => pure true : PatternM Bool) d q := by
  rw [term_missed other, run_bind found]
  rfl

/-- No term begins at the end of the pattern. -/
theorem term_end (last : d.at? d.unicode p.pos = none) : term inner depth d p = .ok false p := by
  have other {c : Char} : d.at? d.unicode p.pos ≠ some c.toNat := by simp [last]
  have run {inClass : Nat → Bool} : eatRun inClass d p = .ok [] p := by
    rw [eatRun_run]
    simp only [Dialect.run, last]
  have atom : atom inner depth d.unicode d p = .ok false p := by
    unfold RegExp.atom
    split
    · unfold strictAtom
      rw [anyMatch_missed (q := p) (by rw [run_bind run]; rfl), anyMatch_missed (eat_missed other),
        anyMatch_missed (escapedAtom_missed other), anyMatch_missed (characterClass_missed other),
        anyMatch_missed (uncapturingGroup_missed other), anyMatch_missed (capturingGroup_missed other)]
      rfl
    · unfold lenientAtom
      rw [anyMatch_missed (eat_missed other), anyMatch_missed (escapedAtom_missed other), atom_missed fun _ _ => other,
        anyMatch_missed (q := p) (by rw [run_bind (eatCode_missed (by simp [last]))]; rfl)]
      rfl
  rw [term_missed fun _ _ => other, run_bind atom]
  rfl

/-! ### Atoms of one character -/

theorem isLenientCharacter_half {code : Nat} (half : 0xd800 ≤ code) : isLenientCharacter code = true := by
  have apart {c : Char} (small : c.toNat < 0xd800) : (c.toNat == code) = false := beq_eq_false_iff_ne.2 (by omega)
  simp only [isLenientCharacter, isOneOf, List.any_cons, List.any_nil, Bool.or_false, Bool.not_eq_true',
    Bool.or_eq_false_iff]
  exact ⟨apart (by decide), apart (by decide), apart (by decide), apart (by decide), apart (by decide),
    apart (by decide),
    apart (by decide), apart (by decide), apart (by decide), apart (by decide)⟩

/-- A brace is no quantifier if no number stands behind it. -/
theorem strayQuantifier_brace (at' : d.TextAt p.pos ('{' :: '{' :: rest)) : strayQuantifier d p = .ok false p := by
  have number : eatDecimal d (p.skip ['{']) = .ok none (p.skip ['{']) := eatDecimal_text at'.step
  have missed : bracedQuantifier true d p = .ok false p := by
    unfold bracedQuantifier
    rw [run_bind position_run, run_bind (eat_text (.inr rfl) at'), if_pos rfl, run_bind number]
    show ((read : PatternM Dialect) >>= _) d (p.skip ['{']) = _
    rw [run_bind read_run, Bool.not_true, Bool.and_false]
    rfl
  unfold strayQuantifier
  rw [run_bind missed]
  rfl

/-- A code that the lenient grammar takes as a plain character. -/
theorem term_lenient {code : Nat} (lenient : d.unicode = false) (facing : d.at? d.unicode p.pos = some code)
    (plain : isLenientCharacter code = true) (slash : code ≠ '\\'.toNat) (stray : strayQuantifier d p = .ok false p) :
    term inner depth d p = (quantifier false >>= fun _ => pure true : PatternM Bool) d
      { p with pos := d.next d.unicode p.pos } := by
  have other {c : Char} (special : isLenientCharacter c.toNat = false) : d.at? d.unicode p.pos ≠ some c.toNat := by
    rw [facing]
    rintro ⟨⟩
    cases special.symm.trans plain
  have backslash : d.at? d.unicode p.pos ≠ some '\\'.toNat := by simpa [facing] using slash
  have found : lenientAtom inner depth d p = .ok true { p with pos := d.next d.unicode p.pos } := by
    unfold lenientAtom
    rw [anyMatch_missed (eat_missed (other rfl)), anyMatch_missed (escapedAtom_missed backslash),
      anyMatch_missed (characterClass_missed (other rfl)), anyMatch_missed (uncapturingGroup_missed (other rfl)),
      anyMatch_missed (capturingGroup_missed (other rfl)), anyMatch_missed stray]
    exact anyMatch_run (by rw [run_bind (eatCode_run facing plain)]; rfl)
  have mode : atom inner depth d.unicode = lenientAtom inner depth := if_neg (by simp [lenient])
  refine term_found (fun c mem => ?_) (by rwa [mode])
  simp only [List.mem_cons, List.not_mem_nil, or_false] at mem
  rcases mem with rfl | rfl | rfl | rfl
  · exact other rfl
  · exact other rfl
  · exact backslash
  · exact other rfl

/-- Half of a character, which no other character is. -/
theorem term_half {code : Nat} (lenient : d.unicode = false) (facing : d.at? d.unicode p.pos = some code)
    (half : 0xd800 ≤ code) (small : code ≤ 0xdfff) : term inner depth d p =
    (quantifier false >>= fun _ => pure true : PatternM Bool) d { p with pos := p.pos + 1 } := by
  have other {c : Char} : d.at? d.unicode p.pos ≠ some c.toNat := by
    have range := not_surrogate c
    rw [facing]
    intro same
    have : code = c.toNat := Option.some.inj same
    omega
  have next : d.next d.unicode p.pos = p.pos + 1 := by
    simp only [Dialect.next, facing]
    rw [if_neg (by omega)]
  rw [term_lenient lenient facing (isLenientCharacter_half half) (fun same => other (c := '\\') (same ▸ facing))
    (strayQuantifier_missed other), next]

/-- An atom of one character is one term with what stands behind it, or a term and another. -/
theorem term_bounded (inner : PatternM Unit) (depth : Nat) (atom' : isAtomCharacter d.unicode c = true)
    (at' : d.TextAt p.pos (c :: '{' :: rest)) :
    ∃ q, (q = p ∨ term inner depth d p = .ok true q) ∧
      term inner depth d q = (quantifier false >>= fun _ => pure true : PatternM Bool) d (p.skip [c]) := by
  by_cases dot : c = '.'
  · subst dot
    have eaten : eat '.' d p = .ok true (p.skip ['.']) := eat_text (.inr rfl) at'
    refine ⟨p, .inl rfl, term_found (fun b mem => at'.ne (by rintro ⟨⟩; simp at mem)) ?_⟩
    unfold atom
    split
    · rename_i unicode
      have run := eatRun_text (tells_of_unicode unicode fun code => !isSyntaxCharacter code) at'
      unfold strictAtom
      rw [anyMatch_missed (q := p) (by rw [run_bind run]; rfl)]
      exact anyMatch_run eaten
    · exact anyMatch_run eaten
  have beginning : (c == '.') = false := beq_eq_false_iff_ne.2 dot
  rw [isAtomCharacter, beginning, Bool.false_or] at atom'
  cases mode : d.unicode with
  | true =>
    simp only [mode, if_true] at atom'
    have other {b : Char} (special : isSyntaxCharacter b.toNat = true) : (c :: '{' :: rest).head? ≠ some b := by
      rintro ⟨⟩
      simp [special] at atom'
    refine ⟨p, .inl rfl, term_found (fun b mem => at'.ne (other ?_)) ?_⟩
    · simp only [List.mem_cons, List.not_mem_nil, or_false] at mem
      rcases mem with rfl | rfl | rfl | rfl <;> rfl
    · have run := eatRun_text (tells_of_unicode mode fun code => !isSyntaxCharacter code) at'
      rw [List.takeWhile_cons, atom'] at run
      rw [atom, mode]
      exact anyMatch_run (by rw [run_bind run]; rfl)
  | false =>
    simp only [mode, Bool.false_eq_true, if_false, Bool.and_eq_true, bne_iff_ne, ne_eq] at atom'
    obtain ⟨plain, slash⟩ := atom'
    by_cases narrow : c.toNat < 0x10000
    · have facing : d.at? d.unicode p.pos = some c.toNat := at'.at?_narrow narrow
      have stray : strayQuantifier d p = .ok false p := by
        by_cases brace : c = '{'
        · exact strayQuantifier_brace (brace ▸ at')
        · exact strayQuantifier_missed (at'.ne (by simpa using brace))
      refine ⟨p, .inl rfl, ?_⟩
      rw [term_lenient mode facing plain (fun same => slash (Char.toNat_inj.1 same)) stray, Dialect.next_of_at? facing]
      rfl
    · -- The halves are two terms, and the bounds are about the second.
      have units := at'.getElem?
      rw [codeUnits_cons, codeUnits_wide narrow] at units
      have range := not_surrogate c
      have first : d.at? d.unicode p.pos = some (0xd800 + (c.toNat - 0x10000) / 0x400) := by
        rw [mode, at'.at?_wide narrow]
        rfl
      have unit : d.units[p.pos + 1]? = some (0xdc00 + (c.toNat - 0x10000) % 0x400) := units 1
      have second : d.at? d.unicode (p.pos + 1) = some (0xdc00 + (c.toNat - 0x10000) % 0x400) := by
        simp [Dialect.at?, mode, unit]
      have unquantified : quantifier false d { p with pos := p.pos + 1 } = .ok false { p with pos := p.pos + 1 } := by
        refine quantifier_missed fun b _ same => ?_
        have range := not_surrogate b
        have : 0xdc00 + (c.toNat - 0x10000) % 0x400 = b.toNat := Option.some.inj (second.symm.trans same)
        omega
      refine ⟨{ p with pos := p.pos + 1 }, .inr ?_, ?_⟩
      · rw [term_half mode first (by omega) (by omega), run_bind unquantified]
        rfl
      · rw [term_half mode second (by omega) (by omega), Progress.skip, codeUnits_wide narrow]
        rfl

/-! ### The whole pattern -/

/-- Are the bounds out of order, as far as numbers count? -/
def OutOfOrder (low high : List Char) : Prop :=
  min (Core.numberIn high) maxNumber < min (Core.numberIn low) maxNumber

instance : Decidable (OutOfOrder low high) := Nat.decLt ..

section

variable (isLow : Core.IsNumber low) (isHigh : Core.IsNumber high)
include isLow isHigh

/-- Bounds at the end of the pattern. -/
theorem quantifier_bounds (at' : d.TextAt p.pos (bounds low high)) : quantifier false d p =
    if OutOfOrder low high then .error .quantifierOutOfOrder (p.skip (bounds low high))
    else .ok true (p.skip (bounds low high)) := by
  have whole : d.TextAt p.pos (bounds low high ++ []) := by rwa [List.append_nil]
  have missed {c : Char} (other : ('{' == c) = false) {steps : List (PatternM Bool)} :
      anyMatch (eat c :: steps) d p = anyMatch steps d p :=
    anyMatch_missed (at'.eat_other (by simpa [bounds] using other))
  have last : eat '?' d (p.skip (bounds low high)) = .ok false (p.skip (bounds low high)) :=
    whole.skip.eat_other (by simp)
  unfold quantifier
  by_cases less : OutOfOrder low high
  · rw [if_pos less]
    refine run_fails ?_
    rw [missed rfl, missed rfl, missed rfl]
    exact run_fails ((bracedQuantifier_bounds isLow isHigh whole).trans (if_pos less))
  · rw [if_neg less, run_bind (q := p.skip (bounds low high)) (a := true)]
    · rw [if_pos rfl, run_bind last]
      rfl
    · rw [missed rfl, missed rfl, missed rfl]
      exact anyMatch_run ((bracedQuantifier_bounds isLow isHigh whole).trans (if_neg less))

theorem alternative_bounded (inner : PatternM Unit) (depth : Nat) (atom' : isAtomCharacter d.unicode c = true)
    (at' : d.TextAt p.pos (bounded c low high)) :
    alternative inner depth d p =
      if OutOfOrder low high then .error .quantifierOutOfOrder (p.skip (bounded c low high))
      else .ok () (p.skip (bounded c low high)) := by
  obtain ⟨q, before, last⟩ := term_bounded inner depth atom' at'
  have whole : d.TextAt p.pos (bounded c low high ++ []) := by rwa [List.append_nil]
  have quantified : quantifier false d (p.skip [c]) =
      if OutOfOrder low high then .error .quantifierOutOfOrder (p.skip (bounded c low high))
      else .ok true (p.skip (bounded c low high)) := by
    have run := quantifier_bounds isLow isHigh at'.step
    rw [Progress.skip_skip] at run
    exact run
  -- The last term, with which the pattern ends.
  have ends (fuel : Nat) : whileMatch (term inner depth) (fuel + 2) d q =
      if OutOfOrder low high then .error .quantifierOutOfOrder (p.skip (bounded c low high))
      else .ok () (p.skip (bounded c low high)) := by
    unfold whileMatch
    by_cases less : OutOfOrder low high
    · rw [if_pos less] at quantified ⊢
      exact run_fails (last.trans (run_fails quantified))
    · rw [if_neg less] at quantified ⊢
      rw [run_bind (last.trans (run_bind quantified)), if_pos rfl]
      have stop : d.TextAt (p.skip (bounded c low high)).pos [] := whole.skip
      unfold whileMatch
      rw [run_bind (term_end stop.at?_nil)]
      rfl
  obtain ⟨fuel, enough⟩ : ∃ fuel, d.units.size + 1 - p.pos = fuel + 3 := by
    have enough := at'.length_lt
    simp only [bounded, bounds, List.length_cons, List.length_append] at enough
    exact ⟨d.units.size + 1 - p.pos - 3, by omega⟩
  unfold alternative exhaust
  rw [run_bind read_run, run_bind position_run, enough]
  obtain rfl | first := before
  · exact ends (fuel + 1)
  · unfold whileMatch
    rw [run_bind first]
    exact ends fuel

omit isLow isHigh in
theorem openBranch_run : ∃ branches branch, openBranch d p = .ok () { p with branches, branch } := by
  unfold openBranch
  rw [run_bind read_run]
  cases d.tracksBranches with
  | true => exact ⟨_, _, rfl⟩
  | false => exact ⟨_, _, rfl⟩

omit isLow isHigh in
theorem closeBranch_run : ∃ branch, closeBranch d p = .ok () { p with branch } := by
  unfold closeBranch
  rw [run_bind read_run]
  cases d.tracksBranches with
  | true => exact ⟨_, rfl⟩
  | false => exact ⟨_, rfl⟩

/-- The disjunction goes to the end of the pattern, and has neither groups nor references. -/
theorem disjunction_bounded (depth : Nat) (atom' : isAtomCharacter d.unicode c = true)
    (at' : d.TextAt p.pos (bounded c low high)) :
    ∃ branches branch, disjunction (depth + 1) d p =
      if OutOfOrder low high then .error .quantifierOutOfOrder { p.skip (bounded c low high) with branches, branch }
      else .ok () { p.skip (bounded c low high) with branches, branch } := by
  have whole : d.TextAt p.pos (bounded c low high ++ []) := by rwa [List.append_nil]
  have last : d.at? d.unicode (p.skip (bounded c low high)).pos = none := whole.skip.at?_nil
  obtain ⟨branches, branch, opened⟩ := openBranch_run (d := d) (p := p)
  have first := alternative_bounded (p := { p with branches, branch }) isLow isHigh (disjunction depth) depth
    atom' at'
  unfold disjunction
  by_cases less : OutOfOrder low high
  · rw [if_pos less] at first
    refine ⟨branches, branch, ?_⟩
    rw [if_pos less, run_bind opened, run_fails first]
    rfl
  · rw [if_neg less] at first
    obtain ⟨branch', closed⟩ := closeBranch_run (d := d) (p := { p.skip (bounded c low high) with branches, branch })
    refine ⟨branches, branch', ?_⟩
    have single : alternatives (disjunction depth) depth (d.units.size + 1) d
        { p.skip (bounded c low high) with branches, branch } =
          .ok () { p.skip (bounded c low high) with branches, branch } := by
      unfold alternatives
      rw [run_bind (eat_missed (by simp [last]))]
      rfl
    rw [if_neg less, run_bind opened, run_bind first, run_bind read_run]
    show (alternatives (disjunction depth) depth (d.units.size + 1) >>= _) d
      { p.skip (bounded c low high) with branches, branch } = _
    rw [run_bind single, run_bind closed, run_bind (quantifier_missed (by simp [last]))]
    show (eat '{' >>= _) d { p.skip (bounded c low high) with branches, branch := branch' } = _
    rw [run_bind (eat_missed (by simp [last]))]
    rfl

/-- A pattern of a character and bounds is read to its end, or has bounds out of order. -/
theorem validate_bounded (atom' : isAtomCharacter d.unicode c = true) (at' : d.TextAt 0 (bounded c low high)) :
    d.validate.1 = if OutOfOrder low high then .error .quantifierOutOfOrder else .ok () := by
  obtain ⟨branches, branch, run⟩ := disjunction_bounded (p := {}) isLow isHigh 999 atom' at'
  have size : (({} : Progress).skip (bounded c low high)).pos = d.units.size := at'.size
  by_cases less : OutOfOrder low high
  · rw [if_pos less] at run ⊢
    have fails : pattern d {} = .error .quantifierOutOfOrder _ := run_fails run
    have read : d.readPattern = .error .quantifierOutOfOrder := by
      simp only [Dialect.readPattern, ReaderT.run, EStateM.run, fails]
    simp only [Dialect.validate, read]
  · rw [if_neg less] at run ⊢
    have read : d.readPattern = .ok { ({} : Progress).skip (bounded c low high) with branches, branch } := by
      refine readPattern_eq_ok.2 (pattern_eq_ok.2 ⟨run, fun inside => absurd size inside, ?_, ?_⟩)
      · exact Nat.le_refl _
      · simp [Progress.skip]
    simp [Dialect.validate, read, Progress.skip]

end

/-! ### Literals -/

/-- Behind one character, two bounds are a fault exactly if the second number is the smaller, where numbers count no
further than the largest. -/
theorem validateLiteral_bounded {edition : Nat} {flags : List Char} (known : checkFlags edition flags = .ok ())
    (isLow : Core.IsNumber low) (isHigh : Core.IsNumber high)
    (atom' : isAtomCharacter (Dialect.ofFlags (bounded c low high) flags edition).unicode c = true) :
    (validateLiteral edition (bounded c low high) flags).mapError Fault.message =
      if min (Core.numberIn high) maxNumber < min (Core.numberIn low) maxNumber then
        .error "numbers out of order in \x7b\x7d quantifier"
      else .ok () := by
  have validated := validate_bounded isLow isHigh atom' textAt_ofFlags
  unfold validateLiteral
  rw [known]
  show ((Dialect.ofFlags (bounded c low high) flags edition).validate.1).mapError Fault.message = _
  rw [validated]
  by_cases less : OutOfOrder low high
  · rw [if_pos less, if_pos (show _ < _ from less)]
    rfl
  · rw [if_neg less, if_neg (show ¬ _ < _ from less)]
    rfl

/-- Zeros in front do not count, and a character may be two code units. -/
theorem validateLiteral_bounded_zeros :
    let low := "0010".toList
    let high := "9".toList
    let c := '😀'
    checkFlags 5 [] = .ok () ∧ Core.IsNumber low ∧ Core.IsNumber high ∧
      isAtomCharacter (Dialect.ofFlags (bounded c low high) [] 5).unicode c = true ∧
      (validateLiteral 5 (bounded c low high) []).mapError Fault.message =
        .error "numbers out of order in \x7b\x7d quantifier" := by
  intro low high c
  have isLow : Core.IsNumber low := ⟨by decide, by simp [low, Alphabet.isDecimalDigit]⟩
  have isHigh : Core.IsNumber high := ⟨by decide, by simp [high, Alphabet.isDecimalDigit]⟩
  have known : checkFlags 5 [] = .ok () := by decide
  have atom' : isAtomCharacter (Dialect.ofFlags (bounded c low high) [] 5).unicode c = true := by decide
  exact ⟨known, isLow, isHigh, atom', (validateLiteral_bounded known isLow isHigh atom').trans (if_pos (by decide))⟩

/-- Two numbers above the largest are the same bound, whichever is written first. -/
theorem validateLiteral_bounded_saturates :
    let low := "18446744073709551617".toList
    let high := "18446744073709551616".toList
    ¬ ((validateLiteral 17 (bounded 'a' low high) []).mapError Fault.message =
        .error "numbers out of order in \x7b\x7d quantifier" ↔ Core.numberIn high < Core.numberIn low) := by
  intro low high same
  have accepted : validateLiteral 17 (bounded 'a' low high) [] = .ok () := by decide +kernel
  have refused := same.2 (by decide +kernel)
  rw [accepted] at refused
  cases refused

end RegExp
end ScriptSyntax
