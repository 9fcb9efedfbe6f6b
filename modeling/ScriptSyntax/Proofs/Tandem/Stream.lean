import ScriptSyntax.Proofs.Tandem.Quoted
import ScriptSyntax.Lexer.Stream

/-!
Two lexers side by side read the same tokens.
-/

namespace ScriptSyntax.Tandem

open LexM

variable {n : Nat} {a b : Source} {o : Options} {l k : Lexer}

/-! ### Words -/

theorem readWordEscape_agrees {atStart : Bool} (start : a.charAt l.pos = some '\\') :
    (lexers n a b o).Agrees (· = l) (readWordEscape atStart) (readWordEscape atStart) (Equal fun _ _ => True) := by
  refine .given fun _ before => .look .pos (.alter (fun _ => rfl) (fun sited => { sited with }) ?_)
  refine .pass start rfl (.given fun _ after => .look .sees (.ite (fun mark => ?_) fun _ => ?_))
  · refine .pass (by simpa using mark) rfl (.read (readCodePoint_agrees.each ?_))
    rintro _ _ r (code | _ | same)
    · rw [show (setting b o).astral = (setting a o).astral from rfl]
      dsimp only
      split
      · exact .pure fun _ _ => ⟨rfl, trivial⟩
      · exact .fail before.sited.pos (by simp)
    · exact .fail before.sited.pos (by simp)
    · exact .throw same
  · exact .look .pos (.stops (.fail after.sited.pos (by simp)))

theorem wordPass_agrees {word : List Char} :
    (lexers n a b o).Agrees (· = l) (wordPass word) (wordPass word)
      (Equal (Turn (fun _ _ => True) fun _ _ => True)) := by
  refine .look .peek ?_
  split
  · exact .pure fun _ _ => ⟨rfl, trivial⟩
  · next c here =>
    refine .read (.ite (fun _ => .skip here (.pure fun _ _ => ⟨rfl, trivial⟩)) fun _ =>
      .ite (fun slash => ?_) fun _ => ?_)
    · exact (readWordEscape_agrees (slash ▸ here)).step fun _ _ _ => .pure fun _ _ => ⟨rfl, trivial⟩
    · exact .pure fun _ _ => ⟨rfl, trivial⟩

theorem readWordText_agrees :
    (lexers n a b o).Agrees (· = l) readWordText readWordText (Equal fun _ _ => True) := by
  refine .alter (fun _ => rfl) (fun sited => { sited with }) ?_
  refine Bond.Agrees.step (.repeatForward (fun _ _ _ => wordPass_agrees) trivial) fun _ _ _ => ?_
  exact .pure fun _ _ => ⟨rfl, trivial⟩

theorem readWord_agrees : (lexers n a b o).Agrees (· = l) readWord readWord (Equal fun _ _ => True) :=
  readWordText_agrees.step fun _ _ _ => .read finish_agrees

/-! ### Numbers -/

/-- The token is where it was, and a separator at the end is one byte long. -/
structure Counted (n : Nat) (a : Source) (token : Extent) (run : DigitRun) (r : Lexer) : Prop where
  token : r.token = token
  separator : run.separatorLast = true → a.Placed n (r.pos - 1)

theorem digitPass_agrees {radix start : Nat} {legacy : Bool} {run : DigitRun} {token : Extent}
    (here : Counted n a token run l) :
    (lexers n a b o).Agrees (· = l) (digitPass radix start legacy run) (digitPass radix start legacy run)
      (Equal (Turn (Counted n a token) (Counted n a token))) := by
  refine .given fun _ h => .look .peek ?_
  split
  · exact .pure fun _ same => ⟨rfl, same ▸ here⟩
  · next c next =>
    refine .look .edition (.ite (fun separator => ?_) fun _ => ?_)
    · refine .look .pos (.ite (fun _ => .stops (.failRecoverable h.sited.pos (by simp))) fun _ =>
        .ite (fun _ => .stops (.failRecoverable h.sited.pos (by simp))) fun _ =>
        .ite (fun _ => .stops (.failRecoverable h.sited.pos (by simp))) fun _ => ?_)
      exact .pass (separator.1 ▸ next) rfl (.pure fun _ same => ⟨rfl, same ▸ ⟨here.token, fun _ => h.sited.pos⟩⟩)
    · cases digit : Alphabet.digit? radix c with
      | some d =>
        exact .pass next (Alphabet.utf8Size_of_digit? digit) (.pure fun _ same => ⟨rfl, same ▸ ⟨here.token, nofun⟩⟩)
      | none => exact .pure fun _ same => ⟨rfl, same ▸ here⟩

theorem readDigits_agrees {radix : Nat} {maybeLegacy : Bool} :
    (lexers n a b o).Agrees (· = l) (readDigits radix maybeLegacy) (readDigits radix maybeLegacy)
      (Equal fun _ r => r.token = l.token) := by
  have rest (start : Nat) (legacy : Bool) : (lexers n a b o).Agrees (· = l)
      (do
        let run ← repeatForward {} (digitPass radix start legacy)
        if run.separatorLast then failRecoverable ((← pos) - 1) .separatorLast
        return if run.digits.isEmpty then none else some run.digits.reverse)
      (do
        let run ← repeatForward {} (digitPass radix start legacy)
        if run.separatorLast then failRecoverable ((← pos) - 1) .separatorLast
        return if run.digits.isEmpty then none else some run.digits.reverse)
      (Equal fun _ r => r.token = l.token) := by
    refine Bond.Agrees.step (.repeatForward (I := Counted n a l.token) (fun _ _ => digitPass_agrees) ⟨rfl, nofun⟩)
      fun run r after => ?_
    refine .ite (fun last => .look .pos (.stops (.failRecoverable (after.separator last) (by simp)))) fun _ => ?_
    exact .pure fun _ same => ⟨rfl, same ▸ after.token⟩
  refine .look .pos ?_
  cases maybeLegacy with
  | false => exact .look .pure (rest _ _)
  | true => exact .look .sees (rest _ _)

theorem checkNumberEnd_agrees :
    (lexers n a b o).Agrees (· = l) checkNumberEnd checkNumberEnd (Equal fun _ r => r = l) := by
  refine .given fun _ h => .read (.look .peek (.ite (fun _ => .look .pos (.fail h.sited.pos (by simp))) fun _ => ?_))
  exact .pure fun _ same => ⟨rfl, same⟩

theorem bigintDigits_agrees {start : Nat} (le : n ≤ start) :
    (lexers n a b o).Agrees (· = l) (bigintDigits start) (bigintDigits start) (Equal fun _ r => r = l) := by
  refine .given fun _ h => .source (.look .pos ?_)
  rw [h.texts.agree.chars le l.pos h.sited.le]
  exact .pure fun _ same => ⟨rfl, same⟩

theorem readRadixNumber_agrees {radix : Nat} (token : l.token.start = l.pos) (placed : a.Placed n (l.pos + 2)) :
    (lexers n a b o).Agrees (· = l) (readRadixNumber radix) (readRadixNumber radix) (Equal fun _ _ => True) := by
  refine .given fun _ before => .look .pos (.advance placed (readDigits_agrees.step fun digits r after => ?_))
  cases digits with
  | none =>
    refine .get fun k h => ?_
    rw [show k.token.start = r.token.start by rw [h.lines]; rfl, show r.token.start = l.pos by rw [after]; exact token]
    exact .fail placed (by simp)
  | some digits =>
    refine .look .edition (.look .sees (.ite (fun big => ?_) fun _ =>
      checkNumberEnd_agrees.step fun _ _ _ => finish_agrees))
    refine (bigintDigits_agrees before.sited.le).step ?_
    rintro text _ rfl
    exact .pass (c := 'n') (by simp_all) rfl finish_agrees

theorem readFraction_agrees : (lexers n a b o).Agrees (· = l) readFraction readFraction (Equal fun _ _ => True) := by
  refine .look .sees (.ite (fun point => ?_) fun _ => .pure fun _ _ => ⟨rfl, trivial⟩)
  exact .pass (c := '.') (by simpa using point) rfl (readDigits_agrees.step fun _ _ _ =>
    .pure fun _ _ => ⟨rfl, trivial⟩)

theorem readExponent_agrees {start : Nat} (placed : a.Placed n start) :
    (lexers n a b o).Agrees (· = l) (readExponent start) (readExponent start) (Equal fun _ _ => True) := by
  have digits {l : Lexer} : (lexers n a b o).Agrees (· = l)
      (do if (← readDigits 10 false).isNone then fail start .invalidNumber)
      (do if (← readDigits 10 false).isNone then fail start .invalidNumber) (Equal fun _ _ => True) :=
    readDigits_agrees.step fun _ _ _ => .ite (fun _ => .fail placed (by simp)) fun _ => .pure fun _ _ => ⟨rfl, trivial⟩
  refine .look .sees (.look .sees (.ite (fun mark => ?_) fun _ => .pure fun _ _ => ⟨rfl, trivial⟩))
  have next : ∃ c, a.charAt l.pos = some c ∧ c.utf8Size = 1 := by
    simp only [Bool.or_eq_true, beq_iff_eq] at mark
    exact mark.elim (⟨_, ·, rfl⟩) (⟨_, ·, rfl⟩)
  obtain ⟨c, here, ascii⟩ := next
  refine .pass here ascii (.look .sees (.look .sees (.ite (fun sign => ?_) fun _ => digits)))
  have next : ∃ c, a.charAt (l.pos + 1) = some c ∧ c.utf8Size = 1 := by
    simp only [Bool.or_eq_true, beq_iff_eq] at sign
    exact sign.elim (⟨_, ·, rfl⟩) (⟨_, ·, rfl⟩)
  obtain ⟨c, here, ascii⟩ := next
  exact .pass here ascii digits

theorem readNumber_agrees {startsWithDot : Bool} :
    (lexers n a b o).Agrees (· = l) (readNumber startsWithDot) (readNumber startsWithDot) (Equal fun _ _ => True) := by
  refine .given fun _ before => .look .pos ?_
  have start := before.sited.pos
  -- The whole part is read or left out, and the rest is the same either way.
  have whole {m₀ m₁ : LexM Unit} (rest : ∀ r, (lexers n a b o).Agrees (· = r) m₀ m₁ (Equal fun _ _ => True)) :
      (lexers n a b o).Agrees (· = l)
        (if startsWithDot = true then m₀
          else do
            if (← readDigits 10 true).isNone then
              fail l.pos .invalidNumber
              m₀
            else m₀)
        (if startsWithDot = true then m₁
          else do
            if (← readDigits 10 true).isNone then
              fail l.pos .invalidNumber
              m₁
            else m₁) (Equal fun _ _ => True) := by
    refine .ite (fun _ => rest l) fun _ => readDigits_agrees.step fun _ r _ => .ite (fun _ => ?_) fun _ => rest r
    exact .stops (.fail start (by simp))
  refine whole fun r => .given fun _ h => .source (.look .pos (.look .pos (.get fun k h => ?_)))
  dsimp only
  rw [show k.strict =
    r.strict by rw [h.lines]; rfl, h.texts.agree.chars start.le _ h.sited.pos.le, h.texts.agree.has start.le]
  refine .ite (fun _ => .stops (.fail start (by simp))) fun _ =>
    .look .edition (.look .sees (.ite (fun big => ?_) fun _ => ?_))
  · refine (bigintDigits_agrees start.le).step ?_
    rintro text _ rfl
    exact .pass (c := 'n') (by simp_all) rfl (checkNumberEnd_agrees.step fun _ _ _ => finish_agrees)
  · refine .ite (fun _ => checkNumberEnd_agrees.step fun _ _ _ => finish_agrees) fun _ => ?_
    refine readFraction_agrees.step fun _ _ _ => (readExponent_agrees start).step fun _ _ _ =>
      checkNumberEnd_agrees.step fun _ q _ => ?_
    refine .given fun _ after => .look .pos ?_
    rw [h.texts.agree.chars start.le _ after.sited.pos.le]
    exact finish_agrees

/-! ### Regular expressions -/

theorem bodyPass_agrees {start : Nat} {state : BodyState} (placed : a.Placed n start) :
    (lexers n a b o).Agrees (· = l) (bodyPass start state) (bodyPass start state)
      (Equal (Turn (fun _ _ => True) fun _ r => a.charAt r.pos = some '/')) := by
  refine .look .peek ?_
  split
  · exact .fail placed (by simp)
  · next c here =>
    refine .ite (fun _ => .fail placed (by simp)) fun _ =>
      .ite (fun _ => .skip here (.pure fun _ _ => ⟨rfl, trivial⟩)) fun _ =>
      .ite (fun ends => .pure fun _ same => ⟨rfl, ?_⟩) fun _ => .skip here (.pure fun _ _ => ⟨rfl, trivial⟩)
    exact show a.charAt _ = _ from same ▸ ends.1 ▸ here

theorem readRegExp_agrees : (lexers n a b o).Agrees (· = l) readRegExp readRegExp (Equal fun _ _ => True) := by
  refine .given fun _ before => .look .pos ?_
  refine Bond.Agrees.step (.repeatForward (fun _ _ _ => bodyPass_agrees before.sited.pos) trivial) fun _ r slash => ?_
  refine .given fun _ after => .source (.look .pos ?_)
  dsimp only
  rw [after.texts.agree.chars before.sited.pos.le _ after.sited.pos.le]
  refine .pass slash rfl (.given fun _ flags =>
    .look .pos (readWordText_agrees.step fun word q _ => .get fun k h => ?_))
  rw [show k.containsEscape = q.containsEscape by rw [h.lines]; rfl]
  refine .ite (fun _ => .stops (.fail flags.sited.pos (by simp))) fun _ => .look .edition ?_
  split
  · exact finish_agrees
  · refine .get fun k h => ?_
    rw [show k.token.start = q.token.start by rw [h.lines]; rfl]
    exact .failRecoverable h.sited.start (by simp)

theorem readSlash_agrees (slash : a.charAt l.pos = some '/') :
    (lexers n a b o).Agrees (· = l) readSlash readSlash (Equal fun _ _ => True) := by
  refine .get fun k h => ?_
  rw [show k.exprAllowed = l.exprAllowed by rw [h.lines]; rfl]
  refine .ite (fun _ => .pass slash rfl readRegExp_agrees) fun _ =>
    .look .seesAhead (.ite (fun equals => ?_) fun _ => ?_)
  · exact finishOperator_agrees (.succ (Nat.le_succ_of_le h.sited.le) (by simpa using equals) rfl)
  · exact finishOperator_agrees (.succ h.sited.le slash rfl)

/-! ### Operators and punctuation -/

/-- A character at the cursor, or a byte past it, is one byte long. -/
theorem Abreast.past {d : Nat} {c : Char} (h : Abreast n a b o l k) (here : (a.charAt (l.pos + d) == some c) = true)
    (ascii : c.utf8Size = 1) : a.Placed n (l.pos + (d + 1)) :=
  .succ (Nat.le_add_right_of_le h.sited.le) (beq_iff_eq.mp here) ascii

theorem readAssignable_agrees {kind assign : TokenKind} {size : Nat} (placed : a.Placed n (l.pos + size)) :
    (lexers n a b o).Agrees (· = l) (readAssignable kind assign size) (readAssignable kind assign size)
      (Equal fun _ _ => True) := by
  refine .given fun _ h => .look .seesAhead (.ite (fun equals => ?_) fun _ => finishOperator_agrees placed)
  exact finishOperator_agrees (h.past equals rfl)

section Operators

variable {c : Char} (ascii : c.utf8Size = 1) (here : a.charAt l.pos = some c)
include ascii here

theorem operator_agrees {kind : TokenKind} :
    (lexers n a b o).Agrees (· = l) (finishOperator kind 1) (finishOperator kind 1) (Equal fun _ _ => True) :=
  .given fun _ h => finishOperator_agrees (.succ h.sited.le here ascii)

theorem assignable_agrees {kind assign : TokenKind} :
    (lexers n a b o).Agrees (· = l) (readAssignable kind assign 1) (readAssignable kind assign 1)
      (Equal fun _ _ => True) :=
  .given fun _ h => readAssignable_agrees (.succ h.sited.le here ascii)

theorem readDot_agrees : (lexers n a b o).Agrees (· = l) readDot readDot (Equal fun _ _ => True) := by
  refine .given fun _ h => .look .charAhead (.ite (fun _ => readNumber_agrees) fun _ => ?_)
  refine .look .edition (.look .seesAhead (.look .seesAhead
    (.ite (fun dots => ?_) fun _ => operator_agrees ascii here)))
  exact finishOperator_agrees (h.past (d := 2) (c := '.') (by simp_all) rfl)

theorem readStar_agrees : (lexers n a b o).Agrees (· = l) readStar readStar (Equal fun _ _ => True) := by
  refine .given fun _ h => .look .edition (.look .seesAhead
    (.ite (fun star => ?_) fun _ => assignable_agrees ascii here))
  exact readAssignable_agrees (h.past (d := 1) (c := '*') (by simp_all) rfl)

theorem readLogical_agrees {single singleAssign double doubleAssign : TokenKind} :
    (lexers n a b o).Agrees (· = l) (readLogical c single singleAssign double doubleAssign)
      (readLogical c single singleAssign double doubleAssign) (Equal fun _ _ => True) := by
  refine .given fun _ h => .look .seesAhead (.ite (fun again => ?_) fun _ => assignable_agrees ascii here)
  have placed := h.past again ascii
  exact .look .edition (.ite (fun _ => readAssignable_agrees placed) fun _ => finishOperator_agrees placed)

omit ascii here in
theorem atClosingComment_agrees :
    (lexers n a b o).Agrees (· = l) atClosingComment atClosingComment
      (Equal fun x r => (x = true → a.charAt (l.pos + 2) = some '>') ∧ r = l) := by
  refine .get fun k h => .look .seesAhead (.read (.ite (fun arrow => .source ?_) fun _ => .pure fun _ same =>
    ⟨rfl, nofun, same⟩))
  rw [show k.last.stop = l.last.stop by rw [h.lines]; rfl, show k.pos = l.pos by rw [h.lines]; rfl,
    h.texts.agree.hasLineBreak h.sited.lastStop.le _ h.sited.le]
  exact .pure fun _ same => ⟨rfl, fun _ => by simp_all, same⟩

theorem readMinus_agrees : (lexers n a b o).Agrees (· = l) readMinus readMinus (Equal fun _ _ => True) := by
  refine .given fun _ h => .look .seesAhead (.ite (fun minus => ?_) fun _ => ?_)
  · refine atClosingComment_agrees.step ?_
    rintro closes _ ⟨arrow, rfl⟩
    refine .ite (fun yes => ?_) fun _ => ?_
    · refine (skipLineComment_agrees (h.past (d := 2) (beq_iff_eq.mpr (arrow yes)) rfl)).step fun _ _ _ => ?_
      exact .pure fun _ _ => ⟨rfl, trivial⟩
    · exact (finishOperator_agrees (h.past minus rfl)).step fun _ _ _ => .pure fun _ _ => ⟨rfl, trivial⟩
  · exact (assignable_agrees ascii here).step fun _ _ _ => .pure fun _ _ => ⟨rfl, trivial⟩

theorem readPlus_agrees : (lexers n a b o).Agrees (· = l) readPlus readPlus (Equal fun _ _ => True) := by
  refine .given fun _ h => .look .seesAhead (.ite (fun plus => ?_) fun _ => assignable_agrees ascii here)
  exact finishOperator_agrees (h.past plus rfl)

theorem readGreater_agrees : (lexers n a b o).Agrees (· = l) readGreater readGreater (Equal fun _ _ => True) := by
  refine .given fun _ h => .look .seesAhead (.ite (fun second => ?_) fun _ => assignable_agrees ascii here)
  refine .look .seesAhead (.ite (fun third => ?_) fun _ => ?_)
  · exact readAssignable_agrees (h.past third rfl)
  · exact readAssignable_agrees (h.past second rfl)

theorem readLess_agrees : (lexers n a b o).Agrees (· = l) readLess readLess (Equal fun _ _ => True) := by
  have done {l : Lexer} (m : LexM Unit) (h : (lexers n a b o).Agrees (· = l) m m (Equal fun _ _ => True)) (x : Bool) :
      (lexers n a b o).Agrees (· = l) (do m; return x) (do m; return x) (Equal fun _ _ => True) :=
    h.step fun _ _ _ => .pure fun _ _ => ⟨rfl, trivial⟩
  refine .given fun _ h => .look .seesAhead (.ite (fun second => ?_) fun _ => ?_)
  · exact done _ (readAssignable_agrees (h.past second rfl)) true
  · refine .read (.look .seesAhead (.look .seesAhead (.look .seesAhead (.ite (fun comment => ?_) fun _ => ?_))))
    · have placed := h.past (d := 3) (c := '-') (by simp_all) rfl
      exact done _ ((skipLineComment_agrees placed).weaken fun _ _ _ same => ⟨same.1, trivial⟩) false
    · exact done _ (assignable_agrees ascii here) true

theorem readEquals_agrees : (lexers n a b o).Agrees (· = l) readEquals readEquals (Equal fun _ _ => True) := by
  refine .given fun _ h => .look .seesAhead (.ite (fun second => readAssignable_agrees (h.past second rfl)) fun _ => ?_)
  refine .look .edition (.look .seesAhead (.ite (fun arrow => ?_) fun _ => operator_agrees ascii here))
  exact finishOperator_agrees (h.past (d := 1) (c := '>') (by simp_all) rfl)

theorem readBang_agrees : (lexers n a b o).Agrees (· = l) readBang readBang (Equal fun _ _ => True) :=
  .given fun _ h => .look .seesAhead (.ite (fun second => readAssignable_agrees (h.past second rfl)) fun _ =>
    operator_agrees ascii here)

theorem readQuestion_agrees : (lexers n a b o).Agrees (· = l) readQuestion readQuestion (Equal fun _ _ => True) := by
  refine .given fun _ h => .look .edition (.ite (fun _ => operator_agrees ascii here) fun _ => ?_)
  refine .look .seesAhead (.look .charAhead (.ite (fun dot => ?_) fun _ =>
    .look .seesAhead (.ite (fun second => ?_) fun _ => ?_)))
  · exact finishOperator_agrees (h.past (d := 1) (c := '.') (by simp_all) rfl)
  · have placed := h.past second rfl
    exact .look .edition (.ite (fun _ => readAssignable_agrees placed) fun _ => finishOperator_agrees placed)
  · exact operator_agrees ascii here

theorem readHash_agrees : (lexers n a b o).Agrees (· = l) readHash readHash (Equal fun _ _ => True) := by
  refine .given fun _ h => .look .edition
    (.ite (fun _ => .look .pos (.stops (.fail h.sited.pos (by simp)))) fun _ => ?_)
  refine .pass here ascii (.given fun _ after => .look .peek ?_)
  dsimp only
  split
  · refine .ite (fun _ => readWordText_agrees.step fun _ _ _ => finish_agrees) fun _ =>
      .look .pos (.fail after.sited.pos (by simp))
  · exact .look .pos (.fail after.sited.pos (by simp))

end Operators

theorem readZero_agrees (token : l.token.start = l.pos) :
    (lexers n a b o).Agrees (· = l) readZero readZero (Equal fun _ _ => True) := by
  refine .given fun _ h => .look .charAhead (.look .edition ?_)
  split
  · next radix mark =>
    obtain ⟨c, next, known⟩ := Option.bind_eq_some_iff.mp mark
    have ascii : c.utf8Size = 1 := by
      unfold radixMark? at known
      split at known <;> first | rfl | cases known
    exact readRadixNumber_agrees token (.succ (Nat.le_succ_of_le h.sited.le) next ascii)
  · exact readNumber_agrees

/-! ### Tokens -/

theorem readToken_agrees {c : Char} (token : l.token.start = l.pos) (here : a.charAt l.pos = some c) :
    (lexers n a b o).Agrees (· = l) (readToken c) (readToken c) (Equal fun _ _ => True) := by
  have done (m : LexM Unit) (h : (lexers n a b o).Agrees (· = l) m m (Equal fun _ _ => True)) :
      (lexers n a b o).Agrees (· = l) (do m; return true) (do m; return true) (Equal fun _ _ => True) :=
    h.step fun _ _ _ => .pure fun _ _ => ⟨rfl, trivial⟩
  refine .read (.ite (fun _ => done _ readWord_agrees) fun _ => ?_)
  split
  case h_1 => exact done _ (readDot_agrees rfl here)
  case h_11 => exact done _ (readZero_agrees token)
  case h_12 => exact done _ (readString_agrees here rfl)
  case h_13 => exact done _ (readString_agrees here rfl)
  case h_14 => exact done _ (readSlash_agrees here)
  case h_15 => exact done _ (assignable_agrees rfl here)
  case h_16 => exact done _ (readStar_agrees rfl here)
  case h_17 => exact done _ (readLogical_agrees rfl here)
  case h_18 => exact done _ (readLogical_agrees rfl here)
  case h_19 => exact done _ (assignable_agrees rfl here)
  case h_20 => exact done _ (readPlus_agrees rfl here)
  case h_21 => exact readMinus_agrees rfl here
  case h_22 => exact readLess_agrees rfl here
  case h_23 => exact done _ (readGreater_agrees rfl here)
  case h_24 => exact done _ (readEquals_agrees rfl here)
  case h_25 => exact done _ (readBang_agrees rfl here)
  case h_26 => exact done _ (readQuestion_agrees rfl here)
  case h_28 => exact done _ (readHash_agrees rfl here)
  case h_29 =>
    refine .ite (fun _ => done _ readNumber_agrees) fun _ => .ite (fun quote => ?_) fun _ => ?_
    · exact done _ (operator_agrees (quote.1 ▸ rfl) here)
    · exact .given fun _ h => .look .pos (.fail h.sited.pos (by simp))
  all_goals exact done _ (operator_agrees rfl here)

theorem readExtension_sees : (lexers n a b o).Sees l readExtension false := fun _ _ => ⟨rfl, rfl⟩

/-- The cursor is at a boundary, so before the end of the text a character stands there. -/
theorem readPass_agrees :
    (lexers n a b o).Agrees (· = l) (readPass ⟨⟩) (readPass ⟨⟩) (Equal (Turn (fun _ _ => True) fun _ _ => True)) := by
  refine .get fun k h => ?_
  rw [show k.context = l.context by rw [h.lines]; rfl]
  have gap {m₀ m₁ : LexM (Pass Unit Unit)}
      (rest : ∀ r, (lexers n a b o).Agrees (· = r) m₀ m₁ (Equal (Turn (fun _ _ => True) fun _ _ => True))) :
      (lexers n a b o).Agrees (· = l) (if l.context.keepsBlank = true then m₀ else do skipBlank; m₀)
        (if l.context.keepsBlank = true then m₁ else do skipBlank; m₁)
          (Equal (Turn (fun _ _ => True) fun _ _ => True)) :=
    .ite (fun _ => rest l) fun _ => skipBlank_agrees.step fun _ r _ => rest r
  refine gap fun r => ?_
  refine .alter (fun _ => rfl) (fun sited => { sited with start := sited.pos }) ?_
  refine .given fun _ h => .source (.look .pos ?_)
  rw [h.size]
  refine .ite (fun _ => finish_agrees.step fun _ _ _ => .pure fun _ _ => ⟨rfl, trivial⟩) fun inside => ?_
  refine .look readExtension_sees (.ite nofun fun _ => .ite (fun _ => ?_) fun _ => .look .peek ?_)
  · exact readTemplate_agrees.step fun _ _ _ => .pure fun _ _ => ⟨rfl, trivial⟩
  · obtain ⟨c, here⟩ := Source.charAt_of_isBoundary h.sited.pos.boundary (Nat.lt_of_not_le inside)
    rw [here]
    refine (readToken_agrees rfl here).step fun token _ _ => ?_
    cases token <;> exact .pure fun _ _ => ⟨rfl, trivial⟩

theorem readNext_agrees : (lexers n a b o).Agrees (· = l) readNext readNext (Equal fun _ _ => True) :=
  .repeatForward (fun _ _ _ => readPass_agrees) trivial

theorem next_agrees : (lexers n a b o).Agrees (· = l) next next (Equal fun _ _ => True) := by
  refine .read (.change (fun k h => ?_) readNext_agrees)
  refine h.changes (c := fun l =>
    { l with tokens := (setting a o).currentToken l.toCursor :: l.tokens, last := l.token })
    (d := fun l => { l with tokens := (setting b o).currentToken l.toCursor :: l.tokens, last := l.token })
      (fun _ => rfl) ?_ ?_
  · rintro - rfl
    rfl
  · exact { h.sited with lastStart := h.sited.start, lastStop := h.sited.stop }

end ScriptSyntax.Tandem
