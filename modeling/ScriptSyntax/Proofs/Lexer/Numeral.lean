import ScriptSyntax.Proofs.Lexer.Escape
import ScriptSyntax.Proofs.Lexer.Trivia

/-!
How numbers are written, from the twelfth edition on, and what they say.  The lexer reads a number where one is written
so, and nowhere else.
-/

namespace ScriptSyntax

open LexM

/-! ### Digits with separators -/

/-- The text without its separators. -/
def unseparated (text : List Char) : List Char := text.filter (· != '_')

/-- Digits of a radix.  A separator stands only between two of them. -/
inductive DigitsOf (radix : Nat) : List Char → Prop
  | last {c : Char} (digit : (Alphabet.digit? radix c).isSome = true) : DigitsOf radix [c]
  | next {c : Char} {r : List Char} (digit : (Alphabet.digit? radix c).isSome = true) (more : DigitsOf radix r) :
      DigitsOf radix (c :: r)
  | separated {c : Char} {r : List Char} (digit : (Alphabet.digit? radix c).isSome = true) (more : DigitsOf radix r) :
    DigitsOf radix (c :: '_' :: r)

/-- The values of the digits. -/
def digitValues (radix : Nat) (text : List Char) : List Nat := text.filterMap (Alphabet.digit? radix)

variable {radix digit : Nat} {c d : Char} {r text rest : List Char}

theorem unseparated_append : unseparated (text ++ rest) = unseparated text ++ unseparated rest := List.filter_append ..

theorem digit?_separator (radix : Nat) : Alphabet.digit? radix '_' = none := by
  simp [Alphabet.digit?, Alphabet.digitValue?, Alphabet.isDecimalDigit]

theorem ne_separator_of_digit (digit : (Alphabet.digit? radix c).isSome = true) : c ≠ '_' := by
  rintro rfl
  simp [digit?_separator] at digit

namespace DigitsOf

theorem head (digits : DigitsOf radix r) : ∃ c t, r = c :: t ∧ (Alphabet.digit? radix c).isSome = true := by
  cases digits with
  | last digit => exact ⟨_, _, rfl, digit⟩
  | next digit more => exact ⟨_, _, rfl, digit⟩
  | separated digit more => exact ⟨_, _, rfl, digit⟩

theorem snoc (digits : DigitsOf radix r) (digit : (Alphabet.digit? radix c).isSome = true) :
    DigitsOf radix (r ++ [c]) := by
  induction digits with
  | last first => exact .next first (.last digit)
  | next first _ ih => exact .next first ih
  | separated first _ ih => exact .separated first ih

theorem snoc_separated (digits : DigitsOf radix r) (digit : (Alphabet.digit? radix c).isSome = true) :
    DigitsOf radix (r ++ ['_'] ++ [c]) := by
  induction digits with
  | last first => exact .separated first (.last digit)
  | next first _ ih => exact .next first ih
  | separated first _ ih => exact .separated first ih

theorem values_ne_nil (digits : DigitsOf radix r) : digitValues radix r ≠ [] := by
  obtain ⟨c, t, rfl, digit⟩ := digits.head
  obtain ⟨n, value⟩ := Option.isSome_iff_exists.mp digit
  simp [digitValues, value]

end DigitsOf

/-- How far a run of digits is read once the text is behind the cursor. -/
inductive LexM.DigitRun.Of (radix : Nat) : List Char → DigitRun → Prop
  | start : Of radix [] ⟨[], false⟩
  | digits {r : List Char} (digits : DigitsOf radix r) : Of radix r ⟨(digitValues radix r).reverse, false⟩
  | separator {r : List Char} (digits : DigitsOf radix r) : Of radix (r ++ ['_']) ⟨(digitValues radix r).reverse, true⟩

theorem LexM.DigitRun.Of.snoc {run : DigitRun} (before : run.Of radix r)
    (value : Alphabet.digit? radix c = some digit) :
    DigitRun.Of radix (r ++ [c]) ⟨digit :: run.digits, false⟩ := by
  have known : (Alphabet.digit? radix c).isSome = true := by simp [value]
  cases before with
  | start =>
    rw [show digit :: [] = (digitValues radix [c]).reverse by simp [digitValues, value]]
    exact .digits (.last known)
  | digits digits =>
    rw [show digit :: (digitValues radix r).reverse =
      (digitValues radix (r ++ [c])).reverse by simp [digitValues, value]]
    exact .digits (digits.snoc known)
  | @separator r digits =>
    rw [show digit :: (digitValues radix r).reverse =
      (digitValues radix (r ++ ['_'] ++ [c])).reverse by simp [digitValues, digit?_separator, value]]
    exact .digits (digits.snoc_separated known)

variable {s : Setting} {l l' : Lexer} {legacy maybeLegacy : Bool}

/-- What may stand behind digits. -/
def StopsDigits (radix : Nat) (rest : List Char) : Prop := ∀ c ∈ rest.head?, c ≠ '_' ∧ Alphabet.digit? radix c = none

/-- One more character of a run of digits is read. -/
theorem digitPass_of (late : 12 ≤ s.edition) {start : Nat} {run : DigitRun} (before : run.Of radix r)
    (pos : l.pos = start + width r)
    (at' : s.source.TextAt l.pos text) {x : Pass DigitRun DigitRun}
    (pass : Runs s (digitPass radix start legacy run) l x l') :
    (x = .done run ∧ l' = l ∧ StopsDigits radix text) ∨ ∃ c rest run', text = c :: rest ∧ x = .again run' ∧
      run'.Of radix (r ++ [c]) ∧ (legacy = true → c ≠ '_') ∧
      l' = { l with pos := l.pos + c.utf8Size } := by
  cases text with
  | nil =>
    simp [digitPass, at'.charAt_nil] at pass
    exact .inl ⟨pass.1, pass.2, by simp [StopsDigits]⟩
  | cons c rest =>
    simp only [digitPass, Runs.bind_iff, Runs.peek_iff, Runs.exists_look, at'.charAt_cons] at pass
    by_cases separator : c = '_'
    · subst separator
      simp [late, Nat.not_lt.mpr late] at pass
      obtain ⟨sloppy, single, inner, rfl, rfl⟩ := pass
      refine .inr ⟨'_', rest, _, rfl, rfl, ?_, by simp [sloppy], rfl⟩
      cases before with
      | start => simp [pos] at inner
      | digits digits => exact .separator digits
      | separator => cases single
    · simp [separator] at pass
      split at pass
      · next digit value =>
        simp at pass
        obtain ⟨rfl, rfl⟩ := pass
        have narrow : c.utf8Size = 1 := (Alphabet.utf8Size_of_digit? value)
        exact .inr ⟨c, rest, _, rfl, rfl, before.snoc value, fun _ => separator, by rw [narrow]⟩
      · next none =>
        simp at pass
        exact .inl ⟨pass.1, pass.2, by simpa [StopsDigits] using ⟨separator, none⟩⟩

theorem readDigits_iff (at' : s.source.TextAt l.pos text) {values : Option (List Nat)} :
    Runs s (readDigits radix maybeLegacy) l values l' ↔
    ∃ last, Runs s (repeatForward {} (digitPass radix l.pos (maybeLegacy && text.head? == some '0'))) l last l' ∧
      last.separatorLast = false ∧
      values = if last.digits = [] then none else some last.digits.reverse := by
  cases maybeLegacy <;> simp [readDigits, at'.charAt]

theorem readDigits_sound (late : 12 ≤ s.edition) (at' : s.source.TextAt l.pos text) {values : Option (List Nat)}
    (run : Runs s (readDigits radix maybeLegacy) l values l') :
    ∃ r rest, text = r ++ rest ∧ l' = { l with pos := l.pos + width r } ∧
      (r = [] ∧ values = none ∨ DigitsOf radix r ∧ values = some (digitValues radix r)) ∧
      (maybeLegacy = true → text.head? = some '0' → '_' ∉ r) ∧ StopsDigits radix rest := by
  obtain ⟨last, loops, ended, value⟩ := (readDigits_iff at').mp run
  generalize known : (maybeLegacy && text.head? == some '0') = legacy at loops
  obtain ⟨last', m, ⟨r, rest, split, rfl, before, none⟩, done⟩ := Runs.of_repeatForward
    (fun run m => ∃ r rest, text = r ++ rest ∧ m = { l with pos := l.pos + width r } ∧ run.Of radix r ∧
      (legacy = true → '_' ∉ r))
    ⟨[], text, rfl, rfl, .start, by simp⟩ (by
      rintro run run' m m' ⟨r, rest, split, rfl, before, none⟩ pass
      obtain ⟨same, -⟩ | ⟨c, rest, _, rfl, same, after, other, rfl⟩ :=
        digitPass_of late before rfl (split ▸ at').past pass
      · cases same
      · cases same
        refine ⟨r ++ [c], rest, by simp [split], by simp [width_append, Nat.add_assoc], after, fun known => ?_⟩
        simp [none known, (other known).symm]) loops
  obtain ⟨same, rfl, stop⟩ | ⟨_, _, _, _, same, -⟩ := digitPass_of late before rfl (split ▸ at').past done
  · cases same
    refine ⟨r, rest, split, rfl, ?_, fun may zero => none (by simp [← known, may, zero]), stop⟩
    cases before with
    | start => exact .inl ⟨rfl, by simpa using value⟩
    | digits digits => exact .inr ⟨digits, by simpa [digits.values_ne_nil] using value⟩
    | separator => cases ended
  · cases same

theorem readDigits_some_sound (late : 12 ≤ s.edition) (at' : s.source.TextAt l.pos text) {values : Option (List Nat)}
    (some : values ≠ none)
    (run : Runs s (readDigits radix maybeLegacy) l values l') :
    ∃ r rest, text = r ++ rest ∧ l' = { l with pos := l.pos + width r } ∧
      DigitsOf radix r ∧ values = .some (digitValues radix r) ∧
        (maybeLegacy = true → text.head? = .some '0' → '_' ∉ r) := by
  obtain ⟨r, rest, split, same, fits, plain, -⟩ := readDigits_sound late at' run
  obtain ⟨digits, value⟩ := fits.resolve_left fun none => some none.2
  exact ⟨r, rest, split, same, digits, value, plain⟩

section Digits

variable {start : Nat} {run : DigitRun}

theorem digitPass_stop (at' : s.source.TextAt l.pos rest) (stop : StopsDigits radix rest) :
    Runs s (digitPass radix start legacy run) l (.done run) l := by
  cases rest with
  | nil => simp [digitPass, at'.charAt_nil]
  | cons c rest =>
    obtain ⟨other, none⟩ := stop c rfl
    simp [digitPass, at'.charAt_cons, other, none]

theorem digitPass_digit (at' : s.source.TextAt l.pos (c :: rest)) (value : Alphabet.digit? radix c = some digit) :
    Runs s (digitPass radix start legacy run) l (.again ⟨digit :: run.digits, false⟩) { l with pos := l.pos + 1 } := by
  have known : (Alphabet.digit? radix c).isSome = true := by simp [value]
  simp [digitPass, at'.charAt_cons, ne_separator_of_digit known, value]

theorem digitPass_separator (late : 12 ≤ s.edition) (at' : s.source.TextAt l.pos ('_' :: rest))
    (single : run.separatorLast = false)
    (inner : l.pos ≠ start) :
    Runs s (digitPass radix start false run) l (.again { run with separatorLast := true })
      { l with pos := l.pos + 1 } := by
  simp [digitPass, at'.charAt_cons, late, single, inner]

theorem repeatForward_digit {last : DigitRun} (at' : s.source.TextAt l.pos (c :: rest))
    (value : Alphabet.digit? radix c = some digit)
    (more : Runs s (repeatForward ⟨digit :: run.digits, false⟩ (digitPass radix start legacy))
      { l with pos := l.pos + 1 } last l') :
    Runs s (repeatForward run (digitPass radix start legacy)) l last l' :=
  Runs.repeatForward_again (digitPass_digit at' value) (Nat.lt_succ_self _)
    (Source.lt_size_of_charAt at'.charAt_cons) more

/-- All the digits are read. -/
theorem repeatForward_digits (late : 12 ≤ s.edition) (digits : DigitsOf radix r) (plain : legacy = true → '_' ∉ r)
    (stop : StopsDigits radix rest)
    (at' : s.source.TextAt l.pos (r ++ rest)) (le : start ≤ l.pos) :
    Runs s (repeatForward run (digitPass radix start legacy)) l
      ⟨(digitValues radix r).reverse ++ run.digits, false⟩ { l with pos := l.pos + width r } := by
  induction digits generalizing l run with
  | @last c digit =>
    obtain ⟨n, value⟩ := Option.isSome_iff_exists.mp digit
    have narrow : c.utf8Size = 1 := (Alphabet.utf8Size_of_digit? value)
    refine repeatForward_digit at' value ?_
    simpa [digitValues, value, narrow] using Runs.of_first_pass (digitPass_stop (narrow ▸ at'.step) stop)
  | @next c r digit more ih =>
    obtain ⟨n, value⟩ := Option.isSome_iff_exists.mp digit
    have narrow : c.utf8Size = 1 := (Alphabet.utf8Size_of_digit? value)
    refine repeatForward_digit at' value ?_
    have run := @ih { l with pos := l.pos + 1 } ⟨n :: run.digits, false⟩ (fun known mem => plain known (.tail _ mem))
      (narrow ▸ at'.step) (Nat.le_succ_of_le le)
    simpa [digitValues, value, narrow, Nat.add_assoc] using run
  | @separated c r digit more ih =>
    obtain ⟨n, value⟩ := Option.isSome_iff_exists.mp digit
    have narrow : c.utf8Size = 1 := (Alphabet.utf8Size_of_digit? value)
    obtain rfl : legacy = false := Bool.eq_false_iff.mpr fun known => plain known (by simp)
    have at'' : s.source.TextAt (l.pos + 1) ('_' :: (r ++ rest)) := narrow ▸ at'.step
    refine repeatForward_digit at' value ?_
    refine Runs.repeatForward_again (digitPass_separator (l := { l with pos := l.pos + 1 }) late at'' rfl
      (Nat.ne_of_gt (Nat.lt_succ_of_le le)))
      (Nat.lt_succ_self _) (Source.lt_size_of_charAt at''.charAt_cons) ?_
    have run := @ih { l with pos := l.pos + 1 + 1 } ⟨n :: run.digits, true⟩ (fun known => by cases known) at''.step
      (Nat.le_succ_of_le (Nat.le_succ_of_le le))
    have pos : l.pos + width (c :: '_' :: r) = l.pos + 1 + 1 + width r := by
      rw [width_cons, width_cons, narrow, show '_'.utf8Size = 1 from rfl]
      omega
    rw [pos]
    simpa [digitValues, value, digit?_separator] using run

end Digits

theorem readDigits_complete (late : 12 ≤ s.edition) (digits : DigitsOf radix r) (stop : StopsDigits radix rest)
    (plain : maybeLegacy = true → r.head? = some '0' → '_' ∉ r) (at' : s.source.TextAt l.pos (r ++ rest)) :
    Runs s (readDigits radix maybeLegacy) l (some (digitValues radix r)) { l with pos := l.pos + width r } := by
  refine (readDigits_iff at').mpr ⟨_, repeatForward_digits late digits (fun known => ?_) stop at'
    (Nat.le_refl _), rfl, ?_⟩
  · obtain ⟨c, t, rfl, -⟩ := digits.head
    simp at known
    exact plain known.1 (by simp [known.2])
  · simp [digits.values_ne_nil]

theorem readDigits_none (stop : StopsDigits radix rest) (at' : s.source.TextAt l.pos rest) :
    Runs s (readDigits radix maybeLegacy) l none l :=
  (readDigits_iff at').mpr ⟨_, Runs.of_first_pass (digitPass_stop at' stop), rfl, rfl⟩

/-! ### Numerals -/

structure Exponent where
  mark : Char
  sign : List Char
  digits : List Char

/-- How a number is written. -/
inductive Numeral
  /-- Digits behind a mark of their radix. -/
  | marked (mark : Char) (digits : List Char) (big : Bool)
  /-- A big integer. -/
  | bigint (digits : List Char)
  /-- An octal number with a leading zero. -/
  | octal (digits : List Char)
  | decimal (whole : List Char) (fraction : Option (List Char)) (exponent : Option Exponent)

/-- Digits follow a zero. -/
def LeadingZero (digits : List Char) : Prop := ∃ c t, digits = '0' :: c :: t

namespace Numeral

def fractionText : Option (List Char) → List Char
  | none => []
  | some digits => '.' :: digits

def exponentText : Option Exponent → List Char
  | none => []
  | some e => e.mark :: (e.sign ++ e.digits)

def spelling : Numeral → List Char
  | marked mark digits big => '0' :: mark :: (digits ++ if big then ['n'] else [])
  | bigint digits => digits ++ ['n']
  | octal digits => digits
  | decimal whole fraction exponent => whole ++ (fractionText fraction ++ exponentText exponent)

/-- The value of the token. -/
def value : Numeral → TokenValue
  | marked mark digits true => .bigint (String.ofList ('0' :: mark :: unseparated digits))
  | marked mark digits false =>
    let radix := (radixMark? 12 mark).getD 10
    .number (Number.Double.ofDigits radix (digitValues radix digits))
  | bigint digits => .bigint (String.ofList (unseparated digits))
  | octal digits => .number (Number.Double.ofDigits 8 (digits.map fun c => c.toNat - '0'.toNat))
  | n@(decimal ..) => .number (Number.Decimal.ofText (unseparated n.spelling)).toDouble

/-- The fraction may be empty. -/
def FractionFits (fraction : Option (List Char)) : Prop := ∀ digits ∈ fraction, digits = [] ∨ DigitsOf 10 digits

def ExponentFits (exponent : Option Exponent) : Prop :=
  ∀ e ∈ exponent, (e.mark = 'e' ∨ e.mark = 'E') ∧ e.sign ∈ [[], ['+'], ['-']] ∧ DigitsOf 10 e.digits

/-- There may be no digits before a point.  Digits with a leading zero are not octal ones; strict code has none, and
they have no separators. -/
def WholeFits (strict : Bool) (whole : List Char) (fraction : Option (List Char)) : Prop :=
  whole = [] ∧ (∃ digits ∈ fraction, DigitsOf 10 digits) ∨
    DigitsOf 10 whole ∧ (LeadingZero whole → strict = false ∧ '_' ∉ whole ∧ ¬ DigitsOf 8 whole)

/-- What numerals are allowed in code of the mode. -/
inductive Allowed (strict : Bool) : Numeral → Prop
  | marked {mark : Char} {radix : Nat} {digits : List Char} {big : Bool} (known : radixMark? 12 mark = some radix)
      (fits : DigitsOf radix digits) :
    Allowed strict (.marked mark digits big)
  | bigint {digits : List Char} (fits : DigitsOf 10 digits) (first : ¬ LeadingZero digits) :
      Allowed strict (.bigint digits)
  | octal {digits : List Char} (sloppy : strict = false) (zero : LeadingZero digits) (plain : '_' ∉ digits)
      (fits : DigitsOf 8 digits) :
    Allowed strict (.octal digits)
  | decimal {whole : List Char} {fraction : Option (List Char)} {exponent : Option Exponent}
      (fits : WholeFits strict whole fraction)
    (fits' : FractionFits fraction) (fits'' : ExponentFits exponent) : Allowed strict (.decimal whole fraction exponent)

end Numeral

/-! ### Parts of numbers -/

open Numeral

theorem readFraction_sound (late : 12 ≤ s.edition) (at' : s.source.TextAt l.pos text) {u : Unit}
    (run : Runs s readFraction l u l') :
    ∃ fraction rest, text = fractionText fraction ++ rest ∧ FractionFits fraction ∧
      l' = { l with pos := l.pos + width (fractionText fraction) } ∧
      (fraction = none → text.head? ≠ some '.') ∧ (fraction = some [] → StopsDigits 10 rest) := by
  simp [readFraction, at'.charAt] at run
  obtain ⟨point, values, digits⟩ | ⟨noPoint, rfl⟩ := run
  · obtain ⟨text, rfl⟩ := List.head?_eq_some_iff.mp point
    obtain ⟨r, rest, rfl, rfl, fits, -, stop⟩ :=
      readDigits_sound (l := { l with pos := l.pos + 1 }) late at'.step digits
    refine ⟨some r, rest, rfl, ?_, ?_, by simp, fun _ => stop⟩
    · rintro _ ⟨⟩
      exact fits.imp And.left And.left
    · simp [fractionText, Nat.add_assoc, show '.'.utf8Size = 1 from rfl]
  · exact ⟨none, text, rfl, by simp [FractionFits], rfl, fun _ => noPoint, by simp⟩

theorem readExponent_sound (late : 12 ≤ s.edition) (at' : s.source.TextAt l.pos text) {u : Unit} {start : Nat}
    (run : Runs s (readExponent start) l u l') :
    ∃ exponent rest, text = exponentText exponent ++ rest ∧ ExponentFits exponent ∧
      l' = { l with pos := l.pos + width (exponentText exponent) } := by
  simp [readExponent, at'.charAt] at run
  obtain ⟨marked, run⟩ | ⟨-, rfl⟩ := run
  · obtain ⟨m, t, rfl, mark⟩ : ∃ m t, text = m :: t ∧ (m = 'e' ∨ m = 'E') := by
      obtain mark | mark := marked
      · exact ⟨'e', _, (List.head?_eq_some_iff.mp mark).choose_spec, .inl rfl⟩
      · exact ⟨'E', _, (List.head?_eq_some_iff.mp mark).choose_spec, .inr rfl⟩
    have narrow : m.utf8Size = 1 := by obtain rfl | rfl := mark <;> rfl
    have inside : s.source.TextAt (l.pos + 1) t := narrow ▸ at'.step
    have fits {g t : List Char} {values : Option (List Nat)} (sign : g ∈ [[], ['+'], ['-']])
        (at'' : s.source.TextAt (l.pos + 1 + width g) t)
        (found : values ≠ none) (digits : Runs s (readDigits 10 false)
          { l with pos := l.pos + 1 + width g } values l') :
        ∃ exponent rest, m :: (g ++ t) = exponentText exponent ++ rest ∧ ExponentFits exponent ∧
          l' = { l with pos := l.pos + width (exponentText exponent) } := by
      obtain ⟨r, rest, rfl, rfl, known, -⟩ :=
        readDigits_some_sound (l := { l with pos := l.pos + 1 + width g }) late at'' found digits
      refine ⟨some ⟨m, g, r⟩, rest, by simp [exponentText], ?_, ?_⟩
      · rintro _ ⟨⟩
        exact ⟨mark, sign, known⟩
      · simp [exponentText, width_append, narrow, Nat.add_assoc]
    rw [inside.charAt] at run
    obtain ⟨signed, values, digits, found⟩ | ⟨-, values, digits, found⟩ := run
    · obtain plus | minus := signed
      · obtain ⟨t, rfl⟩ := List.head?_eq_some_iff.mp plus
        exact fits (g := ['+']) (by simp) inside.step found digits
      · obtain ⟨t, rfl⟩ := List.head?_eq_some_iff.mp minus
        exact fits (g := ['-']) (by simp) inside.step found digits
    · exact fits (g := []) (by simp) inside found digits
  · exact ⟨none, text, rfl, by simp [ExponentFits], rfl⟩

theorem readFraction_complete (late : 12 ≤ s.edition) {fraction : Option (List Char)} (fits : FractionFits fraction)
    (stop : StopsDigits 10 rest)
    (point : fraction = none → rest.head? ≠ some '.') (at' : s.source.TextAt l.pos (fractionText fraction ++ rest)) :
    Runs s readFraction l ⟨⟩ { l with pos := l.pos + width (fractionText fraction) } := by
  cases fraction with
  | none =>
    have here : s.source.charAt l.pos = rest.head? := at'.charAt
    simp [readFraction, here, point rfl, fractionText]
  | some digits =>
    have inside : s.source.TextAt (l.pos + 1) (digits ++ rest) := at'.step
    have pos : l.pos + width (fractionText (some digits)) = l.pos + 1 + width digits := by
      rw [fractionText, width_cons, Nat.add_assoc, show '.'.utf8Size = 1 from rfl]
    have reads : ∃ values, Runs s (readDigits 10 false) { l with pos := l.pos + 1 } values
        { l with pos := l.pos + 1 + width digits } := by
      obtain rfl | known := fits digits rfl
      · exact ⟨_, readDigits_none (l := { l with pos := l.pos + 1 }) stop inside⟩
      · exact ⟨_, readDigits_complete (l := { l with pos := l.pos + 1 }) late known stop (by simp) inside⟩
    have here : s.source.charAt l.pos = some '.' := at'.charAt
    rw [pos]
    simpa [readFraction, here] using reads

theorem readExponent_complete (start : Nat) (late : 12 ≤ s.edition) {exponent : Option Exponent}
    (fits : ExponentFits exponent)
    (stop : StopsDigits 10 rest) (mark : exponent = none → rest.head? ≠ some 'e' ∧ rest.head? ≠ some 'E')
    (at' : s.source.TextAt l.pos (exponentText exponent ++ rest)) :
    Runs s (readExponent start) l ⟨⟩ { l with pos := l.pos + width (exponentText exponent) } := by
  cases exponent with
  | none =>
    have here : s.source.charAt l.pos = rest.head? := at'.charAt
    simp [readExponent, here, mark rfl, exponentText]
  | some e =>
    obtain ⟨m, g, digits⟩ := e
    obtain ⟨known, sign, fits⟩ := fits _ rfl
    dsimp only at known sign fits
    have narrow : m.utf8Size = 1 := by obtain rfl | rfl := known <;> rfl
    have here : s.source.charAt l.pos = some m := at'.charAt
    have inside : s.source.TextAt (l.pos + 1) (g ++ (digits ++ rest)) := by
      rw [exponentText, List.cons_append, List.append_assoc] at at'
      exact narrow ▸ at'.step
    have next := inside.charAt
    have run : Runs s (readDigits 10 false) { l with pos := l.pos + 1 + width g } _ _ :=
      readDigits_complete late fits stop (by simp) inside.past
    have pos : l.pos + width (exponentText (some ⟨m, g, digits⟩)) = l.pos + 1 + width g + width digits := by
      show l.pos + width (m :: (g ++ digits)) = _
      rw [width_cons, width_append, narrow]
      omega
    obtain ⟨c, t, first, unsigned⟩ : ∃ c t, digits ++ rest = c :: t ∧ c ≠ '+' ∧ c ≠ '-' := by
      obtain ⟨c, t, rfl, digit⟩ := fits.head
      refine ⟨c, t ++ rest, rfl, ?_, ?_⟩ <;>
        (rintro rfl; simp [Alphabet.digit?, Alphabet.digitValue?, Alphabet.isDecimalDigit] at digit)
    rw [pos]
    generalize width digits = size at run ⊢
    simp only [List.mem_cons, List.not_mem_nil, or_false] at sign
    obtain rfl | rfl | rfl := sign
    · rw [List.nil_append, first] at next
      simp [readExponent, here, known, next, unsigned]
      exact ⟨_, run, by simp⟩
    · simp at next
      simp [readExponent, here, known, next]
      exact ⟨_, run, by simp⟩
    · simp at next
      simp [readExponent, here, known, next]
      exact ⟨_, run, by simp⟩

/-! ### Numbers -/

/-- A numeral is read, and the token says what it says. -/
def ReadsNumeral (s : Setting) (text : List Char) (l l' : Lexer) : Prop :=
  ∃ (n : Numeral) (rest : List Char), text = n.spelling ++ rest ∧ n.Allowed l.strict ∧
    Runs s (finish .num n.value) { l with pos := l.pos + width n.spelling } ⟨⟩ l'

theorem radixMark?_late {edition : Nat} (late : 12 ≤ edition) (c : Char) : radixMark? edition c = radixMark? 12 c := by
  have : 6 ≤ edition := by omega
  unfold radixMark?
  split <;> simp [this]

theorem radixMark?_plain {edition : Nat} (known : radixMark? edition c = some radix) :
    c.utf8Size = 1 ∧ Alphabet.isIdentifierPart true c = true ∧ c ∉ ['_', 'e', 'E', 'n', '.'] ∧
      Alphabet.digit? 10 c = none := by
  unfold radixMark? at known
  split at known <;> first | exact ⟨rfl, rfl, by decide, rfl⟩ | cases known

theorem radixMark?_radix {edition : Nat} (known : radixMark? edition c = some radix) :
    radix = 16 ∨ radix = 8 ∨ radix = 2 := by
  unfold radixMark? at known
  split at known <;> simp at known <;> tauto

theorem readRadixNumber_sound (late : 12 ≤ s.edition) {mark : Char} (known : radixMark? 12 mark = some radix)
    (at' : s.source.TextAt l.pos ('0' :: mark :: text)) {u : Unit} (run : Runs s (readRadixNumber radix) l u l') :
    ReadsNumeral s ('0' :: mark :: text) l l' := by
  obtain ⟨narrow, -, plain, -⟩ := radixMark?_plain known
  have plain : mark ≠ '_' := by rintro rfl; simp at plain
  simp [readRadixNumber, bigintDigits] at run
  obtain ⟨values, m, read, run⟩ := run
  have inside : s.source.TextAt (l.pos + 1 + mark.utf8Size) text := at'.step.step
  rw [narrow] at inside
  split at run
  · simp at run
  · next digits =>
    obtain ⟨r, rest, rfl, rfl, fits, value, -⟩ :=
      readDigits_some_sound (l := { l with pos := l.pos + 2 }) late inside (by simp) read
    have pos : l.pos + width ('0' :: mark :: r) = l.pos + 2 + width r := by
      rw [width_cons, width_cons, narrow, show '0'.utf8Size = 1 from rfl]
      omega
    have chars : s.source.chars l.pos (l.pos + 2 + width r) = '0' :: mark :: r := by
      rw [← pos]
      exact Source.TextAt.chars (t := '0' :: mark :: r) at'
    have behind : s.source.TextAt (l.pos + 2 + width r) rest := inside.past
    simp at run
    obtain ⟨⟨-, big⟩, run⟩ | ⟨-, -, run⟩ := run
    · rw [behind.charAt] at big
      obtain ⟨rest, rfl⟩ := List.head?_eq_some_iff.mp big
      refine ⟨.marked mark r true, rest, by simp [spelling], .marked known fits, ?_⟩
      have end' : l.pos + width (spelling (.marked mark r true)) = l.pos + 2 + width r + 1 := by
        rw [← pos, Nat.add_assoc, show 1 = width ['n'] from rfl, ← width_append]
        rfl
      rw [end', Numeral.value]
      simpa [chars, unseparated, plain] using run
    · refine ⟨.marked mark r false, rest, by simp [spelling], .marked known fits, ?_⟩
      have end' : l.pos + width (spelling (.marked mark r false)) = l.pos + 2 + width r := by simp [spelling, ← pos]
      obtain rfl := Option.some.inj value
      rw [end', Numeral.value, known]
      simpa using run

theorem leadingZero_iff (at' : s.source.TextAt l.pos (r ++ rest)) :
    (decide (2 ≤ l.pos + width r - l.pos) && s.source.has l.pos '0') = true ↔ LeadingZero r := by
  rw [Nat.add_sub_cancel_left, Bool.and_eq_true, decide_eq_true_eq, Source.has_iff, at'.charAt]
  constructor
  · rintro ⟨two, zero⟩
    cases r with
    | nil => simp at two
    | cons c r =>
      obtain rfl : c = '0' := by simpa using zero
      cases r with
      | nil => simp [show '0'.utf8Size = 1 from rfl] at two
      | cons d r => exact ⟨d, r, rfl⟩
  · rintro ⟨d, t, rfl⟩
    have := d.utf8Size_pos
    simp [show '0'.utf8Size = 1 from rfl]
    omega

theorem octal_of_decimal (digit : (Alphabet.digit? 10 c).isSome = true) (small : c ≠ '8' ∧ c ≠ '9') :
    (Alphabet.digit? 8 c).isSome = true := by
  obtain ⟨n, value⟩ := Option.isSome_iff_exists.mp digit
  obtain rfl | rfl | ⟨-, m, value, -⟩ := isDecimalDigit_cases (isDecimalDigit_of_digit? (Nat.le_refl _) value)
  · exact (small.1 rfl).elim
  · exact (small.2 rfl).elim
  · simp [value]

/-- Octal digits are the decimal ones but two. -/
theorem DigitsOf.octal (digits : DigitsOf 10 r) (small : ∀ c ∈ r, c ≠ '8' ∧ c ≠ '9') : DigitsOf 8 r := by
  induction digits with
  | last digit => exact .last (octal_of_decimal digit (small _ (.head _)))
  | next digit _ ih => exact .next (octal_of_decimal digit (small _ (.head _))) (ih fun c mem => small c (.tail _ mem))
  | separated digit _ ih => exact .separated (octal_of_decimal digit (small _ (.head _))) (ih fun c mem =>
      small c (.tail _ (.tail _ mem)))

theorem DigitsOf.decimal (digits : DigitsOf 8 r) : DigitsOf 10 r := by
  have decimal {c : Char} (digit : (Alphabet.digit? 8 c).isSome = true) : (Alphabet.digit? 10 c).isSome = true := by
    obtain ⟨n, value⟩ := Option.isSome_iff_exists.mp digit
    obtain ⟨m, value⟩ := Alphabet.exists_digit_of_isDecimalDigit (isDecimalDigit_of_digit? (by decide) value)
    simp [value]
  induction digits with
  | last digit => exact .last (decimal digit)
  | next digit _ ih => exact .next (decimal digit) ih
  | separated digit _ ih => exact .separated (decimal digit) ih

theorem DigitsOf.small (digits : DigitsOf 8 r) : ∀ c ∈ r, c ≠ '8' ∧ c ≠ '9' := by
  have small {c : Char} (digit : (Alphabet.digit? 8 c).isSome = true) : c ≠ '8' ∧ c ≠ '9' := by
    constructor <;> (rintro rfl; cases digit)
  induction digits with
  | last digit => simpa using small digit
  | next digit _ ih => exact List.forall_mem_cons.mpr ⟨small digit, ih⟩
  | separated digit _ ih => exact List.forall_mem_cons.mpr ⟨small digit, List.forall_mem_cons.mpr ⟨by decide, ih⟩⟩

/-- The part of a number behind its whole part. -/
theorem numberRest_sound (late : 12 ≤ s.edition) (whole : List Char) {dot zero : Bool}
    (at' : s.source.TextAt l.pos (whole ++ rest))
    (leading : zero = true ↔ LeadingZero whole) (fits : dot = true ∧ whole = [] ∨ dot = false ∧ DigitsOf 10 whole)
    (plain : LeadingZero whole → '_' ∉ whole) (point : dot = true → ∃ c t, rest = '.' :: c :: t ∧
      Alphabet.isDecimalDigit c = true) {u : Unit}
    (run : Runs s (numberRest s.source l.pos dot zero whole) { l with pos := l.pos + width whole } u l') :
    ReadsNumeral s (whole ++ rest) l l' := by
  have behind := at'.past
  simp [numberRest, bigintDigits, at'.chars] at run
  obtain ⟨sloppy, ⟨⟨⟨⟨rfl, rfl⟩, -⟩, big⟩, -, run⟩ | ⟨-,
    ⟨⟨rfl, small⟩, -, run⟩ | ⟨notOctal, m, fraction, n, exponent, -, run⟩⟩⟩ := run
  · rw [behind.charAt] at big
    obtain ⟨rest, rfl⟩ := List.head?_eq_some_iff.mp big
    have digits : DigitsOf 10 whole := by simpa using fits
    refine ⟨.bigint whole, rest, by simp [spelling], .bigint digits (mt leading.mpr (by simp)), ?_⟩
    rw [spelling, width_append, ← Nat.add_assoc]
    exact run
  · have zero := leading.mp rfl
    have digits : DigitsOf 10 whole := by
      obtain ⟨-, rfl⟩ | ⟨-, digits⟩ := fits
      · obtain ⟨_, _, none⟩ := zero
        cases none
      · exact digits
    exact ⟨.octal whole, rest, rfl, .octal (sloppy rfl) zero (plain zero) (digits.octal small), run⟩
  · obtain ⟨f, rest, rfl, fits', rfl, pointless, bare⟩ :=
      readFraction_sound (l := { l with pos := l.pos + width whole }) late behind fraction
    have behind' : s.source.TextAt (l.pos + width whole + width (fractionText f)) rest := behind.past
    obtain ⟨e, rest, rfl, fits'', rfl⟩ :=
      readExponent_sound (l := { l with pos := l.pos + width whole + width (fractionText f) }) late behind' exponent
    have whole' : WholeFits l.strict whole f := by
      obtain ⟨dotted, rfl⟩ | ⟨-, digits⟩ := fits
      · obtain ⟨c, t, split, digit⟩ := point dotted
        refine .inl ⟨rfl, ?_⟩
        cases f with
        | none => exact (pointless rfl (by rw [split]; rfl)).elim
        | some digits =>
          refine ⟨digits, rfl, (fits' digits rfl).resolve_left ?_⟩
          rintro rfl
          -- The fraction takes the digit.
          have next : (exponentText e ++ rest) = c :: t := by simpa [fractionText] using split
          obtain ⟨value, known⟩ := Alphabet.exists_digit_of_isDecimalDigit digit
          have none := (bare rfl c (by simp [next])).2
          simp [known] at none
      · refine .inr ⟨digits, fun zero => ⟨sloppy (leading.mpr zero), plain zero, fun octal => ?_⟩⟩
        obtain ⟨c, mem, big⟩ := notOctal (leading.mpr zero)
        exact (octal.small c mem).2 (big (octal.small c mem).1)
    refine ⟨.decimal whole f e, rest, by simp [spelling], .decimal whole' fits' fits'', ?_⟩
    have pos : l.pos + width (spelling (.decimal whole f e)) =
        l.pos + width whole + width (fractionText f) + width (exponentText e) := by
      simp only [spelling, width_append, Nat.add_assoc]
    have chars : s.source.chars l.pos (l.pos + width whole + width (fractionText f) + width (exponentText e)) =
        spelling (.decimal whole f e) := by
      rw [← pos]
      have text : s.source.TextAt l.pos (spelling (.decimal whole f e) ++ rest) := by simpa [spelling] using at'
      exact text.chars
    rw [pos, Numeral.value]
    rw [chars] at run
    exact run

theorem readNumber_sound (late : 12 ≤ s.edition) {dot : Bool} (at' : s.source.TextAt l.pos text)
    (point : dot = true → ∃ c t, text = '.' :: c :: t ∧ Alphabet.isDecimalDigit c = true) {u : Unit}
    (run : Runs s (readNumber dot) l u l') :
    ReadsNumeral s text l l' := by
  cases dot <;> simp [readNumber_eq] at run
  · obtain ⟨values, m, digits, found, run⟩ := run
    obtain ⟨r, rest, rfl, rfl, fits, -, plain⟩ := readDigits_some_sound late at' found digits
    refine numberRest_sound late r at' (by simpa using leadingZero_iff at') (.inr ⟨rfl, fits⟩) ?_
      (by simp) (at'.chars ▸ run)
    rintro ⟨c, t, rfl⟩
    exact plain rfl rfl
  · have chars : s.source.chars l.pos l.pos = [] := Source.TextAt.chars (t := []) at'
    have none : ¬ LeadingZero [] := by simp [LeadingZero]
    rw [chars] at run
    exact numberRest_sound late [] at' (by simpa using none) (.inl ⟨rfl, rfl⟩) (by simp) point run

theorem readZero_sound (late : 12 ≤ s.edition) (at' : s.source.TextAt l.pos ('0' :: text)) {u : Unit}
    (run : Runs s readZero l u l') :
    ReadsNumeral s ('0' :: text) l l' := by
  have next : s.source.charAt (l.pos + 1) = text.head? := at'.step.charAt
  simp only [readZero, Runs.bind_iff, Runs.charAhead_iff, Runs.lexEdition_iff, Runs.exists_look, next] at run
  split at run
  · next radix found =>
    obtain ⟨mark, first, known⟩ := Option.bind_eq_some_iff.mp found
    obtain ⟨text, rfl⟩ := List.head?_eq_some_iff.mp first
    exact readRadixNumber_sound late (radixMark?_late late mark ▸ known) at' run
  · exact readNumber_sound late at' (by simp) run

/-- Where a number is read, a numeral is written. -/
theorem readToken_numeral (plain : s.reader = none) (late : 12 ≤ s.edition) (at' : s.source.TextAt l.pos text)
    (here : text.head? = some c)
    (number : l'.kind = .num) (run : Runs s (readToken c) l true l') : ReadsNumeral s text l l' := by
  have first : s.source.charAt l.pos = some c := at'.charAt.trans here
  have opens := ((readToken_opens plain first run).resolve_right (by simp)).2
  have run := (readToken_literal (mem_literalMarks_of_opens first (.inl number) opens)).mp run
  obtain ⟨text, rfl⟩ := List.head?_eq_some_iff.mp here
  obtain ⟨rfl, run⟩ | ⟨rfl, digit, run⟩ | run := literalReader_num plain number run
  · exact readZero_sound late at' run
  · have next : s.source.charAt (l.pos + 1) = text.head? := at'.step.charAt
    rw [next] at digit
    cases text with
    | nil => cases digit
    | cons c text => exact readNumber_sound late at' (fun _ => ⟨c, text, rfl, digit⟩) run
  · exact readNumber_sound late at' (by simp) run

/-! ### Numerals are read -/

/-- What may stand behind a numeral. -/
def Apart (rest : List Char) : Prop := ∀ c ∈ rest.head?, Alphabet.isIdentifierPart true c = false ∧ c ≠ '.'

theorem isIdentifierPart_of_digit {astral : Bool} (digit : (Alphabet.digit? radix c).isSome = true) :
    Alphabet.isIdentifierPart astral c = true := by
  obtain ⟨n, value⟩ := Option.isSome_iff_exists.mp digit
  rw [Alphabet.digit?, Option.filter_eq_some_iff] at value
  have value := value.1
  simp only [Alphabet.digitValue?, Alphabet.isDecimalDigit, Bool.and_eq_true, decide_eq_true_eq, Char.le_def,
    UInt32.le_iff_toNat_le] at value
  have alnum (ascii : c.toNat < 0x80) (known : c.isAlphanum = true) : Alphabet.isIdentifierPart astral c = true := by
    rw [Alphabet.isIdentifierPart, if_pos ascii, known]
    rfl
  have same : c.val.toNat = c.toNat := rfl
  split at value
  · next decimal =>
    have low : 48 ≤ c.toNat := decimal.1
    have high : c.toNat ≤ 57 := decimal.2
    exact alnum (by omega) (by simp [Char.isAlphanum, Char.isDigit, UInt32.le_iff_toNat_le]; omega)
  · split at value
    · next lower =>
      have low : 97 ≤ c.toNat := lower.1
      have high : c.toNat ≤ 122 := lower.2
      exact alnum (by omega) (by simp [Char.isAlphanum, Char.isAlpha, Char.isLower, UInt32.le_iff_toNat_le]; omega)
    · split at value
      · next upper =>
        have low : 65 ≤ c.toNat := upper.1
        have high : c.toNat ≤ 90 := upper.2
        exact alnum (by omega) (by simp [Char.isAlphanum, Char.isAlpha, Char.isUpper, UInt32.le_iff_toNat_le]; omega)
      · cases value

namespace Apart

variable (apart : Apart rest)
include apart

theorem stops (radix : Nat) : StopsDigits radix rest := fun c mem => by
  have other := (apart c mem).1
  constructor
  · rintro rfl
    cases other
  · by_contra digit
    rw [isIdentifierPart_of_digit (Option.ne_none_iff_isSome.mp digit)] at other
    cases other

theorem noMark : ∀ c ∈ rest.head?, radixMark? 12 c = none := fun c mem => by
  by_contra mark
  obtain ⟨radix, mark⟩ := Option.ne_none_iff_exists'.mp mark
  have other := (apart c mem).1
  rw [(radixMark?_plain mark).2.1] at other
  cases other

theorem head_ne (part : Alphabet.isIdentifierPart true c = true ∨ c = '.') : rest.head? ≠ some c := fun first => by
  obtain ⟨other, noPoint⟩ := apart c first
  rw [other] at part
  simp [noPoint] at part

theorem noWord (late : 12 ≤ s.edition) (at' : s.source.TextAt l.pos rest) :
    (s.source.charAt l.pos).any (Alphabet.isIdentifierStart s.astral) = false := by
  have astral : s.astral = true := by
    have : 6 ≤ s.edition := by omega
    simp [Setting.astral, this]
  rw [at'.charAt, astral, Option.any_eq_false]
  intro c first
  by_contra start
  have part := Alphabet.isIdentifierPart_of_isIdentifierStart (by simpa using start)
  exact apart.head_ne (.inl part) first

end Apart

section Reads

variable {u : Unit} {whole : List Char}

theorem readRadixNumber_complete (late : 12 ≤ s.edition) {mark : Char} {big : Bool}
    (known : radixMark? 12 mark = some radix) (fits : DigitsOf radix r)
    (apart : Apart rest) (at' : s.source.TextAt l.pos (spelling (.marked mark r big) ++ rest))
    (run : Runs s (finish .num (Numeral.value (.marked mark r big)))
      { l with pos := l.pos + width (spelling (.marked mark r big)) } u l') :
    Runs s (readRadixNumber radix) l u l' := by
  obtain ⟨narrow, -, other, -⟩ := radixMark?_plain known
  have plain : mark ≠ '_' := by rintro rfl; simp at other
  have split : spelling (.marked mark r big) ++ rest = '0' :: mark ::
    (r ++ ((if big then ['n'] else []) ++ rest)) := by simp [spelling]
  rw [split] at at'
  have inside : s.source.TextAt (l.pos + 1 + mark.utf8Size) _ := at'.step.step
  rw [narrow] at inside
  have stop : StopsDigits radix ((if big then ['n'] else []) ++ rest) := by
    cases big with
    | false => exact apart.stops radix
    | true =>
      have noDigit : Alphabet.digit? radix 'n' = none := by
        obtain rfl | rfl | rfl := radixMark?_radix known <;> rfl
      simp [StopsDigits, noDigit]
  have digits : Runs s (readDigits radix false) { l with pos := l.pos + 2 } _ _ :=
    readDigits_complete late fits stop (by simp) inside
  have behind : s.source.TextAt (l.pos + 2 + width r) ((if big then ['n'] else []) ++ rest) := inside.past
  have pos : l.pos + 2 + width r = l.pos + width ('0' :: mark :: r) := by
    rw [width_cons, width_cons, narrow, show '0'.utf8Size = 1 from rfl]
    omega
  have chars : s.source.chars l.pos (l.pos + 2 + width r) = '0' :: mark :: r := by
    rw [pos]
    exact Source.TextAt.chars (t := '0' :: mark :: r) at'
  have edition : 11 ≤ s.edition := by omega
  have size : l.pos + width (spelling (.marked mark r big)) =
      l.pos + 2 + width r + width (if big then ['n'] else []) := by
    rw [pos, Nat.add_assoc, ← width_append]
    rfl
  rw [size] at run
  simp [readRadixNumber, bigintDigits]
  refine ⟨_, _, digits, ?_⟩
  cases big with
  | false =>
    have noBig : s.source.charAt (l.pos + 2 + width r) ≠ some 'n' := behind.charAt ▸ apart.head_ne (.inl rfl)
    simp [noBig]
    refine ⟨apart.noWord (l := { l with pos := l.pos + 2 + width r }) late behind, ?_⟩
    simpa [Numeral.value, known] using run
  | true =>
    have big : s.source.charAt (l.pos + 2 + width r) = some 'n' := behind.charAt
    simp [big, edition, chars]
    simpa [Numeral.value, unseparated, plain, show 'n'.utf8Size = 1 from rfl] using run

theorem readNumber_digits (late : 12 ≤ s.edition) (digits : DigitsOf 10 whole) (plain : LeadingZero whole → '_' ∉ whole)
    (stop : StopsDigits 10 rest)
    (at' : s.source.TextAt l.pos (whole ++ rest)) {zero : Bool} (leading : zero = true ↔ LeadingZero whole)
    (run : Runs s (numberRest s.source l.pos false zero whole) { l with pos := l.pos + width whole } u l') :
    Runs s (readNumber false) l u l' := by
  simp [readNumber_eq]
  refine ⟨_, _, readDigits_complete late digits stop (fun _ zero => ?_) at', by simp, ?_⟩
  · cases digits with
    | last digit => simpa using (ne_separator_of_digit digit).symm
    | next digit more =>
      obtain ⟨c, t, rfl, -⟩ := more.head
      obtain rfl : _ = '0' := by simpa using zero
      exact plain ⟨c, t, rfl⟩
    | separated digit more =>
      obtain rfl : _ = '0' := by simpa using zero
      exact plain ⟨'_', _, rfl⟩
  · have same : (decide (2 ≤ l.pos + width whole - l.pos) && s.source.has l.pos '0') = zero := by
      rw [Bool.eq_iff_iff, leadingZero_iff at', leading]
    rw [Nat.add_sub_cancel_left] at same
    simpa [same, at'.chars] using run

/-- A number that begins with a digit is read as one without a mark, if no mark is behind the digit. -/
theorem literalReader_digits (late : 12 ≤ s.edition) (digits : DigitsOf 10 whole)
    (noMark : ∀ c ∈ rest.head?, radixMark? 12 c = none)
    (at' : s.source.TextAt l.pos (whole ++ rest)) (run : Runs s (readNumber false) l u l') :
    ∃ c, whole.head? = some c ∧ c ∈ literalMarks ∧ Runs s (literalReader c) l u l' := by
  obtain ⟨c, t, rfl, digit⟩ := digits.head
  obtain ⟨n, value⟩ := Option.isSome_iff_exists.mp digit
  have decimal := isDecimalDigit_of_digit? (Nat.le_refl 10) value
  refine ⟨c, rfl, mem_literalMarks_of_isDecimalDigit decimal, ?_⟩
  unfold literalReader
  split
  · have second : s.source.charAt (l.pos + 1) = (t ++ rest).head? := at'.step.charAt
    have next : ∀ d ∈ (t ++ rest).head?, radixMark? s.edition d = none := by
      intro d first
      rw [radixMark?_late late]
      cases digits with
      | last => exact noMark d first
      | @next _ r _ more =>
        obtain ⟨e, v, rfl, digit⟩ := more.head
        obtain rfl : e = d := by simpa using first
        by_contra mark
        obtain ⟨radix, mark⟩ := Option.ne_none_iff_exists'.mp mark
        simp [(radixMark?_plain mark).2.2.2] at digit
      | separated =>
        obtain rfl : '_' = d := by simpa using first
        rfl
    have none : (t ++ rest).head?.bind (radixMark? s.edition) = none := Option.bind_eq_none_iff.mpr next
    simp only [readZero, Runs.bind_iff, Runs.charAhead_iff, Runs.lexEdition_iff, Runs.exists_look, second, none]
    exact run
  all_goals first | exact run | cases decimal

theorem head_exponent {exponent : Option Exponent} (fits : ExponentFits exponent)
    (first : c ∈ (exponentText exponent ++ rest).head?) :
    (c = 'e' ∨ c = 'E') ∨ rest.head? = some c := by
  cases exponent with
  | none => exact .inr first
  | some e =>
    obtain rfl : e.mark = c := by simpa [exponentText] using first
    exact .inl (fits e rfl).1

theorem head_fraction {fraction : Option (List Char)} (first : c ∈ (fractionText fraction ++ rest).head?) :
    c = '.' ∨ rest.head? = some c := by
  cases fraction with
  | none => exact .inr first
  | some => exact .inl (by simpa [fractionText, eq_comm] using first)

theorem readNumber_bigint (late : 12 ≤ s.edition) (digits : DigitsOf 10 whole) (first : ¬ LeadingZero whole)
    (apart : Apart rest) (at' : s.source.TextAt l.pos (whole ++ 'n' :: rest))
    (run : Runs s (finish .num (Numeral.value (.bigint whole)))
      { l with pos := l.pos + width (spelling (.bigint whole)) } u l') :
    Runs s (readNumber false) l u l' := by
  have behind : s.source.TextAt (l.pos + width whole) ('n' :: rest) := at'.past
  have big : s.source.charAt (l.pos + width whole) = some 'n' := behind.charAt
  have edition : 11 ≤ s.edition := by omega
  refine readNumber_digits late digits (fun zero => (first zero).elim) ?_ at'
    (by simpa using first : false = true ↔ LeadingZero whole) ?_
  · have noDigit : Alphabet.digit? 10 'n' = none := rfl
    simp [StopsDigits, noDigit]
  · simp [numberRest, bigintDigits, edition, big, at'.chars]
    refine ⟨apart.noWord (l := { l with pos := l.pos + width whole + 1 }) late behind.step, ?_⟩
    rwa [spelling, width_append, ← Nat.add_assoc] at run

theorem readNumber_octal (late : 12 ≤ s.edition) (sloppy : l.strict = false) (zero : LeadingZero whole)
    (plain : '_' ∉ whole) (digits : DigitsOf 8 whole) (apart : Apart rest) (at' : s.source.TextAt l.pos (whole ++ rest))
    (run : Runs s (finish .num (Numeral.value (.octal whole))) { l with pos := l.pos + width whole } u l') :
    Runs s (readNumber false) l u l' := by
  refine readNumber_digits late digits.decimal (fun _ => plain) (apart.stops 10) at'
    (by simpa using zero : true = true ↔ LeadingZero whole) ?_
  simp [numberRest]
  exact ⟨sloppy, .inl ⟨digits.small, apart.noWord (l := { l with pos := l.pos + width whole }) late at'.past, run⟩⟩

/-- A number is read from behind its whole part on. -/
theorem numberRest_decimal (dot zero : Bool) (late : 12 ≤ s.edition) {fraction : Option (List Char)}
    {exponent : Option Exponent}
    (leading : zero = true ↔ LeadingZero whole) (fits : WholeFits l.strict whole fraction)
    (fits' : FractionFits fraction)
    (fits'' : ExponentFits exponent) (apart : Apart rest)
    (at' : s.source.TextAt l.pos (spelling (.decimal whole fraction exponent) ++ rest))
    (run : Runs s (finish .num (Numeral.value (.decimal whole fraction exponent)))
      { l with pos := l.pos + width (spelling (.decimal whole fraction exponent)) } u l') :
    Runs s (numberRest s.source l.pos dot zero whole) { l with pos := l.pos + width whole } u l' := by
  have chars := at'.chars
  rw [spelling, List.append_assoc, List.append_assoc] at at'
  have behind : s.source.TextAt (l.pos + width whole)
    (fractionText fraction ++ (exponentText exponent ++ rest)) := at'.past
  have behind' : s.source.TextAt (l.pos + width whole + width (fractionText fraction))
    (exponentText exponent ++ rest) := behind.past
  have behind'' : s.source.TextAt (l.pos + width whole + width (fractionText fraction) + width (exponentText exponent))
    rest := behind'.past
  have size : l.pos + width (spelling (.decimal whole fraction exponent)) =
      l.pos + width whole + width (fractionText fraction) + width (exponentText exponent) := by
    simp only [spelling, width_append, Nat.add_assoc]
  rw [size] at run chars
  have leads : LeadingZero whole → l.strict = false ∧ DigitsOf 10 whole ∧ ¬ DigitsOf 8 whole := fun zero => by
    obtain ⟨rfl, -⟩ | ⟨digits, leads⟩ := fits
    · obtain ⟨_, _, none⟩ := zero
      cases none
    · exact ⟨(leads zero).1, digits, (leads zero).2.2⟩
  have stop : StopsDigits 10 (exponentText exponent ++ rest) := fun c first => by
    obtain (rfl | rfl) | first := head_exponent fits'' first
    · exact ⟨by decide, rfl⟩
    · exact ⟨by decide, rfl⟩
    · exact apart.stops 10 c first
  have point : fraction = none → (exponentText exponent ++ rest).head? ≠ some '.' := fun _ first => by
    obtain (none | none) | first := head_exponent fits'' first
    · cases none
    · cases none
    · exact apart.head_ne (.inr rfl) first
  have reads := readFraction_complete (l := { l with pos := l.pos + width whole }) late fits' stop point behind
  have reads' :=
    readExponent_complete (l := { l with pos := l.pos + width whole + width (fractionText fraction) }) l.pos late fits''
    (apart.stops 10) (fun _ => ⟨apart.head_ne (.inl rfl), apart.head_ne (.inl rfl)⟩) behind'
  simp [numberRest, bigintDigits]
  refine ⟨fun zero => (leads (leading.mp zero)).1,
    .inr ⟨fun _ _ _ big => ?_, .inr ⟨fun zero => ?_, _, reads, _, reads', ?_, ?_⟩⟩⟩
  · obtain none | first := head_fraction (behind.charAt ▸ big)
    · cases none
    obtain (none | none) | first := head_exponent fits'' first
    · cases none
    · cases none
    · exact apart.head_ne (.inl rfl) first
  · by_contra small
    obtain ⟨-, digits, noOctal⟩ := leads (leading.mp zero)
    exact noOctal (digits.octal (by simpa using small))
  · exact apart.noWord
      (l := { l with pos := l.pos + width whole + width (fractionText fraction) + width (exponentText exponent) })
      late behind''
  · rw [chars]
    exact run

/-- A numeral is read, if what is behind it is apart. -/
theorem Numeral.reads (late : 12 ≤ s.edition) {n : Numeral} (allowed : n.Allowed l.strict) (apart : Apart rest)
    (at' : s.source.TextAt l.pos (n.spelling ++ rest))
    (run : Runs s (finish .num n.value) { l with pos := l.pos + width n.spelling } u l') :
    ∃ c, n.spelling.head? = some c ∧ c ∈ literalMarks ∧ Runs s (literalReader c) l u l' := by
  cases allowed with
  | @marked mark radix digits big known fits =>
    have reads := readRadixNumber_complete late known fits apart at' run
    have second : s.source.charAt (l.pos + 1) = some mark := at'.step.charAt
    have known : radixMark? s.edition mark = some radix := radixMark?_late late mark ▸ known
    refine ⟨'0', rfl, by decide, ?_⟩
    simpa [literalReader, readZero, second, known] using reads
  | @bigint digits fits first =>
    have split : spelling (.bigint digits) ++ rest = digits ++ 'n' :: rest := by simp [spelling]
    rw [split] at at'
    obtain ⟨c, head, mark, reads⟩ :=
      literalReader_digits late fits (by simp [radixMark?]) at' (readNumber_bigint late fits first apart at' run)
    exact ⟨c, by simp [spelling, head], mark, reads⟩
  | octal sloppy zero plain fits =>
    exact literalReader_digits late fits.decimal apart.noMark at'
      (readNumber_octal late sloppy zero plain fits apart at' run)
  | @decimal whole fraction exponent fits fits' fits'' =>
    have text := at'
    rw [spelling, List.append_assoc, List.append_assoc] at text
    obtain ⟨zero, leading⟩ : ∃ zero : Bool, zero = true ↔ LeadingZero whole := ⟨_, leadingZero_iff text⟩
    have reads (dot : Bool) := numberRest_decimal dot zero late leading fits fits' fits'' apart at' run
    obtain ⟨rfl, digits, mem, known⟩ | ⟨digits, leads⟩ := fits
    · obtain rfl : fraction = some digits := mem
      obtain ⟨c, t, rfl, digit⟩ := known.head
      obtain ⟨value, digit⟩ := Option.isSome_iff_exists.mp digit
      have decimal := isDecimalDigit_of_digit? (Nat.le_refl 10) digit
      have second : s.source.charAt (l.pos + 1) = some c := text.step.charAt
      have chars : s.source.chars l.pos l.pos = [] := Source.TextAt.chars (t := []) text
      obtain rfl : zero = false := by simpa [LeadingZero] using leading
      refine ⟨'.', rfl, by decide, ?_⟩
      simp [literalReader, readDot, second, decimal]
      simpa [readNumber_eq, chars] using reads true
    · have behind {P : Char → Prop} (point : P '.') (mark : P 'e' ∧ P 'E') (other : ∀ c ∈ rest.head?, P c) :
          ∀ c ∈ (fractionText fraction ++ (exponentText exponent ++ rest)).head?, P c := fun c first => by
        obtain rfl | first := head_fraction first
        · exact point
        obtain (rfl | rfl) | first := head_exponent fits'' first
        · exact mark.1
        · exact mark.2
        · exact other c first
      have stop : StopsDigits 10 (fractionText fraction ++ (exponentText exponent ++ rest)) :=
        behind ⟨by decide, rfl⟩ ⟨⟨by decide, rfl⟩, ⟨by decide, rfl⟩⟩ (apart.stops 10)
      obtain ⟨c, head, mark, reads⟩ := literalReader_digits late digits (behind rfl ⟨rfl, rfl⟩ apart.noMark) text
        (readNumber_digits late digits (fun zero => (leads zero).2.1) stop text leading (reads false))
      exact ⟨c, by simp [spelling, head], mark, reads⟩

end Reads

end ScriptSyntax
