import ScriptSyntax.Proofs.Lexer.Spelling

/-!
Escapes in strings and templates: what the escape at the start of a text stands for, if it is valid, and what comes
after it.
-/

namespace ScriptSyntax

open LexM

/-! ### What an escape stands for -/

/-- The digits, `count` of them at most, that a text begins with. -/
def leadingDigits (radix : Nat) : Nat → List Char → List Nat
  | count + 1, c :: rest =>
    match Alphabet.digit? radix c with
    | some digit => digit :: leadingDigits radix count rest
    | none => []
  | _, _ => []

/-- The code that a number of hexadecimal digits write, and what comes after them. -/
def fixedHex? (count : Nat) (text : List Char) : Option (Nat × List Char) :=
  let digits := leadingDigits 16 count text
  if digits.length = count then some (Number.natOfDigits 16 digits, text.drop count) else none

/-- The code that digits up to a closing brace write, and what comes after the brace. -/
def bracedHex? (text : List Char) : Option (Nat × List Char) :=
  let digits := leadingDigits 16 text.length text
  match text.drop digits.length with
  | '}' :: rest =>
      if digits = [] ∨ 0x10ffff < Number.natOfDigits 16 digits then none else some (Number.natOfDigits 16 digits, rest)
  | _ => none

/-- The code that a digit and up to two more write in octal notation, below 256, and what comes after them. -/
def legacyOctal (digit : Nat) (text : List Char) : Nat × List Char :=
  let digits := leadingDigits 8 2 text
  let digits := if 255 < Number.natOfDigits 8 (digit :: digits) then digits.dropLast else digits
  (Number.natOfDigits 8 (digit :: digits), text.drop digits.length)

/-- What the escape behind a backslash stands for, which is nothing at the end of a line, and what comes after it.  None
if it is not valid; `legacy` are escapes with decimal digits, a zero alone apart. -/
def escape? (legacy : Bool) : List Char → Option (List Char × List Char)
  | [] => none
  | 'x' :: rest => (fixedHex? 2 rest).map (·.map ([charOfCode ·]) id)
  | 'u' :: '{' :: rest => (bracedHex? rest).map (·.map ([charOfCode ·]) id)
  | 'u' :: rest => (fixedHex? 4 rest).map (·.map ([charOfCode ·]) id)
  | '\r' :: '\n' :: rest => some ([], rest)
  | c :: rest =>
    if Alphabet.isLineTerminator c then some ([], rest)
    else match Alphabet.digit? 8 c with
      | some digit =>
        if legacy ∨ c = '0' ∧ rest.head?.all (fun d => !Alphabet.isDecimalDigit d) then
          some ((legacyOctal digit rest).map ([charOfCode ·]) id)
        else none
      | none => if (c = '8' ∨ c = '9') ∧ legacy = false then none else some ([(letterEscapes.lookup c).getD c], rest)

theorem fixedHex?_le {count : Nat} {text : List Char} {x : Nat × List Char} (read : fixedHex? count text = some x) :
    x.2.length ≤ text.length := by
  simp only [fixedHex?] at read
  split at read <;> cases read
  simp

theorem bracedHex?_le {text : List Char} {x : Nat × List Char} (read : bracedHex? text = some x) :
    x.2.length ≤ text.length := by
  simp only [bracedHex?] at read
  split at read
  · next rest close =>
    split at read <;> cases read
    have := congrArg List.length close
    simp only [List.length_drop, List.length_cons] at this
    dsimp only
    omega
  · cases read

theorem escape?_lt {legacy : Bool} {text : List Char} {x : List Char × List Char}
    (read : escape? legacy text = some x) : x.2.length < text.length := by
  unfold escape? at read
  split at read
  · cases read
  · obtain ⟨y, digits, rfl⟩ := Option.map_eq_some_iff.mp read
    exact Nat.lt_succ_of_le (fixedHex?_le digits)
  · obtain ⟨y, digits, rfl⟩ := Option.map_eq_some_iff.mp read
    exact Nat.lt_succ_of_lt (Nat.lt_succ_of_le (bracedHex?_le digits))
  · obtain ⟨y, digits, rfl⟩ := Option.map_eq_some_iff.mp read
    exact Nat.lt_succ_of_le (fixedHex?_le digits)
  · cases read
    simp
  · repeat' split at read
    all_goals cases read
    all_goals simp [legacyOctal]

/-! ### Digits -/

/-- A character that neither ends a chunk of a template nor escapes the one after it. -/
def IdleInChunk (c : Char) : Prop := c ≠ '\\' ∧ c ≠ '\x60' ∧ c ≠ '$'

instance : DecidablePred IdleInChunk := fun c => inferInstanceAs (Decidable (c ≠ '\\' ∧ c ≠ '\x60' ∧ c ≠ '$'))

variable {c : Char} {p text rest : List Char}

section Leading

variable {radix : Nat} {digits : List Char} {values : List Nat}

theorem leadingDigits_split (radix count : Nat) (text : List Char) : ∃ digits rest, text = digits ++ rest ∧
    digits.map (Alphabet.digit? radix) = (leadingDigits radix count text).map some ∧
      (digits.length < count → rest.head?.bind (Alphabet.digit? radix) = none) ∧ digits.length ≤ count := by
  induction count generalizing text with
  | zero => exact ⟨[], text, rfl, by simp [leadingDigits], by simp⟩
  | succ count ih =>
    cases text with
    | nil => exact ⟨[], [], rfl, by simp [leadingDigits], by simp⟩
    | cons c text =>
      cases known : Alphabet.digit? radix c with
      | none => exact ⟨[], c :: text, rfl, by simp [leadingDigits, known], by simp [known]⟩
      | some digit =>
        obtain ⟨digits, rest, rfl, same, stop, le⟩ := ih text
        exact ⟨c :: digits, rest, rfl, by simp [leadingDigits, known, same], by simpa using stop, by simpa using le⟩

theorem leadingDigits_append (known : digits.map (Alphabet.digit? radix) = values.map some)
    (stop : rest.head?.bind (Alphabet.digit? radix) = none) {count : Nat} (le : digits.length ≤ count) :
    leadingDigits radix count (digits ++ rest) = values := by
  induction digits generalizing values count with
  | nil =>
    obtain rfl : values = [] := by simpa using known.symm
    cases count <;> cases rest <;> simp_all [leadingDigits]
  | cons d digits ih =>
    obtain ⟨value, values, rfl, head, tail⟩ := List.map_eq_cons_iff.mp known.symm
    obtain ⟨count, rfl⟩ : ∃ n, count = n + 1 := Nat.exists_eq_add_one.mpr (Nat.lt_of_lt_of_le (by simp) le)
    simp [leadingDigits, ← head, ih tail.symm (by simpa using le)]

theorem leadingDigits_exact (known : digits.map (Alphabet.digit? radix) = values.map some) :
    leadingDigits radix digits.length (digits ++ rest) = values := by
  induction digits generalizing values with
  | nil => simpa [leadingDigits] using known.symm
  | cons d digits ih =>
    obtain ⟨value, values, rfl, head, tail⟩ := List.map_eq_cons_iff.mp known.symm
    simp [leadingDigits, ← head, ih tail.symm]

end Leading

theorem length_values {radix : Nat} {digits : List Char} {values : List Nat}
    (known : digits.map (Alphabet.digit? radix) = values.map some) :
    values.length = digits.length := by
  simpa using (congrArg List.length known).symm

section Braced

variable {digits : List Char} {values : List Nat} (hex : digits.map (Alphabet.digit? 16) = values.map some)
include hex

theorem bracedHex?_closed : bracedHex? (digits ++ '}' :: rest) =
    if values = [] ∨ 0x10ffff < Number.natOfDigits 16 values then none
      else some (Number.natOfDigits 16 values, rest) := by
  have leading : leadingDigits 16 (digits ++ '}' :: rest).length (digits ++ '}' :: rest) = values :=
    leadingDigits_append hex rfl (by simp)
  simp only [bracedHex?, leading, length_values hex, List.drop_left]

theorem bracedHex?_open (stop : rest.head?.bind (Alphabet.digit? 16) = none) (other : rest.head? ≠ some '}') :
    bracedHex? (digits ++ rest) = none := by
  have leading : leadingDigits 16 (digits ++ rest).length (digits ++ rest) = values :=
    leadingDigits_append hex stop (by simp)
  simp only [bracedHex?, leading, length_values hex, List.drop_left]
  split
  · exact (other rfl).elim
  · rfl

end Braced

/-- Digits are of one byte each, and a scan passes them. -/
theorem idle_of_digit {radix : Nat} {digits : List Char} {values : List Nat}
    (hex : digits.map (Alphabet.digit? radix) = values.map some) :
    (∀ c ∈ digits, IdleInChunk c) ∧ width digits = digits.length := by
  induction digits generalizing values with
  | nil => exact ⟨nofun, rfl⟩
  | cons d digits ih =>
    obtain ⟨value, values, rfl, head, tail⟩ := List.map_eq_cons_iff.mp hex.symm
    obtain ⟨idle, narrow⟩ := ih tail.symm
    refine ⟨List.forall_mem_cons.mpr ⟨?_, idle⟩, ?_⟩
    · refine ⟨?_, ?_, ?_⟩ <;> rintro rfl <;> cases head
    · rw [width_cons, narrow, (Alphabet.utf8Size_of_digit? head.symm), List.length_cons, Nat.add_comm]

/-! ### Escapes -/

/-- What an escape stands for, if it is valid. -/
def LexM.Escape.text? : Escape → Option (List Char)
  | .code n => some [charOfCode n]
  | .continuation => some []
  | .invalid .. => none

variable {s : Setting} {l l' : Lexer} {step : LexM Escape} {result : Option (List Char × List Char)}

/-- The step reads an escape, some idle characters at the start of a text.  What it stands for and what comes after it
is the result, if the escape is valid. -/
def ReadsEscape (s : Setting) (step : LexM Escape) (l : Lexer) (text : List Char)
    (result : Option (List Char × List Char)) : Prop :=
  ∃ v l' p rest, Runs s step l v l' ∧ text = p ++ rest ∧ (∀ c ∈ p, IdleInChunk c) ∧ s.source.TextAt l'.pos rest ∧
    result = v.text?.map fun read => (read, rest)

theorem hexDigits_leading (count : Nat) (at' : s.source.TextAt l.pos text) :
    Runs s (hexDigits count) l (leadingDigits 16 count text)
      { l with pos := l.pos + (leadingDigits 16 count text).length } := by
  induction count generalizing l text with
  | zero => simp [hexDigits, leadingDigits]
  | succ count ih =>
    have here := at'.charAt
    cases text with
    | nil => simp [hexDigits, leadingDigits, show s.source.charAt l.pos = none from here]
    | cons c text =>
      have here : (s.source.charAt l.pos).bind (Alphabet.digit? 16) = Alphabet.digit? 16 c := by rw [here]; rfl
      cases known : Alphabet.digit? 16 c with
      | none => simp [hexDigits, leadingDigits, here, known]
      | some digit =>
        have next := ih (l := { l with pos := l.pos + 1 }) ((Alphabet.utf8Size_of_digit? known) ▸ at'.step)
        simp only [hexDigits, leadingDigits, Runs.bind_iff, Runs.peek_iff, Runs.exists_look, here, known]
        simpa [Nat.add_assoc, Nat.add_comm 1] using next

theorem readHex_reads {count : Nat} (positive : 0 < count) (at' : s.source.TextAt l.pos text) :
    ReadsEscape s (readHex count) l text ((fixedHex? count text).map (·.map ([charOfCode ·]) id)) := by
  have run := hexDigits_leading count at'
  obtain ⟨digits, rest, rfl, hex, -, le⟩ := leadingDigits_split 16 count text
  unfold fixedHex?
  generalize leadingDigits 16 count (digits ++ rest) = values at hex run ⊢
  have length : values.length = digits.length := by simpa using (congrArg List.length hex).symm
  obtain ⟨l', after, run⟩ : ∃ l' : Lexer, s.source.TextAt l'.pos rest ∧ Runs s (hexDigits count) l values l' := by
    refine ⟨_, ?_, run⟩
    rw [length, ← (idle_of_digit hex).2]
    exact at'.past
  have idle := (idle_of_digit hex).1
  by_cases all : values.length = count
  · have some : values ≠ [] := List.ne_nil_of_length_pos (all ▸ positive)
    refine ⟨.code (Number.natOfDigits 16 values), l', digits, rest, ?_, rfl, idle, after, ?_⟩
    · simpa [readHex, invalidEscape_iff] using ⟨values, run, ⟨some, all⟩, rfl⟩
    · obtain rfl : count = digits.length := all.symm.trans length
      simp [length, Escape.text?]
  · refine ⟨.invalid (s.fatal l.pos .badEscape) (l'.inTemplate && decide (9 ≤ s.edition)), l', digits, rest, ?_, rfl,
      idle, after, by simp [all, Escape.text?]⟩
    simpa [readHex, invalidEscape_iff] using ⟨values, run, .inr all⟩

/-- Digits that no closing brace follows do not fill the text up to one. -/
theorem fixedHex?_open {digits : List Char} {values : List Nat}
    (hex : digits.map (Alphabet.digit? 16) = values.map some)
    (stop : rest.head?.bind (Alphabet.digit? 16) = none) (other : rest.head? ≠ some '}') {start close : Nat}
    (at' : s.source.TextAt start (digits ++ rest)) (le : start ≤ close) (closes : s.source.charAt close = some '}') :
    fixedHex? (close - start) (digits ++ rest) = none := by
  obtain ⟨digits', rest', split, hex', -, -⟩ := leadingDigits_split 16 (close - start) (digits ++ rest)
  rw [fixedHex?, if_neg]
  intro full
  generalize leadingDigits 16 (close - start) (digits ++ rest) = values' at hex' full
  have length := length_values hex'
  have after : s.source.TextAt close rest' := by
    have past := (split ▸ at').past
    rwa [(idle_of_digit hex').2, ← length, full, Nat.add_sub_cancel' le] at past
  have brace : rest'.head? = some '}' := after.charAt.symm.trans closes
  have longest {digits rest : List Char} {values : List Nat} (hex : digits.map (Alphabet.digit? 16) = values.map some)
      (stop : rest.head?.bind (Alphabet.digit? 16) = none) : leadingDigits 16 (digits ++ rest).length
        (digits ++ rest) = values :=
    leadingDigits_append hex stop (by simp)
  have same : values' = values := by rw [← longest hex stop, split, longest hex' (by rw [brace]; rfl)]
  have lengths : digits'.length = digits.length := by rw [← length, same, length_values hex]
  obtain ⟨-, rfl⟩ := List.append_inj split lengths.symm
  exact other brace

/-- Digits in braces. -/
theorem readCodePoint_braced (known : 6 ≤ s.edition) (at' : s.source.TextAt l.pos ('{' :: text)) :
    ReadsEscape s readCodePoint l ('{' :: text) ((bracedHex? text).map (·.map ([charOfCode ·]) id)) := by
  have inside : s.source.TextAt (l.pos + 1) text := at'.step
  have here : s.source.charAt l.pos = some '{' := at'.charAt
  have brace : IdleInChunk '{' ∧ IdleInChunk '}' := by decide
  obtain ⟨digits, rest, rfl, hex, stop, le⟩ := leadingDigits_split 16 text.length text
  generalize leadingDigits 16 _ (digits ++ rest) = values at hex
  have stop : rest.head?.bind (Alphabet.digit? 16) = none := by
    cases rest with
    | nil => rfl
    | cons => exact stop (by simp)
  have length := length_values hex
  have idle := (idle_of_digit hex).1
  by_cases closed : rest.head? = some '}'
  · obtain ⟨rest, rfl⟩ := List.head?_eq_some_iff.mp closed
    have absent : '}' ∉ digits := fun mem => by
      obtain ⟨⟨value, digit⟩, -⟩ := hex_plain hex mem
      cases digit
    have closes := inside.find? (fun d mem => (hex_plain hex mem).2) absent
    rw [bracedHex?_closed hex]
    by_cases empty : digits = []
    · obtain rfl : values = [] := List.eq_nil_of_length_eq_zero (by simp [length, empty])
      subst empty
      refine ⟨.invalid (s.fatal (l.pos + 1) .badEscape) (l.inTemplate && decide (9 ≤ s.edition)),
        { l with pos := l.pos + 1 }, ['{'], '}' :: rest, ?_, rfl, by simp [brace], inside, by simp [Escape.text?]⟩
      have closes : s.source.find? (fun i => s.source.has i '}') (l.pos + 1) = some (l.pos + 1) := closes
      simp [readCodePoint, here, known, closes, readHex, invalidEscape_iff, hexDigits]
    · have run := readHex_text (l := { l with pos := l.pos + 1 }) empty ⟨values, hex, rfl⟩ inside
      have nonempty : values ≠ [] := fun none => empty (List.eq_nil_of_length_eq_zero (by simp [← length, none]))
      obtain ⟨l', after, same⟩ : ∃ l' : Lexer, s.source.TextAt l'.pos rest ∧
          l' = { l with pos := l.pos + 1 + digits.length + 1 } := by
        refine ⟨_, ?_, rfl⟩
        have past := (show s.source.TextAt (l.pos + 1) ((digits ++ ['}']) ++ rest) by simpa using inside).past
        rwa [width_append, (idle_of_digit hex).2, ← Nat.add_assoc] at past
      have split : '{' :: (digits ++ '}' :: rest) = '{' :: (digits ++ ['}']) ++ rest := by simp
      have passed : ∀ c ∈ '{' :: (digits ++ ['}']), IdleInChunk c := by simpa [or_imp, forall_and, brace] using idle
      by_cases large : 0x10ffff < Number.natOfDigits 16 values
      · refine ⟨.invalid (s.fatal (l.pos + 1) .codePointOutOfBounds) (l.inTemplate && decide (9 ≤ s.edition)), l', _,
          rest, ?_, split, passed, after, by simp [large, Escape.text?]⟩
        simp [readCodePoint, here, known, closes]
        exact ⟨_, _, run, by simp [invalidEscape_iff, large, same]⟩
      · refine ⟨.code (Number.natOfDigits 16 values), l', _, rest, ?_, split, passed,
          after, by simp [large, nonempty, Escape.text?]⟩
        simp [readCodePoint, here, known, closes]
        exact ⟨_, _, run, by simp [large, same]⟩
  · rw [bracedHex?_open hex stop closed]
    cases found : s.source.find? (fun i => s.source.has i '}') (l.pos + 1) with
    | none =>
      refine ⟨.invalid (s.fatal (l.pos + 1) .badEscape) (l.inTemplate && decide (9 ≤ s.edition)),
        { l with pos := l.pos + 1 }, ['{'], digits ++ rest, ?_, rfl, by simp [brace], inside, rfl⟩
      simp [readCodePoint, here, known, found, invalidEscape_iff]
    | some close =>
      obtain ⟨le, -, closes⟩ := Source.find?_spec found
      obtain positive | atOnce : 0 < close - (l.pos + 1) ∨ close = l.pos + 1 := by omega
      · obtain ⟨v, l', p, rest', run, split, passed, after, result⟩ :=
          readHex_reads (l := { l with pos := l.pos + 1 }) positive inside
        rw [fixedHex?_open hex stop closed inside le (Source.has_iff.mp closes)] at result
        refine ⟨v, l', '{' :: p, rest', ?_, by simp [split], List.forall_mem_cons.mpr ⟨brace.1, passed⟩, after, result⟩
        simp [readCodePoint, here, known, found]
        refine ⟨_, _, run, ?_⟩
        cases v with
        | code => cases result
        | _ => exact Runs.pure_iff.mpr ⟨rfl, rfl⟩
      · refine ⟨.invalid (s.fatal (l.pos + 1) .badEscape) (l.inTemplate && decide (9 ≤ s.edition)),
          { l with pos := l.pos + 1 }, ['{'], digits ++ rest, ?_, rfl, by simp [brace], inside, rfl⟩
        simp [readCodePoint, here, known, found, atOnce, readHex, invalidEscape_iff, hexDigits]

/-- The decimal digits are those of octal numbers and two more. -/
theorem isDecimalDigit_cases (decimal : Alphabet.isDecimalDigit c = true) :
    c = '8' ∨ c = '9' ∨ Alphabet.isOctalDigit c = true ∧ ∃ digit, Alphabet.digit? 8 c = some digit ∧
      (digit = 0 → c = '0') := by
  simp only [Alphabet.isDecimalDigit, Bool.and_eq_true, decide_eq_true_eq, Char.le_def,
    UInt32.le_iff_toNat_le] at decimal
  have low : 48 ≤ c.toNat := decimal.1
  have high : c.toNat ≤ 57 := decimal.2
  rw [← Char.ofNat_toNat c]
  interval_cases c.toNat
  case «56» => exact .inl rfl
  case «57» => exact .inr (.inl rfl)
  all_goals exact .inr (.inr ⟨rfl, _, rfl, by decide⟩)

theorem isDecimalDigit_of_digit? {radix digit : Nat} (le : radix ≤ 10) (known : Alphabet.digit? radix c = some digit) :
    Alphabet.isDecimalDigit c = true := by
  by_contra other
  have small := Alphabet.digit?_lt known
  simp only [Alphabet.digit?, Alphabet.digitValue?, if_neg other, Option.filter_eq_some_iff] at known
  have value := known.1
  split at value
  · cases value
    omega
  · split at value <;> cases value
    omega

/-- After the first digit of a legacy escape come one or two more, unless another character comes. -/
theorem octalDigits_text {source : Source} {here digit : Nat} (known : Alphabet.digit? 8 c = some digit)
    (at' : source.TextAt here (c :: text)) :
    ∃ p values rest, text = p ++ rest ∧ octalDigits source (here + 1) = digit :: values ∧
      p.map (Alphabet.digit? 8) = values.map some ∧
      legacyOctal digit text = (Number.natOfDigits 8 (digit :: values), rest) ∧
        (values = [] → rest.head?.bind (Alphabet.digit? 8) = none) := by
  have narrow {c : Char} {digit : Nat} (known : Alphabet.digit? 8 c = some digit) : c.utf8Size = 1 :=
    (Alphabet.utf8Size_of_digit? known)
  have small {c : Char} {digit : Nat} (known : Alphabet.digit? 8 c = some digit) : digit < 8 := Alphabet.digit?_lt known
  have first : (source.charAt here).bind (Alphabet.digit? 8) = some digit := by rw [at'.charAt_cons]; exact known
  have at' : source.TextAt (here + 1) text := narrow known ▸ at'.step
  have lt := small known
  cases second : text.head?.bind (Alphabet.digit? 8) with
  | none =>
    have none : [].map (Alphabet.digit? 8) = ([] : List Nat).map some := rfl
    have leading : leadingDigits 8 2 text = [] := leadingDigits_append none second (by simp)
    refine ⟨[], [], text, rfl, ?_, rfl, ?_, fun _ => second⟩
    · simp [octalDigits, first, at'.charAt, second, Number.natOfDigits, show ¬ 255 < digit by omega]
    · simp [legacyOctal, leading]
  | some value =>
    obtain ⟨d, head, known'⟩ := Option.bind_eq_some_iff.mp second
    obtain ⟨rest, rfl⟩ := List.head?_eq_some_iff.mp head
    have at'' : source.TextAt (here + 1 + 1) rest := narrow known' ▸ at'.step
    have lt' := small known'
    have two : ¬ 255 < digit * 8 + value := by omega
    cases third : rest.head?.bind (Alphabet.digit? 8) with
    | none =>
      have one : [d].map (Alphabet.digit? 8) = [value].map some := by simp [known']
      have leading : leadingDigits 8 2 (d :: rest) = [value] := leadingDigits_append one third (by simp)
      refine ⟨[d], [value], rest, rfl, ?_, by simp [known'], ?_, by simp⟩
      · simp [octalDigits, first, at'.charAt, at''.charAt, known', third, Number.natOfDigits, two]
      · simp [legacyOctal, leading, Number.natOfDigits, two]
    | some last =>
      obtain ⟨b, head, known''⟩ := Option.bind_eq_some_iff.mp third
      obtain ⟨rest, rfl⟩ := List.head?_eq_some_iff.mp head
      have leading : leadingDigits 8 2 (d :: b :: rest) = [value, last] := by simp [leadingDigits, known', known'']
      by_cases large : 255 < Number.natOfDigits 8 [digit, value, last]
      · refine ⟨[d], [value], b :: rest, rfl, ?_, by simp [known'], ?_, by simp⟩
        · simp [octalDigits, first, at'.charAt, at''.charAt, known', known'', large]
        · simp [legacyOctal, leading, large]
      · refine ⟨[d, b], [value, last], rest, rfl, ?_, by simp [known', known''], ?_, by simp⟩
        · simp [octalDigits, first, at'.charAt, at''.charAt, known', known'', large]
        · simp [legacyOctal, leading, large]

/-- A zero alone has no digit after it. -/
theorem isLoneZero_iff {digit : Nat} {values : List Nat} (known : Alphabet.digit? 8 c = some digit)
    (octal : p.map (Alphabet.digit? 8) = values.map some)
    (alone : values = [] → rest.head?.bind (Alphabet.digit? 8) = none) :
    (c = '0' ∧ (p ++ rest).head?.all (fun d => !Alphabet.isDecimalDigit d)) ↔ digit :: values = [0] ∧
      rest.head? ≠ some '8' ∧ rest.head? ≠ some '9' := by
  constructor
  · rintro ⟨rfl, other⟩
    cases known
    obtain rfl : values = [] := by
      obtain _ | ⟨d, p⟩ := p
      · simpa using octal.symm
      · obtain ⟨value, more, -, head, -⟩ := List.map_eq_cons_iff.mp octal.symm
        simp [isDecimalDigit_of_digit? (by decide) head.symm] at other
    obtain rfl : p = [] := by simpa using octal
    refine ⟨rfl, ?_, ?_⟩ <;> intro head <;> simp [head, Alphabet.isDecimalDigit] at other
  · rintro ⟨zero, notEight, notNine⟩
    obtain ⟨rfl, rfl⟩ := List.cons_eq_cons.mp zero
    obtain rfl : p = [] := by simpa using octal
    constructor
    · obtain rfl | rfl | ⟨-, digit, same, zero⟩ := isDecimalDigit_cases (isDecimalDigit_of_digit? (by decide) known)
      · cases known
      · cases known
      · exact zero (Option.some.inj (same.symm.trans known))
    · rw [List.nil_append]
      cases head : rest.head? with
      | none => rfl
      | some d =>
        by_contra decimal
        obtain rfl | rfl | ⟨-, digit, same, -⟩ := isDecimalDigit_cases (c := d) (by simpa using decimal)
        · exact notEight head
        · exact notNine head
        · simpa [head, same] using alone rfl

/-- A digit of a legacy escape is passed with those after it; only a zero alone is always valid. -/
theorem readOctalEscape_reads {inTemplate legacy : Bool} (allowed : legacy = !(l.strict || inTemplate))
    {here digit : Nat}
    (known : Alphabet.digit? 8 c = some digit) (place : l.pos = here + 1) (at' : s.source.TextAt here (c :: text)) :
    ReadsEscape s (readOctalEscape inTemplate) l text
      (if legacy ∨ c = '0' ∧ text.head?.all (fun d => !Alphabet.isDecimalDigit d)
        then some ((legacyOctal digit text).map ([charOfCode ·]) id)
      else none) := by
  have after : s.source.TextAt l.pos text := place ▸ (Alphabet.utf8Size_of_digit? known) ▸ at'.step
  obtain ⟨p, values, rest, rfl, digits, octal, read, alone⟩ := octalDigits_text known at'
  obtain ⟨idle, narrow⟩ := idle_of_digit octal
  rw [← place] at digits
  have past : s.source.TextAt (l.pos + values.length) rest := by
    rw [length_values octal, ← narrow]
    exact after.past
  have next : s.source.charAt (l.pos + values.length) = rest.head? := past.charAt
  simp only [isLoneZero_iff known octal alone, read]
  by_cases valid : legacy ∨ digit :: values = [0] ∧ rest.head? ≠ some '8' ∧ rest.head? ≠ some '9'
  · refine ⟨.code (Number.natOfDigits 8 (digit :: values)), { l with pos := l.pos + values.length }, p, rest,
      ?_, rfl, idle, past,
      by rw [if_pos valid]; rfl⟩
    simp [readOctalEscape_eq, digits, next]
    refine .inr fun more => ?_
    obtain permitted | ⟨zero, notEight, notNine⟩ := valid
    · simpa [permitted] using allowed
    · simp_all
  · refine ⟨.invalid (s.fatal (l.pos + values.length - 1 - (digit :: values).length)
        (if inTemplate then .octalInTemplate else .octalInStrictMode)) (l.inTemplate && decide (9 ≤ s.edition)),
      { l with pos := l.pos + values.length }, p, rest, ?_, rfl, idle, past, by rw [if_neg valid]; rfl⟩
    simp [readOctalEscape_eq, digits, next, invalidEscape_iff]
    rw [not_or] at valid
    constructor
    · by_contra! other
      exact valid.2 ⟨by simp [other.1.1], other.1.2, other.2⟩
    · by_contra! permitted
      exact valid.1 (by simp [allowed, permitted])

theorem escape?_cons {legacy : Bool} (notX : c ≠ 'x') (notU : c ≠ 'u')
    (alone : ∀ rest, c = '\r' → text ≠ '\n' :: rest) : escape? legacy (c :: text) =
    if Alphabet.isLineTerminator c then some ([], text)
    else match Alphabet.digit? 8 c with
      | some digit =>
        if legacy ∨ c = '0' ∧ text.head?.all (fun d => !Alphabet.isDecimalDigit d) then
          some ((legacyOctal digit text).map ([charOfCode ·]) id)
        else none
      | none =>
          if (c = '8' ∨ c = '9') ∧ legacy = false then none else some ([(letterEscapes.lookup c).getD c], text) := by
  rw [escape?]
  · exact notX
  · exact fun _ same => (notU same).elim
  · exact notU
  · exact alone

theorem readCodePoint_reads {legacy : Bool} (known : 6 ≤ s.edition) (at' : s.source.TextAt l.pos text) :
    ReadsEscape s readCodePoint l text (escape? legacy ('u' :: text)) := by
  by_cases braced : text.head? = some '{'
  · obtain ⟨text, rfl⟩ := List.head?_eq_some_iff.mp braced
    exact readCodePoint_braced known at'
  · have four := readHex_reads (show 0 < 4 by decide) at'
    have seen : s.source.charAt l.pos ≠ some '{' := at'.charAt ▸ braced
    rw [escape?]
    · obtain ⟨v, l', p, rest, run, rest'⟩ := four
      exact ⟨v, l', p, rest, by simpa [readCodePoint, seen] using run, rest'⟩
    · rintro rest rfl
      exact braced rfl

/-- An escape that begins with none of the characters that have a meaning of their own. -/
theorem readEscape_other {inTemplate : Bool} {v : Escape} (first : s.source.charAt (l.pos + 1) = some c)
    (other : c ∉ ['n', 'r', 'x', 'u', 't', 'b', 'v', 'f', '\r']) :
    Runs s (readEscape inTemplate) l v l' ↔ Runs s (do
      if Alphabet.isLineTerminator c then
        newLine
        return .continuation
      else if c = '8' ∨ c = '9' then
        if (← get).strict then invalidEscape ((← pos) - 1) .invalidEscape
        else if inTemplate then invalidEscape ((← pos) - 1) .invalidEscapeInTemplate
        else return .code c.toNat
      else if Alphabet.isOctalDigit c then readOctalEscape inTemplate
      else return .code c.toNat) { l with pos := l.pos + 1 + c.utf8Size } v l' := by
  simp only [readEscape, Runs.bind_iff, Runs.advance_iff, Runs.peek_iff, Runs.exists_unit, exists_eq_left,
    Runs.exists_look, first, Runs.skip_iff]
  split
  case h_10 => rfl
  all_goals simp at other

/-- The lexer takes along the character after a backslash, and the digits of the escape. -/
theorem readEscape_reads {inTemplate legacy : Bool} (known : 6 ≤ s.edition)
    (allowed : legacy = !(l.strict || inTemplate))
    (at' : s.source.TextAt l.pos ('\\' :: c :: text)) :
    ReadsEscape s (readEscape inTemplate) l text (escape? legacy (c :: text)) := by
  have first : s.source.charAt (l.pos + 1) = some c := at'.step.charAt_cons
  have behind : s.source.TextAt (l.pos + 1 + c.utf8Size) text := at'.step.step
  have reads {step : LexM Escape} {result : Option (List Char × List Char)}
      (reads : ReadsEscape s step { l with pos := l.pos + 1 + c.utf8Size } text result)
      (run : ∀ {v l'}, Runs s step { l with pos := l.pos + 1 + c.utf8Size } v l' →
        Runs s (readEscape inTemplate) l v l')
      (same : escape? legacy (c :: text) = result) : ReadsEscape s (readEscape inTemplate) l text
        (escape? legacy (c :: text)) := by
    obtain ⟨v, l', p, rest, steps, split, idle, after, value⟩ := reads
    exact ⟨v, l', p, rest, run steps, split, idle, after, same.trans value⟩
  have simple {v : Escape} {l' : Lexer} (run : Runs s (readEscape inTemplate) l v l')
      (pos : l'.pos = l.pos + 1 + c.utf8Size)
      (same : escape? legacy (c :: text) = v.text?.map fun read => (read, text)) :
      ReadsEscape s (readEscape inTemplate) l text (escape? legacy (c :: text)) :=
    ⟨v, l', [], text, run, rfl, nofun, pos ▸ behind, same⟩
  by_cases hex : c = 'x'
  · subst hex
    exact reads (readHex_reads (show 0 < 2 by decide) behind) (fun run => by simpa [readEscape, first] using run) rfl
  by_cases point : c = 'u'
  · subst point
    exact reads (readCodePoint_reads known behind) (fun run => by simpa [readEscape, first] using run) rfl
  by_cases carriage : c = '\r'
  · subst carriage
    by_cases feed : text.head? = some '\n'
    · obtain ⟨text, rfl⟩ := List.head?_eq_some_iff.mp feed
      have seen : s.source.charAt (l.pos + 2) = some '\n' := behind.charAt_cons
      refine ⟨.continuation, { l with pos := l.pos + 3, line := l.line + 1, lineStart := l.pos + 3 }, ['\n'], text, ?_,
        rfl, by simp [IdleInChunk],
        behind.step, rfl⟩
      simp [readEscape, first, endCarriageReturn]
      exact .inl ⟨seen, rfl⟩
    · have seen : s.source.charAt (l.pos + 2) ≠ some '\n' := fun seen => feed (behind.charAt.symm.trans seen)
      have run : Runs s (readEscape inTemplate) l .continuation
          { l with pos := l.pos + 2, line := l.line + 1, lineStart := l.pos + 2 } := by
        simp [readEscape, first, endCarriageReturn]
        exact .inr ⟨seen, rfl⟩
      refine simple run rfl ?_
      rw [escape?_cons (by decide) (by decide) (by rintro rest - rfl; exact feed rfl)]
      rfl
  have value := @escape?_cons c text legacy hex point fun _ same => (carriage same).elim
  by_cases letter : c ∈ ['n', 'r', 't', 'b', 'v', 'f']
  · simp only [List.mem_cons, List.not_mem_nil, or_false] at letter
    obtain rfl | rfl | rfl | rfl | rfl | rfl := letter
    · exact simple (v := .code 10) (by simp [readEscape, first]; rfl) rfl (by rw [value]; rfl)
    · exact simple (v := .code 13) (by simp [readEscape, first]; rfl) rfl (by rw [value]; rfl)
    · exact simple (v := .code 9) (by simp [readEscape, first]; rfl) rfl (by rw [value]; rfl)
    · exact simple (v := .code 8) (by simp [readEscape, first]; rfl) rfl (by rw [value]; rfl)
    · exact simple (v := .code 11) (by simp [readEscape, first]; rfl) rfl (by rw [value]; rfl)
    · exact simple (v := .code 12) (by simp [readEscape, first]; rfl) rfl (by rw [value]; rfl)
  have run {v : Escape} {l' : Lexer} := @readEscape_other c s l l' inTemplate v first (by simp at letter ⊢; tauto)
  by_cases ends : Alphabet.isLineTerminator c
  · exact simple (v := .continuation) (run.mpr (by simp [ends]; rfl)) rfl (by rw [value, if_pos ends]; rfl)
  rw [if_neg ends] at value
  by_cases octal : Alphabet.isOctalDigit c
  · obtain ⟨digit, known⟩ := Alphabet.exists_digit_of_isOctalDigit octal
    have narrow := (Alphabet.utf8Size_of_digit? known)
    have notNine : ¬ (c = '8' ∨ c = '9') := by rintro (rfl | rfl) <;> cases known
    rw [known] at value
    have place : l.pos + 1 + c.utf8Size = l.pos + 1 + 1 := by rw [narrow]
    have digits := readOctalEscape_reads (l := { l with pos := l.pos + 1 + c.utf8Size }) allowed known place at'.step
    exact reads digits (fun octal' => run.mpr (by simpa [ends, notNine, octal] using octal')) value
  have notOctal : Alphabet.digit? 8 c = none := by
    by_contra some
    obtain ⟨digit, known⟩ := Option.ne_none_iff_exists'.mp some
    obtain rfl | rfl | ⟨isOctal, -⟩ := isDecimalDigit_cases (isDecimalDigit_of_digit? (by decide) known)
    · cases known
    · cases known
    · exact octal isOctal
  have notLetter : letterEscapes.lookup c = none := by
    simp [letterEscapes, List.lookup_eq_none_iff] at letter ⊢
    tauto
  rw [notOctal, notLetter] at value
  by_cases nine : c = '8' ∨ c = '9'
  · by_cases strict : l.strict
    · have refused : legacy = false := by simp [allowed, strict]
      exact simple (v := .invalid _ _)
        (run.mpr (by simp [ends, nine, strict, invalidEscape_iff]; exact ⟨⟨rfl, rfl⟩, rfl⟩)) rfl
        (by rw [value, if_pos ⟨nine, refused⟩]; rfl)
    cases inTemplate with
    | true =>
      have refused : legacy = false := by simp [allowed]
      exact simple (v := .invalid _ _)
        (run.mpr (by simp [ends, nine, strict, invalidEscape_iff]; exact ⟨⟨rfl, rfl⟩, rfl⟩)) rfl
        (by rw [value, if_pos ⟨nine, refused⟩]; rfl)
    | false =>
      refine simple (v := .code c.toNat) (run.mpr (by simp [ends, nine, strict]; rfl)) rfl ?_
      rw [value, if_neg (by simp [allowed, strict])]
      simp [Escape.text?, charOfCode_toNat]
  · refine simple (v := .code c.toNat) (run.mpr (by simp [ends, nine, octal]; rfl)) rfl ?_
    rw [value, if_neg fun h => nine h.1]
    simp [Escape.text?, charOfCode_toNat]

end ScriptSyntax
