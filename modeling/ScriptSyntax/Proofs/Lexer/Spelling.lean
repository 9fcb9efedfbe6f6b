import ScriptSyntax.Proofs.Lexer.Excerpt
import ScriptSyntax.Proofs.RegExp.Text

/-!
The ways to write a string.  Whichever is taken for each of its characters, and wherever lines are broken by a
backslash, the lexer reads one token, and the string comes out of it again.
-/

namespace ScriptSyntax

open LexM

/-! ### Spellings -/

/-- The characters are the digits of a number in hexadecimal notation. -/
def SpellsHex (digits : List Char) (code : Nat) : Prop :=
  ∃ values, digits.map (Alphabet.digit? 16) = values.map some ∧ Number.natOfDigits 16 values = code

/-- The letters that stand for other characters after a backslash. -/
def letterEscapes : List (Char × Char) :=
  [('b', '\x08'), ('f', '\x0c'), ('n', '\n'), ('r', '\r'), ('t', '\t'), ('v', '\x0b')]

/-- What ends a line. -/
def lineEnds : List (List Char) := [['\n'], ['\r'], ['\r', '\n'], ['\u2028'], ['\u2029']]

/-- The ways to write a character after a backslash. -/
inductive EscapesChar (c : Char) : List Char → Prop
  | twoDigits {digits : List Char} (two : digits.length = 2) (hex : SpellsHex digits c.toNat) :
      EscapesChar c ('x' :: digits)
  | fourDigits {digits : List Char} (four : digits.length = 4) (hex : SpellsHex digits c.toNat) :
      EscapesChar c ('u' :: digits)
  /-- As many zeros may come first as one likes. -/
  | braces {digits : List Char} (some : digits ≠ []) (hex : SpellsHex digits c.toNat) :
    EscapesChar c ('u' :: '\x7b' :: digits ++ ['\x7d'])
  | letter {mark : Char} (known : (mark, c) ∈ letterEscapes) : EscapesChar c [mark]
  | itself (notDigit : Alphabet.isDecimalDigit c = false) (notEnd : Alphabet.isLineTerminator c = false)
    (notLetter : c ∉ ['b', 'f', 'n', 'r', 't', 'u', 'v', 'x']) : EscapesChar c [c]

/-- The ways to write a character of a string between quotes. -/
inductive SpellsChar (quote c : Char) : List Char → Prop
  | itself (notQuote : c ≠ quote) (notBackslash : c ≠ '\\') (notFeed : c ≠ '\n') (notReturn : c ≠ '\r') :
      SpellsChar quote c [c]
  | escape {spelling : List Char} (escapes : EscapesChar c spelling) : SpellsChar quote c ('\\' :: spelling)

/-- The ways to write a string between quotes, with line breaks that leave no trace. -/
inductive SpellsString (quote : Char) : List Char → List Char → Prop
  | nil : SpellsString quote [] []
  | char {c : Char} {text spelling rest : List Char} (first : SpellsChar quote c spelling)
      (next : SpellsString quote text rest) :
    SpellsString quote (c :: text) (spelling ++ rest)
  | lineEnd {mark text rest : List Char} (known : mark ∈ lineEnds) (next : SpellsString quote text rest) :
    SpellsString quote text ('\\' :: mark ++ rest)

variable {s : Setting} {l l' : Lexer} {quote c : Char} {text spelling rest digits : List Char}
  {values : List Nat} {code : Nat}

/-! ### Digits -/

theorem Source.TextAt.find? {source : Source} {offset : Nat} (at' : source.TextAt offset (text ++ c :: rest))
    (narrow : ∀ d ∈ text, d.utf8Size = 1)
    (other : c ∉ text) : source.find? (fun i => source.has i c) offset = some (offset + text.length) := by
  induction text generalizing offset with
  | nil =>
    have here := at'.charAt_cons
    rw [Source.find?, if_pos (lt_size_of_charAt here), if_pos (has_iff.mpr here), List.length_nil, Nat.add_zero]
  | cons d text ih =>
    have here := at'.charAt_cons
    have size := narrow d (.head _)
    rw [List.mem_cons, not_or] at other
    have ne : source.has offset c ≠ true := fun has => other.1 (Option.some.inj ((has_iff.mp has).symm.trans here))
    rw [Source.find?, if_pos (lt_size_of_charAt here), if_neg ne,
      ih (size ▸ at'.step) (fun b mem => narrow b (.tail _ mem)) other.2, List.length_cons,
        Nat.add_assoc, Nat.add_comm 1]

/-- Digits are of one byte each, and none is a brace. -/
theorem hex_plain (hex : digits.map (Alphabet.digit? 16) = values.map some) {d : Char} (mem : d ∈ digits) :
    (∃ value, Alphabet.digit? 16 d = some value) ∧ d.utf8Size = 1 := by
  have mem : Alphabet.digit? 16 d ∈ values.map some := hex ▸ List.mem_map_of_mem mem
  obtain ⟨value, -, same⟩ := List.mem_map.mp mem
  exact ⟨⟨value, same.symm⟩, (Alphabet.utf8Size_of_digit? same.symm)⟩

theorem hexDigits_text (hex : digits.map (Alphabet.digit? 16) = values.map some)
    (at' : s.source.TextAt l.pos (digits ++ rest)) :
    Runs s (hexDigits digits.length) l values { l with pos := l.pos + digits.length } := by
  induction digits generalizing l values with
  | nil =>
    obtain rfl : values = [] := by simpa using hex.symm
    simp [hexDigits]
  | cons d digits ih =>
    obtain ⟨value, values, rfl, head, tail⟩ := List.map_eq_cons_iff.mp hex.symm
    have size := (Alphabet.utf8Size_of_digit? head.symm)
    have step := ih (l := { l with pos := l.pos + 1 }) tail.symm (size ▸ at'.step)
    have here : (s.source.charAt l.pos).bind (Alphabet.digit? 16) = some value := by
      rw [at'.charAt_cons]; exact head.symm
    simp only [List.length_cons, hexDigits, Runs.bind_iff, Runs.peek_iff, Runs.exists_look, here]
    simpa [Nat.add_assoc, Nat.add_comm 1] using step

theorem readHex_text (some : digits ≠ []) (hex : SpellsHex digits code) (at' : s.source.TextAt l.pos (digits ++ rest)) :
    Runs s (readHex digits.length) l (.code code) { l with pos := l.pos + digits.length } := by
  obtain ⟨values, hex, rfl⟩ := hex
  have length : values.length = digits.length := by simpa using (congrArg List.length hex).symm
  have run := hexDigits_text hex at'
  have nonempty : values ≠ [] := by
    rintro rfl
    exact some (List.eq_nil_of_length_eq_zero length.symm)
  simpa [readHex, invalidEscape_iff] using ⟨values, run, ⟨nonempty, length⟩, rfl⟩

theorem readCodePoint_braces (known : 6 ≤ s.edition) (some : digits ≠ []) (hex : SpellsHex digits code)
    (small : code ≤ 0x10ffff) (at' : s.source.TextAt l.pos ('\x7b' :: digits ++ '\x7d' :: rest)) :
    Runs s readCodePoint l (.code code) { l with pos := l.pos + (digits.length + 2) } := by
  have inside := at'.step
  obtain ⟨values, plain, -⟩ := id hex
  have closes : s.source.find? (fun i => s.source.has i '\x7d') (l.pos + 1) = .some (l.pos + 1 + digits.length) := by
    refine inside.find? (fun d mem => (hex_plain plain mem).2) fun mem => ?_
    obtain ⟨⟨value, digit⟩, -⟩ := hex_plain plain mem
    cases digit
  have run := readHex_text (l := { l with pos := l.pos + 1 }) some hex inside
  simp [readCodePoint, at'.charAt, closes]
  refine ⟨known, _, _, run, ?_⟩
  simpa [Nat.add_assoc, Nat.add_comm 1] using .inr small

theorem readCodePoint_digits (four : digits.length = 4) (hex : SpellsHex digits code)
    (at' : s.source.TextAt l.pos (digits ++ rest)) :
    Runs s readCodePoint l (.code code) { l with pos := l.pos + 4 } := by
  have nonempty : digits ≠ [] := by
    rintro rfl
    cases four
  have run := readHex_text nonempty hex at'
  have other : s.source.charAt l.pos ≠ some '\x7b' := by
    obtain ⟨values, plain, -⟩ := hex
    obtain ⟨d, digits, rfl⟩ := List.exists_cons_of_ne_nil nonempty
    rw [at'.charAt_cons]
    intro same
    obtain ⟨⟨value, digit⟩, -⟩ := hex_plain plain (.head _)
    rw [Option.some.inj same] at digit
    cases digit
  rw [four] at run
  simp [readCodePoint, other, run]

/-! ### Characters -/

theorem charOfCode_toNat (c : Char) :
    charOfCode c.toNat = c := by rw [charOfCode, RegExp.scalar?_toNat, Option.getD_some]

theorem width_hex (hex : SpellsHex digits code) : width digits = digits.length := by
  obtain ⟨values, hex, -⟩ := hex
  have narrow := fun d mem => (hex_plain (d := d) hex mem).2
  clear hex
  induction digits with
  | nil => rfl
  | cons d digits ih =>
    rw [width_cons, narrow d (.head _), ih fun b mem => narrow b (.tail _ mem), List.length_cons, Nat.add_comm]

/-- Each escape stands for its character. -/
theorem readEscape_text (known : 6 ≤ s.edition) (escapes : EscapesChar c spelling)
    (at' : s.source.TextAt l.pos ('\\' :: spelling ++ rest)) :
    Runs s (readEscape false) l (.code c.toNat) { l with pos := l.pos + width ('\\' :: spelling) } := by
  have first {mark : Char} {tail : List Char} (same : spelling = mark :: tail) :
      s.source.charAt (l.pos + 1) = some mark := by
    subst same
    exact at'.step.charAt_cons
  cases escapes with
  | twoDigits two hex =>
    have run := readHex_text (l := { l with pos := l.pos + 2 }) (by rintro rfl; cases two) hex at'.step.step
    rw [two] at run
    simp [readEscape, first rfl, width_hex hex, two]
    exact run
  | fourDigits four hex =>
    have run := readCodePoint_digits (l := { l with pos := l.pos + 2 }) four hex at'.step.step
    simp [readEscape, first rfl, width_hex hex, four]
    exact run
  | @braces digits some hex =>
    have small : c.toNat ≤ 0x10ffff := by
      have valid : c.toNat.isValidChar := c.valid
      unfold Nat.isValidChar at valid
      omega
    have inside : s.source.TextAt (l.pos + 2) ('u' :: '\x7b' :: digits ++ ['\x7d'] ++ rest).tail := at'.step.step
    have inside : s.source.TextAt (l.pos + 2) ('\x7b' :: digits ++ '\x7d' :: rest) := by simpa using inside
    have run := readCodePoint_braces (l := { l with pos := l.pos + 2 }) known some hex small inside
    simp [readEscape, first rfl, width_append, width_hex hex]
    have size : '\\'.utf8Size + ('u'.utf8Size + ('\x7b'.utf8Size + (digits.length + '\x7d'.utf8Size))) =
        2 + (digits.length + 2) := by
      rw [show '\x7d'.utf8Size = 1 from rfl, show '\\'.utf8Size = 1 from rfl, show 'u'.utf8Size = 1 from rfl,
        show '\x7b'.utf8Size = 1 from rfl]
      omega
    rw [size, ← Nat.add_assoc]
    exact run
  | letter known =>
    simp only [letterEscapes, List.mem_cons, Prod.mk.injEq, List.not_mem_nil, or_false] at known
    obtain ⟨rfl, rfl⟩ | ⟨rfl, rfl⟩ | ⟨rfl, rfl⟩ | ⟨rfl, rfl⟩ | ⟨rfl, rfl⟩ | ⟨rfl, rfl⟩ :=
      known <;> simp [readEscape, first rfl]
    all_goals rfl
  | itself notDigit notEnd notLetter => 
    simp [readEscape, first rfl]
    have notNine : ¬ (c = '8' ∨ c = '9') := by rintro (rfl | rfl) <;> cases notDigit
    have notOctal : Alphabet.isOctalDigit c = false := by
      simp only [Alphabet.isDecimalDigit, Alphabet.isOctalDigit, Bool.and_eq_false_iff,
        decide_eq_false_iff_not] at notDigit ⊢
      exact notDigit.imp_right fun past seven => past (Char.le_trans seven (by decide))
    split
    case h_10 =>
      rw [if_neg (by simp [notEnd]), if_neg notNine, if_neg (by simp [notOctal]), Nat.add_assoc]
      exact Runs.pure_iff.mpr ⟨rfl, rfl⟩
    case h_9 => cases notEnd
    all_goals exact (notLetter (by simp)).elim

/-- A pass reads one character in any of its spellings. -/
theorem stringPass_text (text : List Char) (edition : 10 ≤ s.edition) (isQuote : quote ≠ '\\')
    (spells : SpellsChar quote c spelling) (at' : s.source.TextAt l.pos (spelling ++ rest)) :
    ∃ l', Runs s (stringPass quote text) l (.again (c :: text)) l' ∧ l'.pos = l.pos + width spelling := by
  have here := at'.charAt
  cases spells with
  | itself notQuote notBackslash notFeed notReturn =>
    have here : s.source.charAt l.pos = some c := here
    by_cases separator : c = '\u2028' ∨ c = '\u2029'
    · refine ⟨{ l with pos := l.pos + c.utf8Size, line := l.line + 1, lineStart := l.pos + c.utf8Size }, ?_, by simp⟩
      simp [stringPass, here, notQuote, notBackslash, separator, edition]
    · have notEnd : Alphabet.isLineTerminator c = false := by
        simpa [Alphabet.isLineTerminator, notFeed, notReturn] using separator
      refine ⟨{ l with pos := l.pos + c.utf8Size }, ?_, by simp⟩
      simp [stringPass, here, notQuote, notBackslash, separator, notEnd]
  | @escape spelling escapes =>
    have here : s.source.charAt l.pos = some '\\' := here
    have run := readEscape_text (by omega) escapes at'
    refine ⟨{ l with pos := l.pos + width ('\\' :: spelling) }, ?_, rfl⟩
    simp [stringPass, here, isQuote.symm]
    exact ⟨_, _, run, by simp [charOfCode_toNat]⟩

/-- A line break after a backslash is passed over. -/
theorem stringPass_lineEnd (text : List Char) (isQuote : quote ≠ '\\') {mark : List Char} (known : mark ∈ lineEnds)
    (other : rest.head? ≠ some '\n') (at' : s.source.TextAt l.pos ('\\' :: mark ++ rest)) :
    ∃ l', Runs s (stringPass quote text) l (.again text) l' ∧ l'.pos = l.pos + width ('\\' :: mark) := by
  have escape {r : Lexer} (run : Runs s (readEscape false) l .continuation r) : Runs s (stringPass quote text) l
      (.again text) r := by
    simp [stringPass, at'.charAt, isQuote.symm]
    exact ⟨_, _, run, by simp⟩
  have first : s.source.charAt (l.pos + 1) = (mark ++ rest).head? := at'.step.charAt
  simp only [lineEnds, List.mem_cons, List.not_mem_nil, or_false] at known
  have counted {n : Nat} (size : n = width ('\\' :: mark))
      (run : Runs s (readEscape false) l .continuation
        { l with pos := l.pos + n, line := l.line + 1, lineStart := l.pos + n }) :
      ∃ l', Runs s (stringPass quote text) l (.again text) l' ∧ l'.pos = l.pos + width ('\\' :: mark) :=
        ⟨_, escape run, by rw [size]⟩
  obtain rfl | rfl | rfl | rfl | rfl := known
  · exact counted (n := 2) rfl (by simp [readEscape, first, Alphabet.isLineTerminator]; rfl)
  · have after : s.source.charAt (l.pos + 2) = rest.head? := at'.step.step.charAt
    refine counted (n := 2) rfl ?_
    simp [readEscape, first, endCarriageReturn]
    exact .inr ⟨fun feed => other (after.symm.trans feed), rfl⟩
  · have after : s.source.charAt (l.pos + 2) = some '\n' := at'.step.step.charAt
    refine counted (n := 3) rfl ?_
    simp [readEscape, first, endCarriageReturn]
    exact .inl ⟨after, rfl⟩
  · exact counted (n := 4) rfl (by simp [readEscape, first, Alphabet.isLineTerminator]; rfl)
  · exact counted (n := 4) rfl (by simp [readEscape, first, Alphabet.isLineTerminator]; rfl)

/-! ### Strings -/

theorem SpellsChar.head {quote c : Char} {spelling : List Char} (spells : SpellsChar quote c spelling) :
    ∃ d tail, spelling = d :: tail ∧ d ≠ '\n' := by
  cases spells with
  | itself _ _ notFeed => exact ⟨c, [], rfl, notFeed⟩
  | escape => exact ⟨'\\', _, rfl, by decide⟩

/-- What is written in a string begins with no line feed. -/
theorem SpellsString.head (spells : SpellsString quote text spelling) (isQuote : quote ≠ '\n') :
    (spelling ++ quote :: rest).head? ≠ some '\n' := by
  cases spells with
  | nil => simpa using isQuote
  | char first =>
    obtain ⟨d, tail, rfl, other⟩ := first.head
    simpa using other
  | lineEnd => simp

theorem loop_text (edition : 10 ≤ s.edition) (isQuote : quote ≠ '\\' ∧ quote ≠ '\n')
    (spells : SpellsString quote text spelling)
    (at' : s.source.TextAt l.pos (spelling ++ quote :: rest)) {fuel : Nat} (enough : spelling.length < fuel)
    (before : List Char) :
    ∃ l', Runs s (loop (stringPass quote) fuel before) l (text.reverse ++ before) l' ∧
      l'.pos = l.pos + width spelling := by
  have again {fuel : Nat} {before between after : List Char} {l m l' : Lexer}
      (first : Runs s (stringPass quote before) l (.again between) m)
      (next : Runs s (loop (stringPass quote) fuel between) m after l') :
        Runs s (loop (stringPass quote) (fuel + 1) before) l after l' := by
    simp only [loop, Runs.bind_iff]
    exact ⟨_, m, first, next⟩
  induction spells generalizing l fuel before with
  | nil =>
    obtain ⟨fuel, rfl⟩ : ∃ n, fuel = n + 1 := Nat.exists_eq_add_one.mpr enough
    exact ⟨l, by simp [loop, stringPass, at'.charAt], rfl⟩
  | @char c text spelling tail first next ih =>
    have here : s.source.TextAt l.pos (spelling ++ (tail ++ quote :: rest)) := by simpa using at'
    obtain ⟨m, pass, pos⟩ := stringPass_text before edition isQuote.1 first here
    obtain ⟨d, more, same, -⟩ := first.head
    obtain ⟨fuel, rfl⟩ : ∃ n, fuel = n + 1 := Nat.exists_eq_add_one.mpr (by omega)
    have moved : s.source.TextAt m.pos (tail ++ quote :: rest) := pos ▸ here.past
    rw [List.length_append, same, List.length_cons] at enough
    obtain ⟨l', run, pos'⟩ := ih moved (show tail.length < fuel by omega) (c :: before)
    refine ⟨l', again pass (by simpa using run), ?_⟩
    rw [pos', pos, width_append, Nat.add_assoc]
  | @lineEnd mark text tail known next ih =>
    have here : s.source.TextAt l.pos ('\\' :: mark ++ (tail ++ quote :: rest)) := by simpa using at'
    obtain ⟨m, pass, pos⟩ := stringPass_lineEnd before isQuote.1 known (next.head isQuote.2) here
    obtain ⟨fuel, rfl⟩ : ∃ n, fuel = n + 1 := Nat.exists_eq_add_one.mpr (by omega)
    have moved : s.source.TextAt m.pos (tail ++ quote :: rest) := pos ▸ here.past
    rw [List.length_append, List.length_cons] at enough
    obtain ⟨l', run, pos'⟩ := ih moved (show tail.length < fuel by omega) before
    refine ⟨l', again pass run, ?_⟩
    rw [pos', pos, width_append, Nat.add_assoc]

theorem Runs.exists_finish (plain : s.reader = none) (kind : TokenKind) (value : TokenValue) (l : Lexer) :
    ∃ l', Runs s (finish kind value) l ⟨⟩ l' := by
  simp [finish, LexM.updateContext, plain]

/-- Behind what it holds a string ends with a quote. -/
theorem readString_holding (plain : s.reader = none) {m : Lexer}
    (run : Runs s (repeatForward [] (stringPass quote)) { l with pos := l.pos + 1 } text.reverse m) :
    ∃ l', Runs s (readString quote) l ⟨⟩ l' ∧ l'.kind = .string ∧ l'.value = .string (String.ofList text) ∧
      l'.token.start = l.token.start ∧ l'.token.stop = m.pos + 1 := by
  have forward : Lexer.Forward s.source { l with pos := l.pos + 1 } m := repeatForward_forward stringPass_forward run
  obtain ⟨l', finished⟩ := Runs.exists_finish plain .string (.string (String.ofList text)) { m with pos := m.pos + 1 }
  obtain ⟨-, kind, token, -⟩ := finish_spec plain finished
  refine ⟨l', ?_, kind, finish_value plain finished, ?_, by rw [token]⟩
  · simp [readString]
    exact ⟨_, m, run, by simpa using finished⟩
  · rw [token]
    show m.token.start = l.token.start
    rw [forward.token]

theorem readString_text (plain : s.reader = none) (edition : 10 ≤ s.edition) (isQuote : quote = '"' ∨ quote = '\'')
    (spells : SpellsString quote text spelling) (at' : s.source.TextAt l.pos (quote :: spelling ++ quote :: rest)) :
    ∃ l', Runs s (readString quote) l ⟨⟩ l' ∧ l'.kind = .string ∧ l'.value = .string (String.ofList text) ∧
      l'.token.start = l.token.start ∧ l'.token.stop = l.pos + (width spelling + 2) := by
  have other : quote ≠ '\\' ∧ quote ≠ '\n' := by rcases isQuote with rfl | rfl <;> decide
  have narrow : quote.utf8Size = 1 := by rcases isQuote with rfl | rfl <;> rfl
  have inside : s.source.TextAt (l.pos + 1) (spelling ++ quote :: rest) := narrow ▸ at'.step
  have enough : spelling.length < s.source.size - (l.pos + 1) + 2 := by
    have size := inside.size
    have le := length_le_width spelling
    rw [width_append] at size
    omega
  obtain ⟨m, run, pos⟩ := loop_text (l := { l with pos := l.pos + 1 }) edition other spells inside enough []
  obtain ⟨l', run, kind, value, start, stop⟩ :=
    readString_holding (l := l) plain (m := m) (by simpa [repeatForward] using run)
  refine ⟨l', run, kind, value, start, ?_⟩
  have pos : m.pos = l.pos + 1 + width spelling := pos
  omega

/-- However a string is written between quotes, it is read back. -/
theorem readNext_spelled (plain : s.reader = none) (edition : 10 ≤ s.edition) (outside : l.context ≠ .templateText)
    (isQuote : quote = '"' ∨ quote = '\'') (spells : SpellsString quote text spelling)
    (at' : s.source.TextAt l.pos (quote :: spelling ++ quote :: rest)) :
    ∃ l', Runs s readNext l ⟨⟩ l' ∧ l'.kind = .string ∧ l'.value = .string (String.ofList text) ∧
      l'.token.start = l.pos ∧ l'.token.stop = l.pos + width (quote :: spelling ++ [quote]) := by
  have here : s.source.charAt l.pos = some quote := at'.charAt_cons
  have narrow : quote.utf8Size = 1 := by rcases isQuote with rfl | rfl <;> rfl
  have blank : Runs s skipBlank l ⟨⟩ l := by
    rcases isQuote with rfl | rfl <;> simp [skipBlank, repeatForward, loop, skipBlankPass, here,
      Alphabet.isLineTerminator, Alphabet.isBlank]
  have reads {m m' : Lexer} (run : Runs s (readString quote) m ⟨⟩ m') : Runs s (readToken quote) m true m' := by
    rcases isQuote with rfl | rfl <;> simpa [readToken, Alphabet.isIdentifierStart] using run
  obtain ⟨l', run, kind, value, start, stop⟩ := readString_text (l := l.begin) plain edition isQuote spells at'
  refine ⟨l', ?_, kind, value, start, ?_⟩
  · have inside : ¬ s.source.size ≤ l.pos := Nat.not_le_of_lt (Source.lt_size_of_charAt here)
    have extension : Runs s readExtension l.begin false l.begin := by simp [readExtension, plain]
    have pass : Runs s (readPass ()) l (.done ()) l' := by
      simp [readPass, Context.keepsBlank, outside]
      refine ⟨l, blank, .inr ⟨Nat.lt_of_not_le inside, .inl ⟨l.begin, extension, ?_⟩⟩⟩
      simp only [show s.source.charAt l.begin.pos = some quote from here, Runs.bind_iff]
      exact ⟨true, l', reads run, Runs.pure_iff.mpr ⟨rfl, rfl⟩⟩
    simp only [readNext, repeatForward, loop, Runs.bind_iff, Runs.lexSource_iff, Runs.pos_iff, Runs.exists_look]
    exact ⟨_, _, pass, Runs.pure_iff.mpr ⟨rfl, rfl⟩⟩
  · rw [stop, width_append, width_cons, width_cons, width_nil, narrow]
    show l.pos + _ = _
    omega

/-- A letter, twice by its number, a line feed, an apostrophe and a broken line. -/
theorem readNext_spelled_mixed : ∃ l', Runs ⟨.ofString "'é\\xe9\\u\x7b0e9\x7d\\n\\'\\\r\nz'", {}, none⟩ readNext
      (Setting.lexerAt ⟨.ofString "'é\\xe9\\u\x7b0e9\x7d\\n\\'\\\r\nz'", {}, none⟩ 0) ⟨⟩ l' ∧
    l'.kind = .string ∧ l'.value = .string (String.ofList ['é', 'é', 'é', '\n', '\'', 'z']) ∧ l'.token.start = 0 ∧
      l'.token.stop = 23 := by
  have spells : SpellsString '\'' ['é', 'é', 'é', '\n', '\'', 'z']
      ['é', '\\', 'x', 'e', '9', '\\', 'u', '\x7b', '0', 'e', '9', '\x7d',
      '\\', 'n', '\\', '\'', '\\', '\r', '\n', 'z'] := by
    have two : EscapesChar 'é' ['x', 'e', '9'] := .twoDigits rfl ⟨[14, 9], rfl, rfl⟩
    have braces : EscapesChar 'é' ('u' :: '\x7b' :: ['0', 'e', '9'] ++ ['\x7d']) :=
      .braces (by decide) ⟨[0, 14, 9], rfl, rfl⟩
    have letter : EscapesChar '\n' ['n'] := .letter (by decide)
    have lineEnd : ['\r', '\n'] ∈ lineEnds := by decide
    refine .char (.itself (by decide) (by decide) (by decide) (by decide))
      (.char (.escape two) (.char (.escape braces) ?_))
    refine .char (.escape letter) (.char (.escape (.itself rfl rfl (by decide))) (.lineEnd lineEnd ?_))
    exact .char (.itself (by decide) (by decide) (by decide) (by decide)) .nil
  generalize place : Setting.lexerAt ⟨.ofString "'é\\xe9\\u\x7b0e9\x7d\\n\\'\\\r\nz'", {}, none⟩ 0 = l
  have pos : l.pos = 0 ∧ l.context ≠ .templateText := by
    rw [← place]
    decide +kernel
  have at' := Source.textAt_ofString "'é\\xe9\\u\x7b0e9\x7d\\n\\'\\\r\nz'"
  obtain ⟨l', run, kind, value, start, stop⟩ :=
    readNext_spelled (l := l) (s := ⟨.ofString "'é\\xe9\\u\x7b0e9\x7d\\n\\'\\\r\nz'", {}, none⟩)
    rfl (by decide) pos.2 (.inr rfl) spells (pos.1 ▸ at')
  exact ⟨l', run, kind, value, start.trans pos.1, stop.trans (pos.1 ▸ rfl)⟩

end ScriptSyntax
