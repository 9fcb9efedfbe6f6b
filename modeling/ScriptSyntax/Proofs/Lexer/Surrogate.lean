import ScriptSyntax.Parser.ModuleItem
import ScriptSyntax.Proofs.Lexer.Chunk

/-!
Characters beyond the basic plane in strings and templates.  Written by its number in braces such a character stands for
itself; written as two escapes, one for each of its UTF-16 code units, it does not: each of them is read by itself.
-/

namespace ScriptSyntax

open LexM

/-! ### Texts piece by piece -/

/-- What comes first in a text, which may be an escape, and what is left behind it. -/
abbrev Piece := List Char → Option (List Char × List Char)

/-- Pieces of `text` stand for `value`, and `rest` is left behind them. -/
inductive Cooks (piece : Piece) : List Char → List Char → List Char → Prop
  | nil {text : List Char} : Cooks piece text [] text
  | cons {text mid rest read value : List Char} (first : piece text = some (read, mid))
      (next : Cooks piece mid value rest) :
    Cooks piece text (read ++ value) rest

/-- A piece of a string. -/
def stringPiece (edition : Nat) (legacy : Bool) (quote : Char) : Piece
  | [] => none
  | '\\' :: rest => escape? legacy rest
  | c :: rest =>
    if c = quote ∨ c = '\n' ∨ c = '\r' ∨ (c = '\u2028' ∨ c = '\u2029') ∧ edition < 10 then none else some ([c], rest)

/-- A piece of a chunk of a template. -/
def chunkPiece : Piece := fun text => if endsChunk text then none else chunkStep? text

variable {piece : Piece} {text mid rest p q read value value' : List Char} {c d quote : Char}
  {edition : Nat} {legacy : Bool}

theorem Cooks.trans (first : Cooks piece text value mid) (next : Cooks piece mid value' rest) :
    Cooks piece text (value ++ value') rest := by
  induction first with
  | nil => exact next
  | cons first _ ih => exact List.append_assoc .. ▸ .cons first (ih next)

theorem Cooks.one (first : piece text = some (read, rest)) : Cooks piece text read rest :=
  List.append_nil read ▸ .cons first .nil

/-! ### Texts with more behind them -/

/-- A character that is part of no escape in front of it. -/
def Delimits (d : Char) : Prop := d ∈ ['\\', '"', '\'', '\x60', '$']

theorem Delimits.plain (delimits : Delimits d) :
    Alphabet.digit? 16 d = none ∧ Alphabet.digit? 8 d = none ∧ Alphabet.isDecimalDigit d = false ∧
    d ≠ '\n' ∧ d ≠ '{' ∧ d ≠ '}' := by
  simp only [Delimits, List.mem_cons, List.not_mem_nil, or_false] at delimits
  obtain rfl | rfl | rfl | rfl | rfl := delimits <;> decide

section Behind

variable {tail : List Char} (delimits : Delimits d)
include delimits

omit delimits in
theorem leadingDigits_behind {radix : Nat} (other : Alphabet.digit? radix d = none) (count : Nat) :
    leadingDigits radix count (text ++ d :: tail) = leadingDigits radix count text := by
  induction count generalizing text with
  | zero => simp [leadingDigits]
  | succ count ih => cases text <;> simp [leadingDigits, other, ih]

omit delimits in
theorem leadingDigits_all {radix count : Nat} (enough : text.length ≤ count) :
    leadingDigits radix count text = leadingDigits radix text.length text := by
  induction text generalizing count with
  | nil => cases count <;> rfl
  | cons c text ih =>
    obtain ⟨count, rfl⟩ : ∃ n, count = n + 1 := Nat.exists_eq_add_one.mpr (Nat.lt_of_lt_of_le (by simp) enough)
    simp [leadingDigits, ih (Nat.le_of_succ_le_succ enough)]

theorem fixedHex?_behind {count : Nat} {x : Nat × List Char} (read : fixedHex? count text = some x) :
    fixedHex? count (text ++ d :: tail) = some (x.1, x.2 ++ d :: tail) := by
  simp only [fixedHex?, leadingDigits_behind delimits.plain.1] at read ⊢
  split at read <;> cases read
  next full =>
    obtain ⟨digits, rest, rfl, known, -, le⟩ := leadingDigits_split 16 count text
    have length := length_values known
    rw [if_pos full, List.drop_append_of_le_length (by simp; omega)]

theorem bracedHex?_behind {x : Nat × List Char} (read : bracedHex? text = some x) :
    bracedHex? (text ++ d :: tail) = some (x.1, x.2 ++ d :: tail) := by
  have same : leadingDigits 16 (text ++ d :: tail).length (text ++ d :: tail) = leadingDigits 16 text.length text := by
    rw [leadingDigits_behind delimits.plain.1, leadingDigits_all (by simp)]
  simp only [bracedHex?, same] at read ⊢
  split at read
  · next rest close =>
    split at read <;> cases read
    next fine =>
    have le : (leadingDigits 16 text.length text).length ≤ text.length := by
      obtain ⟨digits, rest, split, known, -, le⟩ := leadingDigits_split 16 text.length text
      rw [length_values known]
      exact le
    rw [List.drop_append_of_le_length le, close]
    simp [fine]
  · cases read

theorem legacyOctal_behind (digit : Nat) :
    legacyOctal digit (text ++ d :: tail) = ((legacyOctal digit text).1, (legacyOctal digit text).2 ++ d :: tail) := by
  obtain ⟨digits, rest, rfl, known, -, le⟩ := leadingDigits_split 8 2 text
  have length := length_values known
  simp only [legacyOctal, leadingDigits_behind delimits.plain.2.1]
  generalize leadingDigits 8 2 (digits ++ rest) = values at length
  congr 1
  refine List.drop_append_of_le_length ?_
  split <;> simp <;> omega

theorem escape?_behind (read : escape? legacy text = some (value, rest)) :
    escape? legacy (text ++ d :: tail) = some (value, rest ++ d :: tail) := by
  obtain ⟨-, -, notDecimal, notFeed, notOpen, notClose⟩ := delimits.plain
  unfold escape? at read
  split at read
  · cases read
  · obtain ⟨x, hex, same⟩ := Option.map_eq_some_iff.mp read
    cases same
    simp [escape?, fixedHex?_behind delimits hex]
  · obtain ⟨x, hex, same⟩ := Option.map_eq_some_iff.mp read
    cases same
    simp [escape?, bracedHex?_behind delimits hex]
  · next text notBraced =>
    obtain ⟨x, hex, same⟩ := Option.map_eq_some_iff.mp read
    cases same
    rw [List.cons_append, escape?]
    · simp [fixedHex?_behind delimits hex]
    · intro rest same
      cases text with
      | nil => exact notOpen (List.cons_eq_cons.mp same).1
      | cons c text => exact notBraced text (by rw [(List.cons_eq_cons.mp same).1])
  · cases read
    rfl
  · next c text notX _ notU alone =>
    have alone' (rest : List Char) (carriage : c = '\r') : text ++ d :: tail ≠ '\n' :: rest := by
      intro same
      cases text with
      | nil => exact notFeed (List.cons_eq_cons.mp same).1
      | cons c text => exact alone text carriage (by rw [(List.cons_eq_cons.mp same).1])
    have lone : ((text ++ d :: tail).head?.all fun d => !Alphabet.isDecimalDigit d) = text.head?.all fun d =>
        !Alphabet.isDecimalDigit d := by
      cases text <;> simp [notDecimal]
    rw [List.cons_append, escape?_cons notX notU alone', lone]
    split at read
    · next ends =>
      cases read
      rw [if_pos ends]
    · next notEnd =>
      rw [if_neg notEnd]
      split at read <;> split at read
      · next digit _ valid =>
        simp only [if_pos valid, legacyOctal_behind delimits]
        generalize legacyOctal digit text = x at read
        cases read
        rfl
      · cases read
      · cases read
      · next valid =>
        cases read
        simp [valid]

theorem stringPiece_behind (read : stringPiece edition legacy quote text = some (value, rest)) :
    stringPiece edition legacy quote (text ++ d :: tail) = some (value, rest ++ d :: tail) := by
  unfold stringPiece at read
  split at read
  · cases read
  · exact escape?_behind delimits read
  · next c text notEscape =>
    split at read
    · cases read
    · next plain =>
      cases read
      rw [List.cons_append, stringPiece, if_neg plain]
      exact notEscape

theorem endsChunk_behind (goesOn : ¬ endsChunk (c :: text)) : endsChunk (c :: (text ++ d :: tail)) = false := by
  by_cases quote : c = '\x60'
  · exact (goesOn (by rw [quote]; rfl)).elim
  by_cases dollar : c = '$'
  · subst dollar
    cases text with
    | nil => simp [endsChunk_dollar, delimits.plain]
    | cons c text =>
      rw [endsChunk_dollar] at goesOn ⊢
      simpa using goesOn
  · exact endsChunk_idle ⟨quote, dollar⟩

theorem chunkPiece_behind (read : chunkPiece text = some (value, rest)) :
    chunkPiece (text ++ d :: tail) = some (value, rest ++ d :: tail) := by
  obtain ⟨-, -, -, notFeed, -, -⟩ := delimits.plain
  unfold chunkPiece at read ⊢
  split at read
  · cases read
  next goesOn =>
  unfold chunkStep? at read
  split at read
  · cases read
  · exact escape?_behind delimits read
  · cases read
    rfl
  · next text alone =>
    cases read
    rw [List.cons_append, if_neg (by simp [endsChunk_behind delimits goesOn]), chunkStep?]
    intro more same
    cases rest with
    | nil => exact notFeed (List.cons_eq_cons.mp same).1
    | cons c rest => exact alone rest (by rw [(List.cons_eq_cons.mp same).1])
  · next c text notEscape _ notReturn =>
    cases read
    rw [List.cons_append, if_neg (by simp [endsChunk_behind delimits goesOn]), chunkStep?]
    · exact notEscape
    · exact fun _ same => (notReturn same).elim
    · exact notReturn

end Behind

/-- Pieces are the same with a delimiter behind them. -/
theorem Cooks.behind {tail : List Char} (local' : ∀ {text value rest}, piece text = some (value, rest) →
    piece (text ++ d :: tail) = some (value, rest ++ d :: tail)) (cooks : Cooks piece text value rest) :
    Cooks piece (text ++ d :: tail) value (rest ++ d :: tail) := by
  induction cooks with
  | nil => exact .nil
  | cons first _ ih => exact .cons (local' first) ih

/-! ### Strings -/

variable {s : Setting} {l l' : Lexer}

theorem stringPiece_lt {x : List Char × List Char} (read : stringPiece edition legacy quote text = some x) :
    x.2.length < text.length := by
  unfold stringPiece at read
  split at read
  · cases read
  · exact Nat.lt_succ_of_lt (escape?_lt read)
  · split at read <;> cases read
    exact Nat.lt_succ_self _

section Strings

variable (plain : s.reader = none) (known : 6 ≤ s.edition)
include known

/-- A pass reads a piece. -/
theorem stringPass_piece (isQuote : quote ≠ '\\') (at' : s.source.TextAt l.pos text)
    (first : stringPiece s.edition (!l.strict) quote text = some (read, rest)) (before : List Char) :
    ∃ l', Runs s (stringPass quote before) l (.again (read.reverse ++ before)) l' ∧ s.source.TextAt l'.pos rest := by
  unfold stringPiece at first
  split at first
  · cases first
  · next text =>
    have here : s.source.charAt l.pos = some '\\' := at'.charAt
    obtain ⟨d, text, rfl⟩ : ∃ d more, text = d :: more := List.exists_cons_of_ne_nil (by rintro rfl; cases first)
    obtain ⟨v, l', p, rest', run, -, -, after, value⟩ :=
      readEscape_reads known (show (!l.strict) = !(l.strict || false) by simp) at'
    obtain ⟨r, valid, same⟩ := Option.map_eq_some_iff.mp (value.symm.trans first)
    cases same
    refine ⟨l', ?_, after⟩
    simp only [stringPass, Runs.bind_iff, Runs.get_iff, Runs.peek_iff, Runs.exists_look, here,
      if_neg isQuote.symm, if_true]
    refine ⟨v, l', run, ?_⟩
    cases v <;> cases valid <;> exact Runs.pure_iff.mpr ⟨rfl, rfl⟩
  · next c text notEscape =>
    have here : s.source.charAt l.pos = some c := at'.charAt
    have notEscape : c ≠ '\\' := notEscape
    split at first
    · cases first
    next other =>
    cases first
    obtain ⟨notQuote, notFeed, notReturn, known'⟩ : c ≠ quote ∧ c ≠ '\n' ∧ c ≠ '\r' ∧
        (c = '\u2028' ∨ c = '\u2029' → 10 ≤ s.edition) := by
      simpa [not_or] using other
    by_cases separator : c = '\u2028' ∨ c = '\u2029'
    · refine ⟨{ l with pos := l.pos + c.utf8Size, line := l.line + 1, lineStart := l.pos + c.utf8Size }, ?_, at'.step⟩
      simp [stringPass, here, notQuote, notEscape, separator, known' separator]
    · have notEnd : Alphabet.isLineTerminator c = false := by
        simpa [Alphabet.isLineTerminator, notFeed, notReturn] using separator
      refine ⟨{ l with pos := l.pos + c.utf8Size }, ?_, at'.step⟩
      simp [stringPass, here, notQuote, notEscape, separator, notEnd]

include plain

theorem loop_pieces (isQuote : quote ≠ '\\') {legacy : Bool}
    (cooks : Cooks (stringPiece s.edition legacy quote) text value (quote :: rest))
    (allowed : legacy = !l.strict) (at' : s.source.TextAt l.pos text) {fuel : Nat} (enough : text.length < fuel)
    (before : List Char) :
    ∃ l', Runs s (loop (stringPass quote) fuel before) l (value.reverse ++ before) l' ∧
      s.source.TextAt l'.pos (quote :: rest) := by
  generalize ends : quote :: rest = left at cooks
  induction cooks generalizing l fuel before with
  | nil =>
    subst ends
    obtain ⟨fuel, rfl⟩ : ∃ n, fuel = n + 1 := Nat.exists_eq_add_one.mpr (Nat.lt_of_le_of_lt (Nat.zero_le _) enough)
    exact ⟨l, by simp [loop, stringPass, at'.charAt], at'⟩
  | @cons text mid rest' read value first next ih =>
    subst allowed
    obtain ⟨fuel, rfl⟩ : ∃ n, fuel = n + 1 := Nat.exists_eq_add_one.mpr (Nat.lt_of_le_of_lt (Nat.zero_le _) enough)
    obtain ⟨m, pass, after⟩ := stringPass_piece known isQuote at' first before
    have strict : m.strict = l.strict := Detached.stringPass.strict plain pass
    have shorter : mid.length < text.length := stringPiece_lt first
    obtain ⟨l', run, at''⟩ := ih (by rw [strict]) after (show mid.length < fuel by omega) (read.reverse ++ before) ends
    refine ⟨l', ?_, ends ▸ at''⟩
    simp only [loop, Runs.bind_iff]
    exact ⟨_, m, pass, by simpa using run⟩

/-- However the pieces of a string stand for its value, it is read. -/
theorem readString_pieces (isQuote : quote = '"' ∨ quote = '\'')
    (cooks : Cooks (stringPiece s.edition (!l.strict) quote) text value [])
    (at' : s.source.TextAt l.pos (quote :: text ++ quote :: rest)) :
    ∃ l', Runs s (readString quote) l ⟨⟩ l' ∧ l'.kind = .string ∧ l'.value = .string (String.ofList value) ∧
      l'.token.start = l.token.start ∧ l'.token.stop = l.pos + width (quote :: text ++ [quote]) := by
  have delimits : Delimits quote := by rcases isQuote with rfl | rfl <;> simp [Delimits]
  have other : quote ≠ '\\' := by rcases isQuote with rfl | rfl <;> decide
  have narrow : quote.utf8Size = 1 := by rcases isQuote with rfl | rfl <;> rfl
  have inside : s.source.TextAt (l.pos + 1) (text ++ quote :: rest) := narrow ▸ at'.step
  obtain ⟨m, run, after⟩ :=
    loop_pieces (l := { l with pos := l.pos + 1 }) plain known other (cooks.behind (stringPiece_behind delimits)) rfl
    inside inside.enough []
  have pos : m.pos = l.pos + 1 + width text := inside.moved after
  obtain ⟨l', run, kind, string, start, stop⟩ :=
    readString_holding (l := l) plain (m := m) (by simpa [repeatForward] using run)
  refine ⟨l', run, kind, string, start, ?_⟩
  rw [stop, List.cons_append, width_cons, width_append, width_cons, width_nil, narrow]
  omega

/-- The next token is the string that is written `text` between quotes. -/
def ReadsString (s : Setting) (l : Lexer) (quote : Char) (text value : List Char) : Prop :=
  ∀ {rest}, s.source.TextAt l.pos (quote :: text ++ quote :: rest) → ∃ l', Runs s readNext l ⟨⟩ l' ∧ l'.kind = .string ∧
    l'.value = .string (String.ofList value) ∧ l'.token.start = l.pos ∧
      l'.token.stop = l.pos + width (quote :: text ++ [quote])

theorem readNext_pieces (outside : l.context ≠ .templateText) (isQuote : quote = '"' ∨ quote = '\'')
    (cooks : Cooks (stringPiece s.edition (!l.strict) quote) text value []) : ReadsString s l quote text value := by
  intro rest at'
  have here : s.source.charAt l.pos = some quote := at'.charAt_cons
  obtain ⟨l', run, kind, string, start, stop⟩ := readString_pieces (l := l.begin) plain known isQuote cooks at'
  refine ⟨l', readNext_of_token plain outside ?_ here ?_, kind, string, start, stop⟩
  · rcases isQuote with rfl | rfl <;> simp [skipBlank, repeatForward, loop, skipBlankPass, here,
      Alphabet.isLineTerminator, Alphabet.isBlank]
  · rcases isQuote with rfl | rfl <;> simpa [readToken, Alphabet.isIdentifierStart] using run

end Strings

/-! ### Templates -/

theorem Cooks.chunk (cooks : Cooks chunkPiece text value rest) (ends : endsChunk rest = true) :
    cook? text = some value ∧ ∃ p, text = p ++ rest ∧ chunk? text = some p := by
  induction cooks with
  | nil => exact ⟨cook?_end (.inl ends), [], rfl, chunk?_ends ends⟩
  | @cons text mid rest read value first next ih =>
    obtain ⟨cooked, q, rfl, found⟩ := ih ends
    unfold chunkPiece at first
    split at first
    · cases first
    next goesOn =>
    have more : ¬ (endsChunk text ∨ text = [] ∨ text = ['\\']) := by
      rintro (h | rfl | rfl)
      · exact goesOn h
      · cases first
      · cases first
    obtain ⟨p, -, rfl, chunk⟩ := (chunkStep?_scans more first).passes
    refine ⟨?_, p ++ q, by simp, by rw [chunk, found]; rfl⟩
    rw [cook?_step more, first, Option.bind_some, cooked]
    rfl

/-- The next token is the chunk that is written `text` up to what ends it. -/
def ReadsAsChunk (s : Setting) (l : Lexer) (text value : List Char) : Prop :=
  ∀ {rest}, endsChunk rest = true → s.source.TextAt l.pos (text ++ rest) → ∃ l', Runs s readNext l ⟨⟩ l' ∧
    l'.AtChunk l.pos text (some value)

theorem readNext_chunkPieces (plain : s.reader = none) (known : 6 ≤ s.edition) (inside : l.context = .templateText)
    (some : text ≠ []) (cooks : Cooks chunkPiece text value []) : ReadsAsChunk s l text value := by
  intro rest ends at'
  obtain ⟨d, tail, rfl, delimits⟩ : ∃ d tail, rest = d :: tail ∧ Delimits d := by
    unfold endsChunk at ends
    split at ends
    · exact ⟨_, _, rfl, by simp [Delimits]⟩
    · exact ⟨_, _, rfl, by simp [Delimits]⟩
    · cases ends
  obtain ⟨cooked, p, split, found⟩ := (cooks.behind (chunkPiece_behind delimits)).chunk ends
  obtain rfl : text = p := List.append_cancel_right split
  have goesOn : endsChunk (text ++ d :: tail) → l.kind ≠ .template ∧ l.kind ≠ .invalidTemplate := by
    intro ends
    rw [chunk?_ends ends] at found
    exact (some (Option.some.inj found).symm).elim
  have template := readTemplate_chunk plain known (fun none => by rw [cooked] at none; cases none) at' goesOn
  have reads := readsChunk_readNext plain inside (by simp) at' template
  unfold ReadsChunk at reads
  rw [found, cooked] at reads
  exact reads

/-! ### Two escapes for one character -/

/-- A character as two escapes, one for each of its code units. -/
def unitEscapes (high low : List Char) : List Char := '\\' :: 'u' :: high ++ '\\' :: 'u' :: low

/-- A character by its number in braces. -/
def pointEscape (digits : List Char) : List Char := '\\' :: 'u' :: '{' :: digits ++ ['}']

theorem escape?_digits {digits : List Char} {n : Nat} (four : digits.length = 4) (hex : SpellsHex digits n) :
    escape? legacy ('u' :: digits ++ rest) = some ([charOfCode n], rest) := by
  obtain ⟨values, known, rfl⟩ := hex
  have read : fixedHex? 4 (digits ++ rest) = some (Number.natOfDigits 16 values, rest) := by
    simp only [fixedHex?, ← four, leadingDigits_exact known, length_values known, if_true, List.drop_left]
  rw [List.cons_append, escape?, read]
  · rfl
  · intro more same
    cases digits with
    | nil => cases four
    | cons d digits =>
      obtain ⟨value, values, -, head, -⟩ := List.map_eq_cons_iff.mp known.symm
      rw [(List.cons_eq_cons.mp same).1] at head
      cases head

theorem escape?_braces {digits : List Char} {n : Nat} (positive : 0 < n) (small : n ≤ 0x10ffff)
    (hex : SpellsHex digits n) :
    escape? legacy ('u' :: '{' :: digits ++ '}' :: rest) = some ([charOfCode n], rest) := by
  obtain ⟨values, known, rfl⟩ := hex
  have nonempty : values ≠ [] := by
    rintro rfl
    cases positive
  show (bracedHex? (digits ++ '}' :: rest)).map _ = _
  rw [bracedHex?_closed known, if_neg (by simp [nonempty, small])]
  rfl

section Units

variable {high low point : List Char} {h n : Nat} (units : RegExp.codeUnits [c] = [h, n])
include units

/-- The code units are no characters by themselves. -/
theorem charOfCode_units : charOfCode h = '\ufffd' ∧ charOfCode n = '\ufffd' ∧ 0xffff < c.toNat := by
  have large : ¬ c.toNat < 0x10000 := by
    intro small
    rw [RegExp.codeUnits_narrow small] at units
    cases units
  have valid : c.toNat.isValidChar := c.valid
  rw [RegExp.codeUnits_wide large] at units
  simp only [List.cons.injEq, and_true] at units
  obtain ⟨rfl, rfl⟩ := units
  unfold Nat.isValidChar at valid
  have replaced {unit : Nat} (surrogate : 0xd800 ≤ unit ∧ unit ≤ 0xdfff) : charOfCode unit = '\ufffd' := by
    have invalid : ¬ unit.isValidChar := by
      unfold Nat.isValidChar
      omega
    rw [charOfCode, RegExp.scalar?, dif_neg invalid]
    rfl
  exact ⟨replaced (by omega), replaced (by omega), by omega⟩

variable (escapes : ∀ rest, piece ('\\' :: rest) = escape? legacy rest)
include escapes

theorem cooks_unitEscapes (high4 : high.length = 4) (highHex : SpellsHex high h) (low4 : low.length = 4)
    (lowHex : SpellsHex low n) :
    Cooks piece (unitEscapes high low ++ rest) ['\ufffd', '\ufffd'] rest := by
  obtain ⟨first, second, -⟩ := charOfCode_units units
  have high : piece ('\\' :: 'u' :: high ++ ('\\' :: 'u' :: low ++ rest)) =
      some (['\ufffd'], '\\' :: 'u' :: low ++ rest) := by
    rw [← first]
    exact (escapes _).trans (escape?_digits high4 highHex)
  have low : piece ('\\' :: 'u' :: low ++ rest) = some (['\ufffd'], rest) := by
    rw [← second]
    exact (escapes _).trans (escape?_digits low4 lowHex)
  simpa [unitEscapes] using (Cooks.one high).trans (.one low)

theorem cooks_pointEscape (hex : SpellsHex point c.toNat) : Cooks piece (pointEscape point ++ rest) [c] rest := by
  obtain ⟨-, -, astral⟩ := charOfCode_units units
  have small : c.toNat ≤ 0x10ffff := by
    have valid : c.toNat.isValidChar := c.valid
    unfold Nat.isValidChar at valid
    omega
  have read : piece ('\\' :: 'u' :: '{' :: point ++ '}' :: rest) = some ([c], rest) := by
    rw [← charOfCode_toNat c]
    exact (escapes _).trans (escape?_braces (by omega) small (charOfCode_toNat c ▸ hex))
  simpa [pointEscape] using Cooks.one read

end Units

/-- A piece that begins with a backslash between others. -/
theorem Cooks.between {before after left right t inner : List Char}
    (local' : ∀ {text value rest tail}, piece text = some (value, rest) →
    piece (text ++ '\\' :: tail) = some (value, rest ++ '\\' :: tail)) (first : Cooks piece before left [])
    (middle : ∀ rest, Cooks piece ('\\' :: t ++ rest) inner rest) (last : Cooks piece after right []) :
    Cooks piece (before ++ '\\' :: t ++ after) (left ++ inner ++ right) [] := by
  have start : Cooks piece (before ++ '\\' :: (t ++ after)) left ('\\' :: (t ++ after)) := first.behind local'
  have whole := (start.trans (middle after)).trans last
  simpa using whole

/-- A string with a replaced character that is not written in it names nothing across the border of a module. -/
theorem moduleName_replaced {p q : Parser} {name : ModuleName} (known : 13 ≤ s.edition) (kind : p.lexer.kind = .string)
    (string : p.lexer.value = .string (String.ofList value)) (replaced : '\ufffd' ∈ value)
    (unwritten : '\ufffd' ∉ s.source.chars p.lexer.token.start p.lexer.token.stop) :
    ¬ Runs s ParseM.moduleName p name q := by
  intro run
  simp [ParseM.moduleName, ParseM.stringLiteral, ParseM.literal, known, kind, string, ParseM.literalValue?,
    Source.slice] at run
  simp [Literal.hasLoneSurrogate, replaced, unwritten] at run

/-- Two escapes for the code units of a character are two replacement characters in strings and chunks, whatever is
written before and after them; an escape by the character's number is the character.  So a string with two such escapes
names nothing across the border of a module. -/
theorem readNext_surrogates {high low point : List Char} {h n : Nat} (plain : s.reader = none) (known : 6 ≤ s.edition)
    (units : RegExp.codeUnits [c] = [h, n]) (highHex : high.length = 4 ∧ SpellsHex high h)
    (lowHex : low.length = 4 ∧ SpellsHex low n) (pointHex : SpellsHex point c.toNat) :
    (∀ {quote before after left right}, l.context ≠ .templateText → quote = '"' ∨ quote = '\'' →
      Cooks (stringPiece s.edition (!l.strict) quote) before left [] →
        Cooks (stringPiece s.edition (!l.strict) quote) after right [] →
        ReadsString s l quote (before ++ unitEscapes high low ++ after) (left ++ ['\ufffd', '\ufffd'] ++ right) ∧
        ReadsString s l quote (before ++ pointEscape point ++ after) (left ++ [c] ++ right)) ∧
    (∀ {before after left right}, l.context = .templateText → Cooks chunkPiece before left [] →
      Cooks chunkPiece after right [] →
      ReadsAsChunk s l (before ++ unitEscapes high low ++ after) (left ++ ['\ufffd', '\ufffd'] ++ right) ∧
      ReadsAsChunk s l (before ++ pointEscape point ++ after) (left ++ [c] ++ right)) ∧
    ∀ {p q name quote before after left right}, 13 ≤ s.edition → quote = '"' ∨ quote = '\'' → p.lexer.kind = .string →
      p.lexer.value = .string (String.ofList (left ++ ['\ufffd', '\ufffd'] ++ right)) →
      s.source.chars p.lexer.token.start p.lexer.token.stop =
        quote :: (before ++ unitEscapes high low ++ after) ++ [quote] →
      '\ufffd' ∉ before → '\ufffd' ∉ after → ¬ Runs s ParseM.moduleName p name q := by
  have pair {piece : Piece} {legacy : Bool} (escapes : ∀ rest, piece ('\\' :: rest) = escape? legacy rest)
      (rest : List Char) :
      Cooks piece (unitEscapes high low ++ rest) ['\ufffd', '\ufffd'] rest :=
    cooks_unitEscapes units escapes highHex.1 highHex.2 lowHex.1 lowHex.2
  have number {piece : Piece} {legacy : Bool} (escapes : ∀ rest, piece ('\\' :: rest) = escape? legacy rest)
      (rest : List Char) :
      Cooks piece (pointEscape point ++ rest) [c] rest := cooks_pointEscape units escapes pointHex
  have backslash : Delimits '\\' := by simp [Delimits]
  refine ⟨fun {quote before after left right} outside isQuote first last =>
    ?_, fun {before after left right} inside first last => ?_,
    fun {p q name quote before after left right} edition isQuote kind string written noneBefore noneAfter => ?_⟩
  · have escapes (rest : List Char) : stringPiece s.edition (!l.strict) quote ('\\' :: rest) =
      escape? (!l.strict) rest := rfl
    exact ⟨readNext_pieces plain known outside isQuote
      (first.between (stringPiece_behind backslash) (pair escapes) last),
      readNext_pieces plain known outside isQuote (first.between (stringPiece_behind backslash) (number escapes) last)⟩
  · have escapes (rest : List Char) : chunkPiece ('\\' :: rest) = escape? false rest := rfl
    exact ⟨readNext_chunkPieces plain known inside (by simp)
      (first.between (chunkPiece_behind backslash) (pair escapes) last),
      readNext_chunkPieces plain known inside (by simp)
        (first.between (chunkPiece_behind backslash) (number escapes) last)⟩
  · refine moduleName_replaced edition kind string (by simp) ?_
    have notDigit {digits : List Char} {m : Nat} (hex : SpellsHex digits m) : '\ufffd' ∉ digits := by
      obtain ⟨values, digits', -⟩ := hex
      intro mem
      have narrow := (hex_plain digits' mem).2
      cases narrow
    rw [written]
    rcases isQuote with rfl | rfl <;> simp [unitEscapes, notDigit highHex.2, notDigit lowHex.2, noneBefore, noneAfter]

/-- A face between two letters. -/
theorem readNext_surrogates_face : ∃ l', Runs ⟨.ofString "'a\\ud83d\\ude00b'", {}, none⟩ readNext
      (Setting.lexerAt ⟨.ofString "'a\\ud83d\\ude00b'", {}, none⟩ 0) ⟨⟩ l' ∧
    l'.kind = .string ∧ l'.value = .string (String.ofList ['a', '\ufffd', '\ufffd', 'b']) ∧ l'.token.stop = 16 := by
  have high : SpellsHex ['d', '8', '3', 'd'] 0xd83d := ⟨[13, 8, 3, 13], rfl, rfl⟩
  have low : SpellsHex ['d', 'e', '0', '0'] 0xde00 := ⟨[13, 14, 0, 0], rfl, rfl⟩
  have point : SpellsHex ['1', 'f', '6', '0', '0'] '😀'.toNat := ⟨[1, 15, 6, 0, 0], rfl, rfl⟩
  generalize place : Setting.lexerAt ⟨.ofString "'a\\ud83d\\ude00b'", {}, none⟩ 0 = l
  have pos : l.pos = 0 ∧ l.context ≠ .templateText := by
    rw [← place]
    decide +kernel
  have at' := Source.textAt_ofString "'a\\ud83d\\ude00b'"
  obtain ⟨strings, -, -⟩ :=
    readNext_surrogates (l := l) (s := ⟨.ofString "'a\\ud83d\\ude00b'", {}, none⟩) (c := '😀') rfl
    (show 6 ≤ ({} : Options).edition by decide) (h := 0xd83d) (n := 0xde00) (by decide) ⟨rfl, high⟩ ⟨rfl, low⟩ point
  have letter (c : Char) (plain : c = 'a' ∨ c = 'b') : Cooks
    (stringPiece ({} : Options).edition (!l.strict) '\'') [c] [c] [] :=
    .one (by rcases plain with rfl | rfl <;> rfl)
  obtain ⟨l', run, kind, value, -, stop⟩ :=
    (strings pos.2 (.inr rfl) (letter 'a' (.inl rfl)) (letter 'b' (.inr rfl))).1 (pos.1 ▸ at')
  exact ⟨l', run, kind, value, stop.trans (pos.1 ▸ rfl)⟩

end ScriptSyntax
