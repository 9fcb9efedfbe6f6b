import ScriptSyntax.Proofs.Chain.Token
import ScriptSyntax.Proofs.Lexer.Items
import ScriptSyntax.Proofs.RegExp.Trail

/-!
The ways to write a word.  Whichever of its characters are written as escapes, the lexer reads the same word; an escape
for a character that cannot stand at its place is refused.
-/

namespace ScriptSyntax

open LexM

/-! ### Spellings -/

/-- May a character stand in a word, at its start or further on? -/
def Alphabet.isLetter (astral atStart : Bool) (c : Char) : Bool :=
  if atStart then isIdentifierStart astral c else isIdentifierPart astral c

/-- The ways to write a code point after a backslash and a `u`.  Between braces as many zeros may come first as one
likes. -/
inductive SpellsCode (code : Nat) : List Char → Prop
  | fourDigits {digits : List Char} (four : digits.length = 4) (hex : SpellsHex digits code) : SpellsCode code digits
  | braces {digits : List Char} (some : digits ≠ []) (hex : SpellsHex digits code) :
      SpellsCode code ('\x7b' :: digits ++ ['\x7d'])

/-- The ways to write a character of a word, and whether that is an escape. -/
inductive SpellsLetter (c : Char) : Bool → List Char → Prop
  | itself : SpellsLetter c false [c]
  | escape {spelling : List Char} (spells : SpellsCode c.toNat spelling) : SpellsLetter c true ('\\' :: 'u' :: spelling)

/-- The ways to write a word from its start or from further on, and whether there is an escape in it. -/
inductive SpellsWord (astral : Bool) : Bool → List Char → Bool → List Char → Prop
  | nil {atStart : Bool} : SpellsWord astral atStart [] false []
  | cons {atStart escaped escaped' : Bool} {c : Char} {word spelling rest : List Char}
      (letter : Alphabet.isLetter astral atStart c = true)
    (first : SpellsLetter c escaped spelling) (next : SpellsWord astral false word escaped' rest) :
    SpellsWord astral atStart (c :: word) (escaped || escaped') (spelling ++ rest)

/-- No character that follows belongs to the word before it. -/
def EndsWord (astral : Bool) (rest : List Char) : Prop :=
  ∀ c ∈ rest.head?, Alphabet.isIdentifierPart astral c = false ∧ c ≠ '\\'

/-- What kind of token a word is. -/
def Options.wordKind (o : Options) (word : String) : TokenKind :=
  if Word.isKeyword o.edition o.isModule word then (TokenKind.ofKeyword? word).getD .name else .name

variable {s : Setting} {l l' : Lexer} {c : Char} {word before spelling rest : List Char}
  {atStart escaped : Bool} {code : Nat}

theorem Alphabet.isIdentifierPart_of_isLetter {astral : Bool} (letter : isLetter astral atStart c = true) :
    isIdentifierPart astral c = true := by
  cases atStart with
  | false => exact letter
  | true => exact isIdentifierPart_of_isIdentifierStart letter

/-- A word may be written as it is. -/
theorem SpellsWord.itself {astral : Bool} (first : ∀ c ∈ word.head?, Alphabet.isLetter astral atStart c = true)
    (parts : ∀ c ∈ word.tail, Alphabet.isIdentifierPart astral c = true) :
    SpellsWord astral atStart word false word := by
  induction word generalizing atStart with
  | nil => exact .nil
  | cons c word ih =>
    have next := @ih false (fun d mem => parts d (List.mem_of_mem_head? mem)) fun d mem =>
      parts d (List.mem_of_mem_tail mem)
    exact .cons (first c rfl) .itself next

/-- A word is written with a first character that begins a word, or with a backslash. -/
theorem SpellsWord.head {astral : Bool} (spells : SpellsWord astral true word escaped spelling) (some : word ≠ []) :
    ∃ c more, spelling = c :: more ∧ (Alphabet.isIdentifierStart astral c = true ∨ c = '\\') := by
  cases spells with
  | nil => exact (some rfl).elim
  | cons letter first =>
    cases first with
    | itself => exact ⟨_, _, rfl, .inl letter⟩
    | escape => exact ⟨_, _, rfl, .inr rfl⟩

theorem SpellsWord.length_le {astral : Bool} (spells : SpellsWord astral atStart word escaped spelling) :
    word.length ≤ spelling.length := by
  induction spells with
  | nil => exact Nat.le_refl _
  | cons letter first _ ih =>
    cases first with
    | itself => simpa using ih
    | escape =>
      simp only [List.cons_append, List.length_cons, List.length_append]
      omega

/-! ### Escapes -/

theorem readCodePoint_spelled (known : 6 ≤ s.edition) (small : code ≤ 0x10ffff) (spells : SpellsCode code spelling)
    (at' : s.source.TextAt l.pos (spelling ++ rest)) :
    Runs s readCodePoint l (.code code) { l with pos := l.pos + width spelling } := by
  cases spells with
  | fourDigits four hex =>
    rw [width_hex hex, four]
    exact readCodePoint_digits four hex at'
  | @braces digits some hex =>
    have size : width ('\x7b' :: digits ++ ['\x7d']) = digits.length + 2 := by
      rw [width_append, width_cons, width_hex hex, width_cons, width_nil, show '\x7b'.utf8Size = 1 from rfl,
        show '\x7d'.utf8Size = 1 from rfl]
      omega
    rw [size]
    exact readCodePoint_braces known some hex small (by simpa using at')

/-- Where the escape of a code point ends. -/
def Lexer.pastEscape (l : Lexer) (spelling : List Char) : Lexer :=
  { l with pos := l.pos + width ('\\' :: 'u' :: spelling), containsEscape := true }

theorem readCodePoint_pastEscape (known : 6 ≤ s.edition) (small : code ≤ 0x10ffff) (spells : SpellsCode code spelling)
    (at' : s.source.TextAt l.pos ('\\' :: 'u' :: spelling ++ rest)) :
    Runs s readCodePoint { l with pos := l.pos + 2, containsEscape := true } (.code code) (l.pastEscape spelling) := by
  have run :=
    readCodePoint_spelled (l := { l with pos := l.pos + 2, containsEscape := true }) known small spells at'.step.step
  have size : width ('\\' :: 'u' :: spelling) = 2 + width spelling := by
    rw [width_cons, width_cons, show '\\'.utf8Size = 1 from rfl, show 'u'.utf8Size = 1 from rfl, ← Nat.add_assoc]
  rwa [Lexer.pastEscape, size, ← Nat.add_assoc]

theorem readWordEscape_spelled (known : 6 ≤ s.edition) (letter : Alphabet.isLetter s.astral atStart c = true)
    (spells : SpellsCode c.toNat spelling)
    (at' : s.source.TextAt l.pos ('\\' :: 'u' :: spelling ++ rest)) :
    Runs s (readWordEscape atStart) l c (l.pastEscape spelling) := by
  have mark : s.source.charAt (l.pos + 1) = some 'u' := at'.step.charAt_cons
  have small : c.toNat ≤ 0x10ffff := by have := RegExp.not_surrogate c; omega
  rw [Alphabet.isLetter] at letter
  simp [readWordEscape, mark]
  exact ⟨_, _, readCodePoint_pastEscape known small spells at', by simp [RegExp.scalar?_toNat, Option.filter, letter]⟩

/-- An escape is refused where its character cannot stand. -/
theorem readWordEscape_refused (known : 6 ≤ s.edition) (small : code ≤ 0x10ffff) (spells : SpellsCode code spelling)
    (strange : ∀ c, c.toNat = code → Alphabet.isLetter s.astral atStart c = false)
    (at' : s.source.TextAt l.pos ('\\' :: 'u' :: spelling ++ rest)) :
    Throws s (readWordEscape atStart) l (s.fatal l.pos .invalidUnicodeEscape) (l.pastEscape spelling) := by
  have mark : s.source.charAt (l.pos + 1) = some 'u' := at'.step.charAt_cons
  have none : (RegExp.scalar? code).filter (Alphabet.isLetter s.astral atStart) = .none := by
    rw [Option.filter_eq_none_iff]
    intro c scalar
    simp [strange c (RegExp.scalar?_eq_some scalar)]
  unfold Alphabet.isLetter at none
  simp [readWordEscape, mark, sees]
  refine .inr ⟨_, _, readCodePoint_pastEscape known small spells at', ?_⟩
  simp only [none]
  exact Throws.fail_iff.mpr ⟨rfl, rfl⟩

/-! ### Words -/

theorem wordPass_spelled (known : 6 ≤ s.edition) (letter : Alphabet.isLetter s.astral before.isEmpty c = true)
    (spells : SpellsLetter c escaped spelling) (at' : s.source.TextAt l.pos (spelling ++ rest)) :
    Runs s (wordPass before) l (.again (c :: before))
      { l with pos := l.pos + width spelling, containsEscape := l.containsEscape || escaped } := by
  cases spells with
  | itself => simp [wordPass, at'.charAt, Alphabet.isIdentifierPart_of_isLetter letter]
  | escape spells =>
    have run := readWordEscape_spelled known letter spells at'
    simp [wordPass, at'.charAt, Alphabet.isIdentifierPart, Lexer.pastEscape] at run ⊢
    exact run

/-- Over a part of a word the passes go on as from behind it. -/
theorem loop_spelled (known : 6 ≤ s.edition) (before : List Char)
    (spells : SpellsWord s.astral before.isEmpty word escaped spelling)
    (at' : s.source.TextAt l.pos (spelling ++ rest)) (fuel : Nat) :
    loop wordPass (fuel + word.length) before s l =
      loop wordPass fuel (word.reverse ++ before) s
        { l with pos := l.pos + width spelling, containsEscape := l.containsEscape || escaped } := by
  generalize start : before.isEmpty = atStart at spells
  induction spells generalizing l before with
  | nil => simp
  | @cons atStart escaped escaped' c word spelling tail letter first next ih =>
    have here : s.source.TextAt l.pos (spelling ++ (tail ++ rest)) := by simpa using at'
    have pass := wordPass_spelled known (start ▸ letter) first here
    have more := ih (l := { l with pos := l.pos + width spelling, containsEscape := l.containsEscape || escaped })
      (c :: before) here.past rfl
    rw [List.length_cons, ← Nat.add_assoc, loop]
    simp only [bind, ReaderT.bind, EStateM.bind]
    rw [show wordPass before s l = _ from pass]
    simp only [more, List.reverse_cons, List.append_assoc, List.singleton_append, width_append,
      Nat.add_assoc, Bool.or_assoc]

/-- There is fuel for every letter of a word and one pass more. -/
theorem SpellsWord.fuel {source : Source} {astral : Bool} {offset : Nat}
    (spells : SpellsWord astral atStart word escaped spelling)
    (at' : source.TextAt offset (spelling ++ rest)) : ∃ n, source.size - offset + 2 = n + 1 + word.length := by
  have size := at'.size
  have short := spells.length_le
  have le := length_le_width spelling
  rw [width_append] at size
  exact ⟨source.size - offset + 1 - word.length, by omega⟩

theorem readWordText_spelled (known : 6 ≤ s.edition) (spells : SpellsWord s.astral true word escaped spelling)
    (ends : EndsWord s.astral rest) (at' : s.source.TextAt l.pos (spelling ++ rest)) :
    Runs s readWordText l (String.ofList word) { l with pos := l.pos + width spelling, containsEscape := escaped } := by
  obtain ⟨n, fuel⟩ := spells.fuel at'
  have done : Runs s (wordPass word.reverse) { l with pos := l.pos + width spelling, containsEscape := escaped }
      (.done word.reverse)
      { l with pos := l.pos + width spelling, containsEscape := escaped } := by
    have after : s.source.charAt (l.pos + width spelling) = rest.head? := at'.past.charAt
    simp only [wordPass, Runs.bind_iff, Runs.peek_iff, Runs.exists_look, after]
    cases next : rest.head? with
    | none => simp
    | some c => simp [ends c next]
  have run : Runs s (loop wordPass (n + 1 + word.length) []) { l with containsEscape := false } word.reverse
      { l with pos := l.pos + width spelling, containsEscape := escaped } := by
    rw [Runs, loop_spelled (l := { l with containsEscape := false }) known [] spells at']
    simp only [List.append_nil, Bool.false_or]
    exact Runs.bind_iff.mpr ⟨_, _, done, Runs.pure_iff.mpr ⟨rfl, rfl⟩⟩
  simp [readWordText, repeatForward, fuel]
  exact ⟨_, run, by simp⟩

/-- A word is refused at the first escape whose character cannot stand at its place. -/
theorem readWordText_refused (known : 6 ≤ s.edition) (spells : SpellsWord s.astral true word escaped before)
    (small : code ≤ 0x10ffff)
    (code' : SpellsCode code spelling) (strange : ∀ c, c.toNat = code →
      Alphabet.isLetter s.astral word.isEmpty c = false)
    (at' : s.source.TextAt l.pos (before ++ '\\' :: 'u' :: spelling ++ rest)) :
    ∃ l', Throws s readWordText l (s.fatal (l.pos + width before) .invalidUnicodeEscape) l' := by
  rw [List.append_assoc] at at'
  obtain ⟨n, fuel⟩ := spells.fuel at'
  refine ⟨Lexer.pastEscape { l with pos := l.pos + width before } spelling, ?_⟩
  have pass : Throws s (wordPass word.reverse) { l with pos := l.pos + width before, containsEscape := escaped }
      (s.fatal (l.pos + width before) .invalidUnicodeEscape)
        (Lexer.pastEscape { l with pos := l.pos + width before } spelling) := by
    have throws :=
      readWordEscape_refused (l := { l with pos := l.pos + width before, containsEscape := escaped }) known small
        code' strange at'.past
    have here : s.source.charAt (l.pos + width before) = some '\\' := at'.past.charAt
    simp [wordPass, here, Alphabet.isIdentifierPart]
    exact throws
  have throws : Throws s (loop wordPass (n + 1 + word.length) []) { l with containsEscape := false }
      (s.fatal (l.pos + width before) .invalidUnicodeEscape)
        (Lexer.pastEscape { l with pos := l.pos + width before } spelling) := by
    rw [Throws, loop_spelled (l := { l with containsEscape := false }) known [] spells at']
    simp only [List.append_nil, Bool.false_or]
    exact Throws.bind_iff.mpr (.inl pass)
  simp [readWordText, repeatForward, fuel]
  exact throws

/-! ### Tokens -/

/-- No gap stands before a word. -/
theorem solid_of_startsWord {more : List Char} (starts : Alphabet.isIdentifierStart s.astral c = true ∨ c = '\\') :
    Solid (c :: more) := by
  rcases starts with letter | rfl
  · refine ⟨Alphabet.isGap_of_isIdentifierPart (Alphabet.isIdentifierPart_of_isIdentifierStart letter), ?_⟩
    rintro rfl
    simp [Alphabet.isIdentifierStart] at letter
  · exact ⟨rfl, by simp⟩

/-- However a word is written, one token is read over all of it.  Its value is the word, and its kind depends on nothing
but the word and the options; it is marked if there is an escape.  An escape for a character that cannot stand at its
place is refused where it begins. -/
theorem readNext_respelled (plain : s.reader = none) (known : 6 ≤ s.edition) (outside : l.context ≠ .templateText) :
    (∀ word escaped spelling rest, word ≠ [] → SpellsWord s.astral true word escaped spelling → EndsWord s.astral rest →
      s.source.TextAt l.pos (spelling ++ rest) →
      ∃ l', Runs s readNext l ⟨⟩ l' ∧ l'.token.start = l.pos ∧ l'.token.stop = l.pos + width spelling ∧
        l'.pos = l.pos + width spelling ∧
        l'.value = .name (String.ofList word) ∧ l'.kind = s.options.wordKind (String.ofList word) ∧
          l'.containsEscape = escaped) ∧
    ∀ word escaped before code spelling rest, SpellsWord s.astral true word escaped before → code ≤ 0x10ffff →
      SpellsCode code spelling →
      (∀ c, c.toNat = code → Alphabet.isLetter s.astral word.isEmpty c = false) →
      s.source.TextAt l.pos (before ++ '\\' :: 'u' :: spelling ++ rest) →
      ∃ l', Throws s readNext l (s.fatal (l.pos + width before) .invalidUnicodeEscape) l' := by
  -- Either way the text begins like a word.
  have begins {c : Char} {more : List Char} (at' : s.source.TextAt l.pos (c :: more))
      (starts : Alphabet.isIdentifierStart s.astral c = true ∨ c = '\\') :
      Runs s skipBlank l ⟨⟩ l :=
        Runs.of_first_pass (skipBlankPass_stop (Source.skipBlank_solid (solid_of_startsWord starts) at'))
  constructor
  · intro word escaped spelling rest some spells ends at'
    obtain ⟨c, more, rfl, starts⟩ := spells.head some
    have text := readWordText_spelled (l := l.begin) known spells ends at'
    obtain ⟨l', finished⟩ :=
      Runs.exists_finish plain (s.options.wordKind (String.ofList word)) (.name (String.ofList word))
      { l.begin with pos := l.pos + width (c :: more), containsEscape := escaped }
    obtain ⟨pos, kind, token, -⟩ := finish_spec plain finished
    have read : Runs s (readToken c) l.begin true l' := by
      simp only [readToken, Runs.bind_iff, Runs.read_iff, Runs.exists_look]
      simp [starts, readWord]
      exact ⟨_, _, text, finished⟩
    refine ⟨l', readNext_of_token plain outside (begins at' starts) at'.charAt_cons read, ?_, ?_, pos,
      finish_value plain finished, kind,
      finish_escape plain finished⟩
    · rw [token]
      rfl
    · rw [token]
  · intro word escaped before code spelling rest spells small code' strange at'
    obtain ⟨l', throws⟩ := readWordText_refused (l := l.begin) known spells small code' strange at'
    obtain ⟨c, more, same, starts⟩ : ∃ c more, before ++ '\\' :: 'u' :: spelling ++ rest = c :: more ∧
        (Alphabet.isIdentifierStart s.astral c = true ∨ c = '\\') := by
      by_cases some : word = []
      · subst some
        cases spells
        exact ⟨'\\', _, rfl, .inr rfl⟩
      · obtain ⟨c, more, rfl, starts⟩ := spells.head some
        exact ⟨c, _, rfl, starts⟩
    rw [same] at at'
    refine ⟨l', readNext_throws_of_token plain outside (begins at' starts) at'.charAt_cons ?_⟩
    simp only [readToken, Throws.bind_iff, Throws.read_iff, Runs.read_iff, Runs.exists_look, false_or]
    simp [starts, readWord]
    exact .inl throws

/-- A keyword with two escapes, and a name that goes on with the escape of a minus. -/
theorem readNext_respelled_keyword :
    (∃ l', Runs ⟨.ofString "\\u0076\\u\x7b61\x7dr=", {}, none⟩ readNext
      (Setting.lexerAt ⟨.ofString "\\u0076\\u\x7b61\x7dr=", {}, none⟩ 0) ⟨⟩ l' ∧
      l'.token.stop = 13 ∧ l'.value = .name (String.ofList ['v', 'a', 'r']) ∧ l'.kind = .kwVar ∧
        l'.containsEscape = true) ∧
    ∃ l', Throws ⟨.ofString "a\\u002d", {}, none⟩ readNext (Setting.lexerAt ⟨.ofString "a\\u002d", {}, none⟩ 0)
      (Setting.fatal ⟨.ofString "a\\u002d", {}, none⟩ 1 .invalidUnicodeEscape) l' := by
  have letter (c : Char) (atStart : Bool) (ascii : c ∈ ['a', 'r', 'v']) : Alphabet.isLetter true atStart c = true := by
    simp only [List.mem_cons, List.not_mem_nil, or_false] at ascii
    rcases ascii with rfl | rfl | rfl <;> cases atStart <;> decide
  constructor
  · generalize place : Setting.lexerAt ⟨.ofString "\\u0076\\u\x7b61\x7dr=", {}, none⟩ 0 = l
    have initial : l.pos = 0 ∧ l.context ≠ .templateText := by
      rw [← place]
      decide +kernel
    have digits : SpellsCode 'v'.toNat ['0', '0', '7', '6'] := .fourDigits rfl ⟨[0, 0, 7, 6], rfl, rfl⟩
    have braces : SpellsCode 'a'.toNat ('\x7b' :: ['6', '1'] ++ ['\x7d']) := .braces (by decide) ⟨[6, 1], rfl, rfl⟩
    have spells : SpellsWord true true ['v', 'a', 'r'] true
        ['\\', 'u', '0', '0', '7', '6', '\\', 'u', '\x7b', '6', '1', '\x7d', 'r'] :=
      .cons (letter _ _ (by decide)) (.escape digits)
        (.cons (letter _ _ (by decide)) (.escape braces) (.cons (letter _ _ (by decide)) .itself .nil))
    have ends : EndsWord true ['='] := by simp [EndsWord, Alphabet.isIdentifierPart]
    obtain ⟨l', run, -, stop, -, value, kind, escape⟩ :=
      (readNext_respelled (s := ⟨.ofString "\\u0076\\u\x7b61\x7dr=", {}, none⟩) rfl (by decide)
      initial.2).1 _ _ _ _ (by decide) spells ends (initial.1 ▸ Source.textAt_ofString "\\u0076\\u\x7b61\x7dr=")
    exact ⟨l', run, by rw [stop, initial.1]; rfl, value, by rw [kind]; decide, escape⟩
  · generalize place : Setting.lexerAt ⟨.ofString "a\\u002d", {}, none⟩ 0 = l
    have initial : l.pos = 0 ∧ l.context ≠ .templateText := by
      rw [← place]
      decide +kernel
    have digits : SpellsCode '-'.toNat ['0', '0', '2', 'd'] := .fourDigits rfl ⟨[0, 0, 2, 13], rfl, rfl⟩
    have strange (c : Char) (same : c.toNat = '-'.toNat) : Alphabet.isLetter true false c = false := by
      obtain rfl : c = '-' := Char.toNat_inj.mp same
      decide
    have plainly : SpellsWord true true ['a'] false ['a'] :=
      .itself (by simpa using letter _ true (by decide)) (by simp)
    have throws :=
      (readNext_respelled (s := ⟨.ofString "a\\u002d", {}, none⟩) rfl (by decide) initial.2).2 ['a'] false ['a'] _ _ []
      plainly (by decide) digits strange (initial.1 ▸ Source.textAt_ofString "a\\u002d")
    rwa [initial.1] at throws

end ScriptSyntax
