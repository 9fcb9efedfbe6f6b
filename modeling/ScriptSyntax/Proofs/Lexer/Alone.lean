import ScriptSyntax.Parser.Program
import ScriptSyntax.Proofs.Lexer.Excerpt
import ScriptSyntax.Proofs.Lexer.Detached

/-!
A number, a string or a regular expression as a text of its own is one token, which says the same as in the
text around it.
-/

namespace ScriptSyntax

open LexM

variable {p : Nat} {a e : Source} {o : Options} {l l' k k' : Lexer} {u : Unit} {c : Char}

/-! ### Numbers after their first characters -/

theorem Alphabet.exists_digit_of_isDecimalDigit (decimal : isDecimalDigit c = true) :
    ∃ digit, digit? 10 c = some digit := by
  refine ⟨c.toNat - '0'.toNat, ?_⟩
  simp only [digit?, digitValue?, decimal, if_true]
  simp only [isDecimalDigit, Bool.and_eq_true, decide_eq_true_eq, Char.le_def, UInt32.le_iff_toNat_le] at decimal
  rw [Option.filter_some, if_pos]
  simp only [decide_eq_true_eq, Char.toNat]
  have := show '9'.val.toNat = '0'.val.toNat + 9 from rfl
  omega

/-- A digit at the cursor is read. -/
theorem readDigits_moves {s : Setting} {radix digit : Nat} {digits : Option (List Nat)}
    (here : (s.source.charAt l.pos).bind (Alphabet.digit? radix) = some digit)
    (run : Runs s (readDigits radix false) l digits l') :
    l.pos < l'.pos := by
  simp [readDigits] at run
  obtain ⟨d, run, -⟩ := run
  obtain ⟨d', m, le, done⟩ := Runs.of_repeatForward (fun _ m => l.pos ≤ m.pos) (Nat.le_refl _)
    (fun before run => Nat.le_trans before (digitPass_forward run).pos_le) run
  refine Nat.lt_of_le_of_ne (Nat.le_trans le (digitPass_forward done).pos_le) fun same => ?_
  have stays : m.pos = l.pos := Nat.le_antisymm (same ▸ (digitPass_forward done).pos_le) le
  obtain ⟨c, here, value⟩ := Option.bind_eq_some_iff.mp here
  rw [← stays] at here
  have notSeparator : c ≠ '_' := by
    rintro rfl
    simp [Alphabet.digit?, Alphabet.digitValue?, Alphabet.isDecimalDigit] at value
  simp [digitPass, here, notSeparator, value] at done

/-- A number has a digit. -/
theorem readDigits_some {s : Setting} {radix : Nat} {maybeLegacy : Bool} {digits : List Nat}
    (run : Runs s (readDigits radix maybeLegacy) l (some digits) l') : l.pos < l'.pos := by
  have passes {legacy : Bool} {d : DigitRun} (found : d.digits ≠ [])
      (run : Runs s (repeatForward {} (digitPass radix l.pos legacy)) l d l') : l.pos < l'.pos := by
    obtain ⟨d', m, before, done⟩ := Runs.of_repeatForward (fun d m => l.pos ≤ m.pos ∧ (d.digits ≠ [] → l.pos < m.pos))
      ⟨Nat.le_refl _, fun h => (h rfl).elim⟩
      (fun before run => ⟨Nat.le_trans before.1 (digitPass_forward run).pos_le, fun _ =>
        Nat.lt_of_le_of_lt before.1 (digitPass_moves run)⟩) run
    have kept : d' = d ∧ m = l' := by
      simp only [digitPass, Runs.bind_iff, Runs.peek_iff, Runs.exists_look] at done
      split at done
      · simpa [eq_comm] using done
      · simp at done
        obtain ⟨-, done⟩ := done
        split at done <;> simp at done
        exact ⟨done.1.symm, done.2.symm⟩
    exact kept.2 ▸ before.2 (kept.1 ▸ found)
  simp [readDigits] at run
  rcases run with ⟨_, d, run, _, found, _⟩ | ⟨_, d, run, _, found, _⟩ <;> exact passes found run

theorem readRadixNumber_past {s : Setting} {radix : Nat} (plain : s.reader = none)
    (run : Runs s (readRadixNumber radix) l u l') :
    l.pos + 2 ≤ l'.pos := by
  simp [readRadixNumber, bigintDigits] at run
  obtain ⟨digits, m, read, run⟩ := run
  have past : l.pos + 2 ≤ m.pos := (readDigits_forward read).pos_le
  split at run
  · simp at run
  · simp at run
    rcases run with ⟨_, run⟩ | ⟨_, _, run⟩
    · exact (finish_spec plain run).1 ▸ Nat.le_succ_of_le past
    · exact (finish_spec plain run).1 ▸ past

/-- A number that begins with a point has a digit after it. -/
theorem readNumber_past {s : Setting} (plain : s.reader = none) (here : s.source.charAt l.pos = some '.')
    (digit : (s.source.charAt (l.pos + 1)).any Alphabet.isDecimalDigit = true) (run : Runs s (readNumber true) l u l') :
    l.pos + 1 < l'.pos := by
  simp [readNumber_eq, numberRest] at run
  obtain ⟨m, fraction, n, exponent, -, run⟩ := run
  simp [readFraction, here] at fraction
  obtain ⟨digits, read⟩ := fraction
  obtain ⟨c, next, digit⟩ : ∃ c, s.source.charAt (l.pos + 1) = some c ∧ Alphabet.isDecimalDigit c = true := by
    cases next : s.source.charAt (l.pos + 1) with
    | none => simp [next] at digit
    | some c => exact ⟨c, rfl, by simpa [next] using digit⟩
  obtain ⟨value, digit⟩ := Alphabet.exists_digit_of_isDecimalDigit digit
  have value : (s.source.charAt (l.pos + 1)).bind (Alphabet.digit? 10) = some value := by rw [next]; exact digit
  have moved : l.pos + 1 < m.pos := readDigits_moves value read
  rw [(finish_spec plain run).1]
  exact Nat.lt_of_lt_of_le moved (readExponent_forward exponent).pos_le

theorem readDot_excerpt (x : a.Excerpt p e) (h : l.Excerpted p k) (here : a.charAt l.pos = some '.')
    (run : Runs ⟨a, o, none⟩ readDot l u l') (number : l'.kind = .num)
    (inside : l'.pos ≤ p + e.size) : ∃ k', Runs ⟨e, o, none⟩ readDot k u k' ∧ l'.Copied p k' := by
  simp [readDot] at run
  rcases run with ⟨digit, run⟩ | ⟨_, ⟨_, run⟩ | ⟨_, run⟩⟩
  · have past := readNumber_past rfl here digit run
    obtain ⟨k', run', copied⟩ := readNumber_excerpt x h (by omega) run inside
    have seen : e.charAt (k.pos + 1) = a.charAt (l.pos + 1) :=
      seen_excerpt x (h.move 1) (Nat.lt_of_lt_of_le past inside)
    exact ⟨k', by simpa [readDot, seen, digit] using run', copied⟩
  · simp [finishOperator] at run
    simp [(finish_spec rfl run).2.1] at number
  · simp [finishOperator] at run
    simp [(finish_spec rfl run).2.1] at number

theorem readZero_excerpt (x : a.Excerpt p e) (h : l.Excerpted p k) (first : l.pos < p + e.size)
    (run : Runs ⟨a, o, none⟩ readZero l u l')
    (inside : l'.pos ≤ p + e.size) : ∃ k', Runs ⟨e, o, none⟩ readZero k u k' ∧ l'.Copied p k' := by
  simp only [readZero, Runs.bind_iff, Runs.charAhead_iff, Runs.lexEdition_iff, Runs.exists_look] at run
  split at run
  · next radix mark =>
    have past := readRadixNumber_past rfl run
    obtain ⟨k', run', copied⟩ := readRadixNumber_excerpt x h run inside
    have seen : e.charAt (k.pos + 1) = a.charAt (l.pos + 1) := seen_excerpt x (h.move 1) (by dsimp only; omega)
    have mark' : (e.charAt (k.pos + 1)).bind (radixMark? (⟨e, o, none⟩ : Setting).edition) = some radix := seen ▸ mark
    exact ⟨k', by simpa [readZero, mark'] using run', copied⟩
  · next plain =>
    obtain ⟨k', run', copied⟩ := readNumber_excerpt x h first run inside
    have plain' : (e.charAt (k.pos + 1)).bind (radixMark? (⟨e, o, none⟩ : Setting).edition) = none :=
      none_excerpt x (h.move 1) plain
    exact ⟨k', by simpa [readZero, plain'] using run', copied⟩

/-! ### Tokens -/

/-- What begins a number, a string or a regular expression. -/
def literalMarks : List Char := ['0', '1', '2', '3', '4', '5', '6', '7', '8', '9', '.', '"', '\'', '/']

/-- The reader of what such a character begins. -/
def literalReader : Char → LexM Unit
  | '0' => readZero
  | '.' => readDot
  | '"' => readString '"'
  | '\'' => readString '\''
  | '/' => readSlash
  | _ => readNumber false

theorem readToken_literal {s : Setting} (begins : c ∈ literalMarks) :
    Runs s (readToken c) l true l' ↔ Runs s (literalReader c) l ⟨⟩ l' := by
  have noWord : Alphabet.isIdentifierStart s.astral c = false := by
    have ascii : literalMarks.all (fun c => c.toNat < 0x80 && !(c.isAlpha || c = '$' || c = '_')) = true := by decide
    obtain ⟨ascii, other⟩ : c.toNat < 0x80 ∧ (c.isAlpha || c = '$' || c = '_') = false := by
      simpa using List.all_eq_true.mp ascii c begins
    rw [Alphabet.isIdentifierStart, if_pos ascii, other]
  simp only [literalMarks, List.mem_cons, List.not_mem_nil, or_false] at begins
  rcases begins with rfl | rfl | rfl | rfl | rfl | rfl | rfl | rfl | rfl | rfl | rfl | rfl | rfl | rfl <;>
    simp +decide [readToken, literalReader, noWord]

theorem mem_literalMarks_of_isDecimalDigit (digit : Alphabet.isDecimalDigit c = true) : c ∈ literalMarks := by
  simp only [Alphabet.isDecimalDigit, Bool.and_eq_true, decide_eq_true_eq, Char.le_def, UInt32.le_iff_toNat_le] at digit
  have low : 48 ≤ c.toNat := digit.1
  have high : c.toNat ≤ 57 := digit.2
  rw [← Char.ofNat_toNat c]
  interval_cases c.toNat <;> decide

/-- The first character of a token tells that it may be a literal. -/
theorem mem_literalMarks_of_opens {astral : Bool} {offset : Nat} {kind : TokenKind} (here : a.charAt offset = some c)
    (literal : kind = .num ∨ kind = .string ∨ kind = .regexp) (opens : a.opens astral offset kind = true) :
    c ∈ literalMarks := by
  rcases literal with rfl | rfl | rfl
  · simp only [Source.opens, here, Option.any_some, Source.has, Bool.or_eq_true, Bool.and_eq_true] at opens
    rcases opens with digit | ⟨point, -⟩
    · exact mem_literalMarks_of_isDecimalDigit digit
    · obtain rfl : c = '.' := by simpa using point
      decide
  · simp only [Source.opens, here, Option.any_some, Alphabet.isQuote, Bool.or_eq_true, beq_iff_eq] at opens
    rcases opens with rfl | rfl <;> decide
  · obtain rfl : c = '/' := by simpa [Source.opens, Source.has, here] using opens
    decide

theorem readRegExp_kind {s : Setting} (plain : s.reader = none) (run : Runs s readRegExp l u l') :
    l'.kind = .regexp := by
  obtain ⟨m, flags, n, -, -, -, -, run⟩ := Runs.readRegExp_iff.mp run
  exact (finish_spec plain run).2.1

/-- A number is read by one of three readers. -/
theorem literalReader_num {s : Setting} (plain : s.reader = none) (number : l'.kind = .num)
    (run : Runs s (literalReader c) l u l') :
    c = '0' ∧ Runs s readZero l u l' ∨
      (c = '.' ∧ (s.source.charAt (l.pos + 1)).any Alphabet.isDecimalDigit = true ∧
        Runs s (readNumber true) l u l') ∨
      Runs s (readNumber false) l u l' := by
  have other {kind : TokenKind} {value : TokenValue} {m : Lexer} (run : Runs s (finish kind value) m u l') :
      kind = .num := (finish_spec plain run).2.1.symm.trans number
  have string {quote : Char} (run : Runs s (readString quote) l u l') : False := by
    simp [readString] at run
    obtain ⟨text, m, -, run⟩ := run
    cases other run
  unfold literalReader at run
  split at run
  · exact .inl ⟨rfl, run⟩
  · simp [readDot, finishOperator] at run
    obtain ⟨digit, run⟩ | ⟨-, ⟨-, run⟩ | ⟨-, run⟩⟩ := run
    · exact .inr (.inl ⟨rfl, digit, run⟩)
    all_goals cases other run
  · exact (string run).elim
  · exact (string run).elim
  · simp [readSlash, finishOperator] at run
    obtain ⟨-, run⟩ | ⟨-, ⟨-, run⟩ | ⟨-, run⟩⟩ := run
    · cases number.symm.trans (readRegExp_kind plain run)
    all_goals cases other run
  · exact .inr (.inr run)

theorem readDot_number {s : Setting} (plain : s.reader = none)
    (literal : l'.kind = .num ∨ l'.kind = .string ∨ l'.kind = .regexp)
    (run : Runs s readDot l u l') : l'.kind = .num := by
  simp [readDot] at run
  rcases run with ⟨_, run⟩ | ⟨_, ⟨_, run⟩ | ⟨_, run⟩⟩
  · exact readNumber_kind plain run
  · simp [finishOperator] at run
    simp [(finish_spec plain run).2.1] at literal
  · simp [finishOperator] at run
    simp [(finish_spec plain run).2.1] at literal

theorem literalReader_excerpt (x : a.Excerpt p e) (h : l.Excerpted p k) (here : a.charAt l.pos = some c)
    (first : l.pos < p + e.size) (allowed : k.exprAllowed = true) (run : Runs ⟨a, o, none⟩ (literalReader c) l u l')
    (literal : l'.kind = .num ∨ l'.kind = .string ∨ l'.kind = .regexp) (inside : l'.pos ≤ p + e.size) :
    ∃ k', Runs ⟨e, o, none⟩ (literalReader c) k u k' ∧ l'.Copied p k' := by
  unfold literalReader at run ⊢
  split at run
  · exact readZero_excerpt x h first run inside
  · exact readDot_excerpt x h here run (readDot_number rfl literal run) inside
  · exact readString_excerpt x h run inside
  · exact readString_excerpt x h run inside
  · simp [readSlash] at run
    rcases run with ⟨_, run⟩ | ⟨_, other⟩
    · obtain ⟨k', run', copied⟩ := readRegExp_excerpt x (h.move 1) run inside
      exact ⟨k', by simpa [readSlash, allowed] using run', copied⟩
    · simp [finishOperator] at other
      rcases other with ⟨_, run⟩ | ⟨_, run⟩ <;> simp [(finish_spec rfl run).2.1] at literal
  · exact readNumber_excerpt x h first run inside

theorem readNumber_moves {s : Setting} (plain : s.reader = none) (run : Runs s (readNumber false) l u l') :
    l.pos < l'.pos := by
  simp [readNumber_eq] at run
  obtain ⟨digits, m, read, found, run⟩ := run
  obtain ⟨digits, rfl⟩ := Option.ne_none_iff_exists'.mp found
  exact Nat.lt_of_lt_of_le (readDigits_some read) (numberRest_finished plain run).pos_le

theorem readRegExp_moves {s : Setting} (plain : s.reader = none) (run : Runs s readRegExp l u l') : l.pos < l'.pos := by
  obtain ⟨m, flags, n, body, word, -, -, run⟩ := Runs.readRegExp_iff.mp run
  have past : m.pos + 1 ≤ n.pos := (readWordText_forward word).pos_le
  have before : l.pos ≤ m.pos := (repeatForward_forward bodyPass_forward body).pos_le
  rw [(finish_spec plain run).1]
  exact Nat.lt_of_le_of_lt before past

/-- A literal is not empty. -/
theorem literalReader_moves {s : Setting} (plain : s.reader = none) (here : s.source.charAt l.pos = some c)
    (run : Runs s (literalReader c) l u l') : l.pos < l'.pos := by
  have string {quote : Char} (run : Runs s (readString quote) l u l') : l.pos < l'.pos := by
    simp [readString] at run
    obtain ⟨text, m, passes, run⟩ := run
    have past : l.pos + 1 ≤ m.pos := (repeatForward_forward stringPass_forward passes).pos_le
    exact (finish_spec plain run).1 ▸ Nat.lt_succ_of_le (Nat.le_of_lt past)
  unfold literalReader at run
  split at run
  · simp only [readZero, Runs.bind_iff, Runs.charAhead_iff, Runs.lexEdition_iff, Runs.exists_look] at run
    split at run
    · exact Nat.lt_of_lt_of_le (by omega) (readRadixNumber_past plain run)
    · exact readNumber_moves plain run
  · simp [readDot] at run
    rcases run with ⟨digit, run⟩ | ⟨_, ⟨_, run⟩ | ⟨_, run⟩⟩
    · exact Nat.lt_of_succ_lt (readNumber_past plain here digit run)
    all_goals
      simp [finishOperator] at run
      exact (finish_spec plain run).1 ▸ (by simp)
  · exact string run
  · exact string run
  · simp [readSlash, finishOperator] at run
    rcases run with ⟨_, run⟩ | ⟨_, ⟨_, run⟩ | ⟨_, run⟩⟩
    · exact Nat.lt_of_succ_lt (readRegExp_moves plain run)
    all_goals exact (finish_spec plain run).1 ▸ (by simp)
  · exact readNumber_moves plain run

/-! ### Values -/

/-- The kind of the token that a literal is, if it is no keyword. -/
def LiteralValue.tokenKind? : LiteralValue → Option TokenKind
  | number _ | bigint _ => some .num
  | string _ => some .string
  | regexp _ _ => some .regexp
  | null | boolean _ => none

/-- The current token has the value of a literal of its kind. -/
def Lexer.Valued (l : Lexer) : Prop :=
  ∃ value, ParseM.literalValue? l.value = some value ∧ value.tokenKind? = some l.kind

section Values

variable {s : Setting} (plain : s.reader = none)
include plain

theorem finish_valued {kind : TokenKind} {token : TokenValue} {value : LiteralValue}
    (run : Runs s (finish kind token) l u l')
    (same : ParseM.literalValue? token = some value) (fits : value.tokenKind? = some kind) : l'.Valued :=
  ⟨value, finish_value plain run ▸ same, (finish_spec plain run).2.1 ▸ fits⟩

theorem readNumber_valued {startsWithDot : Bool} (run : Runs s (readNumber startsWithDot) l u l') : l'.Valued := by
  have rest {source : Source} {start : Nat} {leadingZero : Bool} {whole : List Char} {l : Lexer}
      (run : Runs s (numberRest source start startsWithDot leadingZero whole) l u l') : l'.Valued := by
    simp [numberRest, bigintDigits] at run
    obtain ⟨_, ⟨_, _, run⟩ | ⟨_, ⟨_, _, run⟩ | ⟨_, m, _, n, _, _, run⟩⟩⟩ :=
      run <;> exact finish_valued plain run rfl rfl
  cases startsWithDot <;> simp [readNumber_eq] at run
  · obtain ⟨_, m, _, _, run⟩ := run
    exact rest run
  · exact rest run

theorem readRegExp_valued (run : Runs s readRegExp l u l') : l'.Valued := by
  obtain ⟨m, flags, n, -, -, -, -, run⟩ := Runs.readRegExp_iff.mp run
  exact finish_valued plain run rfl rfl

theorem literalReader_valued (literal : l'.kind = .num ∨ l'.kind = .string ∨ l'.kind = .regexp)
    (run : Runs s (literalReader c) l u l') : l'.Valued := by
  have string {quote : Char} (run : Runs s (readString quote) l u l') : l'.Valued := by
    simp [readString] at run
    obtain ⟨text, m, _, run⟩ := run
    exact finish_valued plain run rfl rfl
  unfold literalReader at run
  split at run
  · simp only [readZero, Runs.bind_iff, Runs.charAhead_iff, Runs.lexEdition_iff, Runs.exists_look] at run
    split at run
    · simp [readRadixNumber, bigintDigits] at run
      obtain ⟨digits, m, _, run⟩ := run
      split at run
      · simp at run
      · simp at run
        rcases run with ⟨_, run⟩ | ⟨_, _, run⟩ <;> exact finish_valued plain run rfl rfl
    · exact readNumber_valued plain run
  · simp [readDot, finishOperator] at run
    rcases run with ⟨_, run⟩ | ⟨_, ⟨_, run⟩ | ⟨_, run⟩⟩
    · exact readNumber_valued plain run
    all_goals simp [(finish_spec plain run).2.1] at literal
  · exact string run
  · exact string run
  · simp [readSlash, finishOperator] at run
    rcases run with ⟨_, run⟩ | ⟨_, ⟨_, run⟩ | ⟨_, run⟩⟩
    · exact readRegExp_valued plain run
    all_goals simp [(finish_spec plain run).2.1] at literal
  · exact readNumber_valued plain run

end Values

/-! ### One token and the end -/

section Text

variable {s : Setting}

theorem Runs.of_first_pass {α β : Type} {pass : α → LexM (Pass α β)} {first : α} {v : β}
    (run : Runs s (pass first) l (.done v) l') :
    Runs s (repeatForward first pass) l v l' := by
  simp only [repeatForward, Runs.bind_iff, Runs.lexSource_iff, Runs.pos_iff, Runs.exists_look, loop]
  exact ⟨_, _, run, Runs.pure_iff.mpr ⟨rfl, rfl⟩⟩

/-- No gap begins where a literal does. -/
theorem skipBlank_literal (here : s.source.charAt l.pos = some c) (begins : c ∈ literalMarks)
    (whole : s.source.opensComment l.pos = false) :
    Runs s skipBlank l ⟨⟩ l := by
  refine Runs.of_first_pass ?_
  simp only [Source.opensComment, Source.spells, Source.has, here, Bool.and_true, Bool.or_eq_false_iff] at whole
  simp only [skipBlankPass, Runs.bind_iff, Runs.peek_iff, Runs.exists_look, here]
  simp only [literalMarks, List.mem_cons, List.not_mem_nil, or_false] at begins
  rcases begins with rfl | rfl | rfl | rfl | rfl | rfl | rfl | rfl | rfl | rfl | rfl | rfl | rfl | rfl
  case inr.inr.inr.inr.inr.inr.inr.inr.inr.inr.inr.inr.inr => simpa [and_comm] using whole
  all_goals simp +decide

/-- A lexer at the start of a text. -/
structure Lexer.Initial (s : Setting) (l : Lexer) : Prop where
  pos : l.pos = 0
  start : l.token.start = 0
  context : l.context ≠ .templateText
  exprAllowed : l.exprAllowed = true
  escape : l.containsEscape = false
  strict : l.strict = s.inModule

theorem lexerAt_initial (here : s.source.charAt 0 = some c) (begins : c ∈ literalMarks) :
    (s.lexerAt 0).begin.Initial s := by
  have noMark : s.source.has 0 '#' = false := by
    rw [Source.has, here]
    exact beq_eq_false_iff_ne.mpr fun same => by simp [Option.some.inj same, literalMarks] at begins
  have fresh : s.lexerAt 0 = ⟨⟨0, s.source.lineStart 0, (s.source.position 0).line, .eof, .none,
      ⟨0, 0, s.source.position 0, s.source.position 0⟩, ⟨0, 0, s.source.position 0, s.source.position 0⟩,
        [.blockBraces], true, false⟩,
      s.inModule, false, [], []⟩ := by
    simp [Setting.lexerAt, noMark]
  rw [fresh]
  exact ⟨rfl, rfl, show Context.blockBraces ≠ .templateText by decide, rfl, rfl, rfl⟩

variable (plain : s.reader = none)
include plain

theorem readPass_literal (outside : l.context ≠ .templateText) (here : s.source.charAt l.pos = some c)
    (begins : c ∈ literalMarks)
    (whole : s.source.opensComment l.pos = false) (run : Runs s (literalReader c) l.begin ⟨⟩ l') :
    Runs s (readPass ()) l (.done ()) l' := by
  have inside := Source.lt_size_of_charAt here
  have read := (readToken_literal begins).mpr run
  simp [readPass, readExtension, plain, Context.keepsBlank, outside]
  refine ⟨l, skipBlank_literal here begins whole, .inr ⟨inside, ?_⟩⟩
  rw [here]
  simp
  exact read

/-- At the end of the text the last token is read. -/
theorem readNext_end (ended : s.source.size ≤ l.pos) (none : s.source.charAt l.pos = none) :
    ∃ l', Runs s readNext l ⟨⟩ l' ∧ l'.kind = .eof := by
  have blank : Runs s skipBlank l ⟨⟩ l := Runs.of_first_pass (by simp [skipBlankPass, none])
  obtain ⟨l', run⟩ : ∃ l', Runs s (finish .eof .none) l.begin ⟨⟩ l' := by simp [finish, LexM.updateContext, plain]
  refine ⟨l', Runs.of_first_pass ?_, (finish_spec plain run).2.1⟩
  by_cases keeps : l.context.keepsBlank
  · simp [readPass, keeps, ended]
    exact run
  · simp [readPass, keeps]
    exact ⟨l, blank, .inl ⟨ended, run⟩⟩

/-- A text that is one literal gives one token, and that of the end. -/
theorem tokenize_literal (here : s.source.charAt 0 = some c) (begins : c ∈ literalMarks)
    (whole : s.source.opensComment 0 = false)
    (run : Runs s (literalReader c) (s.lexerAt 0).begin ⟨⟩ l') (more : l'.kind ≠ .eof) (ends : l'.pos = s.source.size) :
    ∃ last left, s.tokenize = (.ok [s.currentToken l'.toCursor, last], left) ∧ last.kind = .eof := by
  have initial := lexerAt_initial here begins
  have pos : (s.lexerAt 0).pos = 0 := initial.pos
  have first : Runs s readNext (s.lexerAt 0) ⟨⟩ l' :=
    Runs.of_first_pass (readPass_literal plain initial.context (pos.symm ▸ here) begins (pos.symm ▸ whole) run)
  obtain ⟨n, second, ended⟩ : ∃ n, Runs s LexM.next l' ⟨⟩ n ∧ n.kind = .eof := by
    simp [LexM.next]
    exact readNext_end plain (Nat.le_of_eq ends.symm) (ends ▸ s.source.charAt_size)
  refine ⟨s.currentToken n.toCursor, n, ?_, ended⟩
  have all : Runs s allTokens (s.lexerAt 0) [s.currentToken l'.toCursor, s.currentToken n.toCursor] n := by
    have kind : (s.currentToken l'.toCursor).kind ≠ .eof := more
    have kind' : (s.currentToken n.toCursor).kind = .eof := ended
    simp [allTokens]
    refine ⟨l', first, ?_⟩
    simp [loop, tokenPass, kind]
    exact ⟨_, second, by simp [kind']⟩
  simp only [Setting.tokenize, Setting.runLexer]
  rw [show (ReaderT.run allTokens s).run (s.lexerAt 0) = .ok _ n from all]

end Text

/-! ### Literals alone -/

/-- The text, read by itself, is one token with the value, and after it the end. -/
def ReadsAs (o : Options) (text : String) (value : LiteralValue) : Prop :=
  ∃ token last, tokenize text o = .ok [token, last] ∧
    (value.tokenKind? = some token.kind ∧ ParseM.literalValue? token.value = some value ∧
    token.start = 0 ∧ token.stop = text.utf8ByteSize) ∧ last.kind = .eof

/-- The text of the current token gives its value, read by itself. -/
def Lexer.Alone (o : Options) (a : Source) (l : Lexer) : Prop :=
  ∃ value, ParseM.literalValue? l.value = some value ∧ ReadsAs o (a.slice l.token.start l.token.stop) value

/-- What is read of a token in every excerpt that ends with it, is read of it by itself. -/
theorem alone_of_copies (begun : l'.token.start = p) (ended : l'.token.stop = l'.pos) (start : a.isBoundary p = true)
    (stop : a.isBoundary l'.pos = true) (lt : p < l'.pos) (here : a.charAt p = some c) (begins : c ∈ literalMarks)
    (whole : a.opensComment p = false) (more : l'.kind ≠ .eof) (valued : l'.Valued)
    (copies : ∀ {e k}, a.Excerpt p e → p + e.size = l'.pos → k.Initial ⟨e, o, none⟩ →
      ∃ k', Runs ⟨e, o, none⟩ (literalReader c) k ⟨⟩ k' ∧ l'.Copied p k') :
    l'.Alone o a := by
  obtain ⟨value, same, fits⟩ := valued
  refine ⟨value, same, ?_⟩
  rw [begun, ended]
  obtain ⟨x, size⟩ := Source.excerpt_slice start stop (Nat.le_of_lt lt)
  generalize a.slice p l'.pos = text at x size ⊢
  have first : (Source.ofString text).charAt 0 = some c := by rw [x.charAt (by omega), Nat.add_zero, here]
  have seen {d : Char} (absent : a.has (p + 1) d = false) : (Source.ofString text).has 1 d = false := by
    rcases x.charAt_or 1 with same | none
    · rwa [Source.has, same]
    · rw [Source.has, none]
      rfl
  have whole' : (Source.ofString text).opensComment 0 = false := by
    by_cases slash : c = '/'
    · subst slash
      simp only [Source.opensComment, Source.spells, Source.has_iff.mpr here, Bool.true_and, Bool.and_true,
        Bool.or_eq_false_iff] at whole
      simp [Source.opensComment, Source.spells, seen whole.1, seen whole.2]
    · simp [Source.opensComment, Source.spells, Source.has, first, slash]
  obtain ⟨k', run, copied⟩ := copies x size (lexerAt_initial (s := ⟨.ofString text, o, none⟩) first begins)
  have pos := copied.pos
  have atStart := copied.start
  have ends : k'.pos = (Source.ofString text).size := by omega
  have more' : k'.kind ≠ .eof := copied.kind ▸ more
  obtain ⟨last, left, tokens, ended⟩ :=
    tokenize_literal (s := ⟨.ofString text, o, none⟩) rfl first begins whole' run more' ends
  refine ⟨_, last, by rw [tokenize, tokens], ⟨copied.kind ▸ fits, copied.value ▸ same, ?_, ?_⟩, ended⟩
  · show k'.token.start = 0
    omega
  · exact copied.ends.trans (ends.trans (Source.size_eq _))

/-- A number, a string or a regular expression says by itself what it says in the text. -/
theorem readNext_alone (run : Runs ⟨a, o, none⟩ readNext l u l')
    (literal : l'.kind = .num ∨ l'.kind = .string ∨ l'.kind = .regexp)
    (strict : o.isModule = true → l.strict = true) (start : a.isBoundary l'.token.start = true)
    (stop : a.isBoundary l'.token.stop = true) :
    l'.Alone o a := by
  have ordinary : l'.kind.isTemplatePart = false := by rcases literal with h | h | h <;> rw [h] <;> rfl
  obtain ⟨m, c, -, here, whole, read⟩ := readNext_token rfl ordinary run
  have opens := ((readToken_opens rfl (l := m.begin) here read).resolve_right (by simp)).2
  have finished := ((readToken_spec rfl (l := m.begin) here read).resolve_right (by simp)).2
  have begun : l'.token.start = m.pos := finished.start
  have kept : m.strict = l.strict := (Detached.readToken.strict rfl read).symm.trans (Detached.readNext.strict rfl run)
  have begins := mem_literalMarks_of_opens here literal opens
  have past : m.pos < l'.pos := literalReader_moves (l := m.begin) rfl here ((readToken_literal begins).mp read)
  refine alone_of_copies begun finished.stop (begun ▸ start) (finished.stop ▸ stop) past here begins whole finished.kind
    (literalReader_valued rfl literal ((readToken_literal begins).mp read)) fun x size initial => ?_
  refine literalReader_excerpt (l := m.begin) x
    ⟨by rw [initial.pos]; rfl, by rw [initial.start]; rfl, fun _ => initial.escape, ?_⟩ here
    (size ▸ past) initial.exprAllowed ((readToken_literal begins).mp read) literal (Nat.le_of_eq size.symm)
  rw [initial.strict]
  exact fun h => kept.trans (strict h)

/-- So does a regular expression that begins with a slash read before as a division. -/
theorem readRegExp_alone (run : Runs ⟨a, o, none⟩ readRegExp { l with pos := l.token.start + 1 } u l')
    (slash : a.charAt l.token.start = some '/') (whole : a.opensComment l.token.start = false)
      (strict : o.isModule = true → l.strict = true)
    (stop : a.isBoundary l'.token.stop = true) :
    l'.Alone o a := by
  have finished := readRegExp_finished rfl run
  have begun : l'.token.start = l.token.start := finished.start
  have past : l.token.start + 1 < l'.pos := readRegExp_moves rfl run
  refine alone_of_copies begun finished.stop (Source.isBoundary_of_charAt slash) (finished.stop ▸ stop)
    (Nat.lt_of_succ_lt past) slash
    (by decide) whole finished.kind (readRegExp_valued rfl run) fun {e k} x size initial => ?_
  have here : Lexer.Excerpted l.token.start { l with pos := l.token.start } k :=
    ⟨by rw [initial.pos]; rfl, by rw [initial.start]; rfl, fun _ => initial.escape, fun h => strict (by
      rwa [initial.strict] at h)⟩
  obtain ⟨k', run', copied⟩ := readRegExp_excerpt x (here.move 1) run (Nat.le_of_eq size.symm)
  exact ⟨k', by simpa [literalReader, readSlash, initial.exprAllowed] using run', copied⟩

end ScriptSyntax
