import ScriptSyntax.Proofs.Lexer.Lookahead
import ScriptSyntax.Proofs.Lexer.Token

/-!
How tokens are written.  Outside templates the first characters of a token tell its kind, and the token begins where the
gap before it ends, unless a comment that looks like a tag of a page stands in the gap.  A token that is no part of a
template is read from its first character.
-/

namespace ScriptSyntax

namespace Source

/-- Do the characters at an offset begin a token of a kind? -/
def opens (s : Source) (astral : Bool) (offset : Nat) : TokenKind → Bool
  | .num => (s.charAt offset).any Alphabet.isDecimalDigit ||
      (s.has offset '.' && (s.charAt (offset + 1)).any Alphabet.isDecimalDigit)
  | .string => (s.charAt offset).any Alphabet.isQuote
  | .regexp => s.has offset '/'
  | .privateId => s.has offset '#'
  | .bang => s.has offset '!' && !s.has (offset + 1) '='
  | .eof => (s.charAt offset).isNone
  | kind =>
    if kind = .name ∨ kind.isKeyword then
      (s.charAt offset).any fun c => Alphabet.isIdentifierStart astral c || c == '\\'
    else s.spells offset kind.label.toList

/-- Does a comment begin at an offset that looks like a tag? -/
def opensTag (s : Source) (offset : Nat) : Bool :=
  s.spells offset ['<', '!', '-', '-'] || s.spells offset ['-', '-', '>']

end Source

section Steps

open LexM

variable {s : Setting} {l l' : Lexer} {u : Unit}

/-! ### Words -/

theorem hexDigits_escape {count : Nat} {digits : List Nat} (run : Runs s (hexDigits count) l digits l') :
    l'.containsEscape = l.containsEscape := by
  induction count generalizing l digits with
  | zero =>
    simp [hexDigits] at run
    rw [run.2]
  | succ count ih =>
    simp only [hexDigits, Runs.bind_iff, Runs.peek_iff, Runs.exists_look] at run
    split at run
    · simp at run
      obtain ⟨rest, run, -⟩ := run
      have same := ih run
      exact same
    · simp at run
      rw [run.2]

theorem readCodePoint_escape {e : Escape} (run : Runs s readCodePoint l e l') :
    l'.containsEscape = l.containsEscape := by
  have hex {count : Nat} {m n : Lexer} {e : Escape} (run : Runs s (readHex count) m e n) :
      n.containsEscape = m.containsEscape := by
    simp [readHex, invalidEscape_iff] at run
    obtain ⟨digits, k, read, ⟨_, _, rfl⟩ | ⟨_, _, rfl⟩⟩ := run <;> exact hexDigits_escape read
  simp [readCodePoint] at run
  rcases run with ⟨_, _, run⟩ | ⟨_, run⟩
  · split at run
    · simp [invalidEscape_iff] at run
      rw [run.2]
    · simp at run
      obtain ⟨e', m, read, run⟩ := run
      have same := hex read
      split at run
      · simp [invalidEscape_iff] at run
        rcases run with ⟨_, _, rfl⟩ | ⟨_, _, rfl⟩ <;> exact same
      · simp at run
        exact run.2 ▸ same
  · exact hex run

/-- A word with an escape is marked. -/
theorem readWordEscape_escape {atStart : Bool} {c : Char} (run : Runs s (readWordEscape atStart) l c l') :
    l'.containsEscape = true := by
  simp [readWordEscape] at run
  obtain ⟨_, e, m, read, run⟩ := run
  have same := readCodePoint_escape read
  split at run
  · split at run
    · exact (Runs.pure_iff.mp run).2 ▸ same
    · simp at run
  · simp at run
  · simp at run

/-- The word read since an offset is written as it is, if it has no escape. -/
def Lexer.Written (s : Setting) (start : Nat) (word : List Char) (l : Lexer) : Prop :=
  l.containsEscape = false → start ≤ l.pos ∧ s.source.chars start l.pos = word.reverse ∧
    s.source.skipWhile (Alphabet.isIdentifierPart s.astral) l.pos =
      s.source.skipWhile (Alphabet.isIdentifierPart s.astral) start

theorem wordPass_written {start : Nat} {word : List Char} {x : Pass (List Char) (List Char)}
    (boundary : s.source.isBoundary start = true) (before : l.Written s start word)
    (run : Runs s (wordPass word) l x l') :
    (∃ next, x = .again next ∧ l'.Written s start next) ∨ (x = .done word ∧ l' = l ∧
      s.source.skipWhile (Alphabet.isIdentifierPart s.astral) l.pos = l.pos) := by
  simp only [wordPass, Runs.bind_iff, Runs.peek_iff, Runs.exists_look] at run
  split at run
  · next none =>
    obtain ⟨rfl, rfl⟩ := Runs.pure_iff.mp run
    exact .inr ⟨rfl, rfl, Source.skipWhile_end none⟩
  · next c seen =>
    simp at run
    rcases run with ⟨isPart, rfl, rfl⟩ | ⟨notPart, ⟨_, c, escape, rfl⟩ | ⟨_, rfl, rfl⟩⟩
    · refine .inl ⟨_, rfl, fun unescaped => ?_⟩
      obtain ⟨le, text, skips⟩ := before unescaped
      refine ⟨Nat.le_add_right_of_le le, ?_, ?_⟩
      · rw [Source.chars_concat boundary seen le, text, List.reverse_cons]
      · rw [← skips, ← Source.skipWhile_next seen isPart]
    · exact .inl ⟨_, rfl, fun unescaped => by simp [readWordEscape_escape escape] at unescaped⟩
    · exact .inr ⟨rfl, rfl, Source.skipWhile_stop seen notPart⟩

/-- A word without an escape is written as it is read, up to where it ends. -/
theorem readWordText_written {word : String} (run : Runs s readWordText l word l')
    (boundary : s.source.isBoundary l.pos = true) (unescaped : l'.containsEscape = false) :
    s.source.slice l.pos l'.pos = word ∧ s.source.skipWhile (Alphabet.isIdentifierPart s.astral) l.pos = l'.pos := by
  simp [readWordText] at run
  obtain ⟨text, passes, rfl⟩ := run
  have start : Lexer.Written s l.pos [] { l with containsEscape := false } :=
    fun _ => ⟨Nat.le_refl _, by simp [Source.chars], rfl⟩
  obtain ⟨found, m, written, done⟩ := Runs.of_repeatForward (fun word m => m.Written s l.pos word) start (by
    rintro word next m n before run
    obtain ⟨_, same, after⟩ := (wordPass_written boundary before run).resolve_right (by simp)
    cases same
    exact after) passes
  obtain ⟨same, rfl, stop⟩ := (wordPass_written boundary written done).resolve_left (by simp)
  cases same
  obtain ⟨-, text, skips⟩ := written unescaped
  exact ⟨by rw [Source.slice, text], skips.symm.trans stop⟩

theorem finish_escape (plain : s.reader = none) {kind : TokenKind} {value : TokenValue}
    (run : Runs s (finish kind value) l u l') : l'.containsEscape = l.containsEscape := by
  simp [finish, LexM.updateContext, plain] at run
  obtain ⟨contexts, exprAllowed, same⟩ := Cursor.sameToken_updateContext s.source s.edition l.kind
    { l.toCursor with
      kind, value, token := { l.token with stop := l.pos, stopPosition := l.position } }
  rw [same] at run
  rw [run]

/-- A keyword is a word that was read. -/
theorem readWord_keyword (plain : s.reader = none) {word : String} (run : Runs s readWord l u l')
    (keyword : l'.kind.keyword? = some word) :
    ∃ m, Runs s readWordText l word m ∧ l'.pos = m.pos ∧ l'.containsEscape = m.containsEscape := by
  have listed : ∀ k ∈ TokenKind.keywords, k.2.keyword? = some k.1 := by decide
  simp [readWord] at run
  obtain ⟨text, m, read, run⟩ := run
  rw [(finish_spec plain run).2.1] at keyword
  refine ⟨m, ?_, (finish_spec plain run).1, finish_escape plain run⟩
  split at keyword
  · cases known : TokenKind.ofKeyword? text with
    | none => simp [known, TokenKind.keyword?] at keyword
    | some kind =>
      obtain ⟨before, after, found, -⟩ := List.lookup_eq_some_iff.mp known
      have spelled := listed (text, kind) (by simp [found])
      obtain rfl : text = word := by simpa [known, spelled] using keyword
      exact read
  · simp [TokenKind.keyword?] at keyword

theorem readWord_slice (plain : s.reader = none) {word : String} (run : Runs s readWord l u l')
    (boundary : s.source.isBoundary l.pos = true) (unescaped : l'.containsEscape = false)
    (keyword : l'.kind.keyword? = some word) : s.source.slice l.pos l'.pos = word := by
  obtain ⟨m, read, pos, escape⟩ := readWord_keyword plain run keyword
  exact pos ▸ (readWordText_written read boundary (escape ▸ unescaped)).1

/-! ### First characters -/

section Opens

variable (plain : s.reader = none)
include plain

/-- An operator is spelled out. -/
theorem finishOperator_opens (mark : List Char) {kind : TokenKind} {size : Nat}
    (spelling : s.source.opens s.astral l.pos kind = s.source.spells l.pos mark)
    (seen : s.source.spells l.pos mark = true)
    (run : Runs s (finishOperator kind size) l u l') : s.source.opens s.astral l.pos l'.kind = true := by
  simp [finishOperator] at run
  rw [(finish_spec plain run).2.1, spelling, seen]

theorem readAssignable_opens (mark : List Char) {kind assign : TokenKind}
    (spelling : s.source.opens s.astral l.pos kind = s.source.spells l.pos mark)
    (assignSpelling : s.source.opens s.astral l.pos assign = s.source.spells l.pos (mark ++ ['=']))
    (seen : s.source.spells l.pos mark = true) (run : Runs s (readAssignable kind assign mark.length) l u l') :
    s.source.opens s.astral l.pos l'.kind = true := by
  simp [readAssignable] at run
  rcases run with ⟨equals, run⟩ | ⟨_, run⟩
  · exact finishOperator_opens plain _ assignSpelling (Source.spells_append seen (by simp [equals])) run
  · exact finishOperator_opens plain mark spelling seen run

theorem readWord_opens {c : Char} (here : s.source.charAt l.pos = some c)
    (starts : Alphabet.isIdentifierStart s.astral c = true ∨ c = '\\') (run : Runs s readWord l u l') :
    s.source.opens s.astral l.pos l'.kind = true := by
  rcases readWord_kind plain run with name | keyword
  · simp [name, Source.opens, here, starts]
  · cases kind : l'.kind <;> simp [kind, TokenKind.isKeyword, TokenKind.keyword?] at keyword <;>
      simp [Source.opens, here, starts, TokenKind.isKeyword, TokenKind.keyword?]

theorem readStar_opens (here : s.source.charAt l.pos = some '*') (run : Runs s readStar l u l') :
    s.source.opens s.astral l.pos l'.kind = true := by
  simp [readStar] at run
  rcases run with ⟨⟨_, seen⟩, run⟩ | ⟨_, run⟩
  · exact readAssignable_opens plain ['*', '*'] rfl rfl (by simp [here, seen]) run
  · exact readAssignable_opens plain ['*'] rfl rfl (by simp [here]) run

theorem readLogical_opens {c : Char} {single singleAssign double doubleAssign : TokenKind}
    (here : s.source.charAt l.pos = some c)
    (spelling : s.source.opens s.astral l.pos single = s.source.spells l.pos [c])
    (assignSpelling : s.source.opens s.astral l.pos singleAssign = s.source.spells l.pos [c, '='])
    (doubleSpelling : s.source.opens s.astral l.pos double = s.source.spells l.pos [c, c])
    (doubleAssignSpelling : s.source.opens s.astral l.pos doubleAssign = s.source.spells l.pos [c, c, '='])
    (run : Runs s (readLogical c single singleAssign double doubleAssign) l u l') :
    s.source.opens s.astral l.pos l'.kind = true := by
  simp [readLogical] at run
  rcases run with ⟨seen, ⟨_, run⟩ | ⟨_, run⟩⟩ | ⟨_, run⟩
  · exact readAssignable_opens plain [c, c] doubleSpelling doubleAssignSpelling (by simp [here, seen]) run
  · exact finishOperator_opens plain [c, c] doubleSpelling (by simp [here, seen]) run
  · exact readAssignable_opens plain [c] spelling assignSpelling (by simp [here]) run

theorem readPlus_opens (here : s.source.charAt l.pos = some '+') (run : Runs s readPlus l u l') :
    s.source.opens s.astral l.pos l'.kind = true := by
  simp [readPlus] at run
  rcases run with ⟨seen, run⟩ | ⟨_, run⟩
  · exact finishOperator_opens plain ['+', '+'] rfl (by simp [here, seen]) run
  · exact readAssignable_opens plain ['+'] rfl rfl (by simp [here]) run

theorem readGreater_opens (here : s.source.charAt l.pos = some '>') (run : Runs s readGreater l u l') :
    s.source.opens s.astral l.pos l'.kind = true := by
  simp [readGreater] at run
  rcases run with ⟨seen, ⟨third, run⟩ | ⟨_, run⟩⟩ | ⟨_, run⟩
  · exact readAssignable_opens plain ['>', '>', '>'] rfl rfl (by simp [here, seen, third]) run
  · exact readAssignable_opens plain ['>', '>'] rfl rfl (by simp [here, seen]) run
  · exact readAssignable_opens plain ['>'] rfl rfl (by simp [here]) run

theorem readEquals_opens (here : s.source.charAt l.pos = some '=') (run : Runs s readEquals l u l') :
    s.source.opens s.astral l.pos l'.kind = true := by
  simp [readEquals] at run
  rcases run with ⟨seen, run⟩ | ⟨_, ⟨⟨_, seen⟩, run⟩ | ⟨_, run⟩⟩
  · exact readAssignable_opens plain ['=', '='] rfl rfl (by simp [here, seen]) run
  · exact finishOperator_opens plain ['=', '>'] rfl (by simp [here, seen]) run
  · exact finishOperator_opens plain ['='] rfl (by simp [here]) run

theorem readBang_opens (here : s.source.charAt l.pos = some '!') (run : Runs s readBang l u l') :
    s.source.opens s.astral l.pos l'.kind = true := by
  simp [readBang] at run
  rcases run with ⟨seen, run⟩ | ⟨single, run⟩
  · exact readAssignable_opens plain ['!', '='] rfl rfl (by simp [here, seen]) run
  · simp [finishOperator] at run
    rw [(finish_spec plain run).2.1]
    simp [Source.opens, Source.has, here, single]

theorem readQuestion_opens (here : s.source.charAt l.pos = some '?') (run : Runs s readQuestion l u l') :
    s.source.opens s.astral l.pos l'.kind = true := by
  simp [readQuestion] at run
  rcases run with ⟨_, run⟩ | ⟨_, ⟨⟨seen, _⟩, run⟩ | ⟨_, ⟨seen, ⟨_, run⟩ | ⟨_, run⟩⟩ | ⟨_, run⟩⟩⟩
  · exact finishOperator_opens plain ['?'] rfl (by simp [here]) run
  · exact finishOperator_opens plain ['?', '.'] rfl (by simp [here, seen]) run
  · exact readAssignable_opens plain ['?', '?'] rfl rfl (by simp [here, seen]) run
  · exact finishOperator_opens plain ['?', '?'] rfl (by simp [here, seen]) run
  · exact finishOperator_opens plain ['?'] rfl (by simp [here]) run

/-- A minus opens a token, or a comment that looks like the end of a tag. -/
theorem readMinus_opens {b : Bool} (here : s.source.charAt l.pos = some '-') (run : Runs s readMinus l b l') :
    (b = true ∧ s.source.opens s.astral l.pos l'.kind = true) ∨ (b = false ∧ s.source.opensTag l.pos = true) := by
  simp [readMinus, atClosingComment] at run
  rcases run with ⟨second, ⟨m, same, run, rfl⟩ | ⟨⟨⟨third, _⟩, _⟩, _, rfl⟩⟩ | ⟨_, run, rfl⟩
  · obtain rfl : m = l := by rcases same with ⟨_, _, same⟩ | ⟨_, same⟩ <;> exact same
    exact .inl ⟨rfl, finishOperator_opens plain ['-', '-'] rfl (by simp [here, second]) run⟩
  · exact .inr ⟨rfl, by simp [Source.opensTag, here, second, third]⟩
  · exact .inl ⟨rfl, readAssignable_opens plain ['-'] rfl rfl (by simp [here]) run⟩

theorem readLess_opens {b : Bool} (here : s.source.charAt l.pos = some '<') (run : Runs s readLess l b l') :
    (b = true ∧ s.source.opens s.astral l.pos l'.kind = true) ∨ (b = false ∧ s.source.opensTag l.pos = true) := by
  simp [readLess] at run
  rcases run with ⟨second, run, rfl⟩ | ⟨_, ⟨⟨⟨⟨_, second⟩, third⟩, fourth⟩, _, rfl⟩ | ⟨_, run, rfl⟩⟩
  · exact .inl ⟨rfl, readAssignable_opens plain ['<', '<'] rfl rfl (by simp [here, second]) run⟩
  · exact .inr ⟨rfl, by simp [Source.opensTag, here, second, third, fourth]⟩
  · exact .inl ⟨rfl, readAssignable_opens plain ['<'] rfl rfl (by simp [here]) run⟩

/-- Numbers have one kind, whatever their digits are. -/
theorem numberRest_kind {source : Source} {start : Nat} {startsWithDot leadingZero : Bool} {whole : List Char}
    (run : Runs s (numberRest source start startsWithDot leadingZero whole) l u l') : l'.kind = .num := by
  simp [numberRest, bigintDigits] at run
  obtain ⟨_, ⟨_, _, run⟩ | ⟨_, ⟨_, _, run⟩ | ⟨_, m, _, n, _, _, run⟩⟩⟩ := run
  all_goals exact (finish_spec plain run).2.1

theorem readNumber_kind {startsWithDot : Bool} (run : Runs s (readNumber startsWithDot) l u l') :
    l'.kind = .num := by
  simp [readNumber_eq] at run
  rcases run with ⟨_, run⟩ | ⟨_, _, m, _, _, run⟩
  all_goals exact numberRest_kind plain run

theorem readZero_kind (run : Runs s readZero l u l') : l'.kind = .num := by
  simp [readZero] at run
  split at run
  · simp [readRadixNumber, bigintDigits] at run
    obtain ⟨digits, m, _, run⟩ := run
    split at run
    · simp at run
    · simp at run
      rcases run with ⟨_, run⟩ | ⟨_, _, run⟩ <;> exact (finish_spec plain run).2.1
  · exact readNumber_kind plain run

theorem readDot_opens (here : s.source.charAt l.pos = some '.') (run : Runs s readDot l u l') :
    s.source.opens s.astral l.pos l'.kind = true := by
  simp [readDot] at run
  rcases run with ⟨digit, run⟩ | ⟨_, ⟨⟨⟨_, second⟩, third⟩, run⟩ | ⟨_, run⟩⟩
  · simp [readNumber_kind plain run, Source.opens, Source.has, here, digit]
  · exact finishOperator_opens plain ['.', '.', '.'] rfl (by simp [here, second, third]) run
  · exact finishOperator_opens plain ['.'] rfl (by simp [here]) run

theorem readString_kind {quote : Char} (run : Runs s (readString quote) l u l') : l'.kind = .string := by
  simp [readString] at run
  obtain ⟨text, m, _, run⟩ := run
  exact (finish_spec plain run).2.1

theorem readSlash_opens (here : s.source.charAt l.pos = some '/') (run : Runs s readSlash l u l') :
    s.source.opens s.astral l.pos l'.kind = true := by
  simp [readSlash] at run
  rcases run with ⟨_, run⟩ | ⟨_, ⟨seen, run⟩ | ⟨_, run⟩⟩
  · obtain ⟨m, flags, n, -, -, -, -, run⟩ := Runs.readRegExp_iff.mp run
    rw [(finish_spec plain run).2.1]
    simp [Source.opens, Source.has, here]
  · exact finishOperator_opens plain ['/', '='] rfl (by simp [here, seen]) run
  · exact finishOperator_opens plain ['/'] rfl (by simp [here]) run

theorem readHash_opens (here : s.source.charAt l.pos = some '#') (run : Runs s readHash l u l') :
    s.source.opens s.astral l.pos l'.kind = true := by
  simp [readHash] at run
  obtain ⟨_, run⟩ := run
  split at run
  · simp at run
    obtain ⟨_, _, m, _, run⟩ := run
    rw [(finish_spec plain run).2.1]
    simp [Source.opens, Source.has, here]
  · simp at run

theorem readToken_opens {c : Char} {b : Bool} (here : s.source.charAt l.pos = some c)
    (run : Runs s (readToken c) l b l') :
    (b = true ∧ s.source.opens s.astral l.pos l'.kind = true) ∨ (b = false ∧ s.source.opensTag l.pos = true) := by
  have token {read : LexM Unit} (each : ∀ {u m}, Runs s read l u m → s.source.opens s.astral l.pos m.kind = true)
      (step : Runs s (do read; return true) l b l') :
      (b = true ∧ s.source.opens s.astral l.pos l'.kind = true) ∨ (b = false ∧ s.source.opensTag l.pos = true) := by
    simp at step
    exact .inl ⟨step.2, each step.1⟩
  have number (digit : Alphabet.isDecimalDigit c = true) {m : Lexer} (kind : m.kind = .num) :
      s.source.opens s.astral l.pos m.kind = true := by simp [kind, Source.opens, here, digit]
  have seen : s.source.spells l.pos [c] = true := by simp [here]
  simp only [readToken, Runs.bind_iff, Runs.read_iff, Runs.exists_look, Runs.ite_iff] at run
  rcases run with ⟨starts, run⟩ | ⟨_, run⟩
  · exact token (readWord_opens plain here (by simpa using starts)) (Runs.bind_iff.mpr run)
  split at run
  case h_1 => exact token (readDot_opens plain here) run
  case h_11 => exact token (fun run => number (by decide) (readZero_kind plain run)) run
  case h_12 | h_13 =>
    exact token (fun run => by simp [readString_kind plain run, Source.opens, here, Alphabet.isQuote]) run
  case h_14 => exact token (readSlash_opens plain here) run
  case h_15 | h_19 => exact token (readAssignable_opens plain _ rfl rfl seen) run
  case h_16 => exact token (readStar_opens plain here) run
  case h_17 | h_18 => exact token (readLogical_opens plain here rfl rfl rfl rfl) run
  case h_20 => exact token (readPlus_opens plain here) run
  case h_21 => exact readMinus_opens plain here run
  case h_22 => exact readLess_opens plain here run
  case h_23 => exact token (readGreater_opens plain here) run
  case h_24 => exact token (readEquals_opens plain here) run
  case h_25 => exact token (readBang_opens plain here) run
  case h_26 => exact token (readQuestion_opens plain here) run
  case h_28 => exact token (readHash_opens plain here) run
  case h_29 =>
    simp only [Runs.ite_iff] at run
    rcases run with ⟨digit, run⟩ | ⟨_, ⟨⟨rfl, _⟩, run⟩ | ⟨_, run⟩⟩
    · exact token (fun run => number digit (readNumber_kind plain run)) run
    · exact token (finishOperator_opens plain _ rfl seen) run
    · simp at run
  all_goals exact token (finishOperator_opens plain _ rfl seen) run

/-! ### Tokens outside templates -/

/-- Outside a template the gap is skipped, and then a token is read, or a comment that looks like a tag. -/
theorem readPass_outside {x : Pass Unit Unit} (outside : l.context ≠ .templateText)
    (run : Runs s (readPass ()) l x l') :
    ∃ m, l.Skipped s.source m ∧ m.pos = s.source.skipBlank l.pos ∧
      ((x = .done () ∧ s.source.charAt m.pos = none ∧ Runs s (finish .eof .none) m.begin ⟨⟩ l') ∨
        ∃ c b, s.source.charAt m.pos = some c ∧ Runs s (readToken c) m.begin b l' ∧
          x = if b then .done () else .again ()) := by
  simp [readPass, readExtension, plain, Context.keepsBlank, outside] at run
  obtain ⟨m, blank, run⟩ := run
  obtain ⟨skipped, pos⟩ := skipBlank_spec blank
  have inside : m.context ≠ .templateText := by
    rwa [Cursor.context, skipped.contexts]
  refine ⟨m, skipped, pos, ?_⟩
  rcases run with ⟨atEnd, ended, rfl⟩ | ⟨_, run⟩
  · refine .inl ⟨rfl, ?_, ended⟩
    cases here : s.source.charAt m.pos with
    | none => rfl
    | some c => exact absurd (Source.lt_size_of_charAt here) (Nat.not_lt.mpr atEnd)
  · refine .inr ?_
    split at run
    · next c here =>
      simp at run
      rcases run with ⟨read, rfl⟩ | ⟨read, rfl⟩
      · exact ⟨c, false, here, read, rfl⟩
      · exact ⟨c, true, here, read, rfl⟩
    · simp at run

/-- A keyword is read as a word. -/
theorem readToken_word {c : Char} (here : s.source.charAt l.pos = some c)
    (run : Runs s (readToken c) l true l') {word : String} (keyword : l'.kind.keyword? = some word) :
    Runs s readWord l ⟨⟩ l' := by
  have opens : s.source.opens s.astral l.pos l'.kind = true := by
    simpa using readToken_opens plain here run
  have starts : (Alphabet.isIdentifierStart s.astral c || decide (c = '\\')) = true := by
    cases kind : l'.kind <;> simp [kind, TokenKind.keyword?] at keyword <;>
      simpa [kind, Source.opens, here, TokenKind.isKeyword, TokenKind.keyword?] using opens
  simp only [readToken, Runs.bind_iff, Runs.read_iff, Runs.exists_look, starts] at run
  simpa using run

end Opens

end Steps

/-! ### The reader of a token -/

open LexM

/-- A comment begins at an offset. -/
def Source.opensComment (s : Source) (offset : Nat) : Bool := s.spells offset ['/', '/'] || s.spells offset ['/', '*']

/-- No comment begins at the end of a gap. -/
theorem Source.opensComment_skipBlank (s : Source) (offset : Nat) : s.opensComment (s.skipBlank offset) = false := by
  have absent {i : Nat} {c : Char} (here : s.charAt i = some c)
      (notLine : ¬ (decide (c = '/') && s.has (i + 1) '/') = true)
        (notBlock : ¬ (decide (c = '/') && s.has (i + 1) '*') = true) :
      s.opensComment i = false := by
    by_cases slash : c = '/'
    · simp only [slash, decide_true, Bool.true_and, Bool.not_eq_true] at notLine notBlock
      simp [opensComment, spells, notLine, notBlock]
    · simp [opensComment, spells, has, here, slash]
  have ended {i : Nat} (here : s.charAt i = none) : s.opensComment i = false := by
    simp [opensComment, spells, has, here]
  fun_induction skipBlank s offset with
  | case1 _ here => exact ended here
  | case2 _ _ _ _ ih => exact ih
  | case3 _ _ _ _ _ ih => exact ih
  | case4 _ _ _ _ _ _ _ _ ih => exact ih
  | case5 => exact ended s.charAt_size
  | case6 _ _ here _ notLine notBlock => exact absent here notLine notBlock

variable {s : Setting} {l l' : Lexer} {u : Unit} (plain : s.reader = none)
include plain

/-- A pass that ends with an ordinary token reads it from its first character. -/
theorem readPass_token (ordinary : l'.kind.isTemplatePart = false) (run : Runs s (readPass ()) l (.done ()) l') :
    ∃ m c, l.Skipped s.source m ∧ s.source.charAt m.pos = some c ∧ s.source.opensComment m.pos = false ∧
      Runs s (readToken c) m.begin true l' := by
  by_cases inside : l.context = .templateText
  · simp [readPass, readExtension, plain, inside, Context.keepsBlank] at run
    rcases run with ⟨_, ended⟩ | ⟨_, template⟩
    · simp [(finish_spec plain ended).2.1, TokenKind.isTemplatePart] at ordinary
    · have part := ((readTemplate_spec plain (l := l.begin) template).2 inside).part
      simp [part] at ordinary
  · obtain ⟨m, skipped, gap, ⟨-, -, ended⟩ | ⟨c, b, here, read, same⟩⟩ := readPass_outside plain inside run
    · simp [(finish_spec plain ended).2.1, TokenKind.isTemplatePart] at ordinary
    · cases b with
      | true => exact ⟨m, c, skipped, here, gap ▸ s.source.opensComment_skipBlank l.pos, read⟩
      | false => cases same

theorem readNext_token (ordinary : l'.kind.isTemplatePart = false) (run : Runs s readNext l u l') :
    ∃ m c, l.Skipped s.source m ∧ s.source.charAt m.pos = some c ∧ s.source.opensComment m.pos = false ∧
      Runs s (readToken c) m.begin true l' := by
  obtain ⟨_, m, gap, done⟩ := Runs.of_repeatForward (fun _ => l.Skipped s.source) (.refl l)
    (fun before run => (readPass_spec plain run).elim (fun h => nomatch h.1) fun h => before.trans h.2) run
  obtain ⟨r, c, skipped, here, whole, read⟩ := readPass_token plain ordinary done
  exact ⟨r, c, gap.trans skipped, here, whole, read⟩

/-- A division begins with a slash. -/
theorem readToken_divides {c : Char} (here : s.source.charAt l.pos = some c) (run : Runs s (readToken c) l true l')
    (slash : l'.kind = .slash ∨ l'.kind = .slashEq) : s.source.charAt l.pos = some '/' := by
  have opens := ((readToken_opens plain here run).resolve_right (by simp)).2
  rcases slash with kind | kind <;> rw [kind] at opens
  · have seen : s.source.spells l.pos ['/'] = true := opens
    simpa using seen
  · have seen : s.source.spells l.pos ['/', '='] = true := opens
    simpa using And.left (by simpa using seen)

/-- A slash stands where a division begins. -/
theorem readNext_slash (slash : l'.kind = .slash ∨ l'.kind = .slashEq) (run : Runs s readNext l u l') :
    s.source.charAt l'.token.start = some '/' ∧ s.source.opensComment l'.token.start = false := by
  have ordinary : l'.kind.isTemplatePart = false := by rcases slash with h | h <;> rw [h] <;> rfl
  obtain ⟨m, c, -, here, whole, read⟩ := readNext_token plain ordinary run
  have start : l'.token.start = m.pos :=
    ((readToken_spec plain (l := m.begin) here read).resolve_right (by simp)).2.start
  rw [start]
  exact ⟨readToken_divides plain (l := m.begin) here read slash, whole⟩

/-- A keyword without an escape is the text of its token. -/
theorem readNext_keyword {word : String} (keyword : l'.kind.keyword? = some word)
    (unescaped : l'.containsEscape = false)
    (run : Runs s readNext l u l') : s.source.slice l'.token.start l'.token.stop = word := by
  have ordinary : l'.kind.isTemplatePart = false := by
    cases kind : l'.kind <;> first | rfl | simp [kind, TokenKind.keyword?] at keyword
  obtain ⟨m, c, -, here, -, read⟩ := readNext_token plain ordinary run
  have finished := ((readToken_spec plain (l := m.begin) here read).resolve_right (by simp)).2
  rw [finished.start, finished.stop]
  exact readWord_slice (l := m.begin) plain (readToken_word plain here read keyword)
    (Source.isBoundary_of_charAt here) unescaped keyword

end ScriptSyntax
