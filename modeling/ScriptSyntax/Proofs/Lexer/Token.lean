import ScriptSyntax.Proofs.Lexer.Forward

/-!
The steps of the lexer that read a whole token, and the order in which a lexer's offsets lie.
-/

namespace ScriptSyntax

/-! ### Contexts -/

namespace Cursor

/-- Two cursors that differ in the contexts for the next token only. -/
def SameToken (c c' : Cursor) : Prop :=
  ∃ contexts exprAllowed, c' = { c with contexts, exprAllowed }

variable {c c' : Cursor}

theorem SameToken.refl (c : Cursor) : SameToken c c := ⟨c.contexts, c.exprAllowed, rfl⟩

theorem SameToken.trans {c'' : Cursor} (first : SameToken c c') (second : SameToken c' c'') :
    SameToken c c'' := by
  obtain ⟨_, _, rfl⟩ := first
  obtain ⟨contexts, exprAllowed, rfl⟩ := second
  exact ⟨contexts, exprAllowed, rfl⟩

theorem SameToken.kind_eq (h : SameToken c c') : c'.kind = c.kind := by
  obtain ⟨_, _, rfl⟩ := h
  rfl

theorem sameToken_push (context : Context) (c : Cursor) : SameToken c (c.push context) :=
  ⟨context :: c.contexts, c.exprAllowed, rfl⟩

theorem sameToken_pop (c : Cursor) : SameToken c c.pop.2 := ⟨c.contexts.tail, c.exprAllowed, rfl⟩

theorem sameToken_overrideContext (context : Context) (c : Cursor) :
    SameToken c (c.overrideContext context) := by
  unfold overrideContext
  split
  · exact .refl c
  · exact ⟨_, c.exprAllowed, rfl⟩

theorem SameToken.allow (h : SameToken c c') (exprAllowed : Bool) :
    SameToken c (c'.allow exprAllowed) :=
  h.trans ⟨c'.contexts, exprAllowed, rfl⟩

theorem sameToken_close (c : Cursor) : SameToken c c.close := by
  unfold close
  split
  · exact (SameToken.refl c).allow true
  · have outside : SameToken c (if c.pop.1 = some .blockBraces ∧ c.pop.2.context.isFunction then
        c.pop.2.pop else (c.pop.1, c.pop.2)).2 := by
      split
      · exact (sameToken_pop c).trans (sameToken_pop _)
      · exact sameToken_pop c
    exact outside.allow _

theorem sameToken_updateContext (s : Source) (edition : Nat) (prev : TokenKind) (c : Cursor) :
    SameToken c (c.updateContext s edition prev) := by
  unfold updateContext
  split
  · exact (SameToken.refl c).allow false
  · split
    case h_1 | h_2 => exact sameToken_close c
    case h_6 | h_7 => exact .refl c
    case h_10 =>
      refine SameToken.allow ?_ true
      split
      · exact sameToken_pop c
      · exact .refl c
    case h_11 =>
      refine SameToken.allow ?_ false
      split
      · exact sameToken_pop c
      · exact sameToken_push _ c
    case h_12 =>
      refine SameToken.allow ?_ true
      split
      · exact sameToken_overrideContext _ c
      · exact .refl c
    case h_13 | h_14 => exact (SameToken.refl c).allow _
    all_goals exact (sameToken_push _ c).allow _

end Cursor

/-- What is read in the text of a template. -/
def TokenKind.isTemplatePart : TokenKind → Bool
  | eof | template | invalidTemplate | backQuote | dollarBraceL => true
  | _ => false

/-- The current token is a part of a template, which goes on after a chunk of its text. -/
structure Lexer.InTemplate (l : Lexer) : Prop where
  part : l.kind.isTemplatePart = true
  chunk : l.kind = .template ∨ l.kind = .invalidTemplate → l.context = .templateText

/-- Is the token one of those that are known not to be empty? -/
def TokenKind.isSolid : TokenKind → Bool
  | eq | parenL | braceL | colon | privateId => true
  | kind => kind.isKeyword

/-- The current token, which began at `l`, ends at the cursor.  It is not the end of the text, and it is
not empty if it is solid. -/
structure Lexer.Finished (source : Source) (l l' : Lexer) : Prop where
  pos_le : l.pos ≤ l'.pos
  inside : l.pos ≤ source.size → l'.pos ≤ source.size
  start : l'.token.start = l.token.start
  stop : l'.token.stop = l'.pos
  last : l'.last = l.last
  tokens : l'.tokens = l.tokens
  comments : l'.comments = l.comments
  kind : l'.kind ≠ .eof
  nonempty : l'.kind.isSolid = true → l.pos < l'.pos

section Tokens

open LexM

variable {s : Setting} {l m l' : Lexer} {u : Unit}

theorem finish_spec (plain : s.reader = none) {kind : TokenKind} {value : TokenValue}
    (run : Runs s (finish kind value) l u l') :
    l'.pos = l.pos ∧ l'.kind = kind ∧
      l'.token = { l.token with stop := l.pos, stopPosition := l.position } ∧
      l'.last = l.last ∧ l'.tokens = l.tokens ∧ l'.comments = l.comments := by
  simp [finish, LexM.updateContext, plain] at run
  obtain ⟨contexts, exprAllowed, same⟩ := Cursor.sameToken_updateContext s.source s.edition l.kind
    { l.toCursor with
      kind, value, token := { l.token with stop := l.pos, stopPosition := l.position } }
  rw [same] at run
  subst run
  exact ⟨rfl, rfl, rfl, rfl, rfl, rfl⟩

/-- A token ends where a reader that moved forward stands. -/
theorem finish_finished (plain : s.reader = none) {kind : TokenKind} {value : TokenValue}
    (forward : l.Forward s.source m) (run : Runs s (finish kind value) m u l')
    (notEof : kind ≠ .eof) (nonempty : kind.isSolid = true → l.pos < m.pos) :
    l.Finished s.source l' := by
  obtain ⟨pos, rfl, token, last, tokens, comments⟩ := finish_spec plain run
  refine ⟨pos ▸ forward.pos_le, fun h => pos ▸ forward.inside h, ?_, ?_, last.trans forward.last,
    tokens.trans forward.tokens, comments.trans forward.comments, notEof, fun h => pos ▸ nonempty h⟩
  · rw [token, forward.token]
  · rw [token, pos]

/-- Names, numbers and texts are neither solid nor the end of the text. -/
theorem finish_ordinary (plain : s.reader = none) {kind : TokenKind} {value : TokenValue}
    (forward : l.Forward s.source m) (run : Runs s (finish kind value) m u l')
    (ordinary : kind ≠ .eof ∧ kind.isSolid = false) : l.Finished s.source l' :=
  finish_finished plain forward run ordinary.1 fun solid => absurd solid (by simp [ordinary.2])

theorem finish_template (plain : s.reader = none) {kind : TokenKind} {value : TokenValue}
    (inside : l.context = .templateText) (part : kind.isTemplatePart = true)
    (run : Runs s (finish kind value) l u l') : l'.InTemplate := by
  obtain ⟨-, same, -⟩ := finish_spec plain run
  refine ⟨same ▸ part, fun chunk => ?_⟩
  rw [same] at chunk
  simp [finish, LexM.updateContext, plain] at run
  rw [← inside, run]
  rcases chunk with rfl | rfl <;> rfl

/-- A token that a later part of its text finishes. -/
theorem Lexer.Forward.finished (forward : l.Forward s.source m) (finished : m.Finished s.source l') :
    l.Finished s.source l' :=
  ⟨Nat.le_trans forward.pos_le finished.pos_le, fun h => finished.inside (forward.inside h),
    finished.start.trans (congrArg _ forward.token), finished.stop, finished.last.trans forward.last,
    finished.tokens.trans forward.tokens, finished.comments.trans forward.comments, finished.kind,
    fun h => Nat.lt_of_le_of_lt forward.pos_le (finished.nonempty h)⟩

theorem finishOperator_finished (plain : s.reader = none) {kind : TokenKind} {size : Nat}
    (inside : l.pos + size ≤ s.source.size) (positive : 0 < size) (notEof : kind ≠ .eof)
    (run : Runs s (finishOperator kind size) l u l') : l.Finished s.source l' := by
  simp [finishOperator] at run
  exact finish_finished plain (advance_inside inside) run notEof fun _ => Nat.lt_add_of_pos_right positive

/-! ### Operators -/

section Operators

variable {c : Char}

theorem readAssignable_finished (plain : s.reader = none) {kind assign : TokenKind} {size : Nat}
    (inside : l.pos + size ≤ s.source.size) (positive : 0 < size) (notEof : kind ≠ .eof)
    (assignNotEof : assign ≠ .eof) (run : Runs s (readAssignable kind assign size) l u l') :
    l.Finished s.source l' := by
  simp [readAssignable] at run
  rcases run with ⟨seen, run⟩ | ⟨_, run⟩
  · exact finishOperator_finished plain (Source.lt_size_of_charAt seen) (Nat.succ_pos _) assignNotEof run
  · exact finishOperator_finished plain inside positive notEof run

variable (plain : s.reader = none) (here : s.source.charAt l.pos = some c)
include plain here

theorem readStar_finished (run : Runs s readStar l u l') : l.Finished s.source l' := by
  simp [readStar] at run
  rcases run with ⟨⟨_, seen⟩, run⟩ | ⟨_, run⟩
  · exact readAssignable_finished plain (Source.lt_size_of_charAt seen) (by decide) (by decide)
      (by decide) run
  · exact readAssignable_finished plain (Source.lt_size_of_charAt here) (by decide) (by decide)
      (by decide) run

theorem readLogical_finished {d : Char} {single singleAssign double doubleAssign : TokenKind}
    (kinds : ∀ k ∈ [single, singleAssign, double, doubleAssign], k ≠ .eof)
    (run : Runs s (readLogical d single singleAssign double doubleAssign) l u l') :
    l.Finished s.source l' := by
  simp only [List.mem_cons, List.not_mem_nil, or_false, forall_eq_or_imp, forall_eq] at kinds
  obtain ⟨k1, k2, k3, k4⟩ := kinds
  simp [readLogical] at run
  rcases run with ⟨seen, ⟨_, run⟩ | ⟨_, run⟩⟩ | ⟨_, run⟩
  · exact readAssignable_finished plain (Source.lt_size_of_charAt seen) (by decide) k3 k4 run
  · exact finishOperator_finished plain (Source.lt_size_of_charAt seen) (by decide) k3 run
  · exact readAssignable_finished plain (Source.lt_size_of_charAt here) (by decide) k1 k2 run

theorem readPlus_finished (run : Runs s readPlus l u l') : l.Finished s.source l' := by
  simp [readPlus] at run
  rcases run with ⟨seen, run⟩ | ⟨_, run⟩
  · exact finishOperator_finished plain (Source.lt_size_of_charAt seen) (by decide) (by decide) run
  · exact readAssignable_finished plain (Source.lt_size_of_charAt here) (by decide) (by decide)
      (by decide) run

theorem readGreater_finished (run : Runs s readGreater l u l') : l.Finished s.source l' := by
  simp [readGreater] at run
  rcases run with ⟨seen, ⟨third, run⟩ | ⟨_, run⟩⟩ | ⟨_, run⟩
  · exact readAssignable_finished plain (Source.lt_size_of_charAt third) (by decide) (by decide)
      (by decide) run
  · exact readAssignable_finished plain (Source.lt_size_of_charAt seen) (by decide) (by decide)
      (by decide) run
  · exact readAssignable_finished plain (Source.lt_size_of_charAt here) (by decide) (by decide)
      (by decide) run

theorem readEquals_finished (run : Runs s readEquals l u l') : l.Finished s.source l' := by
  simp [readEquals] at run
  rcases run with ⟨seen, run⟩ | ⟨_, ⟨⟨_, seen⟩, run⟩ | ⟨_, run⟩⟩
  · exact readAssignable_finished plain (Source.lt_size_of_charAt seen) (by decide) (by decide)
      (by decide) run
  · exact finishOperator_finished plain (Source.lt_size_of_charAt seen) (by decide) (by decide) run
  · exact finishOperator_finished plain (Source.lt_size_of_charAt here) (by decide) (by decide) run

theorem readBang_finished (run : Runs s readBang l u l') : l.Finished s.source l' := by
  simp [readBang] at run
  rcases run with ⟨seen, run⟩ | ⟨_, run⟩
  · exact readAssignable_finished plain (Source.lt_size_of_charAt seen) (by decide) (by decide)
      (by decide) run
  · exact finishOperator_finished plain (Source.lt_size_of_charAt here) (by decide) (by decide) run

theorem readQuestion_finished (run : Runs s readQuestion l u l') : l.Finished s.source l' := by
  simp [readQuestion] at run
  rcases run with ⟨_, run⟩ | ⟨_, ⟨⟨seen, _⟩, run⟩ | ⟨_, ⟨seen, ⟨_, run⟩ | ⟨_, run⟩⟩ | ⟨_, run⟩⟩⟩
  · exact finishOperator_finished plain (Source.lt_size_of_charAt here) (by decide) (by decide) run
  · exact finishOperator_finished plain (Source.lt_size_of_charAt seen) (by decide) (by decide) run
  · exact readAssignable_finished plain (Source.lt_size_of_charAt seen) (by decide) (by decide)
      (by decide) run
  · exact finishOperator_finished plain (Source.lt_size_of_charAt seen) (by decide) (by decide) run
  · exact finishOperator_finished plain (Source.lt_size_of_charAt here) (by decide) (by decide) run

end Operators

/-- A minus ends a token, or it begins a comment. -/
theorem readMinus_spec (plain : s.reader = none) {b : Bool} (here : s.source.charAt l.pos = some '-')
    (run : Runs s readMinus l b l') :
    (b = true ∧ l.Finished s.source l') ∨ (b = false ∧ l.Skipped s.source l') := by
  simp [readMinus, atClosingComment] at run
  rcases run with ⟨second, ⟨m, same, run, rfl⟩ | ⟨⟨⟨third, _⟩, _⟩, run, rfl⟩⟩ | ⟨_, run, rfl⟩
  · obtain rfl : m = l := by rcases same with ⟨_, _, same⟩ | ⟨_, same⟩ <;> exact same
    exact .inl ⟨rfl, finishOperator_finished plain (Source.lt_size_of_charAt second) (by decide)
      (by decide) run⟩
  · have opens : s.source.spells l.pos ['-', '-', '>'] = true := by
      simp [Source.spells, Source.has, here, second, third]
    exact .inr ⟨rfl, (skipLineComment_spec (by decide) opens run).1⟩
  · exact .inl ⟨rfl, readAssignable_finished plain (Source.lt_size_of_charAt here) (by decide)
      (by decide) (by decide) run⟩

/-- A less-than sign ends a token, or it begins a comment. -/
theorem readLess_spec (plain : s.reader = none) {b : Bool} (here : s.source.charAt l.pos = some '<')
    (run : Runs s readLess l b l') :
    (b = true ∧ l.Finished s.source l') ∨ (b = false ∧ l.Skipped s.source l') := by
  simp [readLess] at run
  rcases run with ⟨second, run, rfl⟩ | ⟨_, ⟨⟨⟨⟨_, second⟩, third⟩, fourth⟩, run, rfl⟩ | ⟨_, run, rfl⟩⟩
  · exact .inl ⟨rfl, readAssignable_finished plain (Source.lt_size_of_charAt second) (by decide)
      (by decide) (by decide) run⟩
  · have opens : s.source.spells l.pos ['<', '!', '-', '-'] = true := by
      simp [Source.spells, Source.has, here, second, third, fourth]
    exact .inr ⟨rfl, (skipLineComment_spec (by decide) opens run).1⟩
  · exact .inl ⟨rfl, readAssignable_finished plain (Source.lt_size_of_charAt here) (by decide)
      (by decide) (by decide) run⟩

/-! ### Words, numbers and texts -/

/-- A word that spells a keyword has the kind of a keyword. -/
theorem isKeyword_of_ofKeyword? {word : String} {kind : TokenKind}
    (h : TokenKind.ofKeyword? word = some kind) : kind.isKeyword = true := by
  have listed : ∀ k ∈ TokenKind.keywords, k.2.isKeyword = true := by decide
  obtain ⟨before, after, found, -⟩ := List.lookup_eq_some_iff.mp h
  exact listed (word, kind) (by simp [found])

section Texts

variable (plain : s.reader = none)
include plain

theorem readWord_finished (run : Runs s readWord l u l') : l.Finished s.source l' := by
  simp [readWord] at run
  obtain ⟨word, m, text, run⟩ := run
  have forward := readWordText_forward text
  have name (run : Runs s (finish .name (.name word)) m u l') := finish_ordinary plain forward run (by decide)
  split at run
  · cases known : TokenKind.ofKeyword? word with
    | none => exact name (by simpa [known] using run)
    | some kind =>
      have keyword := isKeyword_of_ofKeyword? known
      refine finish_finished plain forward (by simpa [known] using run) ?_ fun _ =>
        readWordText_past text ?_
      · rintro rfl
        cases keyword
      · rintro rfl
        cases known
  · exact name run

theorem readHash_finished {c : Char} (here : s.source.charAt l.pos = some c)
    (run : Runs s readHash l u l') : l.Finished s.source l' := by
  simp [readHash] at run
  obtain ⟨_, run⟩ := run
  split at run
  · simp at run
    obtain ⟨_, _, m, text, run⟩ := run
    have forward := readWordText_forward text
    exact finish_finished plain ((advance_forward here).trans forward) run (by simp) fun _ => forward.pos_le
  · simp at run

theorem readRadixNumber_finished {radix : Nat} {c : Char}
    (second : s.source.charAt (l.pos + 1) = some c)
    (run : Runs s (readRadixNumber radix) l u l') : l.Finished s.source l' := by
  simp [readRadixNumber, bigintDigits] at run
  obtain ⟨digits, m, digitsRun, run⟩ := run
  have mark : l.Forward s.source { l with pos := l.pos + 2 } :=
    advance_inside (Source.lt_size_of_charAt second)
  have forward := mark.trans (readDigits_forward digitsRun)
  split at run
  · simp at run
  · simp at run
    rcases run with ⟨⟨_, seen⟩, run⟩ | ⟨_, _, run⟩
    · exact finish_ordinary plain (forward.trans (advance_forward seen)) run (by decide)
    · exact finish_ordinary plain forward run (by decide)

omit plain in
/-- What follows the whole part of a number. -/
def numberRest (s : Source) (start : Nat) (startsWithDot leadingZero : Bool) (whole : List Char) : LexM Unit := do
  if leadingZero && (← get).strict then fail start .invalidNumber
  if !leadingZero && !startsWithDot && 11 ≤ (← edition) && (← sees 'n') then
    let text ← bigintDigits start
    advance 1
    checkNumberEnd
    finish .num (.bigint text)
  else if leadingZero && whole.all fun c => c != '8' && c != '9' then
    checkNumberEnd
    finish .num (.number (Number.Double.ofDigits 8 (whole.map fun c => c.toNat - '0'.toNat)))
  else
    readFraction
    readExponent start
    checkNumberEnd
    let text := (s.chars start (← pos)).filter (· != '_')
    finish .num (.number (Number.Decimal.ofText text).toDouble)

omit plain in
theorem readNumber_eq (startsWithDot : Bool) : readNumber startsWithDot = (do
    let start ← pos
    let rest : LexM Unit := do
      let s ← source
      let whole := s.chars start (← pos)
      numberRest s start startsWithDot (2 ≤ (← pos) - start && s.has start '0') whole
    if startsWithDot then rest
    else
      if (← readDigits 10 true).isNone then fail start .invalidNumber
      rest) := rfl

theorem numberRest_finished {source : Source} {start : Nat} {startsWithDot leadingZero : Bool} {whole : List Char}
    (run : Runs s (numberRest source start startsWithDot leadingZero whole) l u l') : l.Finished s.source l' := by
  simp [numberRest, bigintDigits] at run
  obtain ⟨_, ⟨⟨_, seen⟩, _, run⟩ | ⟨_, ⟨_, _, run⟩ | ⟨_, m, fraction, n, exponent, _, run⟩⟩⟩ := run
  · exact finish_ordinary plain (advance_forward seen) run (by decide)
  · exact finish_ordinary plain (.refl _) run (by decide)
  · exact finish_ordinary plain ((readFraction_forward fraction).trans (readExponent_forward exponent)) run (by decide)

theorem readNumber_finished {startsWithDot : Bool}
    (run : Runs s (readNumber startsWithDot) l u l') : l.Finished s.source l' := by
  simp [readNumber_eq] at run
  rcases run with ⟨_, run⟩ | ⟨_, digits, m, whole, _, run⟩
  · exact numberRest_finished plain run
  · exact (readDigits_forward whole).finished (numberRest_finished plain run)

theorem readZero_finished (run : Runs s readZero l u l') : l.Finished s.source l' := by
  simp [readZero] at run
  split at run
  · next radix found =>
    obtain ⟨c, second, -⟩ := Option.bind_eq_some_iff.mp found
    exact readRadixNumber_finished plain second run
  · exact readNumber_finished plain run

theorem readDot_finished {c : Char} (here : s.source.charAt l.pos = some c)
    (run : Runs s readDot l u l') : l.Finished s.source l' := by
  simp [readDot] at run
  rcases run with ⟨_, run⟩ | ⟨_, ⟨⟨_, third⟩, run⟩ | ⟨_, run⟩⟩
  · exact readNumber_finished plain run
  · exact finishOperator_finished plain (Source.lt_size_of_charAt third) (by decide) (by decide) run
  · exact finishOperator_finished plain (Source.lt_size_of_charAt here) (by decide) (by decide) run

theorem readString_finished {quote c : Char} (here : s.source.charAt l.pos = some c)
    (run : Runs s (readString quote) l u l') : l.Finished s.source l' := by
  simp [readString] at run
  obtain ⟨text, m, passes, run⟩ := run
  have forward := (advance_forward here).trans (repeatForward_forward stringPass_forward passes)
  obtain ⟨_, _, _, last⟩ := Runs.of_repeatForward (fun _ _ => True) trivial (fun _ _ => trivial) passes
  obtain ⟨rfl, closing⟩ := stringPass_done last
  exact finish_ordinary plain (forward.trans (advance_forward closing)) run (by decide)

omit plain in
/-- A body and flags are read that are written without an escape and are valid together. -/
theorem Runs.readRegExp_iff : Runs s readRegExp l u l' ↔ ∃ m flags n,
    Runs s (repeatForward {} (bodyPass l.pos)) l ⟨⟩ m ∧ Runs s readWordText { m with pos := m.pos + 1 } flags n ∧
      n.containsEscape = false ∧
      RegExp.validateLiteral s.edition (s.source.chars l.pos m.pos) flags.toList = .ok ⟨⟩ ∧
      Runs s (finish .regexp (.regexp (String.ofList (s.source.chars l.pos m.pos)) flags)) n u l' := by
  simp [readRegExp]
  constructor
  · rintro ⟨m, body, flags, n, text, unescaped, run⟩
    split at run
    · next valid => exact ⟨m, body, flags, n, text, unescaped, valid, run⟩
    · simp at run
  · rintro ⟨m, body, flags, n, text, unescaped, valid, run⟩
    exact ⟨m, body, flags, n, text, unescaped, by rw [valid]; exact run⟩

theorem readRegExp_finished (run : Runs s readRegExp l u l') : l.Finished s.source l' := by
  obtain ⟨m, flags, n, passes, text, -, -, run⟩ := Runs.readRegExp_iff.mp run
  have forward := repeatForward_forward bodyPass_forward passes
  obtain ⟨_, _, _, last⟩ := Runs.of_repeatForward (fun _ _ => True) trivial (fun _ _ => trivial) passes
  obtain ⟨rfl, closing⟩ := bodyPass_done last
  exact finish_ordinary plain ((forward.trans (advance_forward closing)).trans (readWordText_forward text)) run
    (by decide)

omit plain in
/-- A regular expression that is read to its end begins inside the text. -/
theorem readRegExp_inside (run : Runs s readRegExp l u l') : l.pos ≤ s.source.size := by
  obtain ⟨m, _, _, passes, -⟩ := Runs.readRegExp_iff.mp run
  have forward := repeatForward_forward bodyPass_forward passes
  obtain ⟨_, _, _, last⟩ := Runs.of_repeatForward (fun _ _ => True) trivial (fun _ _ => trivial) passes
  obtain ⟨rfl, closing⟩ := bodyPass_done last
  exact Nat.le_of_lt (Nat.lt_of_le_of_lt forward.pos_le (Source.lt_size_of_charAt closing))

theorem readSlash_finished {c : Char} (here : s.source.charAt l.pos = some c)
    (run : Runs s readSlash l u l') : l.Finished s.source l' := by
  simp [readSlash] at run
  rcases run with ⟨_, run⟩ | ⟨_, ⟨seen, run⟩ | ⟨_, run⟩⟩
  · exact (advance_forward here).finished (readRegExp_finished plain run)
  · exact finishOperator_finished plain (Source.lt_size_of_charAt seen) (by decide) (by decide) run
  · exact finishOperator_finished plain (Source.lt_size_of_charAt here) (by decide) (by decide) run

/-! ### Templates -/

omit plain in
/-- A chunk ends before a backquote or before a dollar sign and a brace. -/
theorem atChunkEnd_spec {b : Bool} (run : Runs s atChunkEnd l b l') :
    l' = l ∧ (b = true → l.pos + 1 ≤ s.source.size ∧
      (s.source.charAt l.pos = some '$' → l.pos + 2 ≤ s.source.size)) := by
  simp only [atChunkEnd, Runs.bind_iff, Runs.peek_iff, Runs.exists_look] at run
  split at run
  · next seen =>
    obtain ⟨-, same⟩ := Runs.pure_iff.mp run
    exact ⟨same, fun _ => ⟨Source.lt_size_of_charAt seen, by simp [seen]⟩⟩
  · next seen =>
    obtain ⟨rfl, same⟩ := Runs.seesAhead_iff.mp run
    refine ⟨same, fun brace => ⟨Source.lt_size_of_charAt seen, fun _ => ?_⟩⟩
    exact Source.lt_size_of_charAt (by simpa using brace)
  · obtain ⟨rfl, same⟩ := Runs.pure_iff.mp run
    exact ⟨same, by simp⟩

theorem finishOperator_template {kind : TokenKind} {size : Nat} (inside : l.context = .templateText)
    (part : kind.isTemplatePart = true) (run : Runs s (finishOperator kind size) l u l') :
    l'.InTemplate := by
  simp [finishOperator] at run
  exact finish_template plain (l := { l with pos := l.pos + size }) inside part run

theorem finishChunk_spec {text : List Char} (here : l.pos + 1 ≤ s.source.size)
    (brace : s.source.charAt l.pos = some '$' → l.pos + 2 ≤ s.source.size)
    (run : Runs s (finishChunk text) l u l') :
    l.Finished s.source l' ∧ (l.context = .templateText → l'.InTemplate) := by
  simp [finishChunk] at run
  rcases run with ⟨_, ⟨dollar, run⟩ | ⟨_, run⟩⟩ | ⟨_, run⟩
  · exact ⟨finishOperator_finished plain (brace dollar) (by decide) (by decide) run,
      fun inside => finishOperator_template plain inside rfl run⟩
  · exact ⟨finishOperator_finished plain here (by decide) (by decide) run,
      fun inside => finishOperator_template plain inside rfl run⟩
  · exact ⟨finish_ordinary plain (.refl _) run (by decide), fun inside => finish_template plain inside rfl run⟩

theorem chunkPass_spec {text : List Char} {x : Pass (List Char) Bool}
    (run : Runs s (chunkPass text) l x l') :
    (x = .done true ∧ l.Finished s.source l' ∧ (l.context = .templateText → l'.InTemplate)) ∨
      (x ≠ .done true ∧ l.Forward s.source l') := by
  simp only [chunkPass, Runs.bind_iff, Runs.ite_iff] at run
  obtain ⟨b, m, chunkEnd, run⟩ := run
  obtain ⟨rfl, ahead⟩ := atChunkEnd_spec chunkEnd
  rcases run with ⟨rfl, run⟩ | ⟨_, c, m, look, run⟩
  · obtain ⟨here, brace⟩ := ahead rfl
    simp at run
    exact .inl ⟨run.2, finishChunk_spec plain here brace run.1⟩
  · obtain ⟨rfl, rfl⟩ := Runs.peek_iff.mp look
    split at run
    · simp at run
    · next seen =>
      simp at run
      obtain ⟨e, m, escape, run⟩ := run
      have forward := readEscape_forward seen escape
      split at run
      · obtain ⟨rfl, rfl⟩ := Runs.pure_iff.mp run
        exact .inr ⟨by simp, forward⟩
      · obtain ⟨rfl, rfl⟩ := Runs.pure_iff.mp run
        exact .inr ⟨by simp, forward⟩
      · simp at run
        obtain ⟨_, rfl, rfl⟩ := run
        exact .inr ⟨by simp, forward⟩
    · next seen =>
      simp at run
      obtain ⟨run, rfl⟩ := run
      exact .inr ⟨by simp, (advance_forward seen).trans (endCarriageReturn_forward run)⟩
    · next c _ _ seen =>
      simp at run
      rcases run with ⟨_, rfl, rfl⟩ | ⟨_, rfl, rfl⟩
      · exact .inr ⟨by simp, (skip_forward seen).trans newLine_forward⟩
      · exact .inr ⟨by simp, skip_forward seen⟩

theorem invalidChunkPass_spec {x : Pass Unit Unit}
    (run : Runs s (invalidChunkPass ()) l x l') :
    (x = .done () ∧ l.Finished s.source l' ∧ (l.context = .templateText → l'.InTemplate)) ∨
      (x = .again () ∧ l.Forward s.source l') := by
  simp only [invalidChunkPass, Runs.bind_iff, Runs.ite_iff] at run
  obtain ⟨b, m, chunkEnd, run⟩ := run
  obtain ⟨rfl, -⟩ := atChunkEnd_spec chunkEnd
  rcases run with ⟨rfl, u, m, run, done⟩ | ⟨_, c, m, look, run⟩
  · obtain ⟨rfl, rfl⟩ := Runs.pure_iff.mp done
    exact .inl ⟨rfl, finish_ordinary plain (.refl _) run (by decide),
      fun inside => finish_template plain inside rfl run⟩
  · obtain ⟨rfl, rfl⟩ := Runs.peek_iff.mp look
    split at run
    · simp at run
    · next seen =>
      simp at run
      split at run
      · next c escaped =>
        simp at run
        obtain ⟨rfl, rfl⟩ := run
        exact .inr ⟨rfl, (advance_forward seen).trans (skip_forward escaped)⟩
      · obtain ⟨rfl, rfl⟩ := Runs.pure_iff.mp run
        exact .inr ⟨rfl, advance_forward seen⟩
    · next seen =>
      simp at run
      obtain ⟨run, rfl⟩ := run
      exact .inr ⟨rfl, (advance_forward seen).trans (endCarriageReturn_forward run)⟩
    · next c _ _ seen =>
      simp at run
      rcases run with ⟨_, rfl, rfl⟩ | ⟨_, rfl, rfl⟩
      · exact .inr ⟨rfl, (skip_forward seen).trans newLine_forward⟩
      · exact .inr ⟨rfl, skip_forward seen⟩

theorem readChunk_spec (run : Runs s readChunk l u l') :
    l.Finished s.source l' ∧ (l.context = .templateText → l'.InTemplate) := by
  simp [readChunk] at run
  have token {m n : Lexer} (before : l.Forward s.source m)
      (done : m.Finished s.source n ∧ (m.context = .templateText → n.InTemplate)) :
      l.Finished s.source n ∧ (l.context = .templateText → n.InTemplate) :=
    ⟨before.finished done.1, fun inside => done.2 (by rw [← inside, Cursor.context, before.contexts]; rfl)⟩
  have chunks {b : Bool} {m : Lexer} (run : Runs s (repeatForward [] chunkPass) l b m) :
      (b = true ∧ l.Finished s.source m ∧ (l.context = .templateText → m.InTemplate)) ∨
        (b = false ∧ l.Forward s.source m) := by
    obtain ⟨_, r, before, done⟩ := Runs.of_repeatForward (fun _ => l.Forward s.source) (.refl l)
      (fun before run => (chunkPass_spec plain run).elim (fun h => nomatch h.1)
        fun h => before.trans h.2) run
    rcases chunkPass_spec plain done with ⟨h, finished⟩ | ⟨h, forward⟩
    · exact .inl ⟨by simpa using h, token before finished⟩
    · exact .inr ⟨by simpa using h, before.trans forward⟩
  rcases run with ⟨m, valid, invalid⟩ | valid
  · obtain ⟨-, forward⟩ := (chunks valid).resolve_left (by simp)
    obtain ⟨_, r, before, done⟩ := Runs.of_repeatForward (fun _ => m.Forward s.source) (.refl m)
      (fun before run => (invalidChunkPass_spec plain run).elim (fun h => nomatch h.1)
        fun h => before.trans h.2) invalid
    obtain ⟨-, finished⟩ := (invalidChunkPass_spec plain done).resolve_right (by simp)
    exact token (forward.trans before) finished
  · exact ((chunks valid).resolve_right (by simp)).2

theorem readTemplate_spec (run : Runs s readTemplate l u l') :
    l.Finished s.source l' ∧ (l.context = .templateText → l'.InTemplate) := by
  obtain ⟨k, chunk, rfl⟩ := Runs.insideTemplate_iff.mp run
  obtain ⟨finished, part⟩ := readChunk_spec plain chunk
  exact ⟨{ finished with }, fun inside => { part inside with }⟩

/-! ### All tokens -/

omit plain in
/-- Without a token only the marks of line comments are passed over. -/
theorem readToken_passes {c : Char} (run : Runs s (readToken c) l false l') :
    c = '-' ∧ Runs s readMinus l false l' ∨ c = '<' ∧ Runs s readLess l false l' := by
  simp only [readToken, Runs.bind_iff, Runs.read_iff, Runs.exists_look, Runs.ite_iff, Runs.pure_iff] at run
  obtain ⟨-, run⟩ | ⟨-, run⟩ := run
  · simp at run
  split at run
  case h_21 => exact .inl ⟨rfl, run⟩
  case h_22 => exact .inr ⟨rfl, run⟩
  all_goals simp at run

theorem readToken_spec {c : Char} {b : Bool} (here : s.source.charAt l.pos = some c)
    (run : Runs s (readToken c) l b l') :
    (b = true ∧ l.Finished s.source l') ∨ (b = false ∧ l.Skipped s.source l') := by
  have token {read : LexM Unit} (each : ∀ {u m}, Runs s read l u m → l.Finished s.source m)
      (step : Runs s (do read; return true) l b l') :
      (b = true ∧ l.Finished s.source l') ∨ (b = false ∧ l.Skipped s.source l') := by
    simp at step
    exact .inl ⟨step.2, each step.1⟩
  have inside := Source.lt_size_of_charAt here
  simp only [readToken, Runs.bind_iff, Runs.read_iff, Runs.exists_look, Runs.ite_iff] at run
  rcases run with ⟨_, run⟩ | ⟨_, run⟩
  · exact token (readWord_finished plain) (Runs.bind_iff.mpr run)
  split at run
  case h_1 => exact token (readDot_finished plain here) run
  case h_11 => exact token (readZero_finished plain) run
  case h_12 | h_13 => exact token (readString_finished plain here) run
  case h_14 => exact token (readSlash_finished plain here) run
  case h_15 | h_19 =>
    exact token (readAssignable_finished plain inside (by decide) (by decide) (by decide)) run
  case h_16 => exact token (readStar_finished plain here) run
  case h_17 | h_18 => exact token (readLogical_finished plain here (by decide)) run
  case h_20 => exact token (readPlus_finished plain here) run
  case h_21 => exact readMinus_spec plain here run
  case h_22 => exact readLess_spec plain here run
  case h_23 => exact token (readGreater_finished plain here) run
  case h_24 => exact token (readEquals_finished plain here) run
  case h_25 => exact token (readBang_finished plain here) run
  case h_26 => exact token (readQuestion_finished plain here) run
  case h_28 => exact token (readHash_finished plain here) run
  case h_29 =>
    simp only [Runs.ite_iff] at run
    rcases run with ⟨_, run⟩ | ⟨_, ⟨_, run⟩ | ⟨_, run⟩⟩
    · exact token (readNumber_finished plain) run
    · exact token (finishOperator_finished plain inside (by decide) (by decide)) run
    · simp at run
  all_goals exact token (finishOperator_finished plain inside (by decide) (by decide)) run

end Texts

end Tokens

/-! ### From one token to the next -/

namespace Lexer

/-- The current token is the first one read since `l`, and the cursor stands at its end. -/
structure Fresh (source : Source) (l l' : Lexer) : Prop where
  pos_le : l.pos ≤ l'.token.start
  start_le : l'.token.start ≤ l'.token.stop
  stop : l'.token.stop = l'.pos
  inside : l.pos ≤ source.size → l'.pos ≤ source.size
  last : l'.last = l.last
  tokens : l'.tokens = l.tokens
  eof : l'.kind = .eof → source.size ≤ l'.token.start
  nonempty : l'.kind.isSolid = true → l'.token.start < l'.token.stop
  account : ∀ {start : Nat}, Account source start l.tokens l.comments l.pos →
    Account source start l'.tokens l'.comments l'.token.start

/-- A token may begin at the cursor. -/
def begin (l : Lexer) : Lexer :=
  { l with token := { l.token with start := l.pos, startPosition := l.position } }

/-- The offsets of a lexer with a current token: the last token, the current one, the cursor and the
end of the text follow each other. -/
structure Ordered (source : Source) (l : Lexer) : Prop where
  last_le : l.last.start ≤ l.last.stop
  last_le_token : l.last.stop ≤ l.token.start
  token_le : l.token.start ≤ l.token.stop
  token_le_pos : l.token.stop ≤ l.pos
  pos_le : l.pos ≤ source.size
  eof : l.kind = .eof → l.token.start = source.size
  nonempty : l.kind.isSolid = true → l.token.start < l.token.stop

/-- The tokens left behind and the comments account for the text from `start` up to the current token,
which ends at the cursor. -/
structure Accounted (source : Source) (start : Nat) (l : Lexer) : Prop where
  account : Account source start l.tokens l.comments l.token.start
  stop : l.token.stop = l.pos

variable {source : Source} {l m l' : Lexer}

theorem skipped_begin : l.Skipped source l.begin := ⟨Nat.le_refl _, id, rfl, rfl, rfl, rfl, id⟩

theorem Skipped.fresh (gap : l.Skipped source m) (fresh : m.Fresh source l') : l.Fresh source l' where
  pos_le := Nat.le_trans gap.pos_le fresh.pos_le
  start_le := fresh.start_le
  stop := fresh.stop
  inside h := fresh.inside (gap.inside h)
  last := fresh.last.trans gap.last
  tokens := fresh.tokens.trans gap.tokens
  eof := fresh.eof
  nonempty := fresh.nonempty
  account h := fresh.account (gap.account h)

theorem Finished.fresh (read : l.begin.Finished source l') : l.Fresh source l' where
  pos_le := Nat.le_of_eq read.start.symm
  start_le := by
    rw [read.start, read.stop]
    exact read.pos_le
  stop := read.stop
  inside := read.inside
  last := read.last
  tokens := read.tokens
  eof h := (read.kind h).elim
  nonempty h := by
    rw [read.start, read.stop]
    exact read.nonempty h
  account h := by
    rw [read.tokens, read.comments, read.start]
    exact h

/-- The offsets that a new lexer has are those of its current token moved on. -/
theorem Fresh.ordered (fresh : l.Fresh source l') (last : l.last.start ≤ l.last.stop)
    (last_le : l.last.stop ≤ l.pos) (pos_le : l.pos ≤ source.size) : l'.Ordered source where
  last_le := fresh.last ▸ last
  last_le_token := fresh.last ▸ Nat.le_trans last_le fresh.pos_le
  token_le := fresh.start_le
  token_le_pos := Nat.le_of_eq fresh.stop
  pos_le := fresh.inside pos_le
  eof h := Nat.le_antisymm (Nat.le_trans fresh.start_le (fresh.stop ▸ fresh.inside pos_le)) (fresh.eof h)
  nonempty := fresh.nonempty

theorem Fresh.accounted {start : Nat} (fresh : l.Fresh source l')
    (account : Account source start l.tokens l.comments l.pos) : l'.Accounted source start :=
  ⟨fresh.account account, fresh.stop⟩

end Lexer

section Next

open LexM

variable {s : Setting} {l m l' : Lexer} {u : Unit} (plain : s.reader = none)
include plain

theorem finish_eof_fresh (atEnd : s.source.size ≤ l.pos)
    (run : Runs s (finish .eof .none) l.begin u l') : l.Fresh s.source l' := by
  obtain ⟨pos, kind, token, last, tokens, comments⟩ := finish_spec plain run
  refine ⟨?_, ?_, ?_, fun h => pos ▸ h, last, tokens, fun _ => ?_, ?_, fun h => ?_⟩
  · rw [token]
    exact Nat.le_refl _
  · rw [token]
    exact Nat.le_refl _
  · rw [token, pos]
  · rw [token]
    exact atEnd
  · simp [kind, TokenKind.isSolid, TokenKind.isKeyword, TokenKind.keyword?]
  · rw [tokens, comments, token]
    exact h

/-- A pass reads a token, or it skips a comment. -/
theorem readPass_spec {x : Pass Unit Unit} (run : Runs s (readPass ()) l x l') :
    (x = .done () ∧ l.Fresh s.source l') ∨ (x = .again () ∧ l.Skipped s.source l') := by
  have token {m : Lexer} {c : Char} (gap : l.Skipped s.source m) (here : s.source.charAt m.pos = some c)
      (run : (Runs s (readToken c) m.begin false l' ∧ x = .again ()) ∨
        (Runs s (readToken c) m.begin true l' ∧ x = .done ())) :
      (x = .done () ∧ l.Fresh s.source l') ∨ (x = .again () ∧ l.Skipped s.source l') := by
    rcases run with ⟨read, rfl⟩ | ⟨read, rfl⟩
    · rcases readToken_spec plain (l := m.begin) here read with ⟨absurd, _⟩ | ⟨_, comment⟩
      · simp at absurd
      · exact .inr ⟨rfl, (gap.trans Lexer.skipped_begin).trans comment⟩
    · rcases readToken_spec plain (l := m.begin) here read with ⟨_, finished⟩ | ⟨absurd, _⟩
      · exact .inl ⟨rfl, gap.fresh finished.fresh⟩
      · simp at absurd
  simp [readPass, readExtension, plain] at run
  rcases run with ⟨_, run⟩ | ⟨_, m, blank, run⟩
  · rcases run with ⟨atEnd, ended, rfl⟩ | ⟨_, ⟨_, template, rfl⟩ | ⟨_, run⟩⟩
    · exact .inl ⟨rfl, finish_eof_fresh plain atEnd ended⟩
    · exact .inl ⟨rfl, (readTemplate_spec plain template).1.fresh⟩
    · split at run <;> simp at run
      next here => exact token (.refl l) here run
  · have gap := (skipBlank_spec blank).1
    rcases run with ⟨atEnd, ended, rfl⟩ | ⟨_, ⟨_, template, rfl⟩ | ⟨_, run⟩⟩
    · exact .inl ⟨rfl, gap.fresh (finish_eof_fresh plain atEnd ended)⟩
    · exact .inl ⟨rfl, gap.fresh (readTemplate_spec plain template).1.fresh⟩
    · split at run <;> simp at run
      next here => exact token gap here run

theorem readNext_fresh (run : Runs s readNext l u l') : l.Fresh s.source l' := by
  obtain ⟨_, m, gap, done⟩ := Runs.of_repeatForward (fun _ => l.Skipped s.source) (.refl l)
    (fun before run => (readPass_spec plain run).elim (fun h => nomatch h.1)
      fun h => before.trans h.2) run
  exact gap.fresh ((readPass_spec plain done).resolve_right (by simp)).2

/-- Moving on leaves the current token behind. -/
theorem next_spec (ordered : l.Ordered s.source) (run : Runs s LexM.next l u l') :
    l'.Ordered s.source ∧ l'.last = l.token ∧ l'.tokens = s.currentToken l.toCursor :: l.tokens ∧
      ∀ {start : Nat}, l.Accounted s.source start → l'.Accounted s.source start := by
  simp [LexM.next] at run
  have fresh := readNext_fresh plain run
  refine ⟨fresh.ordered ordered.token_le ordered.token_le_pos ordered.pos_le, fresh.last, fresh.tokens,
    fun before => fresh.accounted ?_⟩
  have token := before.account.token (t := s.currentToken l.toCursor) ordered.token_le
  exact before.stop ▸ token

end Next
end ScriptSyntax
