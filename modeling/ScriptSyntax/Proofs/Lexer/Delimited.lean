import ScriptSyntax.Proofs.Lexer.Items
import ScriptSyntax.Proofs.Lexer.Trivia

/-!
Where regular expressions end.  The lexer finds the slash that closes one without reading what it says: a slash does,
unless a backslash stands before it or it stands in a class.
-/

namespace ScriptSyntax

open LexM

/-! ### Bodies -/

/-- What may stand in a class, up to the bracket that closes it. -/
inductive FillsClass : List Char → Prop
  | nil : FillsClass []
  | char {c : Char} {rest : List Char} (other : c ≠ '\\' ∧ c ≠ ']') (inLine : Alphabet.isLineTerminator c = false)
      (next : FillsClass rest) :
    FillsClass (c :: rest)
  | escape {c : Char} {rest : List Char} (inLine : Alphabet.isLineTerminator c = false) (next : FillsClass rest) :
      FillsClass ('\\' :: c :: rest)

/-- What may stand in a regular expression, up to the slash that closes it. -/
inductive FillsBody : List Char → Prop
  | nil : FillsBody []
  | char {c : Char} {rest : List Char} (other : c ≠ '\\' ∧ c ≠ '[' ∧ c ≠ '/')
      (inLine : Alphabet.isLineTerminator c = false)
    (next : FillsBody rest) : FillsBody (c :: rest)
  | escape {c : Char} {rest : List Char} (inLine : Alphabet.isLineTerminator c = false) (next : FillsBody rest) :
      FillsBody ('\\' :: c :: rest)
  | bracketed {inside rest : List Char} (fills : FillsClass inside) (next : FillsBody rest) :
      FillsBody ('[' :: inside ++ ']' :: rest)

variable {s : Setting} {l l' m : Lexer} {c : Char} {p f t rest : List Char} {start : Nat} {state : BodyState}

/-- What a character says about those after it. -/
def LexM.BodyState.past (c : Char) (state : BodyState) : BodyState :=
  if state.escaped then { state with escaped := false } else ⟨c = '\\', c = '[' || (state.inClass && c != ']')⟩

@[simp] theorem LexM.BodyState.past_escaped (c : Char) (inClass : Bool) :
    (BodyState.past '\\' { inClass }).past c = { inClass } := by simp [BodyState.past]

/-- A character that ends nothing is passed. -/
theorem body_step (inLine : Alphabet.isLineTerminator c = false)
    (open' : c = '/' → state.escaped = true ∨ state.inClass = true)
    (at' : s.source.TextAt l.pos (c :: rest))
    (more : Runs s (repeatForward (state.past c) (bodyPass start)) { l with pos := l.pos + c.utf8Size } ⟨⟩ l') :
    Runs s (repeatForward state (bodyPass start)) l ⟨⟩ l' := by
  have here := at'.charAt_cons
  have pass : Runs s (bodyPass start state) l (.again (state.past c)) { l with pos := l.pos + c.utf8Size } := by
    simp only [bodyPass, Runs.bind_iff, Runs.peek_iff, Runs.exists_look, here, inLine, Bool.false_eq_true, if_false]
    by_cases escaped : state.escaped = true
    · simp [escaped, BodyState.past]
    · simpa [escaped, BodyState.past] using fun slash => (open' slash).resolve_left escaped
  exact Runs.repeatForward_again pass (Nat.lt_add_of_pos_right c.utf8Size_pos) (Source.lt_size_of_charAt here) more

/-- A class is passed with the bracket that closes it. -/
theorem body_class (fills : FillsClass t) (at' : s.source.TextAt l.pos (t ++ ']' :: rest))
    (more : Runs s (repeatForward {} (bodyPass start)) { l with pos := l.pos + width (t ++ [']']) } ⟨⟩ l') :
    Runs s (repeatForward { inClass := true } (bodyPass start)) l ⟨⟩ l' := by
  induction fills generalizing l with
  | nil => exact body_step rfl (by simp) at' more
  | @char c t other inLine _ ih =>
    refine body_step inLine (by simp) at' ?_
    have state : BodyState.past c { inClass := true } = { inClass := true } := by simp [BodyState.past, other]
    rw [state]
    refine ih (l := { l with pos := l.pos + c.utf8Size }) at'.step ?_
    simpa [Nat.add_assoc] using more
  | @escape c t inLine _ ih =>
    refine body_step rfl (by simp) at' (body_step inLine (by simp [BodyState.past]) at'.step ?_)
    rw [BodyState.past_escaped]
    refine ih (l := { l with pos := l.pos + '\\'.utf8Size + c.utf8Size }) at'.step.step ?_
    simpa [Nat.add_assoc] using more

/-- A body is read up to the slash that closes it. -/
theorem body_whole (fills : FillsBody p) (at' : s.source.TextAt l.pos (p ++ '/' :: rest)) :
    Runs s (repeatForward {} (bodyPass start)) l ⟨⟩ { l with pos := l.pos + width p } := by
  induction fills generalizing l with
  | nil => exact Runs.of_first_pass (by simp [bodyPass, at'.charAt, Alphabet.isLineTerminator])
  | @char c p other inLine _ ih =>
    refine body_step inLine (fun slash => (other.2.2 slash).elim) at' ?_
    have state : BodyState.past c {} = {} := by simp [BodyState.past, other]
    rw [state]
    simpa [Nat.add_assoc] using ih (l := { l with pos := l.pos + c.utf8Size }) at'.step
  | @escape c p inLine _ ih =>
    refine body_step rfl (by simp) at' (body_step inLine (by simp [BodyState.past]) at'.step ?_)
    rw [BodyState.past_escaped]
    simpa [Nat.add_assoc] using ih (l := { l with pos := l.pos + '\\'.utf8Size + c.utf8Size }) at'.step.step
  | @bracketed inside p fills _ ih =>
    rw [List.append_assoc, List.cons_append] at at'
    refine body_step rfl (by simp) at' (body_class fills (by simpa using at'.step) ?_)
    have closed : s.source.TextAt (l.pos + '['.utf8Size) (inside ++ [']'] ++ (p ++ '/' :: rest)) := by
      simpa using at'.step
    simpa [width_append, Nat.add_assoc] using ih
      (l := { l with pos := l.pos + '['.utf8Size + width (inside ++ [']']) }) closed.past

/-! ### Literals -/

/-- Between its slashes a body is read as the pattern, and the letters behind them as the flags. -/
theorem readRegExp_delimited (fills : FillsBody p) (parts : ∀ c ∈ f, Alphabet.isIdentifierPart s.astral c = true)
    (at' : s.source.TextAt l.pos (p ++ '/' :: f)) : ∃ m : Lexer, m.pos = s.source.size ∧ m.token = l.token ∧
      match RegExp.validateLiteral s.edition p f with
      | .ok _ => ∀ l', Runs s (finish .regexp
          (.regexp (String.ofList p) (String.ofList f))) m ⟨⟩ l' → Runs s readRegExp l ⟨⟩ l'
      | .error fault => Throws s readRegExp l (s.recoverable l.token.start
          (.invalidRegExp (String.ofList p) fault)) m := by
  have slash : s.source.TextAt (l.pos + width p) ('/' :: f) := at'.past
  have text : s.source.TextAt (l.pos + width p + 1) (f ++ []) := by rw [List.append_nil]; exact slash.step
  have body : Runs s (repeatForward {} (bodyPass l.pos)) l ⟨⟩ _ := body_whole fills at'
  have flags := readWordText_run (l := { l with pos := l.pos + width p + 1 }) parts (by simp) text
  have pattern := at'.chars
  refine ⟨{ l with pos := l.pos + width p + 1 + width f, containsEscape := false }, by simpa using text.size, rfl, ?_⟩
  split
  · next valid =>
    exact fun l' run => Runs.readRegExp_iff.mpr
      ⟨_, _, _, body, flags, rfl, by rw [pattern, String.toList_ofList]; exact valid, by rw [pattern]; exact run⟩
  · next fault invalid =>
    simp [readRegExp]
    refine .inr ⟨_, body, .inr ⟨_, _, flags, ?_⟩⟩
    simp [pattern, String.toList_ofList, invalid]

theorem FillsBody.head (fills : FillsBody p) : p.head? ≠ some '/' := by
  cases fills with
  | char other => simpa using other.2.2
  | _ => simp

/-- A regular expression with flags, and nothing else, is one token where the validator accepts it.  Otherwise the first
thing read is a fault at the start of the text, with what the validator says; the tokens behind it may be trusted. -/
theorem tokens_delimited (plain : s.reader = none) (text : s.source = .ofString (String.ofList ('/' :: p ++ '/' :: f)))
    (nonempty : p ≠ [])
    (noComment : p.head? ≠ some '*') (fills : FillsBody p)
    (letters : ∀ c ∈ f, Alphabet.isIdentifierPart s.astral c = true) :
    match RegExp.validateLiteral s.edition p f with
    | .ok _ => ∃ t last : Token, s.tokenize.1 = .ok [t, last] ∧ s.tokens.1 = [.ok t, .ok last] ∧ t.kind = .regexp ∧
        t.value = .regexp (String.ofList p) (String.ofList f) ∧ t.start = 0 ∧ t.stop = s.source.size ∧ last.kind = .eof
    | .error fault => ∃ e : SyntaxError, s.tokenize.1 = .error e ∧ s.tokens.1 = [.error
        e] ∧ e.pos = 0 ∧ e.severity = .recoverable ∧
        e.message = "Invalid regular expression: /" ++ String.ofList p ++ "/: " ++ fault.message := by
  have at' : s.source.TextAt 0 ('/' :: (p ++ '/' :: f)) := by
    have whole := Source.textAt_ofString (String.ofList ('/' :: p ++ '/' :: f))
    rwa [← text, String.toList_ofList] at whole
  have here : s.source.charAt 0 = some '/' := at'.charAt_cons
  have begins : '/' ∈ literalMarks := by decide
  have second : s.source.charAt 1 = p.head? := by
    obtain ⟨c, more, rfl⟩ := List.exists_cons_of_ne_nil nonempty
    exact at'.step.charAt_cons
  have whole : s.source.opensComment 0 = false := by
    simp [Source.opensComment, Source.spells, Source.has, here, second, noComment, fills.head]
  have initial := lexerAt_initial here begins
  have pos : (s.lexerAt 0).pos = 0 := initial.pos
  have gap : Runs s skipBlank (s.lexerAt 0) ⟨⟩ (s.lexerAt 0) :=
    skipBlank_literal (pos.symm ▸ here) begins (pos.symm ▸ whole)
  -- The text begins where an expression may, so the slash is no division.
  have inside : s.source.TextAt ((s.lexerAt 0).begin.pos + 1) (p ++ '/' :: f) := by
    rw [initial.pos]
    exact at'.step
  obtain ⟨m, stop, token, reads⟩ :=
    readRegExp_delimited (l := { (s.lexerAt 0).begin with pos := (s.lexerAt 0).begin.pos + 1 }) fills letters inside
  have start : m.token.start = 0 := by rw [token]; exact initial.start
  split at reads
  · next valid =>
    obtain ⟨k, finished⟩ := Runs.exists_finish plain .regexp (.regexp (String.ofList p) (String.ofList f)) m
    obtain ⟨ends, kind, extent, -⟩ := finish_spec plain finished
    have read : Runs s (readToken '/') (s.lexerAt 0).begin true k := by
      rw [readToken_literal begins]
      simp [literalReader, readSlash]
      exact .inl ⟨initial.exprAllowed, reads k finished⟩
    have first := readNext_of_token plain (lexerAt_outside s) gap (pos.symm ▸ here) read
    obtain ⟨l, next, ended⟩ := readNext_end (l := k.leave s) plain (Nat.le_of_eq (ends.trans stop).symm)
      (show s.source.charAt k.pos = none by rw [ends, stop, Source.charAt_size])
    obtain ⟨all, each⟩ := tokens_pair first (by rw [kind]; decide) next ended
    refine ⟨s.currentToken k.toCursor,
      s.currentToken l.toCursor, by rw [all], by rw [each], kind, finish_value plain finished, ?_, ?_, ended⟩
    · exact show k.token.start = 0 by rw [extent, start]
    · exact show k.token.stop = s.source.size by rw [extent, stop]
  · next fault invalid =>
    have throws : Throws s readNext (s.lexerAt 0)
        (s.recoverable (s.lexerAt 0).begin.token.start (.invalidRegExp (String.ofList p) fault)) m := by
      refine readNext_throws_of_token plain (lexerAt_outside s) gap (pos.symm ▸ here) ?_
      simp [readToken, Alphabet.isIdentifierStart, readSlash]
      exact .inl ⟨initial.exprAllowed, reads⟩
    obtain ⟨all, each⟩ := tokens_throws throws
    exact ⟨_, by rw [all], by rw [each], initial.start, rfl, rfl⟩

/-- A slash in a class, and a flag that stands twice. -/
theorem tokens_delimited_class :
    (∃ t last : Token, (Setting.tokens ⟨.ofString (String.ofList ['/', '[', '/', ']', '/', 'g']), {}, none⟩).1 =
      [.ok t, .ok last] ∧
      t.value = .regexp (String.ofList ['[', '/', ']']) (String.ofList ['g']) ∧ last.kind = .eof) ∧
    ∃ e : SyntaxError, (Setting.tokens ⟨.ofString (String.ofList ['/', 'a', '/', 'g', 'g']), {}, none⟩).1 = [.error e] ∧
      e.message = "Invalid regular expression: /" ++ String.ofList ['a'] ++ "/: Duplicate regular expression flag" := by
  constructor
  · have slash : FillsClass ['/'] := .char (by decide) rfl .nil
    have fills : FillsBody ['[', '/', ']'] := .bracketed slash .nil
    have reads := tokens_delimited (s := ⟨.ofString (String.ofList ['/', '[', '/', ']', '/', 'g']), {}, none⟩)
      (p := ['[', '/', ']']) (f := ['g'])
      rfl rfl (by decide) (by decide) fills (by simp [Alphabet.isIdentifierPart])
    have valid : RegExp.validateLiteral (Options.edition {}) ['[', '/', ']'] ['g'] = .ok () := by decide +kernel
    simp only [Setting.edition, valid] at reads
    obtain ⟨t, last, -, tokens, -, value, -, -, ended⟩ := reads
    exact ⟨t, last, tokens, value, ended⟩
  · have reads := tokens_delimited (s := ⟨.ofString (String.ofList ['/', 'a', '/', 'g', 'g']), {}, none⟩)
      (p := ['a']) (f := ['g', 'g'])
      rfl rfl (by decide) (by decide) (.char (by decide) rfl .nil) (by simp [Alphabet.isIdentifierPart])
    have refused : RegExp.validateLiteral (Options.edition {}) ['a'] ['g', 'g'] =
      .error .duplicateFlag := by decide +kernel
    simp only [Setting.edition, refused] at reads
    obtain ⟨e, -, tokens, -, -, message⟩ := reads
    exact ⟨e, tokens, message⟩

end ScriptSyntax
