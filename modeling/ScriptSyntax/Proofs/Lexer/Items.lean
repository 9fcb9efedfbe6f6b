import ScriptSyntax.Proofs.Lexer.CommentFree

/-!
The tokens of a text one by one: a step for each token, up to that of the end or the first fault.
-/

namespace ScriptSyntax

open LexM

variable {s : Setting} {l l' m : Lexer} {e : SyntaxError} {t last : Token} {c : Char} {step : LexM Token} {fuel : Nat}

/-! ### Steps -/

@[simp] theorem Throws.failRecoverable_iff {α : Type} {pos : Nat} {fault : Fault} :
    Throws s (LexM.failRecoverable pos fault : LexM α) l e l' ↔ e = s.recoverable pos fault ∧ l' = l := by
  simp only [LexM.failRecoverable, bind_iff, read_iff, false_or, Runs.read_iff, Runs.exists_look]
  exact ⟨fun run => by cases run; exact ⟨rfl, rfl⟩, by rintro ⟨rfl, rfl⟩; rfl⟩

theorem firstToken_iff : Runs s firstToken l t l' ↔ Runs s readNext l ⟨⟩ l' ∧ t = s.currentToken l'.toCursor := by
  simp only [firstToken, Runs.bind_iff, Runs.read_iff, Runs.get_iff, Runs.exists_look, Runs.exists_unit, Runs.pure_iff]
  constructor
  · rintro ⟨_, run, rfl, rfl⟩
    exact ⟨run, rfl⟩
  · rintro ⟨run, rfl⟩
    exact ⟨_, run, rfl, rfl⟩

theorem nextToken_iff : Runs s nextToken l t l' ↔ Runs s readNext (l.leave s) ⟨⟩ l' ∧
    t = s.currentToken l'.toCursor := by
  simp only [nextToken, Runs.bind_iff, next_iff, Runs.read_iff, Runs.get_iff, Runs.exists_look,
    Runs.exists_unit, Runs.pure_iff]
  constructor
  · rintro ⟨_, run, rfl, rfl⟩
    exact ⟨run, rfl⟩
  · rintro ⟨run, rfl⟩
    exact ⟨_, run, rfl, rfl⟩

theorem firstToken_throws_iff : Throws s firstToken l e l' ↔ Throws s readNext l e l' := by simp [firstToken]

theorem nextToken_throws_iff :
    Throws s nextToken l e l' ↔ Throws s readNext (l.leave s) e l' := by simp [nextToken, next, Lexer.leave]

/-- What stops the reader of a token stops the step to the next token. -/
theorem readNext_throws_of_token (plain : s.reader = none) (outside : l.context ≠ .templateText)
    (gap : Runs s skipBlank l ⟨⟩ m)
    (here : s.source.charAt m.pos = some c) (throws : Throws s (readToken c) m.begin e l') :
    Throws s readNext l e l' := by
  have inside : m.pos < s.source.size := Source.lt_size_of_charAt here
  have pass : Throws s (readPass ()) l e l' := by
    simp [readPass, readExtension, plain, outside, Context.keepsBlank]
    refine .inr ⟨m, gap, .inr ⟨inside, ?_⟩⟩
    rw [here]
    simp
    exact throws
  simp only [readNext, repeatForward, loop, Throws.bind_iff]
  exact .inr ⟨_, _, Runs.lexSource_iff.mpr ⟨rfl, rfl⟩, .inr ⟨_, _, Runs.pos_iff.mpr ⟨rfl, rfl⟩, .inl pass⟩⟩

theorem lexerAt_contexts (s : Setting) : (s.lexerAt 0).contexts = [.blockBraces] :=
  show (s.lexerAt 0).frame.contexts = _ by rw [lexerAt_frame]; rfl

theorem lexerAt_outside (s : Setting) :
    (s.lexerAt 0).context ≠ .templateText := by simp [Cursor.context, lexerAt_contexts]

/-! ### Items -/

theorem tokenItems_throws (throws : Throws s step l e l') : s.tokenItems step (fuel + 1) l = ([.error e], l') := by
  rw [Setting.tokenItems, Setting.runLexer, show (ReaderT.run step s).run l = .error e l' from throws]

theorem tokenItems_ended (run : Runs s step l t l') (ended : t.kind = .eof) :
    s.tokenItems step (fuel + 1) l = ([.ok t], l') := by
  rw [Setting.tokenItems, Setting.runLexer, show (ReaderT.run step s).run l = .ok t l' from run]
  simp [ended]

theorem tokenItems_more (run : Runs s step l t l') (more : t.kind ≠ .eof) :
    s.tokenItems step (fuel + 1) l = (.ok t :: (s.tokenItems nextToken fuel l').1,
      (s.tokenItems nextToken fuel l').2) := by
  rw [Setting.tokenItems, Setting.runLexer, show (ReaderT.run step s).run l = .ok t l' from run]
  simp [more]

/-! ### Whole texts -/

/-- The loop over the tokens ends with that of the end, and moves on from every other one. -/
theorem loop_tokenPass_iff {fuel : Nat} {found tokens : List Token} :
    Runs s (loop tokenPass (fuel + 1) found) l tokens l' ↔
    (l.kind = .eof ∧ tokens = (s.currentToken l.toCursor :: found).reverse ∧ l' = l) ∨
      (l.kind ≠ .eof ∧ ∃ m, Runs s readNext (l.leave s) ⟨⟩ m ∧
        Runs s (loop tokenPass fuel (s.currentToken l.toCursor :: found)) m tokens l') := by
  have kind : (s.currentToken l.toCursor).kind = l.kind := rfl
  simp only [loop, tokenPass, Runs.bind_iff, Runs.read_iff, Runs.get_iff, Runs.exists_look, kind]
  by_cases ended : l.kind = .eof
  · simp [ended]
  · simp [ended, next_iff]

theorem loop_length {fuel : Nat} {found tokens : List Token} (run : Runs s (loop tokenPass fuel found) l tokens l') :
    found.length < tokens.length := by
  induction fuel generalizing found l with
  | zero => simp [loop] at run
  | succ fuel ih =>
    obtain ⟨-, rfl, -⟩ | ⟨-, m, -, rest⟩ := loop_tokenPass_iff.mp run
    · simp
    · exact Nat.lt_of_succ_lt (ih rest)

/-- A text of one token is read in two steps. -/
theorem tokenize_pair_iff : s.tokenize = (.ok [t, last], l) ↔ ∃ m, Runs s readNext (s.lexerAt 0) ⟨⟩ m ∧
    s.currentToken m.toCursor = t ∧ t.kind ≠ .eof ∧
    Runs s readNext (m.leave s) ⟨⟩ l ∧ s.currentToken l.toCursor = last ∧ last.kind = .eof := by
  rw [tokenize_iff]
  simp only [allTokens, Runs.bind_iff, Runs.lexSource_iff, Runs.pos_iff, Runs.exists_look, Runs.exists_unit]
  refine exists_congr fun m => and_congr_right fun _ => ?_
  rw [show 2 * (s.source.size - m.pos) + 4 = 2 * (s.source.size - m.pos) + 2 + 1 + 1 from rfl, loop_tokenPass_iff]
  constructor
  · rintro (⟨-, same, -⟩ | ⟨more, n, moved, rest⟩)
    · simp at same
    obtain ⟨ended, same, rfl⟩ | ⟨-, k, -, rest⟩ := loop_tokenPass_iff.mp rest
    · simp only [List.reverse_cons, List.reverse_nil, List.nil_append, List.cons_append,
        List.cons.injEq, and_true] at same
      obtain ⟨rfl, rfl⟩ := same
      exact ⟨rfl, more, moved, rfl, ended⟩
    · simpa using loop_length rest
  · rintro ⟨rfl, more, moved, rfl, ended⟩
    exact .inr ⟨more, l, moved, loop_tokenPass_iff.mpr (.inl ⟨ended, rfl, rfl⟩)⟩

/-- A text of two tokens, by their kinds. -/
theorem exists_pair {r : Except SyntaxError (List Token) × Lexer} {a b : TokenKind}
    (kinds : r.1.toOption.map (List.map Token.kind) = some [a, b]) :
    ∃ t e l, r = (.ok [t, e], l) ∧ t.kind = a ∧ e.kind = b := by
  obtain ⟨_ | tokens, l⟩ := r
  · cases kinds
  · obtain ⟨t, rest, rfl, first, others⟩ := List.map_eq_cons_iff.mp (Option.some.inj kinds)
    obtain ⟨e, none, rfl, second, ended⟩ := List.map_eq_cons_iff.mp others
    obtain rfl := List.map_eq_nil_iff.mp ended
    exact ⟨t, e, l, rfl, first, second⟩

/-- A text that fails with its first token. -/
theorem tokens_throws (throws : Throws s readNext (s.lexerAt 0) e l) :
    s.tokenize = (.error e, l) ∧ s.tokens = ([.error e], l) := by
  have all : Throws s allTokens (s.lexerAt 0) e l := by
    simp only [allTokens, Throws.bind_iff]
    exact .inl throws
  refine ⟨?_, tokenItems_throws (firstToken_throws_iff.mpr throws)⟩
  simp only [Setting.tokenize, Setting.runLexer]
  rw [show (ReaderT.run allTokens s).run (s.lexerAt 0) = .error e l from all]

/-- A text of one token. -/
theorem tokens_pair (first : Runs s readNext (s.lexerAt 0) ⟨⟩ m) (more : m.kind ≠ .eof)
    (second : Runs s readNext (m.leave s) ⟨⟩ l)
    (ended : l.kind = .eof) : s.tokenize = (.ok [s.currentToken m.toCursor, s.currentToken l.toCursor], l) ∧
      s.tokens = ([.ok (s.currentToken m.toCursor), .ok (s.currentToken l.toCursor)], l) := by
  refine ⟨tokenize_pair_iff.mpr ⟨m, first, rfl, more, second, rfl, ended⟩, ?_⟩
  rw [Setting.tokens, tokenItems_more (firstToken_iff.mpr ⟨first, rfl⟩) more,
    tokenItems_ended (nextToken_iff.mpr ⟨second, rfl⟩) ended]

end ScriptSyntax
