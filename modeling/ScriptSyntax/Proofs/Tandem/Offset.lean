import ScriptSyntax.Proofs.Tandem.Program

/-!
Offsets stay on boundaries: in every lexer that is reached, and in every fault.
-/

namespace ScriptSyntax

open LexM

/-- The offset is in the text, and it cuts no character. -/
structure Source.Bounds (a : Source) (i : Nat) : Prop where
  inside : i ≤ a.size
  boundary : a.isBoundary i = true

/-- The offsets of the lexer are boundaries, and a complete token ends before the cursor. -/
structure Lexer.OnBoundaries (a : Source) (complete : Bool) (l : Lexer) : Prop where
  pos : a.Bounds l.pos
  start : a.Bounds l.token.start
  stop : a.Bounds l.token.stop
  lastStart : a.Bounds l.last.start
  lastStop : a.Bounds l.last.stop
  ordered : complete = true → l.token.start ≤ l.token.stop ∧ l.token.stop ≤ l.pos

/-- The fault is at a boundary, and the boundary was found. -/
structure SyntaxError.OnBoundary (a : Source) (e : SyntaxError) : Prop where
  pos : a.Bounds e.pos
  known : e.fault ≠ .invalidCharacterPosition

variable {s : Setting} {l l' : Lexer} {u : Unit} {α : Type}

/-- No token is read yet. -/
theorem Setting.lexerAt_token (s : Setting) (start : Nat) :
    (s.lexerAt start).kind = .eof ∧ (s.lexerAt start).token.stop = min start s.source.size := by
  simp only [Setting.lexerAt]
  split
  · generalize base : Lexer.mk _ _ _ _ _ = l
    have known : l.kind = .eof ∧ l.token.stop = min start s.source.size := by simp [← base]
    have same : ∃ l', Runs s (LexM.skipLineComment 2) l ⟨⟩ l' ∧ l'.kind = l.kind ∧ l'.token = l.token := by
      simp [LexM.skipLineComment, LexM.note]
    obtain ⟨l', run, kind, token⟩ := same
    rw [show (ReaderT.run (LexM.skipLineComment 2) s).run l = .ok ⟨⟩ l' from run]
    exact ⟨kind.trans known.1, token ▸ known.2⟩
  · exact ⟨rfl, rfl⟩

namespace Tandem

variable {n : Nat} {a : Source} {o : Options} {b : Bool}

/-- What holds of a lexer that is reached. -/
structure Steady (n : Nat) (a : Source) (b : Bool) (l : Lexer) : Prop where
  sited : Sited n a l
  ordered : b = true → l.token.start ≤ l.token.stop ∧ l.token.stop ≤ l.pos
  slash : b = true → l.kind = .slash ∨ l.kind = .slashEq → a.charAt l.token.start = some '/'

/-- A step that is the same in two runs leaves the offsets on boundaries. -/
theorem Sited.leaves {m : LexM α} {Q : α → α → Lexer → Prop} {x : Option α} (sited : Sited n a l)
    (start : a.isBoundary n = true)
    (h : (lexers n a a o).Agrees (· = l) m m Q) (run : (setting a o).Leaves m l x l') : Sited n a l' := by
  have abreast : Abreast n a a o l l := ⟨⟨⟨rfl, fun _ _ => rfl⟩, start, fun _ => rfl⟩, rfl, fun _ => rfl, sited⟩
  have ends := h l l abreast rfl
  cases run with
  | passes run =>
    rw [run] at ends
    cases ends with
    | passes state => exact state.sited
  | fails run =>
    rw [run] at ends
    cases ends with
    | fails fault => exact fault.2

theorem Steady.begin (h : Steady n a b l) : Steady n a false l.begin :=
  ⟨{ h.sited with start := h.sited.pos }, nofun, nofun⟩

/-- A token that is read through is complete. -/
theorem Steady.of_finished {c : Bool} (sited : Sited n a l') (finished : c = true → l.begin.Finished a l')
    (slash : c = true → l'.kind = .slash ∨ l'.kind = .slashEq → a.charAt l.pos = some '/') : Steady n a c l' where
  sited := sited
  ordered complete := by
    have finished := finished complete
    have start : l'.token.start = l.pos := finished.start
    rw [start, finished.stop]
    exact ⟨finished.pos_le, Nat.le_refl _⟩
  slash complete kind := by
    have start : l'.token.start = l.pos := (finished complete).start
    rw [start]
    exact slash complete kind

/-- What one step after the other keeps. -/
theorem reaches_steady (start : a.isBoundary n = true) (h : (setting a o).Reaches n b l) : Steady n a b l := by
  induction h with
  | start =>
    have begins := (setting a o).lexerAt_begins n
    obtain ⟨kind, stop⟩ := (setting a o).lexerAt_token n
    refine ⟨(lexerAt_abreast ⟨n, a, a, o, ⟨rfl, fun _ _ => rfl⟩, start, fun _ => rfl⟩).sited, fun _ => ?_, ?_⟩
    · rw [begins.token, stop]
      exact ⟨Nat.le_refl _, begins.le_pos⟩
    · simp [kind]
  | @gap b l l' x before skip ih =>
    refine ⟨ih.sited.leaves start skipBlankPass_agrees skip, fun complete => ?_, fun complete slash => ?_⟩
    all_goals
      obtain ⟨ordered, le⟩ := ih.ordered complete
      have after := (Keeps.skipBlankPass (l := l).leaves ⟨rfl, rfl, le⟩ skip).1
    · exact ⟨after.token ▸ ordered, after.token ▸ after.le⟩
    · rw [after.token]
      exact ih.slash complete (after.kind ▸ slash)
  | begins before ih => exact ih.begin
  | @ends b l l' x before read ih =>
    have sited := ih.begin.sited.leaves start finish_agrees read
    cases read with
    | passes run =>
      obtain ⟨pos, kind, token, -⟩ := finish_spec rfl run
      refine ⟨sited, fun _ => ?_, by simp [kind]⟩
      rw [token, pos]
      exact ⟨Nat.le_refl _, Nat.le_refl _⟩
    | fails => exact ⟨sited, by simp, by simp⟩
  | @template b l l' x before inside read ih =>
    have sited := ih.begin.sited.leaves start readTemplate_agrees read
    cases read with
    | passes run =>
      obtain ⟨finished, part⟩ := readTemplate_spec rfl run
      refine .of_finished sited (fun _ => finished) fun _ slash => ?_
      have part := (part inside).part
      rcases slash with kind | kind <;> simp [kind, TokenKind.isTemplatePart] at part
    | fails => exact ⟨sited, by simp, by simp⟩
  | @token b l l' c x before here read ih =>
    have sited := ih.begin.sited.leaves start (readToken_agrees rfl here) read
    have run (complete : (x == some true) = true) : Runs (setting a o) (readToken c) l.begin true l' := by
      cases read with
      | passes run => exact (by simpa using complete) ▸ run
      | fails => simp at complete
    refine .of_finished sited (fun complete => ?_) fun complete =>
      readToken_divides rfl (l := l.begin) here (run complete)
    exact ((readToken_spec rfl (l := l.begin) here (run complete)).resolve_right (by simp)).2
  | pass before here ih => exact ⟨ih.sited.moveTo (.next ih.sited.le here), by simp, by simp⟩
  | leave before ih => exact ⟨{ ih.sited with lastStart := ih.sited.start, lastStop := ih.sited.stop },
      ih.ordered, ih.slash⟩
  | @regExp l l' x before slash read ih =>
    let t : Twins := ⟨n, a, a, o, ⟨rfl, fun _ _ => rfl⟩, start, fun _ => rfl⟩
    have sited := ih.sited.leaves start (regExpAgain_agrees (t := t) (ih.slash rfl slash)) read
    cases read with
    | passes run =>
      have run : Runs (setting a o) (do moveTo ((← get).token.start + 1); readRegExp) l _ l' := run
      simp at run
      have finished := readRegExp_finished rfl run
      have begun : l'.token.start = l.token.start := finished.start
      refine ⟨sited, fun _ => ?_, by simp [readRegExp_kind rfl run]⟩
      rw [begun, finished.stop]
      exact ⟨Nat.le_of_succ_le finished.pos_le, Nat.le_refl _⟩
    | fails => exact ⟨sited, by simp, by simp⟩
  | contexts before same ih =>
    obtain ⟨contexts, exprAllowed, rfl⟩ := same
    exact ⟨{ ih.sited with }, ih.ordered, ih.slash⟩
  | name before ih => exact ⟨{ ih.sited with }, ih.ordered, by simp⟩
  | strict before strict ih => exact ⟨{ ih.sited with }, ih.ordered, ih.slash⟩
  | inTemplate before inTemplate ih => exact ⟨{ ih.sited with }, ih.ordered, ih.slash⟩

theorem Steady.onBoundaries (h : Steady 0 a b l) : l.OnBoundaries a b := by
  have bounds {i : Nat} (placed : a.Placed 0 i) : a.Bounds i := ⟨placed.le_size, placed.boundary⟩
  exact ⟨bounds h.sited.pos, bounds h.sited.start, bounds h.sited.stop, bounds h.sited.lastStart,
    bounds h.sited.lastStop, h.ordered⟩

/-! ### Tokens of a text -/

theorem Abreast.currentToken {c : Source} {k : Lexer} (h : Abreast n a c o l k) :
    (setting c o).currentToken k.toCursor = (setting a o).currentToken l.toCursor := by
  by_cases located : o.locations = true
  · rw [h.located located]
    rfl
  · rw [h.lines]
    simp [Setting.currentToken, Setting.location, located, Lexer.relined, Cursor.relined, Setting.range]

theorem allTokens_agrees {c : Source} :
    (lexers n a c o).Agrees (· = l) allTokens allTokens (Equal fun _ _ => True) := by
  refine readNext_agrees.step fun _ r _ => .given fun _ h => .source (.look .pos ?_)
  rw [h.texts.agree.size]
  refine Bond.Agrees.loop (I := fun _ _ => True) (fun found l _ => ?_) _ _ trivial
  refine .read (.get fun k h => ?_)
  rw [h.currentToken]
  exact .ite (fun _ => .pure fun _ _ => ⟨rfl, trivial⟩) fun _ => next_agrees.step fun _ _ _ =>
    .pure fun _ _ => ⟨rfl, trivial⟩

end Tandem

/-! ### Whole texts -/

/-- What a run from the start of the text leaves: a lexer that is reached, and no fault off a boundary. -/
structure Setting.EndsOnBoundary {α : Type} (s : Setting) (answer : Except SyntaxError α × Lexer) : Prop where
  visits : s.Visits 0 answer.2
  fault : ∀ e, answer.1 = .error e → e.OnBoundary s.source

/-- As `EndsOnBoundary`, where tokens are read one by one. -/
structure Setting.ItemsOnBoundary (s : Setting) (answer : List (Except SyntaxError Token) × Lexer) : Prop where
  visits : s.Visits 0 answer.2
  fault : ∀ e, .error e ∈ answer.1 → e.OnBoundary s.source

open Tandem

variable {a : Source} {o : Options} {e f : SyntaxError} {m : LexM α}

theorem Tandem.SameFault.onBoundary (h : SameFault 0 a e f) : e.OnBoundary a :=
  ⟨⟨h.placed.le_size, h.placed.boundary⟩, h.known⟩

/-- A step that reads tokens goes from a lexer that is reached to another one. -/
theorem Setting.Reaches.runLexer {Q : α → α → Lexer → Prop} {V : α → Lexer → Prop}
    (reaches : (setting a o).Reaches 0 true l)
    (start : a.isBoundary 0 = true) (agrees : (lexers 0 a a o).Agrees (· = l) m m Q)
    (keeps : Keeps (setting a o) ((setting a o).Visits 0) l m V) :
    (setting a o).EndsOnBoundary ((setting a o).runLexer l m) ∧
      ∀ x ∈ ((setting a o).runLexer l m).1.toOption, V x ((setting a o).runLexer l m).2 := by
  have abreast : Abreast 0 a a o l l :=
    ⟨⟨⟨rfl, fun _ _ => rfl⟩, start, fun _ => rfl⟩, rfl, fun _ => rfl, (reaches_steady start reaches).sited⟩
  have ends := agrees l l abreast rfl
  simp only [Setting.runLexer, ReaderT.run, EStateM.run]
  cases run : m (setting a o) l with
  | ok x l' =>
    have kept := keeps.leaves ⟨true, reaches⟩ (.passes run)
    exact ⟨⟨kept.1, by simp⟩, kept.2⟩
  | error e l' =>
    rw [run] at ends
    cases ends with
    | fails fault => exact ⟨⟨(keeps.leaves ⟨true, reaches⟩ (.fails run)).1, fun _ same =>
        Except.error.inj same ▸ fault.1.onBoundary⟩, by simp [Except.toOption]⟩

theorem tokenize_endsOnBoundary (start : a.isBoundary 0 = true) : (setting a o).EndsOnBoundary (setting a o).tokenize :=
  (Setting.Reaches.start.runLexer start allTokens_agrees (allTokens_visits rfl)).1

section Items

variable {next : LexM Unit}

/-- A step gives the token that it reads. -/
theorem Tandem.givesToken_agrees {n : Nat} {c : Source}
    (h : (lexers n a c o).Agrees (· = l) next next (Equal fun _ _ => True)) :
    (lexers n a c o).Agrees (· = l) (do next; return (← read).currentToken (← get).toCursor)
      (do next; return (← read).currentToken (← get).toCursor) (Equal fun _ _ => True) :=
  h.step fun _ _ _ => .read (.get fun _ abreast => abreast.currentToken ▸ .pure fun _ _ => ⟨rfl, trivial⟩)

theorem Tandem.givesToken_visits (h : Keeps s (s.Visits 0) l next fun _ r => s.Reaches 0 true r) :
    Keeps s (s.Visits 0) l (do next; return (← read).currentToken (← get).toCursor) fun _ r => s.Reaches 0 true r :=
  h.step fun _ r complete => .look (x := s) (.alone rfl)
    (.look (x := r) (.alone rfl) (.pure fun _ same => ⟨rfl, same ▸ complete⟩))

/-- However many tokens are read one by one, the lexer is one that is reached. -/
theorem tokenItems_onBoundary (start : a.isBoundary 0 = true) {m : LexM Token} (n : Nat)
    (agrees : (lexers 0 a a o).Agrees (· = l) m m (Equal fun _ _ => True))
    (keeps : Keeps (setting a o) ((setting a o).Visits 0) l m fun _ r => (setting a o).Reaches 0 true r)
    (reaches : (setting a o).Reaches 0 true l) : (setting a o).ItemsOnBoundary ((setting a o).tokenItems m n l) := by
  induction n generalizing l m with
  | zero => exact ⟨⟨true, reaches⟩, nofun⟩
  | succ n ih =>
    obtain ⟨⟨visits, fault⟩, complete⟩ := reaches.runLexer start agrees keeps
    rw [Setting.tokenItems]
    split
    · next e l' run =>
      rw [run] at visits fault
      refine ⟨visits, fun f mem => fault f ?_⟩
      obtain rfl : f = e := by simpa using mem
      rfl
    · next token l' run =>
      rw [run] at visits complete
      split
      · exact ⟨visits, by simp⟩
      · have complete := complete token rfl
        have rest :=
          ih (m := nextToken) (givesToken_agrees next_agrees) (givesToken_visits (next_visits rfl complete)) complete
        exact ⟨rest.visits, fun e mem => rest.fault e (by simpa using mem)⟩

end Items

theorem runParser_endsOnBoundary {t : Twins} {step : ParseM α} {R : α → α → Parser → Prop}
    {y : EStateM.Result SyntaxError Parser α}
    (begins : t.start = 0)
    (ends : t.parsers.Ends R (step (setting t.first t.options) ((setting t.first t.options).parserAt t.start)) y) :
    (setting t.first t.options).EndsOnBoundary ((setting t.first t.options).runParser t.start step) := by
  simp only [Setting.runParser, ReaderT.run, EStateM.run]
  generalize step (setting t.first t.options) _ = x at ends ⊢
  cases ends with
  | passes state => exact ⟨⟨true, begins ▸ state.current.reached⟩, by simp⟩
  | fails fault =>
    obtain ⟨same, visits⟩ := fault
    rw [begins] at same visits
    exact ⟨visits, fun _ thrown => Except.error.inj thrown ▸ same.onBoundary⟩

theorem parseProgram_endsOnBoundary (text : String) (o : Options) :
    (setting (.ofString text) o).EndsOnBoundary (setting (.ofString text) o).parseProgram :=
  runParser_endsOnBoundary (t := .same text o) rfl (program_ends _ (Grammar.ofDepth_paired _ _))

/-- From the start of a text on no offset leaves the boundaries of its characters: not in a lexer that a read goes
through, and not in a fault that comes of reading tokens, one by one or all at once, or of a parse. -/
theorem offsets_onBoundary (text : String) (o : Options) :
    let s := setting (.ofString text) o
    (∀ complete l, s.Reaches 0 complete l → l.OnBoundaries s.source complete) ∧
      (∀ n, s.ItemsOnBoundary (s.tokenItems firstToken n (s.lexerAt 0))) ∧
      s.EndsOnBoundary s.tokenize ∧ s.EndsOnBoundary s.parseProgram := by
  have start : (Source.ofString text).isBoundary 0 = true := (Source.textAt_ofString text).isBoundary
  refine ⟨fun _ _ reaches => (reaches_steady start reaches).onBoundaries, fun n => ?_, tokenize_endsOnBoundary start,
    parseProgram_endsOnBoundary text o⟩
  exact tokenItems_onBoundary (m := firstToken) start n (givesToken_agrees readNext_agrees)
    (givesToken_visits (readNext_visits rfl)) .start

/-- A string that is left open after a letter of two bytes. -/
theorem offsets_onBoundary_open : ∃ e b l, (setting (.ofString "é = 'é") {}).parseProgram = (.error e, l) ∧
    e.OnBoundary (.ofString "é = 'é") ∧ (setting (.ofString "é = 'é") {}).Reaches 0 b l ∧
      l.OnBoundaries (.ofString "é = 'é") b := by
  obtain ⟨each, -, -, ends⟩ := offsets_onBoundary "é = 'é" {}
  obtain ⟨b, reaches⟩ := ends.visits
  have refused : (setting (.ofString "é = 'é") {}).parseProgram.1.isOk = false := by decide +kernel
  generalize (setting (.ofString "é = 'é") {}).parseProgram = out at ends reaches refused ⊢
  obtain ⟨result, l⟩ := out
  cases result with
  | ok => simp [Except.isOk, Except.toBool] at refused
  | error e => exact ⟨e, b, l, rfl, ends.fault e rfl, reaches, each b l reaches⟩

end ScriptSyntax
