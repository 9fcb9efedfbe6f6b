import ScriptSyntax.Proofs.Lexer.Detached

/-!
Checkpoints.  Whatever is done with a lexer, and whether it succeeds or fails, a checkpoint undoes it: but for what was
reported on the way, the lexer is the one that it was, and it goes on like that one.

A checkpoint remembers neither whether the code is strict nor whether the text of a template is being read.  No step
changes the first, and each step that sets the second takes it back, so between steps no lexer is in such a text.
-/

namespace ScriptSyntax

open LexM Tandem

/-- What may be done with a lexer. -/
inductive LexerStep where
  | next
  | nextToken
  | allTokens
  | readRegExp
  | moveTo (pos : Nat)
  | allow (exprAllowed : Bool)
  | push (context : Context)
  | pop
  | overrideContext (context : Context)

/-- What comes of it, if it succeeds. -/
inductive LexerAnswer where
  | done
  | token (token : Token)
  | tokens (tokens : List Token)
  | context (context : Option Context)

def LexerStep.run : LexerStep → LexM LexerAnswer
  | next => do LexM.next; return .done
  | nextToken => return .token (← LexM.nextToken)
  | allTokens => return .tokens (← LexM.allTokens)
  | readRegExp => do LexM.readRegExp; return .done
  | moveTo pos => do LexM.moveTo pos; return .done
  | allow exprAllowed => do modify fun l => { l with toCursor := l.toCursor.allow exprAllowed }; return .done
  | push context => do modify fun l => { l with toCursor := l.toCursor.push context }; return .done
  | pop => do
    let l ← get
    modify fun l => { l with toCursor := l.toCursor.pop.2 }
    return .context l.toCursor.pop.1
  | overrideContext
      context => do modify fun l => { l with toCursor := l.toCursor.overrideContext context }; return .done

/-- Takes the steps one after the other.  One that fails leaves a lexer behind too, and the next one begins there. -/
def Setting.runSteps (s : Setting) : List LexerStep → Lexer → List (Except SyntaxError LexerAnswer) × Lexer
  | [], l => ([], l)
  | step :: steps, l =>
    let (answer, l) := s.runLexer l step.run
    let (answers, l) := s.runSteps steps l
    (answer :: answers, l)

/-- The lexer without what it reported. -/
def Lexer.unreported (l : Lexer) : Lexer := { l with tokens := [], comments := [] }

/-- The lexers `l'` and `k'` are the same, and reported the same since they were `l` and `k`. -/
structure Lexer.SameSince (l k l' k' : Lexer) : Prop where
  unreported : k'.unreported = l'.unreported
  tokens : ∃ tokens, l'.tokens = tokens ++ l.tokens ∧ k'.tokens = tokens ++ k.tokens
  comments : ∃ comments, l'.comments = comments ++ l.comments ∧ k'.comments = comments ++ k.comments

variable {s : Setting} {l : Lexer} {α : Type} {m : LexM α}

theorem Lexer.after_unreported (l : Lexer) : l.unreported.after l.tokens l.comments = l := rfl

theorem LexerStep.detached (step : LexerStep) : Detached s step.run := by
  cases step with
  | next => exact .bind .next fun _ => .pure
  | nextToken => exact .bind .nextToken fun _ => .pure
  | allTokens => exact .bind .allTokens fun _ => .pure
  | readRegExp => exact .bind .readRegExp fun _ => .pure
  | moveTo => exact .bind .moveTo fun _ => .pure
  | allow => exact .bind (.modify (fun _ _ _ => rfl) fun _ _ _ h => ⟨h.1, h.2⟩) fun _ => .pure
  | push => exact .bind (.modify (fun _ _ _ => rfl) fun _ _ _ h => ⟨h.1, h.2⟩) fun _ => .pure
  | pop => exact .get (fun _ _ _ => rfl) fun _ => .bind (.modify (fun _ _ _ => rfl) fun _ _ _ h =>
      ⟨h.1, h.2⟩) fun _ => .pure
  | overrideContext => exact .bind (.modify (fun _ _ _ => rfl) fun _ _ _ h => ⟨h.1, h.2⟩) fun _ => .pure

section Restored

variable (plain : s.reader = none) (tokens : List Token) (comments : List Comment)

include plain

theorem Detached.runLexer (h : Detached s m) : (s.runLexer l m).2.Marked l.strict l.inTemplate ∧
    s.runLexer (l.after tokens comments) m = ((s.runLexer l m).1, (s.runLexer l m).2.after tokens comments) := by
  have ends := h plain tokens comments l.strict l.inTemplate l _ ⟨rfl, rfl, id⟩ trivial
  simp only [Setting.runLexer, ReaderT.run, EStateM.run]
  generalize m s l = x at ends ⊢
  generalize m s (l.after tokens comments) = y at ends ⊢
  cases ends with
  | passes state same =>
    obtain ⟨rfl, marked⟩ := state
    obtain ⟨rfl, -⟩ := same
    exact ⟨marked, rfl⟩
  | fails fault =>
    obtain ⟨rfl, rfl, marked⟩ := fault
    exact ⟨marked, rfl⟩

/-- The steps keep the strictness and enter no template for good, and earlier reports stay where they are. -/
theorem Setting.runSteps_after (steps : List LexerStep) : (s.runSteps steps l).2.Marked l.strict l.inTemplate ∧
    s.runSteps steps (l.after tokens comments) =
      ((s.runSteps steps l).1, (s.runSteps steps l).2.after tokens comments) := by
  induction steps generalizing l with
  | nil => exact ⟨⟨rfl, id⟩, rfl⟩
  | cons step steps ih =>
    obtain ⟨marked, same⟩ := step.detached.runLexer (l := l) plain tokens comments
    obtain ⟨marked', same'⟩ := ih (l := (s.runLexer l step.run).2)
    simp only [Setting.runSteps, same, same', and_true]
    exact ⟨marked'.strict.trans marked.strict, marked.inTemplate ∘ marked'.inTemplate⟩

/-- Lexers that differ in their reports alone answer alike. -/
theorem Setting.runSteps_same {k : Lexer} (same : k.unreported = l.unreported) (steps : List LexerStep) :
    (s.runSteps steps k).1 = (s.runSteps steps l).1 ∧ l.SameSince k (s.runSteps steps l).2 (s.runSteps steps k).2 := by
  have first := (Setting.runSteps_after (l := l.unreported) plain l.tokens l.comments steps).2
  have second := (Setting.runSteps_after (l := l.unreported) plain k.tokens k.comments steps).2
  rw [l.after_unreported] at first
  rw [← same, k.after_unreported, same] at second
  rw [first, second]
  exact ⟨rfl, rfl, ⟨_, rfl, rfl⟩, ⟨_, rfl, rfl⟩⟩

/-- A new lexer is in no template. -/
theorem Setting.lexerAt_inTemplate (start : Nat) : (s.lexerAt start).inTemplate = false := by
  unfold Setting.lexerAt
  extract_lets start position extent l
  split
  · have quiet : Detached s (LexM.skipLineComment 2) := Detached.skipLineComment
    have outside := (quiet.runLexer (l := l) plain [] []).1.inTemplate
    rw [← Bool.not_eq_true]
    refine fun inside => Bool.false_ne_true (outside ?_)
    simp only [Setting.runLexer]
    split at inside <;> simp_all
  · rfl

/-- A new lexer is in no template, and one that is in none is in none behind the steps, however they end.  Back at a
checkpoint it is as it was there, its reports aside, and whatever is done with it from there on goes as it would have
gone. -/
theorem Setting.runSteps_restore : (∀ start, (s.lexerAt start).inTemplate = false) ∧
    ∀ l : Lexer, l.inTemplate = false → ∀ steps later : List LexerStep,
      (s.runSteps steps l).2.inTemplate = false ∧
      ((s.runSteps steps l).2.restore l.checkpoint).unreported = l.unreported ∧
      (s.runSteps later ((s.runSteps steps l).2.restore l.checkpoint)).1 = (s.runSteps later l).1 ∧
      l.SameSince ((s.runSteps steps l).2.restore l.checkpoint) (s.runSteps later l).2
        (s.runSteps later ((s.runSteps steps l).2.restore l.checkpoint)).2 := by
  refine ⟨Setting.lexerAt_inTemplate plain, fun l between steps later => ?_⟩
  obtain ⟨strict, inTemplate⟩ := (Setting.runSteps_after (l := l) plain [] [] steps).1
  have outside : (s.runSteps steps l).2.inTemplate = false := by simpa [between] using inTemplate
  have same : ((s.runSteps steps l).2.restore l.checkpoint).unreported = l.unreported := by
    show ({ l with
      strict := (s.runSteps steps l).2.strict
      inTemplate := (s.runSteps steps l).2.inTemplate
      tokens := []
      comments := [] } : Lexer) = l.unreported
    rw [strict, outside, ← between]
    rfl
  exact ⟨outside, same, Setting.runSteps_same plain same later⟩

end Restored

/-- A template whose escape is invalid, and whose end is missing. -/
theorem Setting.runSteps_restore_template :
    let s : Setting := ⟨.ofString "`\\xz", {}, none⟩
    let l := s.lexerAt 0
    let steps : List LexerStep := [.nextToken, .pop, .nextToken, .push .templateText, .allTokens]
    let r := (s.runSteps steps l).2.restore l.checkpoint
    l.inTemplate = false ∧ (s.runSteps steps l).2.inTemplate = false ∧ r.unreported = l.unreported ∧
      (s.runSteps [.allTokens] r).1 = (s.runSteps [.allTokens] l).1 ∧
      l.SameSince r (s.runSteps [.allTokens] l).2 (s.runSteps [.allTokens] r).2 :=
  have restores := Setting.runSteps_restore (s := ⟨.ofString "`\\xz", {}, none⟩) rfl
  ⟨restores.1 0, restores.2 _ (restores.1 0) _ _⟩

end ScriptSyntax
