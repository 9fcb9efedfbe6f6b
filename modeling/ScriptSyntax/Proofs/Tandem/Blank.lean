import ScriptSyntax.Proofs.Lexer.Token
import ScriptSyntax.Proofs.Tandem.Lexer

/-!
Two lexers side by side skip the same gaps, and what they read ends in tokens side by side.
-/

namespace ScriptSyntax
namespace Cursor

/-! ### Contexts know no lines -/

variable {a b : Source} {c x : Cursor} {prev : TokenKind} {edition : Nat}

@[simp] theorem relined_relined {y : Cursor} : c.relined (x.relined y) = c.relined y := rfl

theorem relined_close : (c.relined x).close = c.close.relined x := by
  obtain ⟨pos, lineStart, line, kind, value, token, last, contexts, exprAllowed, containsEscape⟩ := c
  match contexts with
  | [] | [_] => rfl
  | out :: inside :: outer =>
    by_cases block : out = .blockBraces ∧ inside.isFunction
    · simp [close, relined, pop, allow, context, block]
    · simp [close, relined, pop, allow, context, block]

theorem relined_override {context : Context} :
    (c.relined x).overrideContext context = (c.overrideContext context).relined x := by
  obtain ⟨contexts, known⟩ : ∃ contexts, c.contexts = contexts := ⟨_, rfl⟩
  simp only [overrideContext, known, show (c.relined x).contexts = contexts from known]
  cases contexts <;> rfl

theorem relined_updateContext (same : (c.relined x).lineBreakBefore b = c.lineBreakBefore a) :
    (c.relined x).updateContext b edition prev = (c.updateContext a edition prev).relined x := by
  have block : (c.relined x).braceIsBlock b prev = c.braceIsBlock a prev := by
    simp only [braceIsBlock, same]
    rfl
  have begins : (c.relined x).beginsExpression b prev = c.beginsExpression a prev := by
    simp only [beginsExpression, same]
    rfl
  simp only [updateContext, block, begins, relined_close, relined_override]
  rw [apply_ite (relined · x)]
  refine ite_congr rfl (fun _ => rfl) fun _ => ?_
  rw [show (c.relined x).kind = c.kind from rfl]
  cases c.kind
  case colon =>
    exact congrArg (allow true) (apply_ite (relined · x) (c.context.isFunction = true) c.pop.2 c).symm
  case backQuote =>
    exact congrArg (allow false) (apply_ite (relined · x) (c.context = .templateText) c.pop.2
      (c.push .templateText)).symm
  case star => exact congrArg (allow true) (apply_ite (relined · x) (prev = .kwFunction) _ c).symm
  all_goals rfl
end Cursor

namespace Tandem

open LexM

variable {n : Nat} {a b : Source} {o : Options} {l k : Lexer}

/-! ### Ends of tokens -/

theorem finish_agrees {kind : TokenKind} {value : TokenValue} :
    (lexers n a b o).Agrees (· = l) (finish kind value) (finish kind value) (Equal fun _ _ => True) := by
  rintro l k h rfl
  -- The states between the end of the token and the update of the contexts.
  let ended (l : Lexer) : Lexer :=
    { l with kind, value, token := { l.token with stop := l.pos, stopPosition := l.position } }
  have before : Abreast n a b o (ended l) (ended k) := h.change (fun _ => rfl) { h.sited with stop := h.sited.pos }
  have same : ((ended l).toCursor.relined (ended k).toCursor).lineBreakBefore b =
    (ended l).toCursor.lineBreakBefore a :=
    h.texts.agree.hasLineBreak h.sited.lastStop.le _ h.sited.start.le
  have cursors : (ended k).toCursor = (ended l).toCursor.relined (ended k).toCursor :=
    congrArg Lexer.toCursor before.lines
  have updated : (ended k).toCursor.updateContext b o.edition l.kind =
      ((ended l).toCursor.updateContext a o.edition l.kind).relined (ended k).toCursor := by
    rw [← Cursor.relined_updateContext same, ← cursors]
  have known : k.kind = l.kind := by rw [h.lines]; rfl
  obtain ⟨contexts, exprAllowed, kept⟩ := Cursor.sameToken_updateContext a o.edition l.kind (ended l).toCursor
  have after : Abreast n a b o { ended l with toCursor := (ended l).toCursor.updateContext a o.edition l.kind }
      { ended k with toCursor := (ended k).toCursor.updateContext b o.edition k.kind } := by
    refine ⟨h.texts, ?_, fun asked => ?_, ?_⟩
    · rw [known, updated, before.lines]
      rfl
    · rw [h.located asked, h.texts.located asked]
    · rw [kept]
      exact { before.sited with }
  exact .passes after ⟨rfl, trivial⟩

theorem finishOperator_agrees {kind : TokenKind} {size : Nat} (placed : a.Placed n (l.pos + size)) :
    (lexers n a b o).Agrees (· = l) (finishOperator kind size) (finishOperator kind size) (Equal fun _ _ => True) :=
  .advance placed finish_agrees

/-! ### Comments -/

/-- A comment is noted; only its lines may differ. -/
theorem note_agrees {kind : CommentKind} {start : Nat} {position position' : Position} {text : String}
    (same : o.locations = true → position' = position) :
    (lexers n a b o).Agrees (· = l) (note kind start position text) (note kind start position' text)
      (Equal fun _ r => r.token = l.token) := by
  rintro l k h rfl
  refine .passes ⟨h.texts, ?_, fun asked => ?_, { h.sited with }⟩ ⟨rfl, rfl⟩
  · rw [h.lines]
    rfl
  · rw [h.located asked, h.texts.located asked, same asked]

theorem countLines_agrees {start : Nat} :
    (lexers n a b o).Agrees (· = l) (countLines start) (countLines start)
      (Equal fun _ r => r.token = l.token) := by
  rintro l k h rfl
  have counted (s : Source) (l : Lexer) : ∃ line lineStart,
      countLines start (setting s o) l = .ok ⟨⟩ { l with line, lineStart } := by
    cases run : countLines start (setting s o) l with
    | ok _ r =>
      obtain ⟨line, lineStart, rfl⟩ := countLines_same (show Runs (setting s o) (countLines start) l _ r from run)
      exact ⟨line, lineStart, rfl⟩
    | error => cases run
  obtain ⟨line, lineStart, first⟩ := counted a l
  obtain ⟨line', lineStart', second⟩ := counted b k
  rw [first, second]
  refine .passes ⟨h.texts, ?_, fun asked => ?_, { h.sited with }⟩ ⟨rfl, rfl⟩
  · rw [h.lines]
    rfl
  · obtain rfl := h.located asked
    obtain rfl := h.texts.located asked
    exact (EStateM.Result.ok.inj (first.symm.trans second)).2.symm

theorem skipBlockComment_agrees :
    (lexers n a b o).Agrees (· = l) skipBlockComment skipBlockComment (Equal fun _ r => r.token = l.token) := by
  apply Bond.Agrees.get
  intro k h
  have start : n ≤ l.pos + 2 := Nat.le_add_right_of_le h.sited.le
  have position : o.locations = true → k.position = l.position := fun asked => congrArg (·.position) (h.located asked)
  refine .look .pos (.source ?_)
  rw [h.texts.agree.findCommentEnd? start]
  split
  · exact .fail h.sited.pos (by simp)
  · next stop found =>
    have ends : n ≤ stop := Nat.le_trans start (Source.find?_spec found).1
    refine .moveTo (.commentEnd start found) (countLines_agrees.step fun _ r counted => ?_)
    refine .given fun _ after => .source ?_
    rw [h.texts.agree.slice start _ ends]
    exact (note_agrees position).weaken fun _ _ _ noted => ⟨noted.1, noted.2.trans counted⟩

theorem skipLineComment_agrees {marks : Nat} (placed : a.Placed n (l.pos + marks)) :
    (lexers n a b o).Agrees (· = l) (skipLineComment marks) (skipLineComment marks)
      (Equal fun _ r => r.token = l.token) := by
  apply Bond.Agrees.get
  intro k h
  have position : o.locations = true → k.position = l.position := fun asked => congrArg (·.position) (h.located asked)
  refine .look .pos (.source ?_)
  rw [h.texts.agree.skipWhile placed.le]
  exact .moveTo placed.skipWhile (.look (.textFrom placed.le) (note_agrees position))

theorem skipBlankPass_agrees :
    (lexers n a b o).Agrees (· = l) skipBlankPass skipBlankPass (Equal (Turn (fun _ _ => True) fun _ _ => True)) := by
  refine .look .peek ?_
  split
  · exact .pure fun _ _ => ⟨rfl, trivial⟩
  · next here => exact .pass here rfl (Bond.Agrees.endCarriageReturn.step fun _ _ _ => .pure fun _ _ => ⟨rfl, trivial⟩)
  · next here =>
    refine .look .seesAhead (.ite (fun _ => ?_) fun _ => .look .seesAhead (.ite (fun slash => ?_) fun _ => ?_))
    · exact skipBlockComment_agrees.step fun _ _ _ => .pure fun _ _ => ⟨rfl, trivial⟩
    · refine .given fun _ h => (skipLineComment_agrees ?_).step fun _ _ _ => .pure fun _ _ => ⟨rfl, trivial⟩
      exact .succ (i := l.pos + 1) (Nat.le_succ_of_le h.sited.le) (by simpa using slash) rfl
    · exact .pure fun _ _ => ⟨rfl, trivial⟩
  · next c _ _ here =>
    refine .ite (fun _ => ?_) fun _ => .ite (fun _ => ?_) fun _ => ?_
    · exact .skip here (.newLine (.pure fun _ _ => ⟨rfl, trivial⟩))
    · exact .skip here (.pure fun _ _ => ⟨rfl, trivial⟩)
    · exact .pure fun _ _ => ⟨rfl, trivial⟩

theorem skipBlank_agrees : (lexers n a b o).Agrees (· = l) skipBlank skipBlank (Equal fun _ _ => True) :=
  .repeatForward (fun _ _ _ => skipBlankPass_agrees) trivial

end Tandem
end ScriptSyntax
