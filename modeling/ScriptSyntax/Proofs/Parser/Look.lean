import ScriptSyntax.Parser.Program
import ScriptSyntax.Proofs.Run

/-!
Steps that only look at the state of a parser, and steps that fail.
-/

namespace ScriptSyntax

open ParseM Grammar

/-- A step that cannot fail, changes nothing and does not look at private names. -/
def Looks {α : Type} (s : Setting) (m : ParseM α) : Prop :=
  ∃ f : Parser → α, ∀ p, m s p = .ok (f p) p ∧ ∀ privateNames, f { p with privateNames } = f p

/-- A step that fails. -/
def Fails {α : Type} (s : Setting) (m : ParseM α) : Prop := ∀ p, ∃ e q, m s p = .error e q

/-- A step that only looks at the faults put off, or changes them. -/
def OnlyDefers {α : Type} (m : CoverM α) : Prop := ∀ d, ∃ x, m.run d = pure x

variable {s : Setting} {α β : Type} {m : ParseM α} {f : α → ParseM β}

/-! ### Looking -/

namespace Looks

@[grind ←] theorem pure {a : α} : Looks s (pure a : ParseM α) := ⟨fun _ => a, fun _ => ⟨rfl, fun _ => rfl⟩⟩

@[grind ←] theorem bind (first : Looks s m) (next : ∀ a, Looks s (f a)) : Looks s (m >>= f) := by
  obtain ⟨x, sameFirst⟩ := first
  choose y sameNext using next
  refine ⟨fun p => y (x p) p, fun p => ⟨?_, fun names => ?_⟩⟩
  · simp only [Bind.bind, ReaderT.bind, EStateM.bind, (sameFirst p).1, (sameNext _ p).1]
  · simp only [(sameFirst p).2, (sameNext _ p).2]

theorem ite {c : Prop} [Decidable c] {n : ParseM α} (yes : Looks s m) (no : Looks s n) :
    Looks s (if c then m else n) := by
  split
  · exact yes
  · exact no

@[grind ←] theorem source : Looks s source := ⟨fun _ => s.source, fun _ => ⟨rfl, fun _ => rfl⟩⟩

@[grind ←] theorem edition : Looks s edition := ⟨fun _ => s.edition, fun _ => ⟨rfl, fun _ => rfl⟩⟩

@[grind ←] theorem since {n : Nat} : Looks s (since n) := ⟨fun _ => n ≤ s.edition, fun _ => ⟨rfl, fun _ => rfl⟩⟩

@[grind ←] theorem options : Looks s options := ⟨fun _ => s.options, fun _ => ⟨rfl, fun _ => rfl⟩⟩

@[grind ←] theorem read : Looks s (read : ParseM Setting) := ⟨fun _ => s, fun _ => ⟨rfl, fun _ => rfl⟩⟩

@[grind ←] theorem lexer : Looks s lexer := ⟨(·.lexer), fun _ => ⟨rfl, fun _ => rfl⟩⟩

@[grind ←] theorem kind : Looks s kind := ⟨(·.lexer.kind), fun _ => ⟨rfl, fun _ => rfl⟩⟩

@[grind ←] theorem isKind {k : TokenKind} : Looks s (isKind k) := ⟨(·.lexer.kind == k), fun _ => ⟨rfl, fun _ => rfl⟩⟩

@[grind ←] theorem tokenStart : Looks s tokenStart := ⟨(·.lexer.token.start), fun _ => ⟨rfl, fun _ => rfl⟩⟩

@[grind ←] theorem lastStop : Looks s lastStop := ⟨(·.lexer.last.stop), fun _ => ⟨rfl, fun _ => rfl⟩⟩

@[grind ←] theorem containsEscape : Looks s containsEscape := ⟨(·.lexer.containsEscape), fun _ => ⟨rfl, fun _ => rfl⟩⟩

@[grind ←] theorem strict : Looks s strict := ⟨(·.lexer.strict), fun _ => ⟨rfl, fun _ => rfl⟩⟩

@[grind ←] theorem scopes : Looks s scopes := ⟨(·.scopes), fun _ => ⟨rfl, fun _ => rfl⟩⟩

@[grind ←] theorem isContextual {word : String} : Looks s (isContextual word) := by grind [ParseM.isContextual]

@[grind ←] theorem lineBreakBefore : Looks s lineBreakBefore := by grind [ParseM.lineBreakBefore]

@[grind ←] theorem canOmitSemicolon : Looks s canOmitSemicolon := by grind [ParseM.canOmitSemicolon]

@[grind ←] theorem lookahead : Looks s lookahead := by grind [ParseM.lookahead]

@[grind ←] theorem startNode : Looks s startNode := by grind [ParseM.startNode]

@[grind ←] theorem spanOf {start : NodeStart} {stop : Nat} {position : Position} :
    Looks s (spanOf start stop position) := by grind [ParseM.spanOf]

@[grind ←] theorem finishSpan {start : NodeStart} : Looks s (finishSpan start) := by grind [ParseM.finishSpan]

@[grind ←] theorem targetRules {binding : Bool} : Looks s (targetRules binding) := by grind [ParseM.targetRules]

@[grind ←] theorem atLet {context : Option StatementContext} : Looks s (atLet context) := by grind [ParseM.atLet]

@[grind ←] theorem atAsyncFunction : Looks s atAsyncFunction := by grind [ParseM.atAsyncFunction]

@[grind ←] theorem atUsing {inHead : Bool} : Looks s (atUsing inHead) := by grind [ParseM.atUsing]

@[grind ←] theorem atAwaitUsing {inHead : Bool} : Looks s (atAwaitUsing inHead) := by grind [ParseM.atAwaitUsing]

@[grind ←] theorem atElementName : Looks s atElementName := by
  refine .bind .kind fun _ => ?_
  split <;> grind

@[grind ←] theorem tighterOperator? {loosest : Nat} {init : InitMode} : Looks s (tighterOperator? loosest init) := by
  refine .bind .kind fun _ => ?_
  split <;> grind

@[grind ←] theorem afterParenthesis : Looks s afterParenthesis := by grind [Grammar.afterParenthesis]

@[grind ←] theorem isAsyncMethod {key : Expression} {computed : Bool} : Looks s (isAsyncMethod key computed) := by
  unfold Grammar.isAsyncMethod
  split <;> grind

@[grind ←] theorem accessorForm? {key : Expression} {computed escaped : Bool} :
    Looks s (accessorForm? key computed escaped) := by
  refine .bind .kind fun _ => .bind .edition fun _ => .ite (by grind) ?_
  split <;> grind

@[grind ←] theorem atLoopWord : Looks s atLoopWord := by grind [Grammar.atLoopWord]

@[grind ←] theorem atImportExpression : Looks s atImportExpression := by
  refine .bind .since fun _ => .ite ?_ .pure
  grind

@[grind ←] theorem atExportedDeclaration : Looks s atExportedDeclaration := by
  refine .bind .kind fun _ => ?_
  split <;> grind

@[grind ←] theorem variableKind? : Looks s variableKind? := by
  refine .bind .atLet fun _ => .ite .pure (.bind .kind fun _ => ?_)
  split <;> exact .pure

end Looks

/-! ### Failing -/

namespace Fails

@[grind ←] theorem fail {pos : Nat} {fault : Fault} : Fails s (fail pos fault : ParseM α) :=
  fun _ => ⟨_, _, rfl⟩

@[grind ←] theorem failRecoverable {pos : Nat} {fault : Fault} : Fails s (failRecoverable pos fault : ParseM α) :=
  fun _ => ⟨_, _, rfl⟩

@[grind ←] theorem complain {c : Complaint} : Fails s (complain c : ParseM α) := fun _ => ⟨_, _, rfl⟩

@[grind ←] theorem unexpectedAt {pos : Nat} : Fails s (unexpectedAt pos : ParseM α) := fun _ => ⟨_, _, rfl⟩

@[grind ←] theorem unexpected : Fails s (unexpected : ParseM α) := fun _ => ⟨_, _, rfl⟩

@[grind ←] theorem bind (h : Fails s m) : Fails s (m >>= f) := fun p => by
  obtain ⟨e, q, failed⟩ := h p
  exact ⟨e, q, by simp only [Bind.bind, ReaderT.bind, EStateM.bind, failed]⟩

/-- A step after which the next one fails. -/
theorem after (h : ∀ a, Fails s (f a)) : Fails s (m >>= f) := fun p => by
  simp only [Bind.bind, ReaderT.bind, EStateM.bind]
  cases m s p with
  | ok a q => exact h a q
  | error e q => exact ⟨e, q, rfl⟩

@[grind ←] theorem tooDeep : Fails s (tooDeep : ParseM α) := after fun _ => fail

end Fails

end ScriptSyntax
