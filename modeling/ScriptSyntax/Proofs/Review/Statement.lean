import ScriptSyntax.Proofs.Review.Jump

/-!
Statements in the strict and in the lenient reading.  Labels in front of a statement are told what it is
and go away after it.
-/

namespace ScriptSyntax

open Node ParseM Grammar

variable {s : Setting} {p q : Parser} {b : Bool} {ns : List Node} {log new : Log}

namespace Quiet

@[grind ←] theorem checkNoValue {inHead : Bool} {kind : VariableKind} {target : Pattern} :
    Quiet s (checkNoValue inHead kind target) := by grind [Grammar.checkNoValue]

@[grind ←] theorem checkUsing : Quiet s checkUsing := by grind [Grammar.checkUsing]

@[grind ←] theorem awaitBeforeUsing : Quiet s awaitBeforeUsing := by grind [Grammar.awaitBeforeUsing]

end Quiet

section Rules

variable {α β : Type} {m₀ m₁ : ParseM α} {Q : β → Parser → Log → Prop}

/-- The token at which a statement begins is moved past. -/
theorem Tracks.past {f₀ f₁ : Unit → ParseM β} (ready : Steady s p) (solid : p.lexer.kind.isSolid = true)
    (rest : Tracks s (Since s p true []) (f₀ ()) (f₁ ()) Q) :
    Tracks s (At p) (next >>= f₀) (next >>= f₁) Q :=
  (Tracks.nextAt ready solid).bind fun _ => rest.strengthen fun _ _ after => after.since

theorem AddsBehind.map {N : α → List Node} {f : α → β} {M : β → List Node} (h : AddsBehind s b m₀ m₁ N)
    (covered : ∀ a, ∀ n ∈ M (f a), n.Covered (N a)) : AddsBehind s b (f <$> m₀) (f <$> m₁) M :=
  fun p ready behind => .map ((h p ready behind).weaken fun a _ _ after => after.weaken (fun h => h) (covered a))

end Rules

theorem debuggerStatement_adds {start : NodeStart} :
    Adds s false (debuggerStatement start) (debuggerStatement start) fun a => [.statement a] :=
  .of fun _ => .quiet .next fun _ => .quiet .semicolon fun _ => .look .finishSpan fun _ =>
    .done (fun h => h) (.leaf rfl rfl)

theorem expressionStatement_tracks {start : NodeStart} {e : Expression} :
    Tracks s (Since s p b [.expression e]) (expressionStatement start e) (expressionStatement start e)
      fun a => Since s p b [.statement a] :=
  .quiet .semicolon fun _ => .look .finishSpan fun _ => .done (fun h => h)
    (.node rfl (by simp [children, Statement.children]))

namespace Grammar.Reviewed

variable {g₀ g₁ : Grammar} (hg : g₀.Reviewed s g₁)
include hg

/-! ### Declarations -/

theorem declarator {inHead : Bool} {kind : VariableKind} :
    Adds s false (g₀.declarator inHead kind) (g₁.declarator inHead kind) fun d => [.declarator d] := by
  have rest {p : Parser} {start : NodeStart} (target : Pattern) : Tracks s (Since s p false [.pattern target])
      (do
        checkPattern (if kind = .var then .var else .lexical) target
        if ← eat .eq then
          let value ← g₀.plainAssignment (if inHead then .forHead else .plain)
          return (⟨← finishSpan start, target, some value⟩ : Declarator)
        else
          checkNoValue inHead kind target
          return (⟨← finishSpan start, target, none⟩ : Declarator))
      (do
        checkPattern (if kind = .var then .var else .lexical) target
        if ← eat .eq then
          let value ← g₁.plainAssignment (if inHead then .forHead else .plain)
          return (⟨← finishSpan start, target, some value⟩ : Declarator)
        else
          checkNoValue inHead kind target
          return (⟨← finishSpan start, target, none⟩ : Declarator))
      fun d => Since s p false [.declarator d] := by
    refine .quiet .checkPattern fun _ => .quiet .eat fun _ => .ite (fun _ => ?_) fun _ => ?_
    · exact .adds hg.plainAssignment fun value => .look .finishSpan fun _ =>
        .done (by simp) (.node rfl (by simp [children]))
    · exact .quiet .checkNoValue fun _ => .look .finishSpan fun _ => .done (by simp) (.node rfl (by simp [children]))
  refine .of fun p => .look .startNode fun start =>
    .choose (R := fun target => Since s p false [.pattern target]) (fun _ => ?_) (fun _ => hg.bindingAtom.since) rest
  exact .map ((Tracks.ofQuiet .identifier).weaken fun _ _ _ after => after.weaken (fun h => h) (.leaf rfl rfl))

theorem declarators {inHead : Bool} {kind : VariableKind} :
    Adds s false (g₀.declarators inHead kind) (g₁.declarators inHead kind) fun ds => ds.map .declarator := by
  simp only [List.map_eq_flatMap]
  refine .of fun p => .adds hg.declarator fun first => .strengthen (.repeatPast (a := [first])
    (I := fun found => Since s p false (found.flatMap fun d => [Node.declarator d])) fun found => ?_) fun _ _ => id
  exact .quiet .eat fun _ => .ite (fun _ => .adds hg.declarator fun _ => .pure fun _ _ before =>
    before.cons (by simp)) fun _ => .pure fun _ _ => .reverse

theorem declaration {start : NodeStart} {kind : VariableKind} :
    Adds s false (g₀.declaration start kind) (g₁.declaration start kind) fun a => [.statement a] :=
  .of fun _ => .quiet .next fun _ => .adds hg.declarators fun _ => .quiet .semicolon fun _ => .look .finishSpan fun _ =>
    .done (fun h => h) (.node rfl (by simp [children, Statement.children]))

theorem variableStatement {start : NodeStart} {kind : VariableKind} {context : Option StatementContext} :
    Adds s false (g₀.variableStatement start kind context) (g₁.variableStatement start kind context)
      fun a => [.statement a] :=
  .of fun _ => .ite (fun _ => .fails (.bind .unexpected) (.bind .unexpected)) fun _ => hg.declaration.since

theorem functionStatement {start : NodeStart} {isAsync hanging : Bool} :
    Adds s false (g₀.functionStatement start isAsync hanging) (g₁.functionStatement start isAsync hanging)
      fun a => [.statement a] :=
  .of fun _ => .quiet .next fun _ => .adds hg.function fun _ => .done (fun h => h)
    (List.forall_mem_singleton.mpr (.of_functionDeclaration (.head _)))

/-! ### Control flow -/

theorem doWhileStatement {start : NodeStart} (ready : Steady s p) (solid : p.lexer.kind.isSolid = true) :
    Tracks s (At p) (g₀.doWhileStatement start) (g₁.doWhileStatement start) fun a => Since s p true [.statement a] := by
  refine .past ready solid (.behind hg.loopBody fun body => .quiet .expect fun _ =>
    .adds hg.parenthesized fun test => ?_)
  have done {span : Span} : ∀ n ∈ [Node.statement (.doWhileStatement span body test)], n.Covered
      ([.statement (.whileStatement body.span (.this body.span) body)] ++ [.expression test]) := by
    refine List.forall_mem_singleton.mpr (.of_loop (.head _) rfl rfl fun c child => ?_)
    simp only [Statement.children, List.mem_cons, List.not_mem_nil, or_false] at child
    rcases child with rfl | rfl
    · exact .inl (.tail _ (.head _))
    · exact .inr ⟨rfl, .of_mem (.tail _ (.head _))⟩
  refine .look .since fun _ => .ite (fun _ => .quiet .eat fun _ => .look .finishSpan fun _ =>
    .done (fun h => h) done) fun _ =>
    .quiet .semicolon fun _ => .look .finishSpan fun _ => .done (fun h => h) done

theorem whileStatement {start : NodeStart} :
    Adds s true (g₀.whileStatement start) (g₁.whileStatement start) fun a => [.statement a] := by
  refine .of fun _ => .quiet .next fun _ => .adds hg.parenthesized fun test => .behind hg.loopBody fun body =>
    .look .finishSpan fun _ => .done (fun h => h)
      (List.forall_mem_singleton.mpr (.of_loop (.tail _ (.head _)) rfl rfl fun c child => ?_))
  simp only [Statement.children, List.mem_cons, List.not_mem_nil, or_false] at child
  rcases child with rfl | rfl
  · exact .inr ⟨rfl, .of_mem (.head _)⟩
  · exact .inl (.tail _ (.head _))

theorem withStatement {start : NodeStart} :
    Adds s true (g₀.withStatement start) (g₁.withStatement start) fun a => [.statement a] :=
  .of fun _ => .look .strict fun _ => .ite (fun _ => .fails (.after fun _ => .bind .fail) (.after fun _ => .bind .fail))
    fun _ => .quiet .next fun _ =>
    .adds hg.parenthesized fun _ => .behind hg.body_behind fun _ => .look .finishSpan fun _ =>
      .done (fun h => h) (.node rfl (by simp [children, Statement.children]))

theorem ifStatement {start : NodeStart} :
    Adds s true (g₀.ifStatement start) (g₁.ifStatement start) fun a => [.statement a] := by
  refine .of fun p => .quiet .next fun _ => .adds hg.parenthesized fun test => .behind hg.body_behind fun consequent =>
    .quiet .eat fun _ => .ite (fun _ => ?_) fun _ =>
      .given (.look .finishSpan fun _ => .done (fun h => h) (.node rfl ?_))
  · refine .behind (N := fun alternate => alternate.toList.map .statement)
      (hg.body_behind.map fun _ _ mem => .of_mem mem) fun _ => .look .finishSpan fun _ =>
        .done (fun h => h) (.node rfl ?_)
    simp [children, Statement.children]
  · simp [children, Statement.children]

theorem returnStatement {start : NodeStart} :
    Adds s false (g₀.returnStatement start) (g₁.returnStatement start) fun a => [.statement a] := by
  refine .of fun _ => .look .scopes fun _ => .look .options fun _ => .ite (fun _ => ?_) fun _ =>
    .fails (.after fun _ => .bind .fail) (.after fun _ => .bind .fail)
  refine .quiet .next fun _ => .quiet (.orM .eat (.of_looks .canOmitSemicolon)) fun _ =>
    .ite (fun _ => .look .finishSpan fun _ => .done (fun h => h) (.leaf rfl rfl)) fun _ => ?_
  exact .adds hg.plainExpression fun _ => .quiet .semicolon fun _ => .look .finishSpan fun _ =>
    .done (fun h => h) (.node rfl (by simp [children, Statement.children]))

theorem throwStatement {start : NodeStart} :
    Adds s false (g₀.throwStatement start) (g₁.throwStatement start) fun a => [.statement a] :=
  .of fun _ => .quiet .next fun _ => .look .lineBreakBefore fun _ =>
    .ite (fun _ => .fails (.after fun _ => .bind .fail) (.after fun _ => .bind .fail)) fun _ =>
      .adds hg.plainExpression fun _ => .quiet .semicolon fun _ => .look .finishSpan fun _ =>
        .done (fun h => h) (.node rfl (by simp [children, Statement.children]))

/-! ### `try` -/

theorem catchParam : Adds s false g₀.catchParam g₁.catchParam fun param => param.toList.map .pattern := by
  refine .of fun p => .quiet .eat fun _ => .ite (fun _ => ?_) fun _ => ?_
  · refine .adds hg.bindingAtom fun param => .ite (fun _ => ?_) fun _ => ?_
    · exact .quiet .enterScope fun _ => .quiet .checkPattern fun _ => .quiet .expect fun _ =>
        .done (fun h => h) fun _ mem => .of_mem mem
    · exact .quiet .enterScope fun _ => .quiet .checkPattern fun _ => .quiet .expect fun _ =>
        .done (fun h => h) fun _ mem => .of_mem mem
  · exact .look .edition fun _ => .when (.of_fails .unexpected) <| .quiet .enterScope fun _ =>
      .done (fun h => h) (by simp)

theorem catchClause : Adds s false g₀.catchClause g₁.catchClause fun c => [.catchClause c] :=
  .of fun p => .look .startNode fun _ => .quiet .next fun _ => .adds hg.catchParam fun param =>
    .adds hg.scopelessBlock fun body => .quiet .exitScope fun _ => .look .finishSpan fun _ =>
      .done (by simp) (.node rfl (by simp [children]))

theorem tryStatement {start : NodeStart} :
    Adds s false (g₀.tryStatement start) (g₁.tryStatement start) fun a => [.statement a] := by
  refine .of fun p => .quiet .next fun _ => .adds hg.block fun block => ?_
  have ends (handler : Option CatchClause) (finalizer : Option Block) :
      Tracks s (Since s p true (.statement (.block block) :: (handler.toList.map .catchClause ++
          finalizer.toList.map fun b => .statement (.block b))))
        (do
          if handler.isNone && finalizer.isNone then fail start.pos .missingCatch
          return .tryStatement (← finishSpan start) block handler finalizer)
        (do
          if handler.isNone && finalizer.isNone then fail start.pos .missingCatch
          return .tryStatement (← finishSpan start) block handler finalizer)
        fun a => Since s p false [.statement a] :=
    .when (.of_fails .fail) <| .look .finishSpan fun _ => .done (by simp) (.node rfl (by
      simp [children, Statement.children]))
  have rest (handler : Option CatchClause) :
      Tracks s (Since s p true (.statement (.block block) :: handler.toList.map .catchClause))
        (do
          let finalizer ← if ← eat .kwFinally then some <$> g₀.block else pure none
          if handler.isNone && finalizer.isNone then fail start.pos .missingCatch
          return .tryStatement (← finishSpan start) block handler finalizer)
        (do
          let finalizer ← if ← eat .kwFinally then some <$> g₁.block else pure none
          if handler.isNone && finalizer.isNone then fail start.pos .missingCatch
          return .tryStatement (← finishSpan start) block handler finalizer)
        fun a => Since s p false [.statement a] := by
    refine .quiet .eat fun _ =>
      .ite (fun _ => .bind (.map (hg.block.since.weaken fun b _ _ after => ?_)) (ends handler))
      fun _ => .given ((ends handler none).strengthen fun _ _ before => by simpa using before)
    simpa using after
  refine .look .isKind fun _ =>
    .ite (fun _ => .bind (.map (hg.catchClause.since.weaken fun c _ _ after => ?_)) rest) fun _ =>
    .given ((rest none).strengthen fun _ _ before => by simpa using before)
  simpa using after

end Grammar.Reviewed
end ScriptSyntax
