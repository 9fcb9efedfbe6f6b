import ScriptSyntax.Parser.ForStatement
import ScriptSyntax.Proofs.Ambient.Statement

/-!
Loops that begin with `for`.  One that awaits stands where `await` is an operator.
-/

namespace ScriptSyntax.Ambient

open Node ParseM Grammar

variable {s : Setting} {p : Parser} {ns : List Part} {awaitAt : Option Nat}

@[grind ←] theorem Quiet.checkOfTarget {e : Expression} {pos : Nat} {escaped startsWithLet isAwait : Bool} :
    Quiet s (checkOfTarget e pos escaped startsWithLet isAwait) := by
  refine bind (of_looks .since) fun _ => ?_
  split <;> grind

/-- Where an `await` is legal, and where it is a fault there is none. -/
theorem Leads.unlessAwait {α : Type} {P : Parser → Prop} {R : α → Parser → Prop} {m : ParseM α}
    (h : Leads s P m R) : Leads s P
      (do
        if let some pos := awaitAt then unexpectedAt pos
        m) R := by
  cases awaitAt with
  | some => exact .failing .unexpectedAt
  | none => exact h

namespace Settled

variable {g : Grammar} (hg : Settled s g)
include hg

theorem forLoop {start : NodeStart} (init : Option ForInit) :
    Leads s (Since p (init.toList.map (none, ·.node))) (g.forLoop start init) fun a =>
      Since p [(none, .statement a)] := by
  have given {ns : List Part} (q : Parser) (before : Since p ns q) :
      Since p (ns ++ (none : Option Expression).toList.map (none, .expression ·)) q := by simpa using before
  refine .quiet .expect fun _ => .look .isKind fun _ => .choose (R := fun test =>
    Since p (init.toList.map (none, ·.node) ++ test.toList.map (none, .expression ·)))
    (fun _ => .pure given) (fun _ => .map hg.plainExpression.since) fun test => ?_
  refine .quiet .expect fun _ => .look .isKind fun _ => .choose (R := fun update =>
    Since p (init.toList.map (none, ·.node) ++ test.toList.map (none, .expression ·) ++
      update.toList.map (none, .expression ·)))
    (fun _ => .pure given) (fun _ => .map hg.plainExpression.since) fun update => ?_
  refine .quiet .expect fun _ => .adds hg.body fun _ => .look .finishSpan fun _ => .done (.node rfl ?_)
  simp [parts, children, Statement.children, Function.comp_def]

/-- A loop over a collection awaits only where that is legal. -/
theorem forEach {start : NodeStart} (target : ForTarget) {isAwait : Bool}
    (async : isAwait = true → p.around.async = true) :
    Leads s (Since p [(none, target.node)]) (g.forEach start target isAwait) fun a =>
      Since p [(none, .statement a)] := by
  have rest {isIn : Bool} : Leads s (Since p [(none, target.node)])
      (do
        let collection ← if isIn then g.plainExpression .plain else g.plainAssignment .plain
        expect .parenR
        let body ← g.body .nested
        let span ← finishSpan start
        return if isIn then .forInStatement span target collection body
          else .forOfStatement span isAwait target collection body)
      fun a => Since p [(none, .statement a)] := by
    refine .choose (R := fun e => Since p [(none, target.node), (none, .expression e)])
      (fun _ => hg.plainExpression.since)
      (fun _ => hg.plainAssignment.since) fun collection => .quiet .expect fun _ => .adds hg.body fun body =>
        .look .finishSpan fun _ => ?_
    cases isIn with
    | true => exact .done (.node rfl (by simp [parts, children, Statement.children]))
    | false =>
      have fits (span : Span) (e : Expression) (body : Statement) :
          (Node.statement (.forOfStatement span isAwait target e body)).Fits p.around := by
        refine ⟨(absurd · Bool.false_ne_true), ?_, (absurd · Bool.false_ne_true), (absurd · Bool.false_ne_true)⟩
        cases isAwait with
        | true => exact fun _ => async rfl
        | false => exact (absurd · Bool.false_ne_true)
      refine .pure fun _ before => before.node (fits _ _ _) (absurd · Bool.false_ne_true) fun x part => .of_mem ?_
      simpa [parts, children, Statement.children] using part
  refine .look .isKind fun isIn => .quiet .next fun _ => ?_
  cases target with
  | pattern => exact rest
  | declaration d => exact .look .strict fun _ => .look .edition fun _ => .unless (.of_fails .fail) rest

theorem forAfterDeclaration {start : NodeStart} {d : VariableDeclaration}
    (async : awaitAt.isSome = true → p.around.async = true) :
    Leads s (Since p [(none, .statement (.variableDeclaration d))]) (g.forAfterDeclaration start d awaitAt)
      fun a => Since p [(none, .statement a)] := by
  refine .look .isKind fun isIn => .look .atLoopWord fun _ => .ite (fun _ => ?_) fun _ => .unlessAwait ?_
  · have each : Leads s (Since p [(none, .statement (.variableDeclaration d))])
        (g.forEach start (.declaration d) (!isIn && awaitAt.isSome)) fun a => Since p [(none, .statement a)] :=
      hg.forEach (.declaration d) fun awaits => async (Bool.and_eq_true_iff.mp awaits).2
    exact .ite (fun _ => .unlessAwait each) fun _ => each
  · exact hg.forLoop (some (.declaration d))

theorem forDeclaration {start declarationStart : NodeStart} {kind : VariableKind}
    (async : awaitAt.isSome = true → p.around.async = true) :
    Leads s (Since p []) (g.forDeclaration start declarationStart kind awaitAt) fun a =>
      Since p [(none, .statement a)] := by
  refine .quiet .next fun _ => .adds hg.declarators fun found => .look .finishSpan fun _ =>
    .strengthen (hg.forAfterDeclaration async) fun _ before => before.weaken (.node rfl ?_)
  simp [parts, children, Statement.children, Function.comp_def]

/-- The target of a loop was read as an expression before. -/
theorem forEachTarget {start : NodeStart} {e : Expression} {deferred : Deferred}
    (async : awaitAt.isSome = true → p.around.async = true) :
    Leads s (Since p [(none, .expression e)])
      (do
        let (target, _) ← CoverM.deferring deferred (assignedPattern e)
        checkPattern .none target
        g.forEach start (.pattern target) awaitAt.isSome)
      fun a => Since p [(none, .statement a)] :=
  assignedPattern_leads.deferring.bind fun x => .quiet .checkPattern fun _ => hg.forEach (.pattern x.1) async

theorem forAfterExpression {start : NodeStart} (async : awaitAt.isSome = true → p.around.async = true) :
    Leads s (Since p []) (g.forAfterExpression start awaitAt) fun a => Since p [(none, .statement a)] := by
  refine .look .isContextual fun _ => .look .containsEscape fun _ => .look .tokenStart fun pos => ?_
  have head : CoverLeads s (Since p []) (if awaitAt.isSome then g.subscripted .forAwaitHead else g.expression .forHead)
      fun e => Since p [(none, .expression e)] :=
    .ite (fun _ => hg.leftHandSide.since) fun _ => hg.expression.since
  refine head.deferring.bind fun x => ?_
  obtain ⟨e, deferred⟩ := x
  refine .look .atLoopWord fun _ => .ite (fun _ => ?_) fun _ => ?_
  · exact .look .isKind fun _ => .ite (fun _ => .unlessAwait (hg.forEachTarget async)) fun _ =>
      .quiet .checkOfTarget fun _ => hg.forEachTarget async
  · exact .quiet .check fun _ => .unlessAwait (hg.forLoop (some (.expression e)))

theorem forHead {start : NodeStart} (async : awaitAt.isSome = true → p.around.async = true) :
    Leads s (Since p []) (g.forHead start awaitAt) fun a => Since p [(none, .statement a)] := by
  refine .quiet .expect fun _ => .look .isKind fun _ => .ite (fun _ => .unlessAwait (hg.forLoop none)) fun _ => ?_
  refine .look .startNode fun _ => .look .variableKind? fun kind => ?_
  cases kind with
  | some => exact hg.forDeclaration async
  | none =>
    refine .look .atUsing fun _ => .ite (fun _ => hg.forDeclaration async) fun _ => .look .atAwaitUsing fun _ =>
      .ite (fun _ => ?_) fun _ => hg.forAfterExpression async
    exact .quiet .next fun _ => .look .scopes fun _ => .ite (fun _ => hg.forDeclaration async) fun _ =>
      .fails (.after fun _ => .bind .fail)

/-- The scope and the label of a loop end with it. -/
theorem forStatement {start : NodeStart} : Adds s (g.forStatement start) fun a => [(none, .statement a)] := by
  refine .of fun p => .quiet .next fun _ => .look .since fun _ => .each fun p' first => ?_
  refine .lookFor .scopes (V := (· = p'.scopes)) (by simp +contextual) ?_
  rintro _ rfl
  refine .strengthen (P := Since p []) ?_ fun _ at_p' => at_p' ▸ first
  refine .bind (R := fun isAwait q => (isAwait = true → p.around.async = true) ∧ Since p [] q) ?_ fun isAwait =>
    .known fun async => ?_
  · refine .andThen (fun legal => (Leads.ofQuiet .eatContextual).weaken fun _ _ after => ⟨fun _ => ?_, after⟩) fun _ =>
      .pure fun _ before => ⟨nofun, before⟩
    rw [← first.kept.around]
    exact (Bool.and_eq_true_iff.mp legal).2
  · refine .look .lexer fun _ => .pushLabel fun q before => .enterScope fun q' inner => ?_
    have around : (q'.entered {}).around = p.around := by
      rw [← before.kept.around]
      exact (surroundings_enter_block q'.scopes rfl).trans inner.kept.around
    refine .bind (hg.forHead fun awaits => ?_) fun a => .exitScope rfl inner <| .popLabel before <|
      .done fun _ mem => .of_mem (by simpa using mem)
    cases isAwait with
    | true => exact around ▸ async rfl
    | false => cases awaits

end Settled
end ScriptSyntax.Ambient
