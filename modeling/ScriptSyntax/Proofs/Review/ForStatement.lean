import ScriptSyntax.Parser.ForStatement
import ScriptSyntax.Proofs.Ambient.ForStatement
import ScriptSyntax.Proofs.Review.Label

/-!
Loops that begin with `for` in the strict and in the lenient reading.
-/

namespace ScriptSyntax

open Node ParseM Grammar

variable {s : Setting} {p q : Parser} {b : Bool} {ns : List Node} {awaitAt : Option Nat} {start : NodeStart}

@[grind ←] theorem Quiet.checkOfTarget {e : Expression} {pos : Nat} {escaped startsWithLet isAwait : Bool} :
    Quiet s (checkOfTarget e pos escaped startsWithLet isAwait) := by
  refine bind (of_looks .since) fun _ => ?_
  split <;> grind

/-- Where an `await` before the head is a fault there is none. -/
theorem Tracks.unlessAwait {α : Type} {P : Parser → Log → Prop} {R : α → Parser → Log → Prop} {m₀ m₁ : ParseM α}
    (h : Tracks s P m₀ m₁ R) : Tracks s P
      (do
        if let some pos := awaitAt then unexpectedAt pos
        m₀)
      (do
        if let some pos := awaitAt then unexpectedAt pos
        m₁) R := by
  cases awaitAt with
  | some => exact .fails (.bind .unexpectedAt) (.bind .unexpectedAt)
  | none => exact h

/-! ### What loops are -/

namespace ReturnsKind

variable {g : Grammar}

theorem unlessAwait {kind : Option LabelKind} {m : ParseM Statement} (h : ReturnsKind s kind m) :
    ReturnsKind s kind (do
      if let some pos := awaitAt then unexpectedAt pos
      m) := by
  cases awaitAt with
  | some => exact after fun _ => h
  | none => exact h

theorem forLoop {init : Option ForInit} : ReturnsKind s (some .loop) (g.forLoop start init) := by
  have ends (test update : Option Expression) : ReturnsKind s (some .loop) (do
      expect .parenR
      let body ← g.body .nested
      return .forStatement (← finishSpan start) init test update body) :=
    after fun _ => after fun _ => finish fun _ => rfl
  have rest (test : Option Expression) : ReturnsKind s (some .loop) (do
      expect .semi
      let update ← if ← isKind .parenR then Pure.pure none else some <$> g.plainExpression .plain
      expect .parenR
      let body ← g.body .nested
      return .forStatement (← finishSpan start) init test update body) :=
    after fun _ => after fun _ => ite (after fun _ => ends _ _) (after fun _ => ends _ _)
  exact after fun _ => after fun _ => ite (after fun _ => rest _) (after fun _ => rest _)

theorem forEach {target : ForTarget} {isAwait : Bool} :
    ReturnsKind s (some .loop) (g.forEach start target isAwait) := by
  have rest (isIn : Bool) : ReturnsKind s (some .loop) (do
      let collection ← if isIn then g.plainExpression .plain else g.plainAssignment .plain
      expect .parenR
      let body ← g.body .nested
      let span ← finishSpan start
      return if isIn then .forInStatement span target collection body
        else .forOfStatement span isAwait target collection body) := by
    have ends (collection : Expression) : ReturnsKind s (some .loop) (do
        expect .parenR
        let body ← g.body .nested
        let span ← finishSpan start
        return if isIn then .forInStatement span target collection body
          else .forOfStatement span isAwait target collection body) :=
      after fun _ => after fun _ => after fun _ => .pure (by cases isIn <;> rfl)
    exact ite (after fun _ => ends _) (after fun _ => ends _)
  refine after fun isIn => after fun _ => ?_
  cases target with
  | pattern => exact rest isIn
  | declaration => exact after fun _ => after fun _ => ite (rest isIn) (after fun _ => rest isIn)

theorem forAfterDeclaration {d : VariableDeclaration} :
    ReturnsKind s (some .loop) (g.forAfterDeclaration start d awaitAt) :=
  after fun _ => after fun _ => ite (ite (unlessAwait forEach) forEach) (unlessAwait forLoop)

theorem forDeclaration {declarationStart : NodeStart} {kind : VariableKind} :
    ReturnsKind s (some .loop) (g.forDeclaration start declarationStart kind awaitAt) :=
  after fun _ => after fun _ => after fun _ => forAfterDeclaration

theorem forAfterExpression : ReturnsKind s (some .loop) (g.forAfterExpression start awaitAt) := by
  refine after fun _ => after fun _ => after fun _ => after fun x => after fun _ => ?_
  refine ite (after fun _ => ite (unlessAwait ?_) (after fun _ => ?_)) (after fun _ => unlessAwait forLoop)
  · exact after fun _ => after fun _ => forEach
  · exact after fun _ => after fun _ => forEach

theorem forHead : ReturnsKind s (some .loop) (g.forHead start awaitAt) := by
  refine after fun _ => after fun _ => ite (unlessAwait forLoop) (after fun _ => after fun kind => ?_)
  cases kind with
  | some => exact forDeclaration
  | none =>
    refine after fun _ => ite forDeclaration (after fun _ => ite (after fun _ => after fun _ => ?_) forAfterExpression)
    exact ite forDeclaration (after fun _ => after fun _ => forDeclaration)

theorem forStatement : ReturnsKind s (some .loop) (g.forStatement start) :=
  after fun _ => after fun _ => after fun _ => after fun _ => after fun _ => after fun _ => after fun _ =>
    Returns.bind forHead fun _ kind => after fun _ => after fun _ => .pure kind

end ReturnsKind

/-! ### Reading loops -/

namespace Grammar.Reviewed

variable {g₀ g₁ : Grammar} (hg : g₀.Reviewed s g₁)
include hg

theorem forLoop (inLoop : p.InLoop) (init : Option ForInit) :
    Tracks s (Since s p true (init.toList.map (·.node))) (g₀.forLoop start init) (g₁.forLoop start init)
      fun a => Since s p true [.statement a] := by
  have given {ns : List Node} (q : Parser) (log : Log) (before : Since s p true ns q log) :
      Since s p true (ns ++ (none : Option Expression).toList.map .expression) q log := by simpa using before
  refine .quiet .expect fun _ => .look .isKind fun _ => .choose (R := fun test =>
    Since s p true (init.toList.map (·.node) ++ test.toList.map .expression))
    (fun _ => .pure given) (fun _ => .map hg.plainExpression.since) fun test => ?_
  refine .quiet .expect fun _ => .look .isKind fun _ => .choose (R := fun update =>
    Since s p true (init.toList.map (·.node) ++ test.toList.map .expression ++ update.toList.map .expression))
    (fun _ => .pure given) (fun _ => .map hg.plainExpression.since) fun update => ?_
  refine .quiet .expect fun _ => .behind hg.body_behind fun _ => .look .finishSpan fun _ => .pure fun _ _ before =>
    before.loop inLoop rfl fun c child => .of_mem ?_
  simpa [Statement.children] using child

theorem forEach (inLoop : p.InLoop) (target : ForTarget) {isAwait : Bool} :
    Tracks s (Since s p true [target.node]) (g₀.forEach start target isAwait) (g₁.forEach start target isAwait)
      fun a => Since s p true [.statement a] := by
  have rest {isIn : Bool} : Tracks s (Since s p true [target.node])
      (do
        let collection ← if isIn then g₀.plainExpression .plain else g₀.plainAssignment .plain
        expect .parenR
        let body ← g₀.body .nested
        let span ← finishSpan start
        return if isIn then .forInStatement span target collection body
          else .forOfStatement span isAwait target collection body)
      (do
        let collection ← if isIn then g₁.plainExpression .plain else g₁.plainAssignment .plain
        expect .parenR
        let body ← g₁.body .nested
        let span ← finishSpan start
        return if isIn then .forInStatement span target collection body
          else .forOfStatement span isAwait target collection body)
      fun a => Since s p true [.statement a] := by
    refine .choose (R := fun e => Since s p true [target.node, .expression e]) (fun _ => hg.plainExpression.since)
      (fun _ => hg.plainAssignment.since) fun collection => .quiet .expect fun _ => .behind hg.body_behind fun body =>
        .look .finishSpan fun _ => .pure fun _ _ before => ?_
    cases isIn with
    | true => exact before.loop inLoop rfl fun c child => .of_mem (by simpa [Statement.children] using child)
    | false => exact before.loop inLoop rfl fun c child => .of_mem (by simpa [Statement.children] using child)
  refine .look .isKind fun isIn => .quiet .next fun _ => ?_
  cases target with
  | pattern => exact rest
  | declaration d => exact .look .strict fun _ => .look .edition fun _ => .unless (.of_fails .fail) rest

theorem forAfterDeclaration (inLoop : p.InLoop) {d : VariableDeclaration} :
    Tracks s (Since s p true [.statement (.variableDeclaration d)]) (g₀.forAfterDeclaration start d awaitAt)
      (g₁.forAfterDeclaration start d awaitAt) fun a => Since s p true [.statement a] := by
  refine .look .isKind fun isIn => .look .atLoopWord fun _ => .ite (fun _ => ?_) fun _ => .unlessAwait ?_
  · exact .ite (fun _ => .unlessAwait (hg.forEach inLoop (.declaration d))) fun _ => hg.forEach inLoop (.declaration d)
  · exact hg.forLoop inLoop (some (.declaration d))

theorem forDeclaration (inLoop : p.InLoop) {declarationStart : NodeStart} {kind : VariableKind} :
    Tracks s (Since s p true []) (g₀.forDeclaration start declarationStart kind awaitAt)
      (g₁.forDeclaration start declarationStart kind awaitAt) fun a => Since s p true [.statement a] := by
  refine .quiet .next fun _ => .adds hg.declarators fun found => .look .finishSpan fun _ =>
    .strengthen (hg.forAfterDeclaration inLoop) fun _ _ before => before.weaken (fun h => h) (.node rfl ?_)
  simp [children, Statement.children]

/-- The target of a loop was read as an expression before. -/
theorem forEachTarget (inLoop : p.InLoop) {e : Expression} {deferred : Deferred} :
    Tracks s (Since s p true [.expression e])
      (do
        let (target, _) ← CoverM.deferring deferred (assignedPattern e)
        checkPattern .none target
        g₀.forEach start (.pattern target) awaitAt.isSome)
      (do
        let (target, _) ← CoverM.deferring deferred (assignedPattern e)
        checkPattern .none target
        g₁.forEach start (.pattern target) awaitAt.isSome)
      fun a => Since s p true [.statement a] :=
  assignedPattern_tracks.deferring.bind fun x => .quiet .checkPattern fun _ => hg.forEach inLoop (.pattern x.1)

theorem forAfterExpression (inLoop : p.InLoop) :
    Tracks s (Since s p true []) (g₀.forAfterExpression start awaitAt) (g₁.forAfterExpression start awaitAt)
      fun a => Since s p true [.statement a] := by
  refine .look .isContextual fun _ => .look .containsEscape fun _ => .look .tokenStart fun pos => ?_
  have head : CoverTracks s (Since s p true [])
      (if awaitAt.isSome then g₀.subscripted .forAwaitHead else g₀.expression .forHead)
      (if awaitAt.isSome then g₁.subscripted .forAwaitHead else g₁.expression .forHead)
      fun e => Since s p true [.expression e] :=
    .ite (fun _ => hg.subscripted.since) fun _ => hg.expression.since
  refine head.deferring.bind fun x => ?_
  obtain ⟨e, deferred⟩ := x
  refine .look .atLoopWord fun _ => .ite (fun _ => ?_) fun _ => ?_
  · exact .look .isKind fun _ => .ite (fun _ => .unlessAwait (hg.forEachTarget inLoop)) fun _ =>
      .quiet .checkOfTarget fun _ => hg.forEachTarget inLoop
  · exact .quiet .check fun _ => .unlessAwait (hg.forLoop inLoop (some (.expression e)))

theorem forHead (inLoop : p.InLoop) :
    Tracks s (Since s p true []) (g₀.forHead start awaitAt) (g₁.forHead start awaitAt)
      fun a => Since s p true [.statement a] := by
  refine .quiet .expect fun _ => .look .isKind fun _ =>
    .ite (fun _ => .unlessAwait (hg.forLoop inLoop none)) fun _ => ?_
  refine .look .startNode fun _ => .look .variableKind? fun kind => ?_
  cases kind with
  | some => exact hg.forDeclaration inLoop
  | none =>
    refine .look .atUsing fun _ => .ite (fun _ => hg.forDeclaration inLoop) fun _ => .look .atAwaitUsing fun _ =>
      .ite (fun _ => ?_) fun _ => hg.forAfterExpression inLoop
    exact .quiet .next fun _ => .look .scopes fun _ => .ite
      (fun _ => hg.forDeclaration inLoop) fun _ => .quiet (.of_looks .tokenStart) fun _ =>
        .quiet (.of_fails .fail) fun _ => hg.forDeclaration inLoop

/-- The scope and the label of a loop end with it. -/
theorem forStatement (ready : Steady s p) (solid : p.lexer.kind.isSolid = true) :
    Tracks s (At p) (g₀.forStatement start) (g₁.forStatement start) fun a => Since s p true [.statement a] := by
  have inner {awaitAt : Option Nat} : AddsBehind s true
      (do
        pushLabel (.anonymous .loop)
        enterScope {}
        let a ← g₀.forHead start awaitAt
        exitScope
        popLabel
        return a)
      (do
        pushLabel (.anonymous .loop)
        enterScope {}
        let a ← g₁.forHead start awaitAt
        exitScope
        popLabel
        return a)
      fun a => [.statement a] := by
    have head (p : Parser) (outer : List Label) (ready : Steady s p) (behind : p.Behind)
        (labels : p.labels = .anonymous .loop :: outer) : Tracks s (At p)
          (do
            enterScope {}
            let a ← g₀.forHead start awaitAt
            exitScope
            return a)
          (do
            enterScope {}
            let a ← g₁.forHead start awaitAt
            exitScope
            return a)
          fun a q log => a.labelKind? = some .loop ∧ Since s p true [.statement a] q log :=
      .startBehind ready behind <| .quiet .enterScope fun _ =>
        ((hg.forHead ⟨outer, labels⟩).having fun q _ _ => ReturnsKind.forHead q).bind fun a =>
          .known fun kind => .quiet .exitScope fun _ => .pure fun _ _ after => ⟨kind, after⟩
    simpa only [bind_assoc, pure_bind] using AddsBehind.withAnonymous head
  refine .past ready solid <| .look .since fun _ => .look .scopes fun _ => .quiet (by grind) fun isAwait =>
    .look .lexer fun _ => inner.since

end Grammar.Reviewed
end ScriptSyntax
