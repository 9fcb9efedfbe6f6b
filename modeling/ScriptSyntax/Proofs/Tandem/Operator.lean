import ScriptSyntax.Proofs.Tandem.Atom

/-!
Operators, in two parsers side by side.
-/

namespace ScriptSyntax

open ParseM

namespace Tandem

open Node Grammar

variable {t : Twins} {x y : NodeStart}

/-! ### Checks and targets -/

theorem Quiet.checkDelete {pos : Nat} {argument : Expression} (placed : t.Placed pos) :
    Quiet t (checkDelete pos argument) := by
  have privateMember : Quiet t (if argument.isPrivateMember then failRecoverable pos .deletePrivate
    else Pure.pure ()) :=
    .ite (.of_fails (.failRecoverable placed nofun)) .pure
  cases argument with
  | identifier => exact .bind .strict fun _ => Yields.guard (fun _ =>
      .failRecoverable placed nofun) fun _ => privateMember
  | _ => exact privateMember

theorem allow_quiet {exprAllowed : Bool} :
    Quiet t (modify fun p => { p with lexer := { p.lexer with toCursor := p.lexer.toCursor.allow exprAllowed } }) :=
  Yields.modify fun _ _ h => h.ofContexts (c := Cursor.allow exprAllowed) (fun _ _ => rfl) fun x =>
    (Cursor.SameToken.refl x).allow exprAllowed

theorem Gives.join {operator : TokenKind} {left right : Expression} (same : SameStart t x y)
    (fitLeft : ExpressionFits t left) (fitRight : ExpressionFits t right) :
    Gives t (join x operator left right) (join y operator left right) (ExpressionFits t) := by
  cases right with
  | privateIdentifier id => exact .stops (.fail fitRight.span.start (by simp))
  | _ =>
    refine .finish same fun span spans => ?_
    split
    · exact .done (Fits.node (n := .expression (.logical span _ left _)) spans (fits_two fitLeft fitRight) rfl)
    · exact .done (Fits.node (n := .expression (.binary span _ left _)) spans (fits_two fitLeft fitRight) rfl)
    · exact .unexpectedAt spans.start

theorem CoverGives.assignedPattern {left : Expression} (fits : ExpressionFits t left) :
    CoverGives t (assignedPattern left) (assignedPattern left) (PatternFits t) := by
  refine .liftQuiet .targetRules fun rules => ?_
  have reads : CoverGives t (liftM (ofExcept (left.toPattern rules)) : CoverM Pattern)
    (liftM (ofExcept (left.toPattern rules))) (PatternFits t) :=
    .lift (Gives.ofExcept (toPattern_settles fits))
  refine .ite (fun _ => .get fun d put => ?_) fun _ => reads
  cases d with
  | none => exact reads
  | some d => exact .liftQuiet (.check (put d rfl).patternComplaint) fun _ => reads

theorem Gives.postfixUpdates {operand : Expression} (same : SameStart t x y) (fits : ExpressionFits t operand) :
    Gives t (postfixUpdates x operand) (postfixUpdates y operand) (ExpressionFits t) := by
  refine .repeatPast (I := ExpressionFits t) fits fun e fits => .quiet .kind fun _ =>
    .quiet .canOmitSemicolon fun _ => ?_
  split
  · refine .step (.simpleTarget fits) fun _ _ => .quiet .next fun _ => .finish same fun span spans => .done ?_
    exact Fits.node (n := .expression (.update span _ false e)) spans (fits_one fits) rfl
  · exact .done fits

theorem Gives.privateOperand {init : InitMode} :
    Gives t (privateOperand init) (privateOperand init) (ExpressionFits t) := by
  refine .get fun p q state => ?_
  rw [show q.privateNames = p.privateNames by rw [state.rest]]
  refine .quiet .options fun _ => .guard (fun _ => .unexpected) fun _ => .step .privateIdentifier fun id spans =>
    .quiet .isKind fun _ => ?_
  exact .require (fun _ => .unexpected) fun _ =>
    .done (Fits.leaf (n := .expression (.privateIdentifier id)) spans rfl rfl)

theorem Quiet.tighterOperator? {loosest : Nat} {init : InitMode} : Quiet t (tighterOperator? loosest init) := by
  refine .bind .kind fun _ => ?_
  split
  · exact .ite .pure .pure
  · exact .pure

end Tandem

namespace Grammar.Paired

open Tandem Node

variable {t : Twins} {g : Grammar} (hg : g.Paired t) {x y : NodeStart} {init : InitMode}
include hg

/-! ### Unary operators -/

theorem plainUnary {afterUnary inUpdate : Bool} :
    Gives t (g.plainUnary afterUnary inUpdate init) (g.plainUnary afterUnary inUpdate init) (ExpressionFits t) :=
  (hg.unary afterUnary inUpdate init).alone

theorem awaitExpression : Gives t (g.awaitExpression init) (g.awaitExpression init) (ExpressionFits t) := by
  refine .start fun _ _ same => ?_
  rw [same.pos]
  refine .quiet (.modify (fun _ => rfl) (fun _ _ => rfl) fun _ h => ?_) fun _ => .quiet .next fun _ => ?_
  · exact { h with awaitAt := forall_mem_or h.awaitAt (forall_mem_some same.placed) }
  · refine .step hg.plainUnary fun e fits => .finish same fun span spans => .done ?_
    exact Fits.node (n := .expression (.await span e)) spans (fits_one fits) rfl

theorem prefixUpdate {operator : UpdateOperator} :
    CoverGives t (g.prefixUpdate operator init) (g.prefixUpdate operator init) (ExpressionFits t) := by
  refine .start fun _ _ same => .liftQuiet .next fun _ => .liftStep hg.plainUnary fun e fits =>
    .quiet .checkExpression fun _ => ?_
  refine .liftStep (.simpleTarget fits) fun _ _ => .finish same fun span spans => .done ?_
  exact Fits.node (n := .expression (.update span operator true e)) spans (fits_one fits) rfl

theorem unaryExpression {operator : UnaryOperator} :
    CoverGives t (g.unaryExpression operator init) (g.unaryExpression operator init) (ExpressionFits t) := by
  refine .start fun _ _ same => .liftQuiet .next fun _ => .liftStep hg.plainUnary fun e fits =>
    .quiet .checkExpression fun _ => ?_
  rw [same.pos]
  refine .when (fun _ => .lift (Tandem.Quiet.checkDelete same.placed)) (.finish same fun span spans => .done ?_)
  exact Fits.node (n := .expression (.unary span operator e)) spans (fits_one fits) rfl

theorem power {base : Expression} {afterUnary inUpdate : Bool} (same : SameStart t x y) (fits : ExpressionFits t base) :
    Gives t (g.power x base afterUnary inUpdate init) (g.power y base afterUnary inUpdate init) (ExpressionFits t) := by
  refine .quiet .isKind fun _ => .ite (fun _ => .guard (fun _ => .unexpected) fun _ => .quiet .next fun _ =>
    ?_) fun _ => .done fits
  exact .step hg.plainUnary fun right fitRight => Gives.join same fits fitRight

theorem unaryLevel {afterUnary inUpdate : Bool} :
    CoverGives t (g.unaryLevel afterUnary inUpdate init) (g.unaryLevel afterUnary inUpdate init)
      (ExpressionFits t) := by
  refine .start fun x y same => .liftQuiet .kind fun kind => .liftQuiet .isContextual fun _ =>
    .liftQuiet .scopes fun _ => ?_
  have powers {afterUnary : Bool} {e : Expression} (fits : ExpressionFits t e) :
      CoverGives t (liftM (g.power x e afterUnary inUpdate init)) (liftM (g.power y e afterUnary inUpdate init))
        (ExpressionFits t) :=
    .lift (hg.power same fits)
  refine .ite (fun _ => .liftStep hg.awaitExpression fun _ => powers) fun _ => ?_
  split
  · exact .step hg.prefixUpdate fun _ => powers
  · exact .step hg.unaryExpression fun _ => powers
  · refine .ite (fun _ => .liftStep .privateOperand fun _ => powers) fun _ => .step hg.subscripted fun e fits => ?_
    exact .quiet .mustBePattern fun _ => .ite (fun _ => .done fits) fun _ =>
      .liftStep (.postfixUpdates same fits) fun _ => powers

/-! ### Binary operators -/

theorem binary {height loosest : Nat} {left : Expression} (same : SameStart t x y) (fits : ExpressionFits t left) :
    Gives t (g.binary init height loosest x left) (g.binary init height loosest y left) (ExpressionFits t) := by
  induction height generalizing loosest x y left with
  | zero => exact .done fits
  | succ height ih =>
    refine .repeatPast (I := ExpressionFits t) fits fun left fits => .quiet .tighterOperator? fun found => ?_
    obtain _ | ⟨operator, precedence⟩ := found
    · exact .done fits
    refine .quiet .next fun _ => .start fun _ _ sameRight => .step hg.plainUnary fun operand fitOperand => ?_
    refine .step (ih sameRight fitOperand) fun right fitRight => .step (.join same fits fitRight) fun left fits => ?_
    exact .quiet .kind fun _ => .ite (fun _ => .step .tokenStart fun _ placed =>
      .stops (.failRecoverable placed nofun)) fun _ => .done fits

theorem operators : CoverGives t (g.operators init) (g.operators init) (ExpressionFits t) := by
  refine .start fun _ _ same => .step (hg.unary false false init) fun e fits => ?_
  rw [same.pos]
  exact .quiet .mustBePattern fun _ => .ite (fun _ => .done fits) fun _ => .lift (hg.binary same fits)

/-! ### Conditions, `yield` and assignments -/

theorem conditional : CoverGives t (g.conditional init) (g.conditional init) (ExpressionFits t) := by
  refine .start fun _ _ same => .step hg.operators fun test fits => .quiet .mustBePattern fun _ =>
    .ite (fun _ => .done fits) fun _ => ?_
  refine .liftQuiet .eat fun _ => .ite (fun _ => ?_) fun _ => .done fits
  refine .liftStep hg.plainAssignment fun consequent fitYes => .liftQuiet .expect fun _ =>
    .liftStep hg.plainAssignment fun alternate fitNo => ?_
  refine .finish same fun span spans => .done ?_
  exact Fits.node (n := .expression (.conditional span test consequent alternate)) spans
    (fits_three fits fitYes fitNo) rfl

theorem yieldExpression : Gives t (g.yieldExpression init) (g.yieldExpression init) (ExpressionFits t) := by
  refine .start fun _ _ same => ?_
  rw [same.pos]
  refine .quiet (.modify (fun _ => rfl) (fun _ _ => rfl) fun _ h => ?_) fun _ => .quiet .next fun _ =>
    .quiet .kind fun _ => .quiet .canOmitSemicolon fun _ => ?_
  · exact { h with yieldAt := forall_mem_or h.yieldAt (forall_mem_some same.placed) }
  refine .ite (fun _ => .finish same fun span spans => .done ?_) fun _ => .quiet .eat fun delegate =>
    .step hg.plainAssignment fun e fits => ?_
  · exact Fits.leaf (n := .expression (.yield span false none)) spans rfl rfl
  · refine .finish same fun span spans => .done ?_
    exact Fits.node (n := .expression (.yield span delegate (some e))) spans (fits_one fits) rfl

theorem assignmentTo {operator : AssignmentOperator} {left : Expression} {old : Deferred} (same : SameStart t x y)
    (fits : ExpressionFits t left) (put : Postponed t old) :
    CoverGives t (g.assignmentTo x operator left old init) (g.assignmentTo y operator left old init)
      (ExpressionFits t) := by
  refine .choose (fun _ => .assignedPattern fits) (fun _ => .lift (Gives.simpleTarget fits)) fun target fitTarget => ?_
  refine .quiet (.amend fun d put => ?_) fun _ => .when (fun _ => .lift (Gives.checkPattern fitTarget)) ?_
  · exact { put.forgetTarget with
      shorthandDefault := fun i mem => put.shorthandDefault i (Option.filter_eq_some_iff.mp mem).1 }
  refine .liftQuiet .next fun _ => .liftStep hg.plainAssignment fun value fitValue =>
    .quiet (.amend fun d put' => ?_) fun _ => ?_
  · exact { put' with secondProto := forall_mem_or put.secondProto put'.secondProto }
  · refine .finish same fun span spans => .done ?_
    exact Fits.node (n := .expression (.assignment span operator target value)) spans (fits_two fitTarget fitValue) rfl

theorem assignmentOrTighter :
    CoverGives t (g.assignmentOrTighter init) (g.assignmentOrTighter init) (ExpressionFits t) := by
  refine .get fun outer put => ?_
  have old : Postponed t (outer.getD {}) := by
    cases outer with
    | none => exact .empty
    | some d => exact put d rfl
  refine .quiet (.set (forall_mem_some ?_)) fun _ => .start fun x y same => ?_
  · exact { old with parenthesizedTarget := nofun, commaAfterRest := nofun }
  rw [same.pos]
  have settled {e : Expression} (fits : ExpressionFits t e) :
      CoverGives t
        (do
          if outer.isNone then set (none : Option Deferred)
          return e)
        (do
          if outer.isNone then set (none : Option Deferred)
          return e)
        (ExpressionFits t) :=
    .when (fun _ => .set nofun) (.done fits)
  refine .liftQuiet .isKind fun _ => .liftQuiet .isKind fun _ => .when (fun _ => .lift ?_) ?_
  · exact Tandem.Quiet.modify (fun _ => rfl) (fun _ _ => rfl) fun _ h => { h with }
  refine .step hg.conditional fun left fits => .liftQuiet .kind fun kind => ?_
  cases AssignmentOperator.ofToken? kind with
  | some operator => exact .step (hg.assignmentTo same fits old) fun e fits => settled fits
  | none =>
    refine .when (fun _ => .checkExpression) (.quiet (.amend fun d put => ?_) fun _ => .known (settled fits))
    exact { put with
      parenthesizedTarget := forall_mem_or old.parenthesizedTarget put.parenthesizedTarget
      commaAfterRest := forall_mem_or old.commaAfterRest put.commaAfterRest }

theorem assignmentLevel : CoverGives t (g.assignmentLevel init) (g.assignmentLevel init) (ExpressionFits t) := by
  refine .liftQuiet .isContextual fun _ => .ite (fun _ => .liftQuiet .scopes fun _ =>
    .ite (fun _ => .lift hg.yieldExpression) fun _ => ?_) fun _ => ?_
  · exact .liftQuiet allow_quiet fun _ => hg.assignmentOrTighter
  · exact hg.assignmentOrTighter

end Grammar.Paired
end ScriptSyntax
