import ScriptSyntax.Parser.Operator
import ScriptSyntax.Proofs.Ambient.Atom

/-!
Operators.  `await` and `yield` are operators where the scopes say so, and each of them is noted.
-/

namespace ScriptSyntax.Ambient

open Node ParseM Grammar

variable {s : Setting} {p : Parser} {ns : List Part}

namespace Quiet

@[grind ←] theorem simpleTarget {e : Expression} : Quiet s (simpleTarget e) := by
  unfold ParseM.simpleTarget
  split <;> grind

@[grind ←] theorem checkDelete {pos : Nat} {argument : Expression} : Quiet s (checkDelete pos argument) := by
  have privateMember : Quiet s (if argument.isPrivateMember then failRecoverable pos .deletePrivate
    else Pure.pure ()) :=
    ite (of_fails .failRecoverable) pure
  unfold Grammar.checkDelete
  cases argument
  case identifier =>
    exact bind (of_looks .strict) fun _ => ite (bind (of_fails .failRecoverable) fun _ => privateMember) privateMember
  all_goals exact privateMember

end Quiet

/-! ### Targets -/

/-- The target of a compound assignment was read before. -/
theorem simpleTarget_leads {e : Expression} :
    Leads s (Since p [(none, .expression e)]) (simpleTarget e) fun a => Since p [(none, .pattern a)] := by
  unfold ParseM.simpleTarget
  split
  · exact .quiet .checkTargetName fun _ => .done (.leaf rfl rfl)
  · next m => exact .done (.nodeOf rfl fun x part => .of_part (n := .expression (.member m)) part)
  · exact .fails .failRecoverable
  · exact .fails .fail

theorem assignedPattern_leads {left : Expression} :
    CoverLeads s (Since p [(none, .expression left)]) (assignedPattern left) fun a => Since p [(none, .pattern a)] := by
  refine .look .targetRules fun rules => ?_
  have reads : CoverLeads s (Since p [(none, .expression left)])
      (liftM (ofExcept (left.toPattern rules)) : CoverM Pattern) fun a => Since p [(none, .pattern a)] := by
    refine .lift ?_
    rw [← bind_pure (ofExcept (left.toPattern rules))]
    exact .ofExcept fun a read => .done (List.forall_mem_singleton.mpr (covering.of_toPattern read))
  refine .ite (fun _ => .coverQuiet .get fun d => ?_) fun _ => reads
  cases d with
  | none => exact reads
  | some => exact .quiet .check fun _ => reads

/-- The operands of a join were read before. -/
theorem joined_leads {start : NodeStart} {operator : TokenKind} {left right : Expression} :
    Leads s (Since p [(none, .expression left), (none, .expression right)])
      (do
        let span ← finishSpan start
        match LogicalOperator.ofToken? operator, BinaryOperator.ofToken? operator with
        | some operator, _ => return .logical span operator left right
        | none, some operator => return .binary span operator left right
        | none, none => unexpectedAt span.start)
      (Operand p) := by
  refine .look .finishSpan fun _ => ?_
  split
  · exact .operand rfl (.node rfl (by simp [parts, children, Expression.children]))
  · exact .operand rfl (.node rfl (by simp [parts, children, Expression.children]))
  · exact .fails .unexpectedAt

theorem join_leads {start : NodeStart} {operator : TokenKind} {left right : Expression} :
    Leads s (Since p [(none, .expression left), (none, .expression right)]) (join start operator left right)
      (Operand p) := by
  cases right with
  | privateIdentifier => exact .fails (by grind [join])
  | _ => exact joined_leads

/-- The updates after an operand that was read before. -/
theorem postfixUpdates_leads {start : NodeStart} {operand : Expression} :
    Leads s (Operand p operand) (postfixUpdates start operand) (Operand p) := by
  refine .repeatPast (I := Operand p) fun e => .ofOperand fun plain => .look .kind fun _ =>
    .look .canOmitSemicolon fun _ => ?_
  split
  · exact .quiet .simpleTarget fun _ => .quiet .next fun _ => .look .finishSpan fun _ => .pure fun _ before =>
      ⟨before.weaken (.node rfl (by simp [parts, children, Expression.children])), rfl⟩
  · exact .pure fun _ before => ⟨before, plain⟩

theorem privateOperand_leads {init : InitMode} : Leads s (Since p []) (privateOperand init) (Operand p) := by
  refine .sees fun _ => .look .options fun _ => .ite (fun _ => .failing .unexpected) fun _ => ?_
  exact .quiet .privateIdentifier fun _ => .look .isKind fun _ =>
    .unless (.of_fails .unexpected) (.operand rfl (.leaf rfl rfl))

/-- A node that suspends is noted before its parts are read, and the note stays. -/
theorem Since.suspension {q q' r : Parser} {n : Node} (first : Since p [] q) (after : Since q' ns r)
    (note : Since q [] q')
    (noted : q'.noted = true) (fits : n.Fits p.around) (covered : ∀ x ∈ n.parts, Covered ns x) :
    Since p [(none, n)] r :=
  ((first.trans note).trans after).node fits (fun _ => after.noted noted) fun x part => by simpa using covered x part

namespace Settled

variable {g : Grammar} (hg : Settled s g)
include hg

/-! ### Unary operators -/

theorem plainUnary {afterUnary inUpdate : Bool} {init : InitMode} :
    Adds s (g.plainUnary afterUnary inUpdate init) fun e => [(none, .expression e)] :=
      (hg.unary afterUnary inUpdate init).alone

theorem awaitExpression {init : InitMode} (async : p.around.async = true) :
    Leads s (Since p []) (g.awaitExpression init) (Operand p) := by
  refine .look .startNode fun start => .each fun q first => .change <| .start <| .quiet .next fun _ =>
    .adds hg.plainUnary fun e => .look .finishSpan fun _ => .pure fun r after =>
      ⟨first.suspension after ?_ ?_ ?_ ?_, rfl⟩
  · exact .still ⟨rfl, .refl _, rfl, rfl, rfl⟩ (by simp [Parser.noted])
  · simp [Parser.noted]
  · exact ⟨(absurd · Bool.false_ne_true), fun _ => async, (absurd · Bool.false_ne_true),
      (absurd · Bool.false_ne_true)⟩
  · exact fun x part => .of_mem (by simpa [parts, children, Expression.children] using part)

theorem prefixUpdate {operator : UpdateOperator} {init : InitMode} :
    CoverLeads s (Since p []) (g.prefixUpdate operator init) (Operand p) :=
  .look .startNode fun _ => .quiet .next fun _ => .liftAdds hg.plainUnary fun _ => .coverQuiet .checkExpression fun _ =>
    .quiet .simpleTarget fun _ => .look .finishSpan fun _ =>
      .operand rfl (.node rfl (by simp [parts, children, Expression.children]))

theorem unaryExpression {operator : UnaryOperator} {init : InitMode} :
    CoverLeads s (Since p []) (g.unaryExpression operator init) (Operand p) :=
  .look .startNode fun _ => .quiet .next fun _ => .liftAdds hg.plainUnary fun _ => .coverQuiet .checkExpression fun _ =>
    .when (by grind) <| .look .finishSpan fun _ =>
      .operand rfl (.node rfl (by simp [parts, children, Expression.children]))

theorem power {start : NodeStart} {base : Expression} {afterUnary inUpdate : Bool} {init : InitMode} :
    Leads s (Operand p base) (g.power start base afterUnary inUpdate init) (Operand p) :=
  .ofOperand fun plain => .look .isKind fun _ => .ite (fun _ => .when (.of_fails .unexpected) <| .quiet .next fun _ =>
    .adds hg.plainUnary fun _ => join_leads) fun _ => .operand plain fun _ mem => .of_mem mem

theorem unaryLevel {afterUnary inUpdate : Bool} {init : InitMode} :
    CoverLeads s (· = p) (g.unaryLevel afterUnary inUpdate init) (Operand p) := by
  refine .look .startNode fun _ => .look .kind fun _ => .look .isContextual fun _ =>
    .lookFor .scopes (V := (· = p.scopes)) (by simp +contextual) ?_
  rintro _ rfl
  refine .start <| .ite (fun legal => .bind (.lift (hg.awaitExpression (Bool.and_eq_true_iff.mp legal).2)) fun _ =>
    .lift hg.power)
    fun _ => ?_
  split
  · exact .bind hg.prefixUpdate fun _ => .lift hg.power
  · exact .bind hg.unaryExpression fun _ => .lift hg.power
  · refine .ite (fun _ => .bind (.lift privateOperand_leads) fun _ => .lift hg.power) fun _ => ?_
    refine .bind (.afresh fun _ => hg.subscripted) fun _ => .ofOperand fun plain => .coverQuiet .mustBePattern fun _ =>
      .ite (fun _ => .operand plain fun _ mem => .of_mem mem) fun _ => ?_
    exact .bind (.lift (.strengthen postfixUpdates_leads fun _ before => ⟨before, plain⟩)) fun _ => .lift hg.power

/-! ### Binary operators -/

/-- The left operand was read before. -/
theorem binary {init : InitMode} {height : Nat} :
    ∀ {p : Parser} {loosest : Nat} {start : NodeStart} {left : Expression},
    Leads s (Operand p left) (g.binary init height loosest start left) (Operand p) := by
  induction height with
  | zero => exact .pure fun _ => id
  | succ height ih =>
    intro p loosest start left
    refine .repeatPast (I := Operand p) fun left => .look .tighterOperator? fun tighter => ?_
    split
    · exact .pure fun _ => id
    · refine .ofOperand fun plain => .quiet .next fun _ => .look .startNode fun _ => .each fun q first => ?_
      refine (hg.operates false false init q).alone.bind fun operand => ih.bind fun right => ?_
      refine .strengthen (.bind join_leads fun e => .look .kind fun _ =>
        .ite (fun _ => .fails (.after fun _ => .bind .failRecoverable)) fun _ =>
        .pure fun _ => id) fun r after => ?_
      exact first.trans after.since

theorem operators {init : InitMode} : CoverLeads s (· = p) (g.operators init) (Operand p) :=
  .look .startNode fun _ => .bind (hg.operates false false init p) fun _ => .ofOperand fun plain =>
    .coverQuiet .mustBePattern fun _ =>
    .ite (fun _ => .operand plain fun _ mem => .of_mem mem) fun _ =>
      .lift (.strengthen hg.binary fun _ before => ⟨before, plain⟩)

/-! ### Conditions, `yield` and assignments -/

theorem conditional {init : InitMode} : CoverLeads s (· = p) (g.conditional init) (Operand p) := by
  refine .look .startNode fun _ => .bind hg.operators fun test => .ofOperand fun plain =>
    .coverQuiet .mustBePattern fun _ =>
    .ite (fun _ => .operand plain fun _ mem => .of_mem mem) fun _ => .quiet .eat fun _ => .ite (fun _ => ?_)
      fun _ => .operand plain fun _ mem => .of_mem mem
  exact .liftAdds hg.plainAssignment fun _ => .quiet .expect fun _ => .liftAdds hg.plainAssignment fun _ =>
    .look .finishSpan fun _ => .operand rfl (.node rfl (by simp [parts, children, Expression.children]))

theorem yieldExpression {init : InitMode} (generator : p.around.generator = true) :
    Leads s (Since p []) (g.yieldExpression init) (Operand p) := by
  refine .look .startNode fun start => .each fun q first => .change <| .start <| .quiet .next fun _ =>
    .look .kind fun _ => .look .canOmitSemicolon fun _ => ?_
  have note {ns : List Part} {e : Expression} {r : Parser}
      (after : Since { q with yieldAt := q.yieldAt.or (some start.pos) } ns r)
        (fits : (Node.expression e).Fits p.around)
      (subset : (Node.expression e).parts ⊆ ns) : Since p [(none, .expression e)] r := by
    refine first.suspension after (.still ⟨rfl, .refl _, rfl, rfl, rfl⟩ ?_) ?_ fits fun x part => .of_mem (subset part)
    · simp [Parser.noted]
    · simp [Parser.noted]
  have fits {span : Span} {delegate : Bool} {argument : Option Expression} :
      (Node.expression (.yield span delegate argument)).Fits p.around :=
    ⟨fun _ => generator, (absurd · Bool.false_ne_true), (absurd · Bool.false_ne_true),
      (absurd · Bool.false_ne_true)⟩
  refine .ite (fun _ => .look .finishSpan fun _ => .pure fun r after => ⟨note after ?_ ?_, rfl⟩) fun _ =>
    .quiet .eat fun _ => .adds hg.plainAssignment fun _ => .look .finishSpan fun _ => .pure fun r after =>
      ⟨note after ?_ ?_, rfl⟩
  · exact fits
  · simp [parts, children, Expression.children]
  · exact fits
  · simp [parts, children, Expression.children]

/-- The left side was read before. -/
theorem assignmentTo {start : NodeStart} {operator : AssignmentOperator} {left : Expression} {old : Deferred}
    {init : InitMode} : CoverLeads s (Since p [(none, .expression left)])
      (g.assignmentTo start operator left old init) (Operand p) := by
  have rest (target : Pattern) {w : CoverM PUnit} (quiet : CoverQuiet s w) :
      CoverLeads s (Since p [(none, .pattern target)])
      (do
        w
        if operator = .assign then checkPattern .none target
        next
        let value ← g.plainAssignment init
        CoverM.amend fun d => { d with secondProto := old.secondProto.or d.secondProto }
        return .assignment (← finishSpan start) operator target value)
      (Operand p) :=
    .coverQuiet quiet fun _ => .when (by grind) <| .quiet .next fun _ => .liftAdds hg.plainAssignment fun _ =>
      .coverQuiet (by grind) fun _ => .look .finishSpan fun _ =>
        .operand rfl (.node rfl (by simp [parts, children, Expression.children]))
  unfold Grammar.assignmentTo
  refine .ite (fun assign => ?_) fun _ => ?_
  · exact assignedPattern_leads.bind fun target => rest target (by grind)
  · exact .bind (.lift simpleTarget_leads) fun target => rest target (by grind)

theorem assignmentOrTighter {init : InitMode} : CoverLeads s (Since p []) (g.assignmentOrTighter init) (Operand p) := by
  refine .coverQuiet .get fun outer => .coverQuiet (by grind) fun _ => .look .startNode fun _ => .look .isKind fun _ =>
    .look .isKind fun _ => .when (.lift (.modify fun _ => .still ⟨rfl, .refl _, rfl, rfl, rfl⟩ id)) <|
      .bind (.afresh fun _ => hg.conditional) fun left => .ofOperand fun plain => ?_
  have ends {e : Expression} (plain : e.isSuper = false) : CoverLeads s (Since p [(none, .expression e)])
      (do
        if outer.isNone then set (none : Option Deferred)
        return e : CoverM Expression) (Operand p) :=
    .when (by grind) <| .operand plain fun _ mem => .of_mem mem
  refine .look .kind fun kind => ?_
  cases AssignmentOperator.ofToken? kind with
  | some operator => exact hg.assignmentTo.bind fun e => .ofOperand ends
  | none =>
    refine .when .checkExpression <| .coverQuiet (by grind) fun _ => ?_
    simp only [pure_bind]
    exact ends plain

theorem assignmentLevel {init : InitMode} : CoverLeads s (· = p) (g.assignmentLevel init) (Operand p) := by
  refine .look .isContextual fun _ => .ite (fun _ => ?_) fun _ => hg.assignmentOrTighter.start
  refine .lookFor .scopes (V := (· = p.scopes)) (by simp +contextual) ?_
  rintro _ rfl
  refine .start (.ite (fun generator => .lift (hg.yieldExpression generator)) fun _ => ?_)
  exact .coverQuiet (.lift (.modify fun _ => .still ⟨rfl, .refl _, rfl, rfl, rfl⟩ id)) fun _ => hg.assignmentOrTighter

end Settled
end ScriptSyntax.Ambient
