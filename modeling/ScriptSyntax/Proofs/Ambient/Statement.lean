import ScriptSyntax.Parser.Statement
import ScriptSyntax.Proofs.Ambient.Operator

/-!
Statements.  What they put on the labels and the scopes they take off again.
-/

namespace ScriptSyntax.Ambient

open Node ParseM Grammar

variable {s : Setting} {p : Parser} {ns : List Part}

namespace Quiet

@[grind ←] theorem checkNoValue {inHead : Bool} {kind : VariableKind} {target : Pattern} :
    Quiet s (checkNoValue inHead kind target) := by grind [Grammar.checkNoValue]

@[grind ←] theorem checkUsing : Quiet s checkUsing := by grind [Grammar.checkUsing]

@[grind ←] theorem awaitBeforeUsing : Quiet s awaitBeforeUsing := by grind [Grammar.awaitBeforeUsing]

@[grind ←] theorem jumpLabel : Quiet s jumpLabel := by grind [Grammar.jumpLabel]

end Quiet

theorem jump_adds {start : NodeStart} {isBreak : Bool} :
    Adds s (jump start isBreak) fun a => [(none, .statement a)] := by
  refine .of fun p => .quiet .next fun _ => .quiet .jumpLabel fun label => .sees fun q => .unless (.of_fails .fail) ?_
  refine .look .finishSpan fun _ => ?_
  cases isBreak
  · exact .done (.nodeOf rfl (by simp [parts, children, Statement.children]))
  · exact .done (.nodeOf rfl (by simp [parts, children, Statement.children]))

theorem debuggerStatement_adds {start : NodeStart} : Adds s (debuggerStatement start) fun a => [(none, .statement a)] :=
  .of fun _ => .quiet .next fun _ => .quiet .semicolon fun _ => .look .finishSpan fun _ => .done (.leaf rfl rfl)

theorem expressionStatement_leads {start : NodeStart} {e : Expression} :
    Leads s (Since p [(none, .expression e)]) (expressionStatement start e) fun a => Since p [(none, .statement a)] :=
  .quiet .semicolon fun _ => .look .finishSpan fun _ =>
    .done (.node rfl (by simp [parts, children, Statement.children]))

/-- The labels in front of a statement learn what it is and keep their names. -/
theorem map_name_relabel {start inner : Nat} {kind : Option LabelKind} (labels : List Label) :
    (relabel start inner kind labels).map (·.name) = labels.map (·.name) := by
  induction labels with
  | nil => rfl
  | cons l outer ih =>
    unfold relabel
    split
    · simp [ih]
    · rfl

/-- The parts of the cases of a switch so far. -/
def switchParts (progress : SwitchProgress) : List Part :=
  progress.cases.map (none, .switchCase ·) ++
    progress.current.toList.flatMap fun c => c.test.toList.map (none, .expression ·) ++ c.body.map (none, .statement ·)

namespace Settled

variable {g : Grammar} (hg : Settled s g)
include hg

/-! ### Declarations -/

theorem declarator {inHead : Bool} {kind : VariableKind} :
    Adds s (g.declarator inHead kind) fun d => [(none, .declarator d)] := by
  have rest {p : Parser} {start : NodeStart} (target : Pattern) : Leads s (Since p [(none, .pattern target)])
      (do
        checkPattern (if kind = .var then .var else .lexical) target
        if ← eat .eq then
          let value ← g.plainAssignment (if inHead then .forHead else .plain)
          return (⟨← finishSpan start, target, some value⟩ : Declarator)
        else
          checkNoValue inHead kind target
          return (⟨← finishSpan start, target, none⟩ : Declarator))
      fun d => Since p [(none, .declarator d)] := by
    refine .quiet .checkPattern fun _ => .quiet .eat fun _ => .ite (fun _ => ?_) fun _ => ?_
    · exact .adds hg.plainAssignment fun value => .look .finishSpan fun _ =>
        .done (.node rfl (by simp [parts, children]))
    · exact .quiet .checkNoValue fun _ => .look .finishSpan fun _ => .done (.node rfl (by simp [parts, children]))
  refine .of fun p => .look .startNode fun start => .choose (fun _ => ?_) (fun _ => hg.bindingAtom.since) rest
  exact .map ((Leads.ofQuiet .identifier).weaken fun _ _ after => after.weaken (.leaf rfl rfl))

theorem declarators {inHead : Bool} {kind : VariableKind} :
    Adds s (g.declarators inHead kind) fun ds => ds.map (none, .declarator ·) := by
  simp only [List.map_eq_flatMap]
  refine .of fun p => .adds hg.declarator fun first => .strengthen (.repeatPast (a := [first])
    (I := fun found => Since p (found.flatMap fun d => [(none, Node.declarator d)])) fun found => ?_) fun _ => id
  exact .quiet .eat fun _ => .ite (fun _ => .adds hg.declarator fun _ => .pure fun _ => Since.cons) fun _ =>
    .pure fun _ => Since.reverse

theorem declaration {start : NodeStart} {kind : VariableKind} :
    Adds s (g.declaration start kind) fun a => [(none, .statement a)] :=
  .of fun _ => .quiet .next fun _ => .adds hg.declarators fun _ => .quiet .semicolon fun _ => .look .finishSpan fun _ =>
    .done (.node rfl (by simp [parts, children, Statement.children, Function.comp_def]))

theorem variableStatement {start : NodeStart} {kind : VariableKind} {context : Option StatementContext} :
    Adds s (g.variableStatement start kind context) fun a => [(none, .statement a)] :=
  .of fun _ => .ite (fun _ => .failing .unexpected) fun _ => hg.declaration.since

theorem functionStatement {start : NodeStart} {isAsync hanging : Bool} :
    Adds s (g.functionStatement start isAsync hanging) fun a => [(none, .statement a)] :=
  .of fun _ => .quiet .next fun _ => .adds hg.function fun _ => .done (.node rfl fun _ mem => mem)

/-! ### Control flow -/

theorem body {context : StatementContext} : Adds s (g.body context) fun a => [(none, .statement a)] := hg.statement _ _

theorem loopBody : Adds s g.loopBody fun a => [(none, .statement a)] :=
  .of fun _ => .pushLabel fun _ first => .adds hg.body fun _ => .popLabel first <| .done fun _ mem =>
    .of_mem (by simpa using mem)

theorem doWhileStatement {start : NodeStart} : Adds s (g.doWhileStatement start) fun a => [(none, .statement a)] := by
  refine .of fun _ => .quiet .next fun _ => .adds hg.loopBody fun _ => .quiet .expect fun _ =>
    .adds hg.parenthesized fun _ =>
    .look .since fun _ => .ite (fun _ => .quiet .eat fun _ => .look .finishSpan fun _ => .done (.node rfl ?_)) fun _ =>
      .quiet .semicolon fun _ => .look .finishSpan fun _ => .done (.node rfl ?_)
  all_goals simp [parts, children, Statement.children]

theorem whileStatement {start : NodeStart} : Adds s (g.whileStatement start) fun a => [(none, .statement a)] :=
  .of fun _ => .quiet .next fun _ => .adds hg.parenthesized fun _ => .adds hg.loopBody fun _ =>
    .look .finishSpan fun _ =>
    .done (.node rfl (by simp [parts, children, Statement.children]))

theorem withStatement {start : NodeStart} : Adds s (g.withStatement start) fun a => [(none, .statement a)] :=
  .of fun _ => .look .strict fun _ => .ite (fun _ => .fails (.after fun _ => .bind .fail)) fun _ =>
    .quiet .next fun _ =>
    .adds hg.parenthesized fun _ => .adds hg.body fun _ => .look .finishSpan fun _ =>
      .done (.node rfl (by simp [parts, children, Statement.children]))

theorem ifStatement {start : NodeStart} : Adds s (g.ifStatement start) fun a => [(none, .statement a)] := by
  refine .of fun p => .quiet .next fun _ => .adds hg.parenthesized fun test => .adds hg.body fun consequent =>
    .quiet .eat fun _ => .ite (fun _ => ?_) fun _ => .given (.look .finishSpan fun _ => .done (.node rfl ?_))
  · refine .bind (.map (R := fun alternate => Since p ([(none, .expression test), (none, .statement consequent)] ++
      alternate.toList.map (none, .statement ·))) hg.body.since) fun _ => .look .finishSpan fun _ =>
        .done (.node rfl ?_)
    simp [parts, children, Statement.children, Function.comp_def]
  · simp [parts, children, Statement.children]

theorem returnStatement {start : NodeStart} : Adds s (g.returnStatement start) fun a => [(none, .statement a)] := by
  refine .of fun _ => .look .scopes fun _ => .look .options fun _ => .ite (fun _ => ?_) fun _ =>
    .fails (.after fun _ => .bind .fail)
  refine .quiet .next fun _ => .quiet (.orM .eat (.of_looks .canOmitSemicolon)) fun _ =>
    .ite (fun _ => .look .finishSpan fun _ => .done (.leaf rfl rfl)) fun _ => ?_
  exact .adds hg.plainExpression fun _ => .quiet .semicolon fun _ => .look .finishSpan fun _ =>
    .done (.node rfl (by simp [parts, children, Statement.children]))

theorem throwStatement {start : NodeStart} : Adds s (g.throwStatement start) fun a => [(none, .statement a)] :=
  .of fun _ => .quiet .next fun _ => .look .lineBreakBefore fun _ =>
    .ite (fun _ => .fails (.after fun _ => .bind .fail)) fun _ =>
    .adds hg.plainExpression fun _ => .quiet .semicolon fun _ => .look .finishSpan fun _ =>
      .done (.node rfl (by simp [parts, children, Statement.children]))

/-! ### `switch` -/

omit hg in
theorem closeCase {progress : SwitchProgress} :
    Leads s (Since p (switchParts progress)) (closeCase progress) fun cases =>
      Since p (cases.map (none, .switchCase ·)) := by
  unfold Grammar.closeCase
  split
  · next none => exact .pure fun _ before => by simpa [switchParts, none] using before
  · next c current =>
    refine .look .finishSpan fun span => .pure fun _ before => before.weaken (List.forall_mem_cons.mpr
      ⟨.of_parts rfl fun x part => .of_mem ?_, fun x mem => .of_mem ?_⟩)
    · simp_all [switchParts, parts, children]
    · simp_all [switchParts]

theorem caseHead {isDefault : Bool} {progress : SwitchProgress} :
    Leads s (Since p (switchParts progress)) (g.caseHead isDefault progress) fun progress =>
      Since p (switchParts progress) := by
  have rest {cases : List SwitchCase} {start : NodeStart} {hasDefault : Bool} (test : Option Expression) :
      Leads s (Since p (cases.map (none, .switchCase ·) ++ test.toList.map (none, .expression ·)))
        (do
          expect .colon
          return (⟨cases, some { start, test }, hasDefault⟩ : SwitchProgress))
        fun progress => Since p (switchParts progress) :=
    .quiet .expect fun _ => .pure fun _ before => by simpa [switchParts] using before
  refine closeCase.bind fun cases => .look .startNode fun _ => .quiet .next fun _ => .ite (fun _ => ?_) fun _ => ?_
  · refine .ite (fun _ => .fails (.after fun _ => .bind .failRecoverable)) fun _ => .given ?_
    exact .strengthen (rest none) fun _ before => by simpa using before
  · exact .bind (.map (R := fun test =>
      Since p (cases.map (none, .switchCase ·) ++ test.toList.map (none, .expression ·)))
      hg.plainExpression.since) rest

/-- At the closing brace the scope of the switch is left. -/
theorem casePass {progress : SwitchProgress} :
    Leads s (Since (p.entered { switch := true }) (switchParts progress)) (g.casePass progress) (Leads.Ends
      (fun progress => Since (p.entered { switch := true }) (switchParts progress))
      fun cases => Since p (cases.map (none, .switchCase ·))) := by
  refine .look .kind fun _ => ?_
  split
  · refine .exitScope rfl (.refl p) (closeCase.bind fun cases => .pure fun _ before => ?_)
    exact before.weaken fun _ mem => .of_mem (by simpa using mem)
  · exact hg.caseHead.bind fun _ => .pure fun _ => id
  · exact hg.caseHead.bind fun _ => .pure fun _ => id
  · split
    · exact .fails .unexpected
    · next c current =>
      refine .adds (hg.statement none false) fun a => .pure fun _ before => before.weaken fun _ mem => .of_mem ?_
      simp_all [switchParts]
      grind

theorem switchStatement {start : NodeStart} : Adds s (g.switchStatement start) fun a => [(none, .statement a)] := by
  refine .of fun p => .quiet .next fun _ => .adds hg.parenthesized fun discriminant => .quiet .expect fun _ =>
    .pushLabel fun q first => .enterScope fun q' inner => ?_
  refine .bind (.repeatPast (a := {}) (I := fun (progress : SwitchProgress) => Since (q'.entered { switch := true })
    (switchParts progress)) (Q := fun cases => Since q' (cases.map (none, .switchCase ·))) fun _ =>
      hg.casePass) fun cases => ?_
  refine .quiet .next fun _ => .strengthen (.popLabel first <| .look .finishSpan fun _ =>
    .done (.node rfl ?_)) fun r after =>
    inner.trans after
  simp [parts, children, Statement.children, Function.comp_def]

/-! ### `try` -/

/-- After its parameter a catch clause is in a scope of its own, which is that of no body. -/
theorem catchParam : Leads s (Since p []) g.catchParam fun param r =>
    ∃ q flags, flags.isBody = false ∧ Since p (param.toList.map (none, .pattern ·)) q ∧
      Since (q.entered flags) [] r := by
  refine .quiet .eat fun _ => .ite (fun _ => ?_) fun _ => ?_
  · refine .adds hg.bindingAtom fun param => .ite (fun _ => ?_) fun _ => ?_
    · exact .enterScope fun q before => .quiet .checkPattern fun _ => .quiet .expect fun _ => .pure fun r after =>
        ⟨q, _, rfl, before, after⟩
    · exact .enterScope fun q before => .quiet .checkPattern fun _ => .quiet .expect fun _ => .pure fun r after =>
        ⟨q, _, rfl, before, after⟩
  · exact .look .edition fun _ => .when (.of_fails .unexpected) <| .enterScope fun q before => .pure fun r after =>
      ⟨q, _, rfl, before, after⟩

theorem catchClause : Adds s g.catchClause fun c => [(none, .catchClause c)] := by
  refine .of fun p => .look .startNode fun _ => .quiet .next fun _ => hg.catchParam.bind fun param =>
    .each fun r ⟨q, flags, block, before, inner⟩ => ?_
  refine hg.scopelessBlock.start.bind fun body =>
    .strengthen (P := Since (q.entered flags) [(none, .statement (.block body))])
    (.exitScope block before <| .look .finishSpan fun _ => .done (.node rfl ?_)) fun t after =>
      inner.trans (after.same rfl)
  simp [parts, children, Function.comp_def]

theorem tryStatement {start : NodeStart} : Adds s (g.tryStatement start) fun a => [(none, .statement a)] := by
  refine .of fun p => .quiet .next fun _ => .adds hg.block fun block => ?_
  have ends (handler : Option CatchClause) (finalizer : Option Block) :
      Leads s (Since p ((none, .statement (.block block)) :: (handler.toList.map (none, .catchClause ·) ++
          finalizer.toList.map fun b => (none, .statement (.block b)))))
        (do
          if handler.isNone && finalizer.isNone then fail start.pos .missingCatch
          return .tryStatement (← finishSpan start) block handler finalizer)
        fun a => Since p [(none, .statement a)] :=
    .when (.of_fails .fail) <| .look .finishSpan fun _ => .done (.node rfl (by
      simp [parts, children, Statement.children, Function.comp_def]))
  have rest (handler : Option CatchClause) :
      Leads s (Since p ((none, .statement (.block block)) :: handler.toList.map (none, .catchClause ·)))
        (do
          let finalizer ← if ← eat .kwFinally then some <$> g.block else pure none
          if handler.isNone && finalizer.isNone then fail start.pos .missingCatch
          return .tryStatement (← finishSpan start) block handler finalizer)
        fun a => Since p [(none, .statement a)] := by
    refine .quiet .eat fun _ => .ite (fun _ => .bind (.map (hg.block.since.weaken fun b r after => ?_)) (ends handler))
      fun _ => .given ((ends handler none).strengthen fun _ before => by simpa using before)
    simpa using after
  refine .look .isKind fun _ =>
    .ite (fun _ => .bind (.map (hg.catchClause.since.weaken fun c r after => ?_)) rest) fun _ =>
    .given ((rest none).strengthen fun _ before => by simpa using before)
  simpa using after

/-! ### Labels and expressions -/

theorem labeledStatement {start : NodeStart} {label : Identifier} {context : Option StatementContext} :
    Leads s (Since p []) (g.labeledStatement start label context) fun a => Since p [(none, .statement a)] := by
  refine .sees fun _ => .ite (fun _ => .failing .fail) fun _ => .look .kind fun kind => .look .tokenStart fun inner =>
    .each fun q first => .change <| .start <| .adds hg.body fun body => ?_
  have named : Since p [] { q with labels := relabel start.pos inner (LabelKind.ofToken? kind) q.labels } :=
    first.trans (.still ⟨rfl, .refl _, map_name_relabel _, rfl, rfl⟩ id)
  refine .popLabel named <| .look .finishSpan fun _ => .done (.nodeOf rfl ?_)
  simpa [parts, children, Statement.children] using .of_mem (.head _)

theorem expressionOrLabel {start : NodeStart} {context : Option StatementContext} :
    Adds s (g.expressionOrLabel start context) fun a => [(none, .statement a)] := by
  refine .of fun p => .look .isKind fun _ => .adds hg.plainExpression fun e => ?_
  split
  · refine .quiet (.andM .pure .eat) fun _ => .ite (fun _ => ?_) fun _ => expressionStatement_leads
    exact .strengthen hg.labeledStatement fun _ before => before.weaken (by simp)
  · exact expressionStatement_leads

theorem wordStatement {start : NodeStart} {context : Option StatementContext} :
    Adds s (g.wordStatement start context) fun a => [(none, .statement a)] := by
  refine .of fun p => .look .atAsyncFunction fun _ =>
    .ite (fun _ => .when (.of_fails .unexpected) <| .quiet .next fun _ =>
    hg.functionStatement.since) fun _ => .look .atAwaitUsing fun _ => .ite (fun _ => ?_) fun _ => ?_
  · exact .quiet .checkUsing fun _ => .quiet .awaitBeforeUsing fun _ => hg.declaration.since
  · exact .look .atUsing fun _ => .ite (fun _ => .quiet .checkUsing fun _ => hg.declaration.since) fun _ =>
      hg.expressionOrLabel.since

end Settled
end ScriptSyntax.Ambient
