import ScriptSyntax.Parser.ModuleItem
import ScriptSyntax.Proofs.Ambient.Statement
import ScriptSyntax.Parser.Program
import ScriptSyntax.Proofs.Ambient.ForStatement

/-!
Imports, exports and whole programs.  What imports and exports hold besides declarations and expressions asks for
nothing.  The grammar to any depth restores the ambient state, and what is legal in a program is told by the options.
-/

namespace ScriptSyntax.Ambient

open Node ParseM Grammar

variable {s : Setting} {p : Parser} {ns : List Part} {α β : Type}

namespace Covered

/-! ### Imports and exports -/

@[simp] theorem literal {l : Literal} : Covered ns (none, .literal l) := .of_parts rfl (by simp [parts, children])

@[simp] theorem moduleName {name : ModuleName} : Covered ns (none, name.node) := by
  cases name
  · exact identifier
  · exact literal

@[simp] theorem importSpecifier {i : ImportSpecifier} : Covered ns (none, .importSpecifier i) :=
  .of_parts rfl (by cases i <;> simp [parts, children, ImportSpecifier.children])

@[simp] theorem exportSpecifier {e : ExportSpecifier} : Covered ns (none, .exportSpecifier e) :=
  .of_parts rfl (by simp [parts, children])

@[simp] theorem importAttribute {a : ImportAttribute} : Covered ns (none, .importAttribute a) :=
  .of_parts rfl (by simp [parts, children])

end Covered

namespace Quiet

variable {m : ParseM α}

@[grind ←] theorem repeatPast {a : α} {pass : α → ParseM (Pass α β)} (each : ∀ a, Quiet s (pass a)) :
    Quiet s (repeatPast a pass) :=
  .of fun p => .repeatPast (a := a) (I := fun _ => Since p []) (Q := fun _ => Since p []) fun a =>
    (Leads.ofQuiet (each a)).weaken fun x _ after => by cases x <;> exact after

@[grind ←] theorem commaSeparated {close : TokenKind} {trailing : Bool} (h : Quiet s m) :
    Quiet s (commaSeparated close trailing m) := (Adds.commaSeparated h).weaken fun _ _ mem => nomatch mem

theorem forM {f : α → ParseM PUnit} (each : ∀ a, Quiet s (f a)) : ∀ as : List α, Quiet s (as.forM f)
  | [] => pure
  | a :: as => bind (each a) fun _ => forM each as

theorem «unless» {c : Prop} [Decidable c] {w : ParseM PUnit} {g : PUnit → ParseM α} (h : Quiet s w)
    (rest : Quiet s (g ⟨⟩)) :
    Quiet s (if c then g ⟨⟩ else w >>= g) := ite rest (bind h fun _ => rest)

@[grind ←] theorem moduleName : Quiet s moduleName := by
  refine bind (of_looks .since) fun _ => bind (of_looks .isKind) fun _ => ite ?_ (bind anyWord fun _ => pure)
  exact bind stringLiteral fun _ => ite (of_fails (.bind .fail)) pure

@[grind ←] theorem attributeKey : Quiet s attributeKey :=
  bind (of_looks .isKind) fun _ => ite (bind stringLiteral fun _ => pure) (bind propertyWord fun _ => pure)

@[grind ←] theorem attributes : Quiet s attributes := by
  refine bind expect fun _ => repeatPast fun found => bind eat fun _ => ite pure ?_
  refine «unless» expect (bind (andM pure eat) fun _ => ite pure ?_)
  refine bind (of_looks .startNode) fun _ => bind attributeKey fun key => bind expect fun _ =>
    bind stringLiteral fun _ => ?_
  exact ite (of_fails (.bind .failRecoverable)) (bind (of_looks .finishSpan) fun _ => pure)

@[grind ←] theorem withClause : Quiet s withClause :=
  bind (of_looks .edition) fun _ => ite pure (bind eat fun _ => ite (bind attributes fun _ => pure) pure)

@[grind ←] theorem importBinding : Quiet s importBinding :=
  bind identifier fun _ => bind checkBinding fun _ => pure

@[grind ←] theorem namedImport : Quiet s namedImport := by
  have finish {start : NodeStart} {imported : ModuleName} {binding : Identifier} :
      Quiet s (do return ImportSpecifier.named (← finishSpan start) imported binding) :=
    bind (of_looks .finishSpan) fun _ => pure
  refine bind (of_looks .startNode) fun _ => bind moduleName fun imported => bind eatContextual fun _ =>
    ite (bind importBinding fun _ => finish) ?_
  cases imported with
  | identifier => exact bind checkName fun _ => bind checkBinding fun _ => finish
  | string => exact of_fails (.bind .fail)

@[grind ←] theorem importedNames : Quiet s importedNames :=
  bind (of_looks .isKind) fun _ => ite
    (bind (of_looks .startNode) fun _ => bind next fun _ => bind expectContextual fun _ => bind importBinding fun _ =>
      bind (of_looks .finishSpan) fun _ => pure)
    (bind expect fun _ => commaSeparated namedImport)

@[grind ←] theorem importSpecifiers : Quiet s importSpecifiers :=
  bind (of_looks .isKind) fun _ => ite
    (bind (of_looks .startNode) fun _ => bind importBinding fun _ => bind (of_looks .finishSpan) fun _ =>
      bind eat fun _ => ite (bind importedNames fun _ => pure) pure)
    importedNames

@[grind ←] theorem noteExport {topLevel : Bool} {name : String} {pos : Nat} : Quiet s (noteExport topLevel name pos) :=
  ite (sees fun _ => ite (of_fails (.bind .failRecoverable))
    (modify fun _ => .still ⟨rfl, .refl _, rfl, rfl, rfl⟩ id)) pure

@[grind ←] theorem exportSpecifier {topLevel : Bool} : Quiet s (exportSpecifier topLevel) :=
  have finish {start : NodeStart} {inner exported : ModuleName} : Quiet s (do
      ParseM.noteExport topLevel exported.name exported.span.start
      return ExportSpecifier.mk (← finishSpan start) inner exported) :=
    bind noteExport fun _ => bind (of_looks .finishSpan) fun _ => pure
  bind (of_looks .startNode) fun _ => bind moduleName fun _ => bind eatContextual fun _ =>
    ite (bind moduleName fun _ => finish) (bind pure fun _ => finish)

@[grind ←] theorem checkLocalExport {e : ExportSpecifier} : Quiet s (checkLocalExport e) := by
  unfold ParseM.checkLocalExport
  split
  · exact bind checkName fun _ => modify fun _ => .still ⟨rfl, .exportLocal .., rfl, rfl, rfl⟩ id
  · exact of_fails .fail

@[grind ←] theorem checkModuleItem {topLevel : Bool} : Quiet s (checkModuleItem topLevel) := by
  grind [Grammar.checkModuleItem]

end Quiet

theorem importDeclaration_adds {start : NodeStart} :
    Adds s (importDeclaration start) fun a => [(none, .statement a)] := by
  have rest {p : Parser} (specifiers : List ImportSpecifier) : Leads s (Since p [])
      (do
        let from' ← stringLiteral
        let attributes ← withClause
        semicolon
        return .importDeclaration (← finishSpan start) specifiers from' attributes)
      fun a => Since p [(none, .statement a)] :=
    .quiet .stringLiteral fun _ => .quiet .withClause fun _ => .quiet .semicolon fun _ => .look .finishSpan fun _ =>
      .done (.nodeOf rfl (by simp [parts, children, Statement.children, or_imp, forall_and]))
  refine .of fun p => .quiet .next fun _ => .look .isKind fun _ => .ite (fun _ => .given (rest [])) fun _ => ?_
  exact .quiet .importSpecifiers fun _ => .quiet .expectContextual fun _ => .given (rest _)

theorem exportNames_adds {start : NodeStart} {topLevel : Bool} :
    Adds s (exportNames start topLevel) fun a => [(none, .statement a)] := by
  have rest {p : Parser} {specifiers : List ExportSpecifier} (from' : Option Literal)
      (attributes : Option (List ImportAttribute)) : Leads s (Since p [])
        (do
          semicolon
          return .exportNamed (← finishSpan start) none specifiers from' attributes)
        fun a => Since p [(none, .statement a)] :=
    .quiet .semicolon fun _ => .look .finishSpan fun _ =>
      .done (.nodeOf rfl (by simp [parts, children, Statement.children, or_imp, forall_and]))
  refine .of fun p => .quiet .expect fun _ => .quiet (.commaSeparated .exportSpecifier) fun specifiers =>
    .quiet .eatContextual fun _ => .ite (fun _ => ?_) fun _ => ?_
  · exact .quiet .stringLiteral fun _ => .quiet .withClause fun _ => .given (rest _ _)
  · exact .quiet (.forM (fun _ => .checkLocalExport) _) fun _ => .given (rest none none)

theorem exportAll_adds {start : NodeStart} {topLevel : Bool} :
    Adds s (exportAll start topLevel) fun a => [(none, .statement a)] := by
  have rest {p : Parser} (exported : Option ModuleName) : Leads s (Since p [])
      (do
        expectContextual "from"
        let from' ← stringLiteral
        let attributes ← withClause
        semicolon
        return .exportAll (← finishSpan start) exported from' attributes)
      fun a => Since p [(none, .statement a)] :=
    .quiet .expectContextual fun _ => .quiet .stringLiteral fun _ => .quiet .withClause fun _ =>
      .quiet .semicolon fun _ =>
      .look .finishSpan fun _ => .done (.nodeOf rfl (by simp [parts, children, Statement.children, or_imp, forall_and]))
  refine .of fun p => .quiet (.andM (.of_looks .since) .eatContextual) fun _ => .ite (fun _ => ?_) fun _ =>
    .given (rest none)
  exact .quiet .moduleName fun _ => .look .lexer fun _ => .quiet .noteExport fun _ => .given (rest _)

namespace Settled

variable {g : Grammar} (hg : Settled s g)
include hg

theorem defaultExport : Adds s g.defaultExport fun d => [(none, d.node)] := by
  refine .of fun p => .look .atAsyncFunction fun _ => .look .isKind fun _ => .ite (fun _ => ?_) fun _ =>
    .look .isKind fun _ => .ite (fun _ => ?_) fun _ => ?_
  · refine .look .startNode fun _ => .quiet .next fun _ => .when .next <| .adds hg.function fun _ => .done ?_
    exact .node rfl fun _ mem => mem
  · exact .adds hg.classDefinition fun _ => .done (.node rfl fun _ mem => mem)
  · exact .adds hg.plainAssignment fun _ => .quiet .semicolon fun _ => .done fun _ mem => .of_mem mem

theorem exportedDeclaration {start : NodeStart} {topLevel : Bool} :
    Adds s (g.exportedDeclaration start topLevel) fun a => [(none, .statement a)] := by
  refine .of fun p => .adds (hg.statement none false) fun declaration =>
    .quiet (.forM (fun _ => .noteExport) _) fun _ =>
    .look .since fun _ => .choose (R := fun _ => Since p [(none, .statement declaration)]) (fun _ => .pure fun _ => id)
      (fun _ => .pure fun _ => id) fun _ => .look .finishSpan fun _ => .done (.nodeOf rfl ?_)
  simpa [parts, children, Statement.children, or_imp, forall_and] using .of_mem (.head _)

theorem exportDeclaration {start : NodeStart} {topLevel : Bool} :
    Adds s (g.exportDeclaration start topLevel) fun a => [(none, .statement a)] := by
  refine .of fun p => .quiet .next fun _ => .quiet .eat fun _ => .ite (fun _ => exportAll_adds.since) fun _ =>
    .quiet .eat fun _ => .ite (fun _ => ?_) fun _ => .look .atExportedDeclaration fun _ =>
      .ite (fun _ => hg.exportedDeclaration.since) fun _ => exportNames_adds.since
  exact .look .lexer fun _ => .quiet .noteExport fun _ => .adds hg.defaultExport fun _ => .look .finishSpan fun _ =>
    .done (.node rfl (by simp [parts, children, Statement.children]))

theorem importStatement {start : NodeStart} {topLevel : Bool} :
    Adds s (g.importStatement start topLevel) fun a => [(none, .statement a)] :=
  .of fun _ => .look .atImportExpression fun _ =>
    .ite (fun _ => .adds hg.plainExpression fun _ => expressionStatement_leads)
    fun _ => .quiet .checkModuleItem fun _ => importDeclaration_adds.since

theorem exportStatement {start : NodeStart} {topLevel : Bool} :
    Adds s (g.exportStatement start topLevel) fun a => [(none, .statement a)] :=
  .of fun _ => .quiet .checkModuleItem fun _ => hg.exportDeclaration.since

end Settled

/-! ### The grammar to any depth -/

namespace Quiet

@[grind ←] theorem checkFunctionPlace {context : Option StatementContext} : Quiet s (checkFunctionPlace context) := by
  cases context with
  | none => exact pure
  | some => grind [Grammar.checkFunctionPlace]

@[grind ←] theorem checkExports : Quiet s checkExports := by grind [ParseM.checkExports]

@[grind ←] theorem readNext : Quiet s (ParseM.ofLexer LexM.readNext) := .ofLexer (by grind)

end Quiet

namespace Settled

variable {g : Grammar} (hg : Settled s g)
include hg

theorem statementLevel {context : Option StatementContext} {topLevel : Bool} :
    Adds s (g.statementLevel context topLevel) fun a => [(none, .statement a)] := by
  refine .of fun p => .look .startNode fun _ => .look .atLet fun _ =>
    .ite (fun _ => hg.variableStatement.since) fun _ =>
    .look .kind fun _ => ?_
  split
  · exact jump_adds.since
  · exact jump_adds.since
  · exact debuggerStatement_adds.since
  · exact hg.doWhileStatement.since
  · exact hg.forStatement.since
  · exact .quiet .checkFunctionPlace fun _ => hg.functionStatement.since
  · exact .when (.of_fails .unexpected) <| .adds hg.classDefinition fun _ => .done (.node rfl fun _ mem => mem)
  · exact hg.ifStatement.since
  · exact hg.returnStatement.since
  · exact hg.switchStatement.since
  · exact hg.throwStatement.since
  · exact hg.tryStatement.since
  · exact hg.variableStatement.since
  · exact hg.variableStatement.since
  · exact hg.whileStatement.since
  · exact hg.withStatement.since
  · exact .adds hg.block fun _ => .done fun _ mem => .of_mem mem
  · exact .quiet .next fun _ => .look .finishSpan fun _ => .done (.leaf rfl rfl)
  · exact hg.exportStatement.since
  · exact hg.importStatement.since
  · exact hg.wordStatement.since

theorem level : Settled s (g.level noExtension) where
  statement _ _ _ := .nested (hg.statementLevel _) fun _ _ => .nested
  assigns _ _ d := .nested (hg.assignmentLevel d) fun _ _ after => { after with since := after.since.nested }
  operates _ _ _ _ d := .nested (hg.unaryLevel d) fun _ _ after => { after with since := after.since.nested }
  begins _ _ _ d := .nested (hg.atomLevel d) fun _ _ after => { after with since := after.since.nested }
  bindingAtom _ := .nested (hg.bindingLevel _) fun _ _ => .nested

theorem program : Adds s (ParseM.program g) fun a => [(none, .program a)] := by
  refine .of fun p => .look .startNode fun _ => .quiet (by grind) fun _ =>
    .adds (.collectUntil (hg.statement none true)) fun body =>
    .quiet .checkExports fun _ => withDirectives_covered.bind fun found => .known fun covered =>
      .quiet .next fun _ => ?_
  refine .look .finishSpan fun _ => .look .options fun _ => .done (.nodeOf rfl fun x part => ?_)
  refine (covered x ?_).mono ?_
  · simpa [parts, children, Function.comp_def] using part
  · simp [List.map_eq_flatMap]

end Settled

/-- Every production restores the ambient state, however deep productions may nest in it. -/
theorem settled_ofDepth : ∀ depth, Settled s (ofDepth noExtension depth)
  | 0 =>
    { statement := fun _ _ _ => .fails .tooDeep
      assigns := fun _ _ => .fails .tooDeep
      operates := fun _ _ _ _ => .fails .tooDeep
      begins := fun _ _ _ => .fails .tooDeep
      bindingAtom := fun _ => .fails .tooDeep }
  | depth + 1 => (settled_ofDepth depth).level

end ScriptSyntax.Ambient
