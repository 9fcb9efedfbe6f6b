import ScriptSyntax.Parser.ModuleItem
import ScriptSyntax.Proofs.Review.Label

/-!
Imports and exports in the strict and in the lenient reading.
-/

namespace ScriptSyntax

open Node ParseM Grammar

variable {s : Setting} {p q : Parser} {b : Bool} {ns : List Node} {start : NodeStart} {topLevel : Bool}

/-! ### Nodes without marks -/

namespace Node.Covered

@[simp] theorem identifier {id : Identifier} : (Node.identifier id).Covered ns := .childless rfl rfl

@[simp] theorem literal {l : Literal} : (Node.literal l).Covered ns := .childless rfl rfl

@[simp] theorem moduleName {name : ModuleName} : name.node.Covered ns := by
  cases name
  · exact identifier
  · exact literal

@[simp] theorem importSpecifier {i : ImportSpecifier} : (Node.importSpecifier i).Covered ns :=
  .of_isPlain rfl (by cases i <;> simp [children, ImportSpecifier.children])

@[simp] theorem exportSpecifier {e : ExportSpecifier} : (Node.exportSpecifier e).Covered ns :=
  .of_isPlain rfl (by simp [children])

@[simp] theorem importAttribute {a : ImportAttribute} : (Node.importAttribute a).Covered ns :=
  .of_isPlain rfl (by simp [children])

theorem classDeclaration {c : Class} :
    (Node.statement (.classDeclaration c)).Covered [.expression (.classExpression c)] :=
  .of_children rfl rfl fun _ mem => .of_mem mem

end Node.Covered

namespace Quiet

variable {α β : Type} {m : ParseM α}

@[grind ←] theorem repeatPast {a : α} {pass : α → ParseM (Pass α β)} (each : ∀ a, Quiet s (pass a)) :
    Quiet s (repeatPast a pass) :=
  .of fun p => .repeatPast (a := a) (I := fun _ => Since s p false []) (Q := fun _ => Since s p false []) fun a =>
    (Tracks.ofQuiet (each a)).weaken fun x _ _ after => by cases x <;> exact after

@[grind ←] theorem commaSeparated {close : TokenKind} {trailing : Bool} (h : Quiet s m) :
    Quiet s (commaSeparated close trailing m) := (Adds.commaSeparated h).weaken id fun _ _ mem => by simp at mem

theorem forM {f : α → ParseM PUnit} (each : ∀ a, Quiet s (f a)) : ∀ as : List α, Quiet s (as.forM f)
  | [] => pure
  | a :: as => bind (each a) fun _ => forM each as

theorem «unless» {c : Prop} [Decidable c] {w : ParseM PUnit} {g : PUnit → ParseM α} (h : Quiet s w)
    (rest : Quiet s (g ⟨⟩)) :
    Quiet s (if c then g ⟨⟩ else w >>= g) := ite rest (bind h fun _ => rest)

@[grind ←] theorem moduleName : Quiet s moduleName := by
  refine bind (of_looks .since) fun _ => bind (of_looks .isKind) fun _ => ite ?_ (bind anyWord fun _ => pure)
  exact bind stringLiteral fun _ => ite (of_fails (.bind .fail)) pure

@[grind ←] theorem attributeKey : Quiet s attributeKey :=
  bind (of_looks .isKind) fun _ => ite (bind stringLiteral fun _ => pure) (bind propertyWord fun _ => pure)

@[grind ←] theorem attributes : Quiet s attributes := by
  refine bind expect fun _ => repeatPast fun found => bind eat fun _ => ite pure ?_
  refine «unless» expect (bind (andM pure eat) fun _ => ite pure ?_)
  refine bind (of_looks .startNode) fun _ => bind attributeKey fun key => bind expect fun _ =>
    bind stringLiteral fun _ => ?_
  exact ite (of_fails (.bind .failRecoverable)) (bind (of_looks .finishSpan) fun _ => pure)

@[grind ←] theorem withClause : Quiet s withClause :=
  bind (of_looks .edition) fun _ => ite pure (bind eat fun _ => ite (bind attributes fun _ => pure) pure)

@[grind ←] theorem importBinding : Quiet s importBinding :=
  bind identifier fun _ => bind checkBinding fun _ => pure

@[grind ←] theorem namedImport : Quiet s namedImport := by
  have finish {start : NodeStart} {imported : ModuleName} {binding : Identifier} :
      Quiet s (do return ImportSpecifier.named (← finishSpan start) imported binding) :=
    bind (of_looks .finishSpan) fun _ => pure
  refine bind (of_looks .startNode) fun _ => bind moduleName fun imported => bind eatContextual fun _ =>
    ite (bind importBinding fun _ => finish) ?_
  cases imported with
  | identifier => exact bind checkName fun _ => bind checkBinding fun _ => finish
  | string => exact of_fails (.bind .fail)

@[grind ←] theorem importedNames : Quiet s importedNames :=
  bind (of_looks .isKind) fun _ => ite
    (bind (of_looks .startNode) fun _ => bind next fun _ => bind expectContextual fun _ => bind importBinding fun _ =>
      bind (of_looks .finishSpan) fun _ => pure)
    (bind expect fun _ => commaSeparated namedImport)

@[grind ←] theorem importSpecifiers : Quiet s importSpecifiers :=
  bind (of_looks .isKind) fun _ => ite
    (bind (of_looks .startNode) fun _ => bind importBinding fun _ => bind (of_looks .finishSpan) fun _ =>
      bind eat fun _ => ite (bind importedNames fun _ => pure) pure)
    importedNames

@[grind ←] theorem noteExport {name : String} {pos : Nat} : Quiet s (noteExport topLevel name pos) :=
  ite (sees (fun _ => rfl) fun _ => ite (of_fails (.bind .failRecoverable))
    (modify (fun _ => rfl) (fun _ => rfl) (fun _ => rfl) fun _ => .refl)) pure

@[grind ←] theorem exportSpecifier : Quiet s (exportSpecifier topLevel) :=
  have finish {start : NodeStart} {inner exported : ModuleName} : Quiet s (do
      ParseM.noteExport topLevel exported.name exported.span.start
      return ExportSpecifier.mk (← finishSpan start) inner exported) :=
    bind noteExport fun _ => bind (of_looks .finishSpan) fun _ => pure
  bind (of_looks .startNode) fun _ => bind moduleName fun _ => bind eatContextual fun _ =>
    ite (bind moduleName fun _ => finish) (bind pure fun _ => finish)

@[grind ←] theorem checkLocalExport {e : ExportSpecifier} : Quiet s (checkLocalExport e) := by
  unfold ParseM.checkLocalExport
  split
  · exact bind checkName fun _ => modify (fun _ => rfl) (fun _ => rfl) (fun _ => rfl) fun _ => .refl
  · exact of_fails .fail

end Quiet

/-! ### Imports -/

theorem importDeclaration_adds :
    Adds s false (importDeclaration start) (importDeclaration start) fun a => [.statement a] := by
  have rest {p : Parser} (specifiers : List ImportSpecifier) : Tracks s (Since s p false [])
      (do
        let from' ← stringLiteral
        let attributes ← withClause
        semicolon
        return .importDeclaration (← finishSpan start) specifiers from' attributes)
      (do
        let from' ← stringLiteral
        let attributes ← withClause
        semicolon
        return .importDeclaration (← finishSpan start) specifiers from' attributes)
      fun a => Since s p false [.statement a] :=
    .quiet .stringLiteral fun _ => .quiet .withClause fun _ => .quiet .semicolon fun _ => .look .finishSpan fun _ =>
      .done id (.nodeOf rfl (by simp [children, Statement.children, or_imp, forall_and]))
  refine .of fun p => .quiet .next fun _ => .look .isKind fun _ => .ite (fun _ => .given (rest [])) fun _ => ?_
  exact .quiet .importSpecifiers fun _ => .quiet .expectContextual fun _ => .given (rest _)

/-! ### Exports -/

theorem exportNames_adds :
    Adds s false (exportNames start topLevel) (exportNames start topLevel) fun a => [.statement a] := by
  have rest {p : Parser} {specifiers : List ExportSpecifier} (from' : Option Literal)
      (attributes : Option (List ImportAttribute)) : Tracks s (Since s p false [])
        (do
          semicolon
          return .exportNamed (← finishSpan start) none specifiers from' attributes)
        (do
          semicolon
          return .exportNamed (← finishSpan start) none specifiers from' attributes)
        fun a => Since s p false [.statement a] :=
    .quiet .semicolon fun _ => .look .finishSpan fun _ =>
      .done id (.nodeOf rfl (by simp [children, Statement.children, or_imp, forall_and]))
  refine .of fun p => .quiet .expect fun _ => .quiet (.commaSeparated .exportSpecifier) fun specifiers =>
    .quiet .eatContextual fun _ => .ite (fun _ => ?_) fun _ => ?_
  · exact .quiet .stringLiteral fun _ => .quiet .withClause fun _ => .given (rest _ _)
  · exact .quiet (.forM (fun _ => .checkLocalExport) _) fun _ => .given (rest none none)

theorem exportAll_adds :
    Adds s false (exportAll start topLevel) (exportAll start topLevel) fun a => [.statement a] := by
  have rest {p : Parser} (exported : Option ModuleName) : Tracks s (Since s p false [])
      (do
        expectContextual "from"
        let from' ← stringLiteral
        let attributes ← withClause
        semicolon
        return .exportAll (← finishSpan start) exported from' attributes)
      (do
        expectContextual "from"
        let from' ← stringLiteral
        let attributes ← withClause
        semicolon
        return .exportAll (← finishSpan start) exported from' attributes)
      fun a => Since s p false [.statement a] :=
    .quiet .expectContextual fun _ => .quiet .stringLiteral fun _ => .quiet .withClause fun _ =>
      .quiet .semicolon fun _ =>
      .look .finishSpan fun _ => .done id (.nodeOf rfl (by simp [children, Statement.children, or_imp, forall_and]))
  refine .of fun p => .quiet (.andM (.of_looks .since) .eatContextual) fun _ => .ite (fun _ => ?_) fun _ =>
    .given (rest none)
  exact .quiet .moduleName fun _ => .look .lexer fun _ => .quiet .noteExport fun _ => .given (rest _)

/-- Whether a module item may stand here is checked without moving. -/
theorem Tracks.checkModuleItem {P : Parser → Log → Prop} :
    Tracks s P (checkModuleItem topLevel) (checkModuleItem topLevel) fun _ => P := by
  have inModule : Tracks s P
      (do unless (← read).inModule do fail (← tokenStart) .moduleItemInScript)
      (do unless (← read).inModule do fail (← tokenStart) .moduleItemInScript) fun _ => P :=
    .look .read fun _ => .ite (fun _ => .pure fun _ _ => id) fun _ =>
      .fails (.after fun _ => .fail) (.after fun _ => .fail)
  refine .look .options fun _ => .ite (fun _ => .pure fun _ _ => id) fun _ => .ite (fun _ => inModule) fun _ => ?_
  exact .fails (.after fun _ => .fail) (.after fun _ => .fail)

/-! ### What module items are -/

namespace ReturnsKind

theorem importDeclaration : ReturnsKind s none (importDeclaration start) := by
  have rest (specifiers : List ImportSpecifier) : ReturnsKind s none (do
      let from' ← stringLiteral
      let attributes ← withClause
      semicolon
      return .importDeclaration (← finishSpan start) specifiers from' attributes) :=
    after fun _ => after fun _ => after fun _ => finish fun _ => rfl
  exact after fun _ => after fun _ => ite (after fun _ => rest _) (after fun _ => after fun _ => after fun _ => rest _)

theorem exportNames : ReturnsKind s none (exportNames start topLevel) := by
  have rest (specifiers : List ExportSpecifier) (from' : Option Literal) (attributes : Option (List ImportAttribute)) :
      ReturnsKind s none (do
        semicolon
        return .exportNamed (← finishSpan start) none specifiers from' attributes) :=
    after fun _ => finish fun _ => rfl
  exact after fun _ => after fun _ => after fun _ =>
    ite (after fun _ => after fun _ => after fun _ => rest _ _ _) (after fun _ => after fun _ => rest _ _ _)

theorem exportAll : ReturnsKind s none (exportAll start topLevel) := by
  have rest (exported : Option ModuleName) : ReturnsKind s none (do
      expectContextual "from"
      let from' ← stringLiteral
      let attributes ← withClause
      semicolon
      return .exportAll (← finishSpan start) exported from' attributes) :=
    after fun _ => after fun _ => after fun _ => after fun _ => finish fun _ => rfl
  exact after fun _ => ite (after fun _ => after fun _ => after fun _ => after fun _ => rest _) (after fun _ => rest _)

variable {g : Grammar}

theorem exportedDeclaration : ReturnsKind s none (g.exportedDeclaration start topLevel) :=
  after fun _ => after fun _ => after fun _ => ite (after fun _ => finish fun _ => rfl)
    (after fun _ => finish fun _ => rfl)

theorem exportStatement : ReturnsKind s none (g.exportStatement start topLevel) :=
  after fun _ => after fun _ => after fun _ => ite exportAll <| after fun _ =>
    ite (after fun _ => after fun _ => after fun _ => finish fun _ => rfl) <| after fun _ =>
      ite exportedDeclaration exportNames

theorem importStatement : ReturnsKind s none (g.importStatement start topLevel) :=
  after fun _ => ite (after fun _ => expressionStatement) (after fun _ => importDeclaration)

end ReturnsKind

namespace Grammar.Reviewed

variable {g₀ g₁ : Grammar} (hg : g₀.Reviewed s g₁)
include hg

theorem defaultExport : Adds s false g₀.defaultExport g₁.defaultExport fun d => [d.node] := by
  refine .of fun p => .look .atAsyncFunction fun _ => .look .isKind fun _ => .ite (fun _ => ?_) fun _ =>
    .look .isKind fun _ => .ite (fun _ => ?_) fun _ => ?_
  · refine .look .startNode fun _ => .quiet .next fun _ => .when .next <| .adds hg.function fun _ => .done id ?_
    exact List.forall_mem_singleton.mpr (.of_functionDeclaration (.head _))
  · exact .adds hg.classDefinition fun _ => .done id (List.forall_mem_singleton.mpr .classDeclaration)
  · exact .adds hg.plainAssignment fun _ => .quiet .semicolon fun _ => .done id fun _ mem => .of_mem mem

theorem exportedDeclaration :
    AddsBehind s false (g₀.exportedDeclaration start topLevel) (g₁.exportedDeclaration start topLevel)
      fun a => [.statement a] := by
  refine fun p ready behind => .startBehind ready behind (.behind hg.statement_behind fun declaration => ?_)
  refine .quiet (.forM (fun _ => .noteExport) _) fun _ => .look .since fun _ =>
    .choose (R := fun _ => Since s p true [.statement declaration]) (fun _ => .pure fun _ _ => id)
      (fun _ => .pure fun _ _ => id) fun _ => .look .finishSpan fun _ => .done (by simp) (.nodeOf rfl ?_)
  simp [children, Statement.children, or_imp, forall_and]

theorem exportDeclaration (ready : Steady s p) (solid : p.lexer.kind.isSolid = true) :
    Tracks s (At p) (g₀.exportDeclaration start topLevel) (g₁.exportDeclaration start topLevel)
      fun a => Since s p true [.statement a] := by
  refine .past ready solid <| .quiet .eat fun _ => .ite (fun _ => exportAll_adds.since) fun _ =>
    .quiet .eat fun _ => .ite (fun _ => ?_) fun _ => .look .atExportedDeclaration fun _ =>
      .ite (fun _ => hg.exportedDeclaration.since) fun _ => exportNames_adds.since
  exact .look .lexer fun _ => .quiet .noteExport fun _ => .adds hg.defaultExport fun _ => .look .finishSpan fun _ =>
    .done (by simp) (.node rfl (by simp [children, Statement.children]))

theorem importStatement :
    Adds s false (g₀.importStatement start topLevel) (g₁.importStatement start topLevel) fun a => [.statement a] :=
  .of fun _ => .look .atImportExpression fun _ =>
    .ite (fun _ => .adds hg.plainExpression fun _ => expressionStatement_tracks)
    fun _ => .bind .checkModuleItem fun _ => importDeclaration_adds.since

theorem exportStatement (ready : Steady s p) (solid : p.lexer.kind.isSolid = true) :
    Tracks s (At p) (g₀.exportStatement start topLevel) (g₁.exportStatement start topLevel)
      fun a => Since s p true [.statement a] :=
  .bind .checkModuleItem fun _ => hg.exportDeclaration ready solid

end Grammar.Reviewed
end ScriptSyntax
