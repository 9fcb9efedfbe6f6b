import ScriptSyntax.Parser.ModuleItem
import ScriptSyntax.Proofs.Parser.Statement

/-!
Runs that read imports and exports.
-/

namespace ScriptSyntax

open Runs

variable {s : Setting} {p q r : Parser} {g : Grammar} {start : NodeStart} {a : Statement} {l : Lexer}
  {topLevel b : Bool} {name key : ModuleName} {from' : Literal} {found : Option (List ImportAttribute)}
  {ns : List Node} {u : Unit}

namespace Reads

/-! ### Names and attributes -/

theorem moduleName (run : Runs s ParseM.moduleName p name q) :
    Reads s none p.lexer q.lexer true [name.node] := by
  simp [ParseM.moduleName] at run
  rcases run with ⟨-, literal, run, -, rfl⟩ | ⟨-, id, run, rfl⟩
  · exact .stringLiteral run rfl rfl
  · exact .anyWord run rfl rfl

theorem attributeKey (run : Runs s ParseM.attributeKey p key q) :
    Reads s none p.lexer q.lexer true [key.node] := by
  simp [ParseM.attributeKey] at run
  rcases run with ⟨-, literal, run, rfl⟩ | ⟨-, id, run, rfl⟩
  · exact .stringLiteral run rfl rfl
  · exact .propertyWord run rfl rfl

/-- A key, a colon and a value. -/
theorem importAttribute {value : Literal} {p₁ p₂ : Parser} (keyRun : Runs s ParseM.attributeKey p key p₁)
    (colon : p₁.lexer.kind = .colon) (moved : Runs s ParseM.next p₁ u p₂)
    (valueRun : Runs s ParseM.stringLiteral p₂ value q) :
    Reads s none p.lexer q.lexer true
      [.importAttribute
        ⟨spanTo s ⟨p.lexer.token.start, p.lexer.token.startPosition⟩ q.lexer, key, value⟩] := by
  have read := (attributeKey keyRun).trans (.next moved colon rfl)
  exact (read.trans (.stringLiteral valueRun rfl rfl)).node rfl rfl rfl trivial

theorem attributes {as : List ImportAttribute} (run : Runs s ParseM.attributes p as q) :
    Reads s none p.lexer q.lexer true (as.map .importAttribute) := by
  simp [ParseM.attributes] at run
  obtain ⟨p₁, ⟨opens, moved⟩, loop⟩ := run
  obtain ⟨found, r, read, done⟩ := Runs.of_repeatPast
    (fun found r => Reads s none p₁.lexer r.lexer false (found.reverse.map .importAttribute)) .refl (by
      intro found next r r' read pass
      cases found <;> simp at pass
      · obtain ⟨-, key, r₁, keyRun, r₂, ⟨colon, moved⟩, value, valueRun, rfl⟩ := pass
        exact (read.trans (importAttribute keyRun colon moved valueRun)).weaken
      · obtain ⟨-, r₁, ⟨comma, moved⟩, -, key, r₂, keyRun, r₃, ⟨colon, moved'⟩, value, valueRun, -, rfl⟩ :=
          pass
        have next := read.trans (.next moved comma rfl)
        simpa using (next.trans (importAttribute keyRun colon moved' valueRun)).weaken) loop
  have read := (Reads.next moved opens rfl).trans read
  cases found <;> simp at done
  · obtain ⟨⟨closes, moved⟩, rfl⟩ := done
    simpa using read.trans (.next moved closes rfl)
  · rcases done with ⟨-, r₁, ⟨comma, moved⟩, ⟨closes, moved'⟩, rfl⟩ | ⟨⟨closes, moved⟩, rfl⟩
    · simpa using (read.trans (.next moved comma rfl)).trans (.next moved' closes rfl)
    · simpa using read.trans (.next moved closes rfl)

theorem withClause (run : Runs s ParseM.withClause p found q) :
    Reads s none p.lexer q.lexer false ((found.getD []).map .importAttribute) := by
  simp [ParseM.withClause] at run
  rcases run with ⟨-, rfl, rfl⟩ | ⟨-, ⟨⟨-, rfl⟩, rfl⟩ | ⟨r, ⟨word, moved⟩, as, run, rfl⟩⟩
  · exact .refl
  · exact .refl
  · exact ((Reads.next moved word rfl).trans (attributes run)).weaken

/-- The name of a module, and the attributes and the semicolon after it. -/
theorem fromModule {p₁ p₂ : Parser} (run : Runs s ParseM.stringLiteral p from' p₁)
    (clause : Runs s ParseM.withClause p₁ found p₂) (ended : Runs s ParseM.semicolon p₂ u q) :
    Reads s none p.lexer q.lexer true (.literal from' :: (found.getD []).map .importAttribute) := by
  have read := (Reads.stringLiteral (n := .literal from') run rfl rfl).trans (withClause clause)
  simpa using read.trans (.semicolon ended)

/-! ### Imports -/

theorem importBinding {id : Identifier} (run : Runs s ParseM.importBinding p id q) :
    Reads s none p.lexer q.lexer true [.identifier id] := by
  simp [ParseM.importBinding] at run
  obtain ⟨r, run, bound⟩ := run
  rw [checkBinding_lexer bound]
  exact .identifier run rfl rfl

theorem namedImport {i : ImportSpecifier} (run : Runs s ParseM.namedImport p i q) :
    Reads s none p.lexer q.lexer true [.importSpecifier i] := by
  simp [ParseM.namedImport] at run
  obtain ⟨imported, p₁, nameRun, ⟨-, run⟩ | ⟨p₂, ⟨⟨word, -⟩, moved⟩, id, run, rfl⟩⟩ := run
  · have read := moduleName nameRun
    cases imported with
    | identifier id =>
      simp at run
      obtain ⟨p₂, checked, bound, rfl⟩ := run
      obtain rfl := checkName checked
      rw [← checkBinding_lexer bound] at read
      exact read.clone (.inl rfl) .refl rfl rfl rfl rfl trivial
    | string literal => simp at run
  · have read := (moduleName nameRun).trans (.next moved word rfl)
    exact (read.trans (importBinding run)).node rfl rfl rfl trivial

theorem importedNames {is : List ImportSpecifier} (run : Runs s ParseM.importedNames p is q) :
    Reads s none p.lexer q.lexer true (is.map .importSpecifier) := by
  simp [ParseM.importedNames] at run
  rcases run with ⟨star, p₁, moved, p₂, ⟨⟨word, -⟩, moved'⟩, id, run, rfl⟩ | ⟨-, p₁, ⟨opens, moved⟩, run⟩
  · have read := (Reads.next moved star rfl).trans (.next moved' word rfl)
    exact (read.trans (importBinding run)).node rfl rfl rfl trivial
  · exact (Reads.next moved opens rfl).trans (.commaSeparated rfl namedImport run)

theorem importSpecifiers {is : List ImportSpecifier} (run : Runs s ParseM.importSpecifiers p is q) :
    Reads s none p.lexer q.lexer true (is.map .importSpecifier) := by
  simp [ParseM.importSpecifiers] at run
  rcases run with ⟨-, id, p₁, bindingRun, h⟩ | ⟨-, run⟩
  · have main := (importBinding bindingRun).node (n := .importSpecifier
      (.main (spanTo s ⟨p.lexer.token.start, p.lexer.token.startPosition⟩ p₁.lexer) id)) rfl rfl rfl trivial
    rcases h with ⟨⟨-, rfl⟩, rfl⟩ | ⟨p₂, ⟨comma, moved⟩, is, run, rfl⟩
    · exact main
    · exact (main.trans (.next moved comma rfl)).trans (importedNames run)
  · exact importedNames run

theorem importDeclaration (word : p.lexer.kind.isTracked = false) (here : start.pos = p.lexer.token.start)
    (run : Runs s (ParseM.importDeclaration start) p a q) :
    Reads s none p.lexer q.lexer true [.statement a] := by
  simp [ParseM.importDeclaration, -semicolon_iff] at run
  obtain ⟨p₁, moved, ⟨-, from', p₂, fromRun, found, p₃, clause, ended, rfl⟩ |
    ⟨-, is, p₂, names, p₃, ⟨⟨fromWord, -⟩, moved'⟩, from', p₄, fromRun, found, p₅, clause, ended, rfl⟩⟩ := run
  · have read := (Reads.next moved rfl word).trans (fromModule fromRun clause ended)
    exact read.node rfl here rfl trivial
  · have read := (Reads.next moved rfl word).trans (importSpecifiers names)
    have read := (read.trans (.next moved' fromWord rfl)).trans (fromModule fromRun clause ended)
    exact read.node (by simp [Node.children, Statement.children]) here rfl trivial

/-! ### Exports -/

theorem noteExport_lexer {name : String} {pos : Nat}
    (run : Runs s (ParseM.noteExport topLevel name pos) p u q) : q.lexer = p.lexer := by
  simp [ParseM.noteExport] at run
  rcases run with ⟨-, -, rfl⟩ | ⟨-, rfl⟩ <;> rfl

theorem exportSpecifier {e : ExportSpecifier} (run : Runs s (ParseM.exportSpecifier topLevel) p e q) :
    Reads s none p.lexer q.lexer true [.exportSpecifier e] := by
  simp [ParseM.exportSpecifier] at run
  obtain ⟨inner, p₁, innerRun, ⟨-, noted, rfl⟩ |
    ⟨p₂, ⟨⟨word, -⟩, moved⟩, exported, p₃, exportedRun, noted, rfl⟩⟩ := run
  · rw [noteExport_lexer noted]
    have same : inner.node.IsClone inner.node := by
      cases inner with
      | identifier _ => exact .inl rfl
      | string literal => exact .inr ⟨literal, rfl, rfl⟩
    exact (moduleName innerRun).clone same .refl rfl rfl rfl rfl trivial
  · rw [noteExport_lexer noted]
    have read := (moduleName innerRun).trans (.next moved word rfl)
    exact (read.trans (moduleName exportedRun)).node rfl rfl rfl trivial

theorem checkLocalExport_lexer {e : ExportSpecifier} (run : Runs s (ParseM.checkLocalExport e) p u q) :
    q.lexer = p.lexer := by
  cases inner : e.inner <;> simp [ParseM.checkLocalExport, inner] at run
  obtain ⟨r, checked, rfl⟩ := run
  rw [checkName checked]

/-- A step on each item that leaves the lexer alone does so for all of them. -/
theorem forM_lexer {α : Type} {step : α → ParseM PUnit} {as : List α}
    (each : ∀ {a : α} {p q : Parser} {u : PUnit}, Runs s (step a) p u q → q.lexer = p.lexer)
    (run : Runs s (as.forM step) p u q) : q.lexer = p.lexer := by
  induction as generalizing p with
  | nil =>
    simp at run
    rw [run]
  | cons a as ih =>
    simp at run
    obtain ⟨r, first, rest⟩ := run
    rw [ih rest, each first]

theorem exportNames (before : Reads s none l p.lexer true []) (here : start.pos = l.token.start)
    (run : Runs s (ParseM.exportNames start topLevel) p a q) :
    Reads s none l q.lexer true [.statement a] := by
  simp [ParseM.exportNames, -semicolon_iff] at run
  obtain ⟨p₁, ⟨opens, moved⟩, es, p₂, list, ⟨-, p₃, checked, ended, rfl⟩ |
    ⟨p₃, ⟨⟨word, -⟩, moved'⟩, from', p₄, fromRun, found, p₅, clause, ended, rfl⟩⟩ := run
  · have read := (before.trans (.next moved opens rfl)).trans (.commaSeparated rfl exportSpecifier list)
    rw [← forM_lexer checkLocalExport_lexer checked] at read
    exact (read.trans (.semicolon ended)).node (by simp [Node.children, Statement.children]) here rfl trivial
  · have read := (before.trans (.next moved opens rfl)).trans (.commaSeparated rfl exportSpecifier list)
    have read := (read.trans (.next moved' word rfl)).trans (fromModule fromRun clause ended)
    exact read.node (by simp [Node.children, Statement.children]) here rfl trivial

theorem exportAll (before : Reads s none l p.lexer true []) (here : start.pos = l.token.start)
    (run : Runs s (ParseM.exportAll start topLevel) p a q) :
    Reads s none l q.lexer true [.statement a] := by
  simp [ParseM.exportAll, -semicolon_iff] at run
  rcases run with ⟨p₁, h, p₂, ⟨⟨word, -⟩, moved⟩, from', p₃, fromRun, found, p₄, clause, ended, rfl⟩ |
    ⟨p₁, ⟨-, ⟨as', -⟩, moved⟩, name, p₂, nameRun, p₃, noted, p₄, ⟨⟨word, -⟩, moved'⟩, from', p₅, fromRun,
      found, p₆, clause, ended, rfl⟩
  · obtain rfl : p₁ = p := by rcases h with ⟨-, -, same⟩ | ⟨-, same⟩ <;> exact same
    have read := (before.trans (.next moved word rfl)).trans (fromModule fromRun clause ended)
    exact read.node rfl here rfl trivial
  · have read := (before.trans (.next moved as' rfl)).trans (moduleName nameRun)
    rw [← noteExport_lexer noted] at read
    have read := (read.trans (.next moved' word rfl)).trans (fromModule fromRun clause ended)
    exact read.node rfl here rfl trivial

theorem atExportedDeclaration_same (run : Runs s ParseM.atExportedDeclaration p b q) : q = p := by
  simp only [ParseM.atExportedDeclaration, bind_iff, kind_iff, exists_look] at run
  split at run
  case h_5 =>
    simp at run
    rcases run with ⟨r, notLet, ⟨look, -⟩ | ⟨look, -⟩⟩ | ⟨r, notLet, ⟨look, -⟩ | ⟨look, -⟩⟩ <;>
      rw [(atAsyncFunction_spec look).1, (atLet_spec notLet).1]
  all_goals exact (pure_iff.mp run).2

end Reads

namespace Grammar.Faithful

variable (hg : g.Faithful s)
include hg

theorem defaultExport {d : DefaultExport} (run : Runs s g.defaultExport p d q) :
    Reads s none p.lexer q.lexer true [d.node] := by
  simp [Grammar.defaultExport, -semicolon_iff] at run
  rcases run with ⟨r, notAsync, ⟨word, p₁, moved, f, function, rfl⟩ |
    ⟨-, ⟨word, c, definition, rfl⟩ | ⟨-, e, p₁, expression, ended, rfl⟩⟩⟩ |
    ⟨r, async, p₁, moved, p₂, moved', f, function, rfl⟩
  · obtain ⟨rfl, -⟩ := Reads.atAsyncFunction_spec notAsync
    exact hg.functionAfter (.next moved word rfl) rfl function
  · obtain ⟨rfl, -⟩ := Reads.atAsyncFunction_spec notAsync
    obtain ⟨read, start, stop⟩ := hg.classDefinition definition word
    exact read.node rfl start stop trivial
  · obtain ⟨rfl, -⟩ := Reads.atAsyncFunction_spec notAsync
    exact (hg.plainAssignment expression).trans (.semicolon ended)
  · obtain ⟨rfl, ahead⟩ := Reads.atAsyncFunction_spec async
    obtain ⟨name, letter⟩ := ahead rfl
    have words := Reads.wordAhead moved name letter (by decide) moved' (function_begins function)
    exact hg.functionAfter words rfl function

theorem exportedDeclaration (before : Reads s none l p.lexer true []) (here : start.pos = l.token.start)
    (run : Runs s (g.exportedDeclaration start topLevel) p a q) :
    Reads s none l q.lexer true [.statement a] := by
  simp [Grammar.exportedDeclaration] at run
  obtain ⟨declaration, p₁, step, p₂, noted, h⟩ := run
  have read := before.trans (hg.statement step)
  rw [← Reads.forM_lexer Reads.noteExport_lexer noted] at read
  rcases h with ⟨-, rfl, rfl⟩ | ⟨-, rfl, rfl⟩ <;> exact read.node rfl here rfl trivial

theorem exportDeclaration (word : p.lexer.kind.isTracked = false) (here : start.pos = p.lexer.token.start)
    (run : Runs s (g.exportDeclaration start topLevel) p a q) :
    Reads s none p.lexer q.lexer true [.statement a] := by
  simp [Grammar.exportDeclaration] at run
  obtain ⟨p₁, moved, ⟨-, ⟨-, ⟨p₂, look, run⟩ | ⟨p₂, look, run⟩⟩ |
    ⟨p₂, ⟨default, moved'⟩, p₃, noted, d, run, rfl⟩⟩ | ⟨p₂, ⟨star, moved'⟩, run⟩⟩ := run
  · obtain rfl := Reads.atExportedDeclaration_same look
    exact .exportNames (.next moved rfl word) here run
  · obtain rfl := Reads.atExportedDeclaration_same look
    exact hg.exportedDeclaration (.next moved rfl word) here run
  · have read := (Reads.next moved rfl word).trans (.next moved' default rfl)
    rw [← Reads.noteExport_lexer noted] at read
    exact (read.trans (hg.defaultExport run)).node rfl here rfl trivial
  · exact .exportAll ((Reads.next moved rfl word).trans (.next moved' star rfl)) here run

omit hg in
theorem checkModuleItem_same (run : Runs s (checkModuleItem topLevel) p u q) : q = p := by
  simp [checkModuleItem] at run
  rcases run with ⟨-, same⟩ | ⟨-, -, -, same⟩ <;> exact same

omit hg in
theorem atImportExpression_same (run : Runs s atImportExpression p b q) : q = p := by
  simp [atImportExpression] at run
  rcases run with ⟨-, -, same⟩ | ⟨-, -, same⟩ <;> exact same

theorem importStatement (word : p.lexer.kind.isTracked = false) (here : start.pos = p.lexer.token.start)
    (run : Runs s (g.importStatement start topLevel) p a q) :
    Reads s none p.lexer q.lexer true [.statement a] := by
  simp [Grammar.importStatement] at run
  rcases run with ⟨p₁, look, p₂, checked, run⟩ | ⟨p₁, look, e, p₂, expression, run⟩
  · obtain rfl := atImportExpression_same look
    obtain rfl := checkModuleItem_same checked
    exact .importDeclaration word here run
  · obtain rfl := atImportExpression_same look
    exact expressionStatement (hg.plainExpression expression) here run

theorem exportStatement (word : p.lexer.kind.isTracked = false) (here : start.pos = p.lexer.token.start)
    (run : Runs s (g.exportStatement start topLevel) p a q) :
    Reads s none p.lexer q.lexer true [.statement a] := by
  simp [Grammar.exportStatement, -semicolon_iff] at run
  obtain ⟨r, checked, run⟩ := run
  obtain rfl := checkModuleItem_same checked
  exact hg.exportDeclaration word here run

end Grammar.Faithful
end ScriptSyntax
