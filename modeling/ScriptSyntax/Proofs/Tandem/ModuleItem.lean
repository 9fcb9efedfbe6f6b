import ScriptSyntax.Parser.ModuleItem
import ScriptSyntax.Proofs.Tandem.Statement

/-!
Imports and exports, in two parsers side by side.  An export that is not declared so far is noted with its
offset.
-/

namespace ScriptSyntax

open ParseM

namespace Tandem

open Node Grammar

variable {t : Twins} {x y : NodeStart}

/-! ### Names of modules and attributes -/

/-- The name fits. -/
abbrev NameFits (t : Twins) (name : ModuleName) : Prop := Fits t name.node

theorem placed_of_nameFits {name : ModuleName} (fits : NameFits t name) : t.Placed name.span.start := by
  cases name <;> exact fits.span.start

theorem Quiet.forM {α : Type} {body : α → ParseM PUnit} {xs : List α} (each : ∀ x ∈ xs, Quiet t (body x)) :
    Quiet t (xs.forM body) := by
  induction xs with
  | nil => exact .done trivial
  | cons x rest ih =>
    obtain ⟨here, below⟩ := List.forall_mem_cons.mp each
    exact here.bind fun _ => ih below

namespace Gives

theorem moduleName : Gives t moduleName moduleName (NameFits t) := by
  refine .quiet .since fun _ => .quiet .isKind fun _ =>
    .ite (fun _ => .step .stringLiteral fun l fits => ?_) fun _ => ?_
  · exact .guard (fun _ => .fail fits.1.span.start nofun) fun _ => .done fits.1
  · exact .step .anyWord fun id spans => .done (name_fits spans).1

theorem attributeKey : Gives t attributeKey attributeKey (NameFits t) := by
  refine .quiet .isKind fun _ => .ite (fun _ => .step .stringLiteral fun l fits => .done fits.1) fun _ => ?_
  exact .step .propertyWord fun id spans => .done (name_fits spans).1

theorem attributes : Gives t attributes attributes fun found => ∀ a ∈ found, Fits t (.importAttribute a) := by
  refine .quiet .expect fun _ => Gives.repeatPast (I := fun found => ∀ a ∈ found, Fits t (.importAttribute a))
    (List.forall_mem_nil _) fun found before => ?_
  have ends : ∀ a ∈ found.reverse, Fits t (.importAttribute a) := fun a mem => before a (List.mem_reverse.mp mem)
  refine .quiet .eat fun _ => .ite (fun _ => .done ends) fun _ => .unless (fun _ => .expect) ?_
  refine .quiet (.andM .pure .eat) fun _ => .ite (fun _ => .done ends) fun _ => .start fun _ _ same => ?_
  refine .step .attributeKey fun key fitKey => .quiet .expect fun _ => .step .stringLiteral fun value fits => ?_
  refine .guard (fun _ => .failRecoverable (placed_of_nameFits fitKey) nofun) fun _ =>
    .finish same fun span spans => .done ?_
  exact List.forall_mem_cons.mpr ⟨Fits.node (n := .importAttribute ⟨span, key, value⟩) spans
    (fits_two fitKey fits.1) rfl, before⟩

theorem withClause : Gives t withClause withClause fun found => ∀ a ∈ found.getD [], Fits t (.importAttribute a) := by
  refine .quiet .edition fun _ => .ite (fun _ => .done (List.forall_mem_nil _)) fun _ => .quiet .eat fun _ =>
    .ite (fun _ => ?_) fun _ => .done (List.forall_mem_nil _)
  exact .step .attributes fun found fits => .done fits

/-! ### Imports -/

theorem importBinding : Gives t importBinding importBinding fun id => Spans t id.span :=
  .step .identifier fun _ spans => .quiet (.checkBinding spans) fun _ => .done spans

theorem namedImport : Gives t namedImport namedImport fun s => Fits t (.importSpecifier s) := by
  refine .start fun x y same => .step .moduleName fun imported fits => .quiet .eatContextual fun _ => ?_
  have rest {binding : Identifier} (spans : Spans t binding.span) :
      Gives t (do return ImportSpecifier.named (← finishSpan x) imported binding)
        (do return ImportSpecifier.named (← finishSpan y) imported binding)
        fun s => Fits t (.importSpecifier s) :=
    .finish same fun span whole => .done
      (Fits.node (n := .importSpecifier (.named span imported binding)) whole (fits_two fits (name_fits spans).1) rfl)
  refine .ite (fun _ => .step .importBinding fun _ spans => rest spans) fun _ => ?_
  cases imported with
  | identifier id =>
    have spans : Spans t id.span := fits.span
    exact .quiet (.checkName spans) fun _ => .quiet (.checkBinding spans) fun _ => .known (rest spans)
  | string literal => exact .stops (.fail fits.span.start nofun)

theorem importedNames : Gives t importedNames importedNames fun found => ∀ s ∈ found, Fits t (.importSpecifier s) := by
  refine .quiet .isKind fun _ => .ite (fun _ => .start fun _ _ same => .quiet .next fun _ =>
    .quiet .expectContextual fun _ => ?_) fun _ => ?_
  · refine .step .importBinding fun binding spans => .finish same fun span whole =>
      .done (List.forall_mem_singleton.mpr ?_)
    exact Fits.node (n := .importSpecifier (.whole span binding)) whole (fits_one (name_fits spans).1) rfl
  · exact .quiet .expect fun _ => Gives.commaSeparated .namedImport

theorem importSpecifiers :
    Gives t importSpecifiers importSpecifiers fun found => ∀ s ∈ found, Fits t (.importSpecifier s) := by
  refine .quiet .isKind fun _ => .ite (fun _ => .start fun _ _ same => .step .importBinding fun binding spans =>
    ?_) fun _ => importedNames
  refine .finish same fun span whole => .quiet .eat fun _ => ?_
  have main : Fits t (.importSpecifier (.main span binding)) := Fits.node whole (fits_one (name_fits spans).1) rfl
  refine .ite (fun _ => .step importedNames fun found fits => .done ?_) fun _ =>
    .done (List.forall_mem_singleton.mpr main)
  exact List.forall_mem_cons.mpr ⟨main, fits⟩

theorem importDeclaration (same : SameStart t x y) :
    Gives t (importDeclaration x) (importDeclaration y) (StatementFits t) := by
  refine .quiet .next fun _ => .quiet .isKind fun _ => ?_
  have rest {specifiers : List ImportSpecifier} (fits : ∀ s ∈ specifiers, Fits t (.importSpecifier s)) :
      Gives t
        (do
          let from' ← ParseM.stringLiteral
          let attributes ← ParseM.withClause
          semicolon
          return .importDeclaration (← finishSpan x) specifiers from' attributes)
        (do
          let from' ← ParseM.stringLiteral
          let attributes ← ParseM.withClause
          semicolon
          return .importDeclaration (← finishSpan y) specifiers from' attributes)
        (StatementFits t) := by
    refine .step .stringLiteral fun from' fitFrom => .step .withClause fun attributes fitAttributes =>
      .quiet .semicolon fun _ => ?_
    refine .finish same fun span spans => .done ?_
    refine Fits.node (n := .statement (.importDeclaration span specifiers from' attributes)) spans ?_ rfl
    exact fits_append (fits_append (fits_map fits) (fits_one fitFrom.1)) (fits_map fitAttributes)
  refine .ite (fun _ => .known (rest (List.forall_mem_nil _))) fun _ => .step .importSpecifiers fun found fits => ?_
  exact .quiet .expectContextual fun _ => .known (rest fits)

end Gives

/-! ### Exports -/

theorem ExportsPlaced.exportLocal {s : ScopeStack} (h : ExportsPlaced t s) {name : String} {pos : Nat}
    (placed : t.Placed pos) :
    ExportsPlaced t (s.exportLocal name pos) := by
  unfold ScopeStack.exportLocal
  split
  · split
    · exact h
    · exact List.forall_mem_append.mpr ⟨h, List.forall_mem_singleton.mpr placed⟩
  · exact h

theorem declaredNames_placed {s : Statement} (h : StatementFits t s) :
    ∀ id ∈ s.declaredNames, t.Placed id.span.start := by
  cases s with
  | variableDeclaration d =>
    intro id mem
    obtain ⟨v, here, mem⟩ := List.mem_flatMap.mp mem
    obtain ⟨target, inside, named⟩ := List.mem_filterMap.mp mem
    have declarator : Fits t (.declarator v) := h.child rfl (List.mem_map_of_mem here)
    have placed := targets_placed (declarator.child rfl (.head _)) target inside
    cases target <;> cases named
    exact Spans.start placed
  | functionDeclaration f =>
    intro id mem
    have fits : Fits t (.identifier id) :=
      h.child rfl (by simp_all [children, Statement.children, Callable.children, Statement.declaredNames])
    exact fits.span.start
  | classDeclaration c =>
    intro id mem
    have fits : Fits t (.identifier id) :=
      h.child rfl (by simp_all [children, Statement.children, Class.children, Statement.declaredNames])
    exact fits.span.start
  | _ => exact List.forall_mem_nil _

namespace Quiet

theorem noteExport {topLevel : Bool} {name : String} {pos : Nat} (placed : t.Placed pos) :
    Quiet t (noteExport topLevel name pos) := by
  refine .ite (Yields.get fun p q state => ?_) .pure
  rw [show q.exports = p.exports by rw [state.rest]]
  refine .guard (fun _ => .failRecoverable placed nofun) fun _ => ?_
  exact Quiet.modify (fun _ => rfl) (fun _ _ => rfl) fun _ h => { h with }

theorem checkLocalExport {s : ExportSpecifier} (fits : Fits t (.exportSpecifier s)) : Quiet t (checkLocalExport s) := by
  have name : NameFits t s.inner := fits.child rfl (.head _)
  unfold ParseM.checkLocalExport
  split
  · next id known =>
    have spans : Spans t id.span := by
      rw [known] at name
      exact name.span
    refine .bind (.checkName spans) fun _ => .modify (fun _ => rfl) (fun _ _ => rfl) fun _ h => { h with exports := ?_ }
    exact ExportsPlaced.exportLocal h.exports spans.start
  · next literal known =>
    rw [known] at name
    exact .of_fails (.fail name.span.start nofun)

theorem atExportedDeclaration : Quiet t atExportedDeclaration := by
  refine .bind .kind fun _ => ?_
  split
  iterate 4 exact .pure
  exact .bind .atLet fun _ => .bind .atAsyncFunction fun _ => .pure

theorem checkModuleItem {topLevel : Bool} : Quiet t (checkModuleItem topLevel) := by
  have module : Quiet t (do unless (← read).inModule do ParseM.fail (← ParseM.tokenStart) .moduleItemInScript) :=
    .read (.ite (fun _ => .done trivial) fun _ => .step .tokenStart fun _ placed => .fail placed nofun)
  refine .bind .options fun _ => .ite .pure (Yields.ite (fun _ => module) fun _ => ?_)
  exact .step .tokenStart fun _ placed => .stops (.fail placed nofun)

theorem atImportExpression : Quiet t atImportExpression := by
  refine .quiet .since fun _ => .ite (fun _ => .source (.step .lookahead fun next placed => ?_)) fun _ => .done trivial
  rw [t.texts.agree.has placed.le, t.texts.agree.has placed.le]
  exact .done trivial

end Quiet

namespace Gives

theorem exportSpecifier {topLevel : Bool} :
    Gives t (exportSpecifier topLevel) (exportSpecifier topLevel) fun s => Fits t (.exportSpecifier s) := by
  refine .start fun _ _ same => .step .moduleName fun inner fits => .quiet .eatContextual fun _ => ?_
  refine .choose (fun _ => .moduleName) (fun _ => .done fits) fun exported fitExported =>
    .quiet (.noteExport (placed_of_nameFits fitExported)) fun _ => ?_
  exact .finish same fun span spans =>
    .done (Fits.node (n := .exportSpecifier ⟨span, inner, exported⟩) spans (fits_two fits fitExported) rfl)

variable (same : SameStart t x y) {topLevel : Bool}
include same

theorem exportNames : Gives t (exportNames x topLevel) (exportNames y topLevel) (StatementFits t) := by
  refine .quiet .expect fun _ => .step (Gives.commaSeparated .exportSpecifier) fun specifiers fits =>
    .quiet .eatContextual fun _ => ?_
  have rest {from' : Option Literal} {attributes : Option (List ImportAttribute)}
      (fitFrom : ∀ l ∈ from', Fits t (.literal l))
      (fitAttributes : ∀ a ∈ attributes.getD [], Fits t (.importAttribute a)) :
      Gives t (do semicolon; return .exportNamed (← finishSpan x) none specifiers from' attributes)
        (do semicolon; return .exportNamed (← finishSpan y) none specifiers from' attributes) (StatementFits t) := by
    refine .quiet .semicolon fun _ => .finish same fun span spans => .done ?_
    refine Fits.node (n := .statement (.exportNamed span none specifiers from' attributes)) spans ?_ rfl
    exact fits_append (fits_append (fits_append fits_none (fits_map fits)) (fits_option fitFrom))
      (fits_map fitAttributes)
  refine .ite (fun _ => .step .stringLiteral fun from' fitFrom =>
    .step .withClause fun attributes fitAttributes => ?_) fun _ => ?_
  · exact .known (rest (forall_mem_some fitFrom.1) fitAttributes)
  · refine .quiet (.forM fun s mem => .checkLocalExport (fits s mem)) fun _ => .known (rest ?_ (List.forall_mem_nil _))
    exact fun _ => nofun

theorem exportAll : Gives t (exportAll x topLevel) (exportAll y topLevel) (StatementFits t) := by
  refine .quiet (.andM .since .eatContextual) fun _ => ?_
  have rest {exported : Option ModuleName} (fits : ∀ n ∈ exported, NameFits t n) :
      Gives t
        (do
          expectContextual "from"
          let from' ← ParseM.stringLiteral
          let attributes ← ParseM.withClause
          semicolon
          return .exportAll (← finishSpan x) exported from' attributes)
        (do
          expectContextual "from"
          let from' ← ParseM.stringLiteral
          let attributes ← ParseM.withClause
          semicolon
          return .exportAll (← finishSpan y) exported from' attributes)
        (StatementFits t) := by
    refine .quiet .expectContextual fun _ => .step .stringLiteral fun from' fitFrom =>
      .step .withClause fun attributes fitAttributes => ?_
    refine .quiet .semicolon fun _ => .finish same fun span spans => .done ?_
    refine Fits.node (n := .statement (.exportAll span exported from' attributes)) spans ?_ rfl
    exact fits_append (fits_append (fits_option fits) (fits_one fitFrom.1)) (fits_map fitAttributes)
  refine .ite (fun _ => .step .moduleName fun name fits => .lexer fun l k h _ => ?_) fun _ =>
    .known (rest (fun _ => nofun))
  rw [h.lastStart]
  exact .quiet (.noteExport h.sited.lastStart) fun _ => .known (rest (forall_mem_some fits))

end Gives
end Tandem

namespace Grammar.Paired

open Tandem Node

variable {t : Twins} {g : Grammar} (hg : g.Paired t) {x y : NodeStart}
include hg

theorem defaultExport : Gives t g.defaultExport g.defaultExport fun d => Fits t d.node := by
  refine .quiet .atAsyncFunction fun _ => .quiet .isKind fun _ =>
    .ite (fun _ => .start fun _ _ same => .quiet .next fun _ => ?_) fun _ => ?_
  · exact .when (fun _ => .next) (.step (hg.function same) fun f fits => .done (Fits.functionDeclaration fits))
  · refine .quiet .isKind fun _ => .ite (fun _ => .step hg.classDefinition fun c fits =>
      .done (Fits.classDeclaration fits)) fun _ => ?_
    exact .step hg.plainAssignment fun e fits => .quiet .semicolon fun _ => .done fits

variable (same : SameStart t x y) {topLevel : Bool}
include same

theorem exportedDeclaration :
    Gives t (g.exportedDeclaration x topLevel) (g.exportedDeclaration y topLevel) (StatementFits t) := by
  refine .step (hg.statement none false) fun s fits =>
    .quiet (.forM fun id mem => .noteExport (declaredNames_placed fits id mem)) fun _ => ?_
  refine .quiet .since fun _ => .choose (V := fun found => ∀ a ∈ found.getD [], Fits t (.importAttribute a))
    (fun _ => .done (List.forall_mem_nil _)) (fun _ => .done (List.forall_mem_nil _)) fun attributes fitAttributes => ?_
  refine .finish same fun span spans => .done ?_
  refine Fits.node (n := .statement (.exportNamed span (some s) [] none attributes)) spans ?_ rfl
  exact fits_append (fits_append (fits_append (fits_one fits) fits_none) fits_none) (fits_map fitAttributes)

theorem exportDeclaration :
    Gives t (g.exportDeclaration x topLevel) (g.exportDeclaration y topLevel) (StatementFits t) := by
  refine .quiet .next fun _ => .quiet .eat fun _ => .ite (fun _ => Gives.exportAll same) fun _ => .quiet .eat fun _ =>
    .ite (fun _ => ?_) fun _ => ?_
  · refine .lexer fun l k h _ => ?_
    rw [h.lastStart]
    refine .quiet (.noteExport h.sited.lastStart) fun _ => .step hg.defaultExport fun d fits =>
      .finish same fun span spans => .done ?_
    exact Fits.node (n := .statement (.exportDefault span d)) spans (fits_one fits) rfl
  · exact .quiet .atExportedDeclaration fun _ => .ite (fun _ => hg.exportedDeclaration same) fun _ =>
      Gives.exportNames same

theorem importStatement : Gives t (g.importStatement x topLevel) (g.importStatement y topLevel) (StatementFits t) := by
  refine .quiet .atImportExpression fun _ => .ite (fun _ => .step hg.plainExpression fun e fits => ?_) fun _ => ?_
  · exact Gives.expressionStatement same fits
  · exact .quiet .checkModuleItem fun _ => Gives.importDeclaration same

theorem exportStatement : Gives t (g.exportStatement x topLevel) (g.exportStatement y topLevel) (StatementFits t) :=
  .quiet .checkModuleItem fun _ => hg.exportDeclaration same

end Grammar.Paired
end ScriptSyntax
