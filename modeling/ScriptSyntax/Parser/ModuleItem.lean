import ScriptSyntax.Parser.Statement

/-!
Imports and exports.
-/

namespace ScriptSyntax

/-- The names that a declared pattern binds, in source order. -/
def Pattern.boundNames (p : Pattern) : List Identifier :=
  (p.targets true).filterMap fun
    | .name id => some id
    | _ => none

/-- The names that a declaration binds, in source order. -/
def Statement.declaredNames : Statement → List Identifier
  | .variableDeclaration d => d.declarators.flatMap (·.target.boundNames)
  | .functionDeclaration f => f.id.toList
  | .classDeclaration c => c.id.toList
  | _ => []

/-- Surrogates that stand alone are read as the replacement character; a name may hold that character
only if it is written so. -/
def Literal.hasLoneSurrogate (literal : Literal) : Bool :=
  match literal.value with
  | .string value => value.toList.contains '\ufffd' && !literal.raw.toList.contains '\ufffd'
  | _ => false

namespace ParseM

/-- A name that crosses the border of the module; strings can be names from the thirteenth edition
on. -/
def moduleName : ParseM ModuleName := do
  if (← since 13) && (← isKind .string) then
    let literal ← stringLiteral
    if literal.hasLoneSurrogate then fail literal.span.start .loneSurrogateName
    return .string literal
  else return .identifier (← anyWord)

/-! ### Attributes -/

def attributeKey : ParseM ModuleName := do
  if ← isKind .string then return .string (← stringLiteral) else return .identifier (← propertyWord)

/-- Attributes in braces; no key stands twice. -/
def attributes : ParseM (List ImportAttribute) := do
  expect .braceL
  repeatPast ([] : List ImportAttribute) fun found => do
    if ← eat .braceR then return .done found.reverse
    else
      unless found.isEmpty do expect .comma
      if ← pure (!found.isEmpty) <&&> eat .braceR then return .done found.reverse
      else
        let start ← startNode
        let key ← attributeKey
        expect .colon
        let value ← stringLiteral
        if found.any (·.key.name == key.name) then
          failRecoverable key.span.start (.duplicateAttribute key.name)
        return .again (⟨← finishSpan start, key, value⟩ :: found)

/-- The attributes after a module's name, which come with the sixteenth edition. -/
def withClause : ParseM (Option (List ImportAttribute)) := do
  if (← edition) < 16 then return none
  else if ← eat .kwWith then return some (← attributes)
  else return some []

/-! ### Imports -/

/-- The name that an import binds. -/
def importBinding : ParseM Identifier := do
  let id ← identifier
  checkBinding .lexical id
  return id

def namedImport : ParseM ImportSpecifier := do
  let start ← startNode
  let imported ← moduleName
  let binding ←
    if ← eatContextual "as" then importBinding
    else
      match imported with
      | .identifier id =>
        checkName id
        checkBinding .lexical id
        pure id
      | .string literal => fail literal.span.start .bindingRvalue
  return .named (← finishSpan start) imported binding

/-- All that a module exports, or names in braces. -/
def importedNames : ParseM (List ImportSpecifier) := do
  if ← isKind .star then
    let start ← startNode
    next
    expectContextual "as"
    let binding ← importBinding
    return [.whole (← finishSpan start) binding]
  else
    expect .braceL
    commaSeparated .braceR true namedImport

def importSpecifiers : ParseM (List ImportSpecifier) := do
  if ← isKind .name then
    let start ← startNode
    let binding ← importBinding
    let main := ImportSpecifier.main (← finishSpan start) binding
    if ← eat .comma then return main :: (← importedNames) else return [main]
  else importedNames

def importDeclaration (start : NodeStart) : ParseM Statement := do
  next
  let specifiers ←
    if ← isKind .string then pure []
    else
      let specifiers ← importSpecifiers
      expectContextual "from"
      pure specifiers
  let from' ← stringLiteral
  let attributes ← withClause
  semicolon
  return .importDeclaration (← finishSpan start) specifiers from' attributes

/-! ### Exports -/

/-- Notes an exported name.  At the top level no name is exported twice. -/
def noteExport (topLevel : Bool) (name : String) (pos : Nat) : ParseM Unit := do
  if topLevel then
    if (← get).exports.contains name then failRecoverable pos (.duplicateExport name)
    modify fun p => { p with exports := name :: p.exports }

def exportSpecifier (topLevel : Bool) : ParseM ExportSpecifier := do
  let start ← startNode
  let inner ← moduleName
  let exported ← if ← eatContextual "as" then moduleName else pure inner
  noteExport topLevel exported.name exported.span.start
  return ⟨← finishSpan start, inner, exported⟩

/-- A name exported from this module, which has to be declared in it. -/
def checkLocalExport (s : ExportSpecifier) : ParseM Unit := do
  match s.inner with
  | .identifier id =>
    checkName id
    modify fun p => { p with scopes := p.scopes.exportLocal id.name id.span.start }
  | .string literal => fail literal.span.start .stringExport

/-- Exports of names in braces, from this module or from another one. -/
def exportNames (start : NodeStart) (topLevel : Bool) : ParseM Statement := do
  expect .braceL
  let specifiers ← commaSeparated .braceR true (exportSpecifier topLevel)
  let (from', attributes) ←
    if ← eatContextual "from" then
      let from' ← stringLiteral
      pure (some from', ← withClause)
    else
      specifiers.forM checkLocalExport
      pure (none, none)
  semicolon
  return .exportNamed (← finishSpan start) none specifiers from' attributes

/-- The export of all that another module exports, after the star. -/
def exportAll (start : NodeStart) (topLevel : Bool) : ParseM Statement := do
  let exported ←
    if ← since 11 <&&> eatContextual "as" then
      let name ← moduleName
      noteExport topLevel name.name (← lexer).last.start
      pure (some name)
    else pure none
  expectContextual "from"
  let from' ← stringLiteral
  let attributes ← withClause
  semicolon
  return .exportAll (← finishSpan start) exported from' attributes

/-- Does a declaration begin here that can be exported? -/
def atExportedDeclaration : ParseM Bool := do
  match ← kind with
  | .kwVar | .kwConst | .kwClass | .kwFunction => return true
  | _ => return (← atLet none) || (← atAsyncFunction)

end ParseM

namespace Grammar

open ParseM

variable (g : Grammar)

/-- What a module exports by default. -/
def defaultExport : ParseM DefaultExport := do
  let isAsync ← atAsyncFunction
  if isAsync || (← isKind .kwFunction) then
    let start ← startNode
    next
    if isAsync then next
    return .function (← g.function start .defaultExport isAsync)
  else if ← isKind .kwClass then return .classDeclaration (← g.classDefinition .defaultExport)
  else
    let e ← g.plainAssignment .plain
    semicolon
    return .expression e

/-- The export of a declaration. -/
def exportedDeclaration (start : NodeStart) (topLevel : Bool) : ParseM Statement := do
  let declaration ← g.statement none false
  declaration.declaredNames.forM fun id => noteExport topLevel id.name id.span.start
  let attributes ← if ← since 16 then pure (some []) else pure none
  return .exportNamed (← finishSpan start) (some declaration) [] none attributes

def exportDeclaration (start : NodeStart) (topLevel : Bool) : ParseM Statement := do
  next
  if ← eat .star then exportAll start topLevel
  else if ← eat .kwDefault then
    noteExport topLevel "default" (← lexer).last.start
    let declaration ← g.defaultExport
    return .exportDefault (← finishSpan start) declaration
  else if ← atExportedDeclaration then g.exportedDeclaration start topLevel
  else exportNames start topLevel

/-- Imports and exports stand at the top level of modules, unless they are allowed everywhere. -/
def checkModuleItem (topLevel : Bool) : ParseM Unit := do
  unless (← options).allowImportExportEverywhere do
    unless topLevel do fail (← tokenStart) .moduleItemNested
    unless (← read).inModule do fail (← tokenStart) .moduleItemInScript

/-- Is the word `import` the start of an expression here? -/
def atImportExpression : ParseM Bool := do
  if ← since 11 then
    let s ← source
    let next ← lookahead
    return s.has next '(' || s.has next '.'
  else return false

/-- An import, or an expression that begins with one. -/
def importStatement (start : NodeStart) (topLevel : Bool) : ParseM Statement := do
  if ← atImportExpression then
    let e ← g.plainExpression .plain
    expressionStatement start e
  else
    checkModuleItem topLevel
    importDeclaration start

def exportStatement (start : NodeStart) (topLevel : Bool) : ParseM Statement := do
  checkModuleItem topLevel
  g.exportDeclaration start topLevel

end Grammar
end ScriptSyntax
