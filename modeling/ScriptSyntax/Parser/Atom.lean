import ScriptSyntax.Parser.Class

/-!
Operands by themselves: names, literals, brackets of every kind, functions, classes, templates, `new`
and `import`.
-/

namespace ScriptSyntax

/-- Can the expression be assigned to without being a pattern? -/
def Expression.isSimpleTarget : Expression → Bool
  | .identifier _ | .member _ => true
  | _ => false

namespace Grammar

open ParseM

variable (g : Grammar)

/-! ### Names -/

/-- An arrow function with one parameter, which stands without parentheses. -/
def arrowOfName (start : NodeStart) (id : Identifier) (isAsync : Bool) (init : InitMode) :
    ParseM Expression :=
  g.arrow start [some (.identifier id)] none isAsync init

/-- Can the word `async` just read stand before the one parameter of an arrow function?  In the head
of a `for await` the word `of` is no parameter. -/
def asyncParameterFollows : ParseM Bool := do
  let p ← get
  return (← since 8) && p.lexer.kind == .name &&
    (!p.arrowInForAwait || p.lexer.text != "of" || p.lexer.containsEscape)

/-- A name, an async function, or an arrow function with one parameter. -/
def nameAtom (start : NodeStart) (canBeArrow : Bool) (init : InitMode) : ParseM Expression := do
  let escaped ← containsEscape
  let id ← identifier
  let isAsyncWord := id.name == "async" && !escaped
  let sameLine := !(← canOmitSemicolon)
  if ← pure ((← since 8) && isAsyncWord && sameLine) <&&> eat .kwFunction then
    modify fun p =>
      { p with
        lexer := { p.lexer with toCursor := p.lexer.toCursor.overrideContext .functionExpression } }
    return .function (← g.function start .expression true)
  else if !(canBeArrow && sameLine) then return .identifier id
  else if ← eat .arrow then g.arrowOfName start id false init
  else if isAsyncWord && (← asyncParameterFollows) then
    let param ← identifier
    if ← pure (← canOmitSemicolon) <||> (do return !(← eat .arrow)) then unexpected
    g.arrowOfName start param true init
  else return .identifier id

/-! ### Parentheses -/

/-- What stands in parentheses, as far as it is read. -/
structure ParenContents where
  /-- Latest first. -/
  items : List Expression := []
  /-- A rest, as only parameters have, and where it starts. -/
  rest : Option (Pattern × Nat) := none
  commaLast : Bool := false
  deferred : Deferred := {}

/-- Reads one item in parentheses. -/
def parenPass (trailing : Bool) (contents : ParenContents) :
    ParseM (Pass ParenContents ParenContents) := do
  if ← isKind .parenR then return .done contents
  else
    let isFirst := contents.items.isEmpty
    unless isFirst do expect .comma
    if trailing && (← isKind .parenR) then return .done { contents with commaLast := true }
    else if ← isKind .ellipsis then
      let pos ← tokenStart
      let rest ← g.restBinding
      checkNoComma
      return .done { contents with rest := some (rest, pos) }
    else
      let (item, deferred) ← CoverM.deferring contents.deferred (g.assignment .plain)
      return .again { contents with items := item :: contents.items, deferred }

/-- An expression in parentheses, or an arrow function whose parameters they are.  Before the sixth
edition there are expressions only. -/
def paren (canBeArrow : Bool) (init : InitMode) : ParseM Expression := do
  let start ← startNode
  if (← edition) < 6 then g.parenthesized
  else
    next
    let innerStart ← startNode
    let outer ← get
    modify fun p => { p with yieldAt := none, awaitAt := none }
    let contents ← repeatPast ({} : ParenContents) (g.parenPass (← since 8))
    let innerEnd := (← lexer).last
    expect .parenR
    let items := contents.items.reverse
    if ← pure (canBeArrow && !(← canOmitSemicolon)) <&&> eat .arrow then
      check (contents.deferred.patternComplaint? true)
      checkParameterAwait
      modify fun p => { p with yieldAt := outer.yieldAt, awaitAt := outer.awaitAt }
      g.arrow start (items.map some) (contents.rest.map (·.1)) false init
    else
      if items.isEmpty || contents.commaLast then unexpectedAt (← lexer).last.start
      if let some (_, pos) := contents.rest then unexpectedAt pos
      check contents.deferred.expressionComplaint?
      modify fun p =>
        { p with yieldAt := outer.yieldAt.or p.yieldAt, awaitAt := outer.awaitAt.or p.awaitAt }
      match items with
      | [e] => return e
      | items => return .sequence (← spanOf innerStart innerEnd.stop innerEnd.stopPosition) items

/-- An expression in parentheses, noted as such. -/
def parenAtom (canBeArrow : Bool) (init : InitMode) : CoverM Expression := do
  let pos ← tokenStart
  let e ← g.paren canBeArrow init
  CoverM.amend fun d =>
    { d with
      parenthesizedTarget :=
        if e.isSimpleTarget then d.parenthesizedTarget else d.parenthesizedTarget.or (some pos)
      parenthesized := d.parenthesized.or (some pos) }
  return e

/-! ### `new` and `import` -/

/-- The property after the point of a meta property; it is spelled without escapes. -/
def metaWord (start : NodeStart) (expected : String) (wrong escaped : Fault) : ParseM Identifier := do
  next
  let hasEscape ← containsEscape
  let property ← anyWord
  if property.name ≠ expected then failRecoverable property.span.start wrong
  if hasEscape then failRecoverable start.pos escaped
  return property

/-- `new.target`, at its point. -/
def newTarget (start : NodeStart) : ParseM Expression := do
  let word : Identifier := ⟨← finishSpan start, "new"⟩
  let property ← metaWord start "target" .newMetaProperty .escapedNewTarget
  unless (← scopes).newTargetAllowed do failRecoverable start.pos .newTargetOutsideFunction
  return .metaProperty (← finishSpan start) word property

/-- A construction with or without arguments, or `new.target`. -/
def new : ParseM Expression := do
  let start ← startNode
  next
  if (← since 6) && (← isKind .dot) then newTarget start
  else
    let calleeStart ← startNode
    let atom ← (g.atom .plain true).alone
    let callee ← g.subscripts atom calleeStart true .plain
    let arguments ←
      if ← eat .parenL then (g.expressionList .parenR (← since 8) false).alone else pure []
    return .new (← finishSpan start) callee (arguments.filterMap id)

/-- `import.meta`, at its point. -/
def importMeta (start : NodeStart) : ParseM Expression := do
  let word : Identifier := ⟨← finishSpan start, "import"⟩
  let property ← metaWord start "meta" .importMetaProperty .escapedImportMeta
  let o ← options
  unless o.isModule || o.allowImportExportEverywhere do
    failRecoverable start.pos .importMetaOutsideModule
  return .metaProperty (← finishSpan start) word property

/-- The end of a dynamic import, or the options and then the end.  A comma may stand before it. -/
def importOptions : ParseM (Option Expression) := do
  if ← eat .parenR then return none
  else
    expect .comma
    if ← eat .parenR then return none
    else
      let options ← g.plainAssignment .plain
      unless ← eat .parenR do
        expect .comma
        expect .parenR
      return some options

/-- The end of a dynamic import where there are no options. -/
def importEnd : ParseM Unit := do
  unless ← eat .parenR do
    let pos ← tokenStart
    if ← eat .comma <&&> eat .parenR then failRecoverable pos .importTrailingComma
    unexpectedAt pos

/-- A dynamic import, at its parenthesis.  Options come with the sixteenth edition. -/
def dynamicImport (start : NodeStart) : ParseM Expression := do
  next
  let specifier ← g.plainAssignment .plain
  let options ←
    if ← since 16 then g.importOptions
    else
      importEnd
      pure none
  return .dynamicImport (← finishSpan start) specifier options

/-- A dynamic import, which is not to be constructed, or `import.meta`. -/
def importAtom (forNew : Bool) : ParseM Expression := do
  let start ← startNode
  next
  if (← isKind .parenL) && !forNew then g.dynamicImport start
  else if ← isKind .dot then importMeta start
  else unexpected

/-! ### Atoms -/

/-- `super`, before a member or a call only. -/
def super (start : NodeStart) : ParseM Expression := do
  unless (← scopes).superAllowed do fail start.pos .superOutsideMethod
  next
  if (← isKind .parenL) && !(← scopes).directSuperAllowed then
    fail start.pos .superCallOutsideConstructor
  unless (← isKind .dot) || (← isKind .bracketL) || (← isKind .parenL) do unexpected
  return .super (← finishSpan start)

/-- A literal that is a keyword. -/
def keywordLiteral (start : NodeStart) (value : LiteralValue) : ParseM Expression := do
  let raw := (← kind).label
  next
  return .literal ⟨← finishSpan start, value, raw⟩

/-- Reads a slash again as the start of a regular expression. -/
def rereadSlash : ParseM Unit := do
  if (← isKind .slash) || (← isKind .slashEq) then
    ofLexer do
      LexM.moveTo ((← get).token.start + 1)
      LexM.readRegExp

/-- An array literal. -/
def array (start : NodeStart) : CoverM Expression := do
  next
  let elements ← g.expressionList .bracketR true true
  return .array (← finishSpan start) elements

/-- An operand by itself, by its first token. -/
def coreAtom (init : InitMode) (forNew : Bool) : CoverM Expression := do
  rereadSlash
  let canBeArrow := (← getThe Parser).potentialArrowAt == some (← tokenStart)
  let start ← startNode
  match ← kind with
  | .kwSuper => super start
  | .kwThis =>
    next
    return .this (← finishSpan start)
  | .name => g.nameAtom start canBeArrow init
  | .num | .string | .regexp => return .literal (← literal)
  | .kwNull => keywordLiteral start .null
  | .kwTrue => keywordLiteral start (.boolean true)
  | .kwFalse => keywordLiteral start (.boolean false)
  | .parenL => g.parenAtom canBeArrow init
  | .bracketL => g.array start
  | .braceL =>
    modifyThe Parser fun p =>
      { p with lexer := { p.lexer with toCursor := p.lexer.toCursor.overrideContext .objectBraces } }
    g.object
  | .kwFunction =>
    next
    return .function (← g.function start .expression false)
  | .kwClass => return .classExpression (← g.classDefinition .expression)
  | .kwNew => g.new
  | .backQuote => return .template (← g.template false)
  | .kwImport => if ← since 11 then g.importAtom forNew else unexpected
  | _ => unexpected

/-- An operand by itself.  An extension is asked first. -/
def atomLevel (extension : ParseM (Option Expression)) (init : InitMode) (forNew : Bool) :
    CoverM Expression := do
  match ← extension with
  | some e => return e
  | none => g.coreAtom init forNew

end Grammar
end ScriptSyntax
