import ScriptSyntax.Parser.Lookahead
import ScriptSyntax.Parser.Operator

/-!
Statements, apart from loops over a head and from imports and exports.
-/

namespace ScriptSyntax

/-- Can a jump to `target`, or to no label in particular, end at a label?  Only loops can be continued,
and only a labeled statement of another kind needs its name to be left. -/
def Label.accepts (isBreak : Bool) (target : Option String) (l : Label) : Bool :=
  (target.isNone || l.name == target) &&
    ((l.kind.isSome && (isBreak || l.kind == some .loop)) || (target.isSome && isBreak))

/-- Tells the labels that directly enclose a statement what it is. -/
def relabel (start inner : Nat) (kind : Option LabelKind) : List Label → List Label
  | [] => []
  | l :: outer =>
    if l.statementStart = some start then
      { l with statementStart := some inner, kind } :: relabel start inner kind outer
    else l :: outer

/-- What a statement that begins with a token is, as the target of jumps. -/
def LabelKind.ofToken? (kind : TokenKind) : Option LabelKind :=
  if kind.isLoop then some .loop else if kind = .kwSwitch then some .switch else none

namespace Grammar

open ParseM

variable (g : Grammar)

/-! ### Declarations -/

/-- Does the head of a loop over a collection go on here? -/
def atLoopWord : ParseM Bool := do
  return (← isKind .kwIn) || ((← since 6) && (← isContextual "of"))

/-- A variable without a value.  Constants, resources and patterns need one, unless a loop gives it. -/
def checkNoValue (inHead : Bool) (kind : VariableKind) (target : Pattern) : ParseM Unit := do
  let given ← atLoopWord
  let pos ← lastStop
  if kind = .constant ∧ !given then unexpected
  if kind.isResource && !given then fail pos (.missingInitializer kind.spelling)
  if !target.isIdentifier && !(inHead && given) then fail pos .patternInitializer

def declarator (inHead : Bool) (kind : VariableKind) : ParseM Declarator := do
  let start ← startNode
  let target ← if kind.isResource then .identifier <$> identifier else g.bindingAtom
  checkPattern (if kind = .var then .var else .lexical) target
  if ← eat .eq then
    let value ← g.plainAssignment (if inHead then .forHead else .plain)
    return ⟨← finishSpan start, target, some value⟩
  else
    checkNoValue inHead kind target
    return ⟨← finishSpan start, target, none⟩

/-- The declarators after the words that begin a declaration. -/
def declarators (inHead : Bool) (kind : VariableKind) : ParseM (List Declarator) := do
  let first ← g.declarator inHead kind
  repeatPast [first] fun found => do
    if ← eat .comma then return .again ((← g.declarator inHead kind) :: found)
    else return .done found.reverse

/-- A declaration that stands by itself, at the last of the words that begin it. -/
def declaration (start : NodeStart) (kind : VariableKind) : ParseM Statement := do
  next
  let found ← g.declarators false kind
  semicolon
  return .variableDeclaration ⟨← finishSpan start, kind, found⟩

/-- A declaration of variables; in the body of another statement they are no lexical ones. -/
def variableStatement (start : NodeStart) (kind : VariableKind) (context : Option StatementContext) :
    ParseM Statement := do
  if context.isSome && kind != .var then unexpected
  g.declaration start kind

/-- Resources are declared in blocks, functions and modules. -/
def checkUsing : ParseM Unit := do
  unless (← scopes).usingAllowed do fail (← tokenStart) .usingMisplaced

/-- Moves past the `await` of `await using`. -/
def awaitBeforeUsing : ParseM Unit := do
  unless (← scopes).canAwait do fail (← tokenStart) .awaitUsingOutsideAsync
  next

/-- A function declaration, at the word `function`. -/
def functionStatement (start : NodeStart) (isAsync hanging : Bool) : ParseM Statement := do
  next
  return .functionDeclaration (← g.function start (if hanging then .hanging else .declaration) isAsync)

/-! ### Control flow -/

/-- A statement in the body of another one. -/
def body (context : StatementContext) : ParseM Statement := g.statement (some context) false

/-- The body of a loop. -/
def loopBody : ParseM Statement := do
  pushLabel (.anonymous .loop)
  let body ← g.body .nested
  popLabel
  return body

/-- The label that a jump names, and the end of the jump. -/
def jumpLabel : ParseM (Option Identifier) := do
  if ← eat .semi <||> canOmitSemicolon then return none
  else if (← kind) ≠ .name then unexpected
  else
    let label ← identifier
    semicolon
    return some label

/-- A jump, which needs a statement around it to end at. -/
def jump (start : NodeStart) (isBreak : Bool) : ParseM Statement := do
  next
  let label ← jumpLabel
  unless (← get).labels.any (·.accepts isBreak (label.map (·.name))) do
    fail start.pos (if isBreak then .unsyntacticBreak else .unsyntacticContinue)
  let span ← finishSpan start
  return if isBreak then .breakStatement span label else .continueStatement span label

def debuggerStatement (start : NodeStart) : ParseM Statement := do
  next
  semicolon
  return .debuggerStatement (← finishSpan start)

def doWhileStatement (start : NodeStart) : ParseM Statement := do
  next
  let body ← g.loopBody
  expect .kwWhile
  let test ← g.parenthesized
  if ← since 6 then
    let _ ← eat .semi
  else semicolon
  return .doWhileStatement (← finishSpan start) body test

def whileStatement (start : NodeStart) : ParseM Statement := do
  next
  let test ← g.parenthesized
  let body ← g.loopBody
  return .whileStatement (← finishSpan start) test body

def withStatement (start : NodeStart) : ParseM Statement := do
  if ← strict then fail (← tokenStart) .withInStrictMode
  next
  let object ← g.parenthesized
  let body ← g.body .nested
  return .withStatement (← finishSpan start) object body

def ifStatement (start : NodeStart) : ParseM Statement := do
  next
  let test ← g.parenthesized
  let consequent ← g.body .branch
  let alternate ← if ← eat .kwElse then some <$> g.body .branch else pure none
  return .ifStatement (← finishSpan start) test consequent alternate

def returnStatement (start : NodeStart) : ParseM Statement := do
  unless (← scopes).inFunction || (← options).allowReturnOutsideFunction do
    fail (← tokenStart) .returnOutsideFunction
  next
  if ← eat .semi <||> canOmitSemicolon then return .returnStatement (← finishSpan start) none
  else
    let argument ← g.plainExpression .plain
    semicolon
    return .returnStatement (← finishSpan start) (some argument)

def throwStatement (start : NodeStart) : ParseM Statement := do
  next
  if ← lineBreakBefore then fail (← lastStop) .newlineAfterThrow
  let argument ← g.plainExpression .plain
  semicolon
  return .throwStatement (← finishSpan start) argument

/-! ### `switch` -/

/-- A case that is being read; its statements are latest first. -/
structure OpenCase where
  start : NodeStart
  test : Option Expression
  body : List Statement := []

/-- The cases of a `switch` so far, latest first, and the one being read. -/
structure SwitchProgress where
  cases : List SwitchCase := []
  current : Option OpenCase := none
  hasDefault : Bool := false

/-- Closes the case being read. -/
def closeCase (progress : SwitchProgress) : ParseM (List SwitchCase) := do
  match progress.current with
  | none => return progress.cases
  | some c => return ⟨← finishSpan c.start, c.test, c.body.reverse⟩ :: progress.cases

/-- Reads `case test:` or `default:`; there is one default. -/
def caseHead (isDefault : Bool) (progress : SwitchProgress) : ParseM SwitchProgress := do
  let cases ← closeCase progress
  let start ← startNode
  next
  let test ←
    if isDefault then
      if progress.hasDefault then failRecoverable (← lexer).last.start .multipleDefaults
      pure none
    else some <$> g.plainExpression .plain
  expect .colon
  return ⟨cases, some { start, test }, progress.hasDefault || isDefault⟩

/-- Reads the head of a case or a statement in one. -/
def casePass (progress : SwitchProgress) : ParseM (Pass SwitchProgress (List SwitchCase)) := do
  match ← kind with
  | .braceR =>
    exitScope
    return .done (← closeCase progress).reverse
  | .kwCase => return .again (← g.caseHead false progress)
  | .kwDefault => return .again (← g.caseHead true progress)
  | _ =>
    match progress.current with
    | none => unexpected
    | some c =>
      let s ← g.statement none false
      return .again { progress with current := some { c with body := s :: c.body } }

def switchStatement (start : NodeStart) : ParseM Statement := do
  next
  let discriminant ← g.parenthesized
  expect .braceL
  pushLabel (.anonymous .switch)
  enterScope { switch := true }
  let cases ← repeatPast ({} : SwitchProgress) g.casePass
  next
  popLabel
  return .switchStatement (← finishSpan start) discriminant cases

/-! ### `try` -/

/-- The parameter of a catch clause, in a scope of its own. -/
def catchParam : ParseM (Option Pattern) := do
  if ← eat .parenL then
    let param ← g.bindingAtom
    if param.isIdentifier then
      enterScope { simpleCatch := true }
      checkPattern .simpleCatch param
    else
      enterScope {}
      checkPattern .lexical param
    expect .parenR
    return some param
  else
    if (← edition) < 10 then unexpected
    enterScope {}
    return none

/-- A catch clause, at the word `catch`. -/
def catchClause : ParseM CatchClause := do
  let start ← startNode
  next
  let param ← g.catchParam
  let body ← g.scopelessBlock none
  exitScope
  return ⟨← finishSpan start, param, body⟩

def tryStatement (start : NodeStart) : ParseM Statement := do
  next
  let block ← g.block
  let handler ← if ← isKind .kwCatch then some <$> g.catchClause else pure none
  let finalizer ← if ← eat .kwFinally then some <$> g.block else pure none
  if handler.isNone && finalizer.isNone then fail start.pos .missingCatch
  return .tryStatement (← finishSpan start) block handler finalizer

/-! ### Labels and expressions -/

/-- A statement after its label and the colon. -/
def labeledStatement (start : NodeStart) (label : Identifier) (context : Option StatementContext) :
    ParseM Statement := do
  if (← get).labels.any (·.name == some label.name) then
    fail label.span.start (.labelDeclared label.name)
  let kind := LabelKind.ofToken? (← kind)
  let inner ← tokenStart
  modify fun p =>
    { p with labels := ⟨some label.name, kind, some inner⟩ :: relabel start.pos inner kind p.labels }
  let body ← g.body (if context.isNone ∨ context = some .label then .label else .nested)
  popLabel
  return .labeledStatement (← finishSpan start) label body

/-- The end of a statement that is an expression. -/
def expressionStatement (start : NodeStart) (e : Expression) : ParseM Statement := do
  semicolon
  return .expressionStatement (← finishSpan start) e none

/-- An expression, or a label and the statement after it. -/
def expressionOrLabel (start : NodeStart) (context : Option StatementContext) : ParseM Statement := do
  let atName ← isKind .name
  let e ← g.plainExpression .plain
  match e with
  | .identifier label =>
    if ← pure atName <&&> eat .colon then g.labeledStatement start label context
    else expressionStatement start e
  | _ => expressionStatement start e

/-- A statement that begins with no keyword. -/
def wordStatement (start : NodeStart) (context : Option StatementContext) : ParseM Statement := do
  if ← atAsyncFunction then
    if context.isSome then unexpected
    next
    g.functionStatement start true false
  else if ← atAwaitUsing false then
    checkUsing
    awaitBeforeUsing
    g.declaration start .asyncResource
  else if ← atUsing false then
    checkUsing
    g.declaration start .resource
  else g.expressionOrLabel start context

end Grammar
end ScriptSyntax
