import ScriptSyntax.Parser.Statement

/-!
The three loops that begin with `for`, which part only inside their heads.
-/

namespace ScriptSyntax
namespace Grammar

open ParseM

variable (g : Grammar)

/-- A loop with a test and an update, after its start. -/
def forLoop (start : NodeStart) (init : Option ForInit) : ParseM Statement := do
  expect .semi
  let test ← if ← isKind .semi then pure none else some <$> g.plainExpression .plain
  expect .semi
  let update ← if ← isKind .parenR then pure none else some <$> g.plainExpression .plain
  expect .parenR
  let body ← g.body .nested
  return .forStatement (← finishSpan start) init test update body

/-- May the declaration in the head of a loop over a collection give a value to its variable?  Sloppy
code from the eighth edition on allows it for one plain `var` before `in`. -/
def valueAllowed (isIn strict : Bool) (edition : Nat) (d : VariableDeclaration) : Bool :=
  match d.declarators with
  | [] => true
  | v :: _ =>
    v.value.isNone || (isIn && 8 ≤ edition && !strict && d.kind == .var && v.target.isIdentifier)

/-- A loop over a collection, at `in` or `of`. -/
def forEach (start : NodeStart) (target : ForTarget) (isAwait : Bool) : ParseM Statement := do
  let isIn ← isKind .kwIn
  next
  if let .declaration d := target then
    unless valueAllowed isIn (← strict) (← edition) d do
      fail d.span.start (if isIn then .forInInitializer else .forOfInitializer)
  let collection ← if isIn then g.plainExpression .plain else g.plainAssignment .plain
  expect .parenR
  let body ← g.body .nested
  let span ← finishSpan start
  return if isIn then .forInStatement span target collection body
    else .forOfStatement span isAwait target collection body

/-- A loop whose head began with a declaration.  `awaitAt` is where `await` stood before the head. -/
def forAfterDeclaration (start : NodeStart) (d : VariableDeclaration) (awaitAt : Option Nat) :
    ParseM Statement := do
  let isIn ← isKind .kwIn
  if (← atLoopWord) && d.declarators.length == 1 then
    if isIn then
      if let some pos := awaitAt then unexpectedAt pos
    g.forEach start (.declaration d) (!isIn && awaitAt.isSome)
  else
    if let some pos := awaitAt then unexpectedAt pos
    g.forLoop start (some (.declaration d))

/-- A declaration in a head, at the last of the words that begin it. -/
def forDeclaration (start declarationStart : NodeStart) (kind : VariableKind) (awaitAt : Option Nat) :
    ParseM Statement := do
  next
  let found ← g.declarators true kind
  g.forAfterDeclaration start ⟨← finishSpan declarationStart, kind, found⟩ awaitAt

/-- What rules out the expression before `of` as a target. -/
def checkOfTarget (e : Expression) (pos : Nat) (escaped startsWithLet : Bool) (isAwait : Bool) :
    ParseM Unit := do
  let isAsync :=
    match e with
    | .identifier id => id.name == "async"
    | _ => false
  if !isAwait && (← since 8) && e.span.start == pos && !escaped && isAsync then unexpected
  if startsWithLet then fail e.span.start .forOfLet

/-- A loop whose head began with an expression. -/
def forAfterExpression (start : NodeStart) (awaitAt : Option Nat) : ParseM Statement := do
  let startsWithLet ← isContextual "let"
  let escaped ← containsEscape
  let pos ← tokenStart
  let (e, deferred) ← CoverM.deferring {}
    (if awaitAt.isSome then g.subscripted .forAwaitHead else g.expression .forHead)
  if ← atLoopWord then
    if ← isKind .kwIn then
      if let some pos := awaitAt then unexpectedAt pos
    else checkOfTarget e pos escaped startsWithLet awaitAt.isSome
    let (target, _) ← CoverM.deferring deferred (assignedPattern e)
    checkPattern .none target
    g.forEach start (.pattern target) awaitAt.isSome
  else
    check deferred.expressionComplaint?
    if let some pos := awaitAt then unexpectedAt pos
    g.forLoop start (some (.expression e))

/-- The kind of the declaration that a head begins with, if it begins with one other than of
resources. -/
def variableKind? : ParseM (Option VariableKind) := do
  if ← atLet none then return some .lexical
  else
    match ← kind with
    | .kwVar => return some .var
    | .kwConst => return some .constant
    | _ => return none

/-- A loop from the parenthesis before its head on. -/
def forHead (start : NodeStart) (awaitAt : Option Nat) : ParseM Statement := do
  expect .parenL
  if ← isKind .semi then
    if let some pos := awaitAt then unexpectedAt pos
    g.forLoop start none
  else
    let headStart ← startNode
    match ← variableKind? with
    | some kind => g.forDeclaration start headStart kind awaitAt
    | none =>
      if ← atUsing true then g.forDeclaration start headStart .resource awaitAt
      else if ← atAwaitUsing true then
        next
        unless (← scopes).canAwait do fail (← tokenStart) .awaitUsingOutsideAsync
        g.forDeclaration start headStart .asyncResource awaitAt
      else g.forAfterExpression start awaitAt

/-- A loop, at the word `for`. -/
def forStatement (start : NodeStart) : ParseM Statement := do
  next
  let isAwait ← pure ((← since 9) && (← scopes).canAwait) <&&> eatContextual "await"
  let pos := (← lexer).last.start
  let awaitAt := if isAwait then some pos else none
  pushLabel (.anonymous .loop)
  enterScope {}
  let s ← g.forHead start awaitAt
  exitScope
  popLabel
  return s

end Grammar
end ScriptSyntax
