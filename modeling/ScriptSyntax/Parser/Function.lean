import ScriptSyntax.Parser.Binding

/-!
Blocks, and the functions, methods and arrow functions that have one for a body.
-/

namespace ScriptSyntax

/-- The text of a directive, for a statement that is nothing but a string.  A string in parentheses
is none. -/
def Statement.directiveText? (source : Source) : Statement → Option String
  | .expressionStatement span (.literal literal) _ =>
    match literal.value with
    | .string _ =>
      if source.has span.start '"' ∨ source.has span.start '\'' then
        some (String.ofList (literal.raw.toList.drop 1).dropLast)
      else none
    | _ => none
  | _ => none

/-- The statement as a directive, if it can be one. -/
def Statement.asDirective? (source : Source) (s : Statement) : Option Statement :=
  match s, s.directiveText? source with
  | .expressionStatement span e _, some text => some (.expressionStatement span e (some text))
  | _, _ => none

/-- Marks the string statements that a body of code begins with as directives. -/
def markDirectives (source : Source) : List Statement → List Statement
  | [] => []
  | s :: rest =>
    match s.asDirective? source with
    | some directive => directive :: markDirectives source rest
    | none => s :: rest

/-- What stands around a function's name. -/
inductive FunctionPlace where
  | expression
  | declaration
  /-- The body of a branch or label, where the name is not bound. -/
  | hanging
  /-- A default export, which needs no name. -/
  | defaultExport
deriving DecidableEq, Inhabited, Repr

def Pattern.isIdentifier : Pattern → Bool
  | .identifier _ => true
  | _ => false

namespace ParseM

/-- Marks the directives of a body; there are none before the fifth edition. -/
def withDirectives (body : List Statement) : ParseM (List Statement) := do
  if ← since 5 then return markDirectives (← source) body else return body

/-- Runs a step that has occurrences of `yield` and `await` of its own. -/
def withOwnAwait {α : Type} (step : ParseM α) : ParseM α := do
  let outer ← get
  modify fun p => { p with yieldAt := none, awaitAt := none, awaitNameAt := none }
  let a ← step
  modify fun p =>
    { p with yieldAt := outer.yieldAt, awaitAt := outer.awaitAt, awaitNameAt := outer.awaitNameAt }
  return a

/-- Parameters contain no `yield` and no `await` expression; the first of them is at fault. -/
def checkParameterAwait : ParseM Unit := do
  let p ← get
  match p.yieldAt, p.awaitAt with
  | some y, some a => if y < a then fail y .yieldInParameters else fail a .awaitInParameters
  | some y, none => fail y .yieldInParameters
  | none, some a => fail a .awaitInParameters
  | none, none => return

end ParseM

namespace Grammar

open ParseM

variable (g : Grammar)

/-- Statements in braces.  The code after the closing brace is strict or not as `strictAfter` says, if
it says so. -/
def statementsInBraces (strictAfter : Option Bool) : ParseM (List Statement) := do
  expect .braceL
  let body ← collectUntil .braceR (g.statement none false)
  if let some strict := strictAfter then setStrict strict
  next
  return body

/-- A block with a scope of its own. -/
def block : ParseM Block := do
  let start ← startNode
  expect .braceL
  enterScope {}
  let body ← collectUntil .braceR (g.statement none false)
  next
  exitScope
  return ⟨← finishSpan start, body⟩

/-- A block whose scope was entered before. -/
def scopelessBlock (strictAfter : Option Bool) : ParseM Block := do
  let start ← startNode
  let body ← g.statementsInBraces strictAfter
  return ⟨← finishSpan start, body⟩

/-- The body of a function in braces.  The scope of the function is left at its end.  `unique` says
that no name may be bound by two parameters, which strict code and parameters with structure forbid
as well. -/
def functionBody (params : List Pattern) (id : Option Identifier) (start : Nat) (unique : Bool) :
    ParseM Block := do
  let outerStrict ← strict
  let simple := params.all (·.isIdentifier)
  let structured := (← since 7) && !simple
  let directive := (!outerStrict || structured) &&
    (← source).opensStrict (← edition) (← lexer).token.stop
  if directive && structured then failRecoverable start .strictDirectiveInComplexFunction
  let body ← withoutLabels do
    if directive then setStrict true
    checkParams params (outerStrict || directive || unique || !simple)
    if let some id := id then
      if ← strict then checkBinding .outside id
    let block ← g.scopelessBlock (if directive && !outerStrict then some false else none)
    return { block with body := ← withDirectives block.body }
  exitScope
  return body

/-- A method from its parameters on. -/
def method (isGenerator isAsync directSuper : Bool) : ParseM Callable := do
  let start ← startNode
  let isGenerator := isGenerator && (← since 6)
  let isAsync := isAsync && (← since 8)
  let (params, body) ← withOwnAwait do
    enterScope { ScopeFlags.ofFunction isAsync isGenerator with super := true, directSuper }
    expect .parenL
    let params ← g.parameters
    checkParameterAwait
    return (params, ← g.functionBody params none start.pos true)
  return ⟨← finishSpan start, none, isGenerator, isAsync, params, body⟩

/-- How the name of a function declaration is bound. -/
def functionBinding (special : Bool) : ParseM Binding := do
  if (← strict) || special then
    return if (← scopes).functionsAsVars then .var else .lexical
  else return .function

/-- The name of a declared function, bound in the scope around it. -/
def functionName (place : FunctionPlace) (special : Bool) : ParseM (Option Identifier) := do
  if place = .expression ∨ (place = .defaultExport ∧ (← kind) ≠ .name) then return none
  else
    let id ← identifier
    unless place = .hanging do checkBinding (← functionBinding special) id
    return some id

/-- The star of a generator. -/
def generatorStar (place : FunctionPlace) (isAsync : Bool) : ParseM Bool := do
  if (← since 9) || ((← since 6) && !isAsync) then
    if (← isKind .star) && place == .hanging then unexpected
    eat .star
  else return false

/-- A function after the word `function`. -/
def function (start : NodeStart) (place : FunctionPlace) (isAsync : Bool) : ParseM Callable := do
  let isGenerator ← generatorStar place isAsync
  let isAsync := isAsync && (← since 8)
  let declared ← functionName place (isGenerator || isAsync)
  let (id, params, body) ← withOwnAwait do
    enterScope (.ofFunction isAsync isGenerator)
    let own ← if place = .expression ∧ (← kind) = .name then some <$> identifier else pure none
    let id := declared.or own
    expect .parenL
    let params ← g.parameters
    checkParameterAwait
    return (id, params, ← g.functionBody params id start.pos false)
  return ⟨← finishSpan start, id, isGenerator, isAsync, params, body⟩

/-- An arrow function after its arrow; its parameters were read as expressions. -/
def arrow (start : NodeStart) (params : List (Option Expression)) (rest : Option Pattern)
    (isAsync : Bool) (init : InitMode) : ParseM Expression := do
  let (params, body) ← withOwnAwait do
    enterScope { ScopeFlags.ofFunction isAsync false with arrow := true }
    let targets ← ofExcept (slotTargets (← targetRules true) params)
    let params := targets.filterMap id ++ rest.toList
    if ← isKind .braceL then
      return (params, ArrowBody.block (← g.functionBody params none start.pos true))
    else
      let body ← g.plainAssignment init
      checkParams params true
      exitScope
      return (params, ArrowBody.expression body)
  return .arrow (← finishSpan start) (isAsync && (← since 8)) params body

end Grammar
end ScriptSyntax
