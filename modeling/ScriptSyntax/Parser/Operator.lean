import ScriptSyntax.Parser.Atom

/-!
Operators: updates and other unary operators, binary operators by their precedence, conditions and
assignments.
-/

namespace ScriptSyntax

/-- Is it a member with a private name? -/
def Expression.isPrivateMember : Expression → Bool
  | .member m =>
    match m.property with
    | .privateIdentifier _ => true
    | _ => false
  | .chain _ e => e.isPrivateMember
  | _ => false

namespace Grammar

open ParseM

variable (g : Grammar)

/-! ### Unary operators -/

/-- An operand that no operator around it makes a pattern. -/
def plainUnary (afterUnary inUpdate : Bool) (init : InitMode) : ParseM Expression :=
  (g.unary afterUnary inUpdate init).alone

/-- The join of two operands.  A private name is no right operand. -/
def join (start : NodeStart) (operator : TokenKind) (left right : Expression) :
    ParseM Expression := do
  if let .privateIdentifier id := right then fail id.span.start .privateRightOperand
  let span ← finishSpan start
  match LogicalOperator.ofToken? operator, BinaryOperator.ofToken? operator with
  | some operator, _ => return .logical span operator left right
  | none, some operator => return .binary span operator left right
  | none, none => unexpectedAt span.start

def awaitExpression (init : InitMode) : ParseM Expression := do
  let start ← startNode
  modify fun p => { p with awaitAt := p.awaitAt.or (some start.pos) }
  next
  let argument ← g.plainUnary true false init
  return .await (← finishSpan start) argument

/-- An update before its operand. -/
def prefixUpdate (operator : UpdateOperator) (init : InitMode) : CoverM Expression := do
  let start ← startNode
  next
  let argument ← g.plainUnary true true init
  CoverM.checkExpression
  let _ ← simpleTarget argument
  return .update (← finishSpan start) operator true argument

/-- What may not be deleted. -/
def checkDelete (pos : Nat) (argument : Expression) : ParseM Unit := do
  if let .identifier _ := argument then
    if ← strict then failRecoverable pos .deleteVariable
  if argument.isPrivateMember then failRecoverable pos .deletePrivate

def unaryExpression (operator : UnaryOperator) (init : InitMode) : CoverM Expression := do
  let start ← startNode
  next
  let argument ← g.plainUnary true false init
  CoverM.checkExpression
  if operator = .delete then checkDelete start.pos argument
  return .unary (← finishSpan start) operator argument

/-- A private name before `in`. -/
def privateOperand (init : InitMode) : ParseM Expression := do
  if (init != .plain || (← get).privateNames.isEmpty) && (← options).checkPrivateFields then
    unexpected
  let id ← privateIdentifier
  unless ← isKind .kwIn do unexpected
  return .privateIdentifier id

/-- The updates after an operand, which stand on its line. -/
def postfixUpdates (start : NodeStart) (operand : Expression) : ParseM Expression :=
  repeatPast operand fun e => do
    match UpdateOperator.ofToken? (← kind), ← canOmitSemicolon with
    | some operator, false =>
      let _ ← simpleTarget e
      next
      return .again (.update (← finishSpan start) operator false e)
    | _, _ => return .done e

/-- A power after its base.  The base has no unary operator before it. -/
def power (start : NodeStart) (base : Expression) (afterUnary inUpdate : Bool) (init : InitMode) :
    ParseM Expression := do
  if !inUpdate && (← isKind .starStar) then
    if afterUnary then unexpected
    next
    let right ← g.plainUnary false false init
    join start .starStar base right
  else return base

/-- An operand with the operators before and after it, and powers of it. -/
def unaryLevel (afterUnary inUpdate : Bool) (init : InitMode) : CoverM Expression := do
  let start ← startNode
  let kind ← kind
  if (← isContextual "await") && (← scopes).canAwait then
    g.power start (← g.awaitExpression init) true inUpdate init
  else
    match UpdateOperator.ofToken? kind, UnaryOperator.ofToken? kind with
    | some operator, _ =>
      g.power start (← g.prefixUpdate operator init) afterUnary inUpdate init
    | none, some operator =>
      g.power start (← g.unaryExpression operator init) true inUpdate init
    | none, none =>
      if !afterUnary && kind == .privateId then
        g.power start (← privateOperand init) afterUnary inUpdate init
      else
        let e ← g.subscripted init
        if ← CoverM.mustBePattern then return e
        else g.power start (← postfixUpdates start e) afterUnary inUpdate init

/-! ### Binary operators -/

/-- How tight the right operand of an operator binds; that of `??` takes in no `&&`. -/
def rightPrecedence (operator : TokenKind) (precedence : Nat) : Nat :=
  if operator = .questionQuestion then 2 else precedence

/-- Operators of two kinds that need parentheses between them. -/
def isMixed (operator following : TokenKind) : Bool :=
  match operator, following with
  | .pipePipe, .questionQuestion | .ampAmp, .questionQuestion
  | .questionQuestion, .pipePipe | .questionQuestion, .ampAmp => true
  | _, _ => false

/-- The current token as a binary operator that binds tighter than `loosest`. -/
def tighterOperator? (loosest : Nat) (init : InitMode) : ParseM (Option (TokenKind × Nat)) := do
  let kind ← kind
  match kind.precedence? with
  | some precedence =>
    if loosest < precedence && !(kind == .kwIn && init != .plain) then
      return some (kind, precedence)
    else return none
  | none => return none

/-- Joins to an operand the operators that bind tighter than `loosest`, with their right operands.
Operators inside a right operand bind tighter still, so they nest as deep as there are precedences. -/
def binary (init : InitMode) : (height loosest : Nat) → NodeStart → Expression → ParseM Expression
  | 0, _, _, left => return left
  | height + 1, loosest, start, left =>
    repeatPast left fun left => do
      match ← tighterOperator? loosest init with
      | none => return .done left
      | some (operator, precedence) =>
        next
        let rightStart ← startNode
        let operand ← g.plainUnary false false init
        let right ← binary init height (rightPrecedence operator precedence) rightStart operand
        let left ← join start operator left right
        if isMixed operator (← kind) then failRecoverable (← tokenStart) .mixedCoalesce
        return .again left

/-- There are ten precedences. -/
def binaryHeight : Nat := 11

/-- Operands with binary operators between them. -/
def operators (init : InitMode) : CoverM Expression := do
  let start ← startNode
  let e ← g.unary false false init
  let isArrow :=
    match e with
    | .arrow .. => e.span.start == start.pos
    | _ => false
  if isArrow || (← CoverM.mustBePattern) then return e
  else g.binary init binaryHeight 0 start e

/-! ### Conditions, `yield` and assignments -/

/-- A condition with what it chooses from. -/
def conditional (init : InitMode) : CoverM Expression := do
  let start ← startNode
  let test ← g.operators init
  if ← CoverM.mustBePattern then return test
  else if ← eat .question then
    let consequent ← g.plainAssignment .plain
    expect .colon
    let alternate ← g.plainAssignment init
    return .conditional (← finishSpan start) test consequent alternate
  else return test

def yieldExpression (init : InitMode) : ParseM Expression := do
  let start ← startNode
  modify fun p => { p with yieldAt := p.yieldAt.or (some start.pos) }
  next
  let kind ← kind
  if kind == .semi || (← canOmitSemicolon) || (kind != .star && !kind.startsExpr) then
    return .yield (← finishSpan start) false none
  else
    let delegate ← eat .star
    let argument ← g.plainAssignment init
    return .yield (← finishSpan start) delegate (some argument)

/-- The left side of `=` as a pattern. -/
def assignedPattern (left : Expression) : CoverM Pattern := do
  let rules ← targetRules false
  if left.settlesFaults rules.edition then
    if let some deferred ← get then check (deferred.patternComplaint? false)
  ofExcept (left.toPattern rules)

/-- An assignment after its left side, at its operator.  Faults that the left side excuses are
forgotten; `old` are those from before it. -/
def assignmentTo (start : NodeStart) (operator : AssignmentOperator) (left : Expression)
    (old : Deferred) (init : InitMode) : CoverM Expression := do
  let target ← if operator = .assign then assignedPattern left else simpleTarget left
  CoverM.amend fun d =>
    { d.forgetTarget with shorthandDefault := d.shorthandDefault.filter (· < left.span.start) }
  if operator = .assign then checkPattern .none target
  next
  let value ← g.plainAssignment init
  CoverM.amend fun d => { d with secondProto := old.secondProto.or d.secondProto }
  return .assignment (← finishSpan start) operator target value

/-- An assignment or anything that binds tighter.  Where nobody around it settles faults, it settles
its own. -/
def assignmentOrTighter (init : InitMode) : CoverM Expression := do
  let outer ← get
  let old := outer.getD {}
  set (some { old with parenthesizedTarget := none, commaAfterRest := none })
  let start ← startNode
  if (← isKind .parenL) || (← isKind .name) then
    modifyThe Parser fun p =>
      { p with potentialArrowAt := some start.pos, arrowInForAwait := init == .forAwaitHead }
  let left ← g.conditional init
  let e ←
    match AssignmentOperator.ofToken? (← kind) with
    | some operator => g.assignmentTo start operator left old init
    | none =>
      if outer.isNone then CoverM.checkExpression
      CoverM.amend fun d =>
        { d with
          parenthesizedTarget := old.parenthesizedTarget.or d.parenthesizedTarget
          commaAfterRest := old.commaAfterRest.or d.commaAfterRest }
      pure left
  if outer.isNone then set (none : Option Deferred)
  return e

/-- An assignment, a `yield` in a generator, or anything that binds tighter.  Elsewhere `yield` is a
name, and a slash after it divides. -/
def assignmentLevel (init : InitMode) : CoverM Expression := do
  if ← isContextual "yield" then
    if (← scopes).inGenerator then g.yieldExpression init
    else
      modifyThe Parser fun p =>
        { p with lexer := { p.lexer with toCursor := p.lexer.toCursor.allow false } }
      g.assignmentOrTighter init
  else g.assignmentOrTighter init

end Grammar
end ScriptSyntax
