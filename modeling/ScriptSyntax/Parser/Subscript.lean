import ScriptSyntax.Parser.Function

/-!
What can follow an operand: members, calls and templates, and the chains that they form.
-/

namespace ScriptSyntax

/-- Line breaks of every kind as line feeds. -/
def normalizeLineBreaks : List Char → List Char
  | '\r' :: '\n' :: rest => '\n' :: normalizeLineBreaks rest
  | '\r' :: rest => '\n' :: normalizeLineBreaks rest
  | c :: rest => c :: normalizeLineBreaks rest
  | [] => []

namespace Grammar

open ParseM

variable (g : Grammar)

/-! ### Templates -/

/-- A chunk of a template's text.  Only after a tag may it contain an invalid escape. -/
def templateElement (tagged : Bool) : ParseM TemplateElement := do
  let start ← startNode
  let l ← lexer
  let raw := normalizeLineBreaks ((← source).chars l.token.start l.token.stop)
  let cooked ←
    match l.kind, l.value with
    | .invalidTemplate, _ =>
      if tagged then pure none else failRecoverable l.token.start .badTemplateEscape
    | .template, .string cooked => pure (some cooked)
    | _, _ => unexpected
  next
  let isTail ← isKind .backQuote
  return ⟨← finishSpan start, String.ofList raw, cooked, isTail⟩

/-- A substitution and the chunk after it. -/
def substitution (tagged : Bool) : ParseM (Expression × TemplateElement) := do
  if ← isKind .eof then fail (← lexer).pos .unterminatedTemplateLiteral
  expect .dollarBraceL
  let e ← g.plainExpression .plain
  expect .braceR
  return (e, ← templateElement tagged)

/-- A template; its lists are collected latest first. -/
def template (tagged : Bool) : ParseM Template := do
  let start ← startNode
  next
  let first ← templateElement tagged
  let (expressions, elements) ← repeatPast (([] : List Expression), first, ([] : List TemplateElement))
    fun (expressions, last, elements) => do
      if last.isTail then return .done (expressions.reverse, (last :: elements).reverse)
      else
        let (e, element) ← g.substitution tagged
        return .again (e :: expressions, element, last :: elements)
  next
  return ⟨← finishSpan start, expressions, elements⟩

/-! ### Lists -/

/-- An element after three points. -/
def spread : CoverM Expression := do
  let start ← startNode
  next
  let argument ← g.assignment .plain
  return .spread (← finishSpan start) argument

/-- Notes a comma after a spread element. -/
def noteCommaAfterSpread : CoverM Unit := do
  if ← isKind .comma then
    let pos ← tokenStart
    CoverM.amend fun d => { d with commaAfterRest := d.commaAfterRest.or (some pos) }

/-- An element of a list; a hole is none. -/
def listElement (holes : Bool) : CoverM (Option Expression) := do
  if holes && (← isKind .comma) then return none
  else if ← isKind .ellipsis then
    let e ← g.spread
    noteCommaAfterSpread
    return some e
  else return some (← g.assignment .plain)

/-- Elements up to a closing token, which is moved past. -/
def expressionList (close : TokenKind) (trailing holes : Bool) : CoverM (List (Option Expression)) :=
  commaSeparated close trailing (g.listElement holes)

/-! ### Chains -/

/-- The name of a member after a point. -/
def memberName (object : Expression) : ParseM Expression := do
  let ofSuper :=
    match object with
    | .super _ => true
    | _ => false
  if (← isKind .privateId) && !ofSuper then return .privateIdentifier (← privateIdentifier)
  else return .identifier (← propertyWord)

/-- The rest of a member access, if one follows; `optional` says that `?.` was read. -/
def memberAccess? (base : Expression) (start : NodeStart) (optional : Bool) :
    ParseM (Option Expression) := do
  if ← eat .bracketL then
    let property ← g.plainExpression .plain
    expect .bracketR
    return some (.member ⟨← finishSpan start, base, property, true, optional⟩)
  else
    let callFollows := (← isKind .parenL) || (← isKind .backQuote)
    if ← pure (optional && !callFollows) <||> eat .dot then
      let property ← memberName base
      return some (.member ⟨← finishSpan start, base, property, false, optional⟩)
    else return none

/-- The arguments of a call, after its parenthesis.  They may turn out to be the parameters of an
async arrow function, and then the whole is that function. -/
def call (base : Expression) (start : NodeStart) (optional asyncArrow : Bool) (init : InitMode) :
    ParseM (Pass Expression Expression) := do
  let outer ← get
  modify fun p => { p with yieldAt := none, awaitAt := none, awaitNameAt := none }
  let (arguments, deferred) ←
    CoverM.deferring {} (g.expressionList .parenR (← since 8) false)
  if ← pure (asyncArrow && !optional && !(← canOmitSemicolon)) <&&> eat .arrow then
    check (deferred.patternComplaint? true)
    checkParameterAwait
    if let some pos := (← get).awaitNameAt then fail pos .awaitInAsync
    modify fun p =>
      { p with yieldAt := outer.yieldAt, awaitAt := outer.awaitAt, awaitNameAt := outer.awaitNameAt }
    return .done (← g.arrow start arguments none true init)
  else
    check deferred.expressionComplaint?
    modify fun p =>
      { p with
        yieldAt := outer.yieldAt.or p.yieldAt
        awaitAt := outer.awaitAt.or p.awaitAt
        awaitNameAt := outer.awaitNameAt.or p.awaitNameAt }
    return .again (.call (← finishSpan start) base (arguments.filterMap id) optional)

/-- How far a chain is read: the whole so far, and whether `?.` stands in it. -/
structure Chain where
  base : Expression
  isOptional : Bool

/-- Reads one link of a chain.  The callee of `new` has no calls and no optional links. -/
def chainPass (start : NodeStart) (callee asyncArrow : Bool) (init : InitMode) (chain : Chain) :
    ParseM (Pass Chain (Expression × Bool)) := do
  let optional ← since 11 <&&> eat .questionDot
  if callee && optional then fail (← lexer).last.start .optionalCallee
  match ← g.memberAccess? chain.base start optional with
  | some e => return .again ⟨e, chain.isOptional || optional⟩
  | none =>
    if ← pure (!callee) <&&> eat .parenL then
      match ← g.call chain.base start optional asyncArrow init with
      | .again e => return .again ⟨e, chain.isOptional || optional⟩
      | .done e => return .done (e, false)
    else if ← isKind .backQuote then
      if optional || chain.isOptional then fail (← tokenStart) .optionalTag
      let template ← g.template true
      return .again ⟨.taggedTemplate (← finishSpan start) chain.base template, chain.isOptional⟩
    else return .done (chain.base, chain.isOptional)

/-- Is the operand just read the word `async` before the parameters of an arrow function? -/
def beginsAsyncArrow (base : Expression) : ParseM Bool := do
  let p ← get
  match base with
  | .identifier id =>
    return (← since 8) && id.name == "async" && id.span.stop - id.span.start == 5 &&
      p.lexer.last.stop == id.span.stop && !(← canOmitSemicolon) &&
      p.potentialArrowAt == some id.span.start
  | _ => return false

/-- All that follows an operand. -/
def subscripts (base : Expression) (start : NodeStart) (callee : Bool) (init : InitMode) :
    ParseM Expression := do
  let asyncArrow ← beginsAsyncArrow base
  let (e, isOptional) ← repeatPast (⟨base, false⟩ : Chain)
    (g.chainPass start callee asyncArrow init)
  if isOptional then return .chain (← finishSpan start) e else return e

/-- Is the text of the last token a closing parenthesis? -/
def afterParenthesis : ParseM Bool := do
  let l ← lexer
  return (← source).chars l.last.start l.last.stop == [')']

/-- An operand with what follows it.  Parentheses and commas inside an object whose member is taken
are no fault of a target. -/
def subscripted (init : InitMode) : CoverM Expression := do
  let start ← startNode
  let base ← g.atom init false
  let isArrow :=
    match base with
    | .arrow .. => true
    | _ => false
  if isArrow && !(← afterParenthesis) then return base
  else
    let e ← g.subscripts base start false init
    if let .member m := e then CoverM.amend (·.excuseMember m.span.start)
    return e

end Grammar
end ScriptSyntax
