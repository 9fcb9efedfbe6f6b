import ScriptSyntax.Parser.Object

/-!
Classes: their elements, the modifiers before an element's name, and the private names that the
elements declare.
-/

namespace ScriptSyntax

/-- What stands around a class's name. -/
inductive ClassPlace where
  | declaration
  /-- A default export, which needs no name. -/
  | defaultExport
  | expression
deriving DecidableEq, Inhabited, Repr

/-- The modifiers before the name of a class element.  `word` is the last of them, if it turned out to
be the name itself. -/
structure Modifiers where
  isStatic : Bool := false
  isAsync : Bool := false
  isGenerator : Bool := false
  kind : MethodKind := .method
  word : Option String := none
deriving DecidableEq, Inhabited, Repr

/-- What is known of a class element before its value. -/
structure ElementHead where
  start : NodeStart
  isStatic : Bool
  key : Expression
  computed : Bool

namespace ElementHead

/-- Is the element named by a word or a string that reads `name`? -/
def isNamed (name : String) (h : ElementHead) : Bool :=
  !h.computed &&
    match h.key with
    | .identifier id => id.name == name
    | .literal literal => literal.value == .string name
    | _ => false

def isConstructor (h : ElementHead) : Bool := !h.isStatic && h.isNamed "constructor"

end ElementHead

/-- The private name that a class element declares, and how. -/
def ClassElement.privateName? : ClassElement → Option (PrivateIdentifier × PrivateKind)
  | .method _ isStatic _ (.privateIdentifier id) kind _ =>
    some (id,
      match kind with
      | .getter => .getter isStatic
      | .setter => .setter isStatic
      | _ => .plain)
  | .field _ _ _ (.privateIdentifier id) _ => some (id, .plain)
  | _ => none

namespace ParseM

/-- Can the current token be the name of a class element? -/
def atElementName : ParseM Bool := do
  match ← kind with
  | .name | .privateId | .num | .string | .bracketL => return true
  | kind => return kind.isKeyword

/-- Declares the private name of an element, if it has one. -/
def declarePrivate (e : ClassElement) : ParseM Unit := do
  if let some (id, kind) := e.privateName? then
    let (conflict, privateNames) := (← get).privateNames.declare id.name kind
    modify fun p => { p with privateNames }
    if conflict then failRecoverable id.span.start (.privateRedeclared id.name)

def enterClassBody : ParseM Unit :=
  modify fun p => { p with privateNames := p.privateNames.enter }

/-- Leaves a class body.  Outside all classes every private name must be declared. -/
def exitClassBody : ParseM Unit := do
  let (unresolved, privateNames) := (← get).privateNames.exit
  modify fun p => { p with privateNames }
  if let some (name, pos) := unresolved then
    if (← options).checkPrivateFields then failRecoverable pos (.privateUndeclared name)

/-- `async` before a method, with no line break between. -/
def asyncModifier (m : Modifiers) : ParseM Modifiers := do
  if ← (pure m.word.isNone <&&> since 8) <&&> eatContextual "async" then
    if ((← atElementName) || (← isKind .star)) && !(← canOmitSemicolon) then
      return { m with isAsync := true }
    else return { m with word := some "async" }
  else return m

def generatorModifier (m : Modifiers) : ParseM Modifiers := do
  if ← pure (m.word.isNone && ((← since 9) || !m.isAsync)) <&&> eat .star then
    return { m with isGenerator := true }
  else return m

/-- `get` or `set` before the name of an accessor. -/
def accessorModifier (m : Modifiers) : ParseM Modifiers := do
  let accessor (kind : MethodKind) (word : String) : ParseM Modifiers := do
    if ← atElementName then return { m with kind } else return { m with word := some word }
  if m.word.isSome || m.isAsync || m.isGenerator then return m
  else if ← eatContextual "get" then accessor .getter "get"
  else if ← eatContextual "set" then accessor .setter "set"
  else return m

/-- The modifiers after `static`, which `m` knows of. -/
def modifiersAfter (m : Modifiers) : ParseM Modifiers := do
  accessorModifier (← generatorModifier (← asyncModifier m))

/-- The modifier just read, as a name. -/
def modifierName (word : String) : ParseM Identifier := do
  let l ← lexer
  return ⟨← finishSpan ⟨l.last.start, l.last.startPosition⟩, word⟩

end ParseM

namespace Grammar

open ParseM

variable (g : Grammar)

/-- The name of a class element, and whether it is computed. -/
def elementName : ParseM (Expression × Bool) := do
  if ← isKind .privateId then
    if (← lexer).text = "constructor" then fail (← tokenStart) .privateConstructor
    return (.privateIdentifier (← privateIdentifier), false)
  else g.propertyName

/-- A method, which has its modifiers and its name behind it. -/
def classMethod (head : ElementHead) (m : Modifiers) (derived : Bool) : ParseM ClassElement := do
  let pos := head.key.span.start
  let kind := if head.isConstructor then .constructor else m.kind
  if head.isConstructor then
    if m.kind ≠ .method then fail pos .accessorConstructor
    if m.isGenerator then fail pos .generatorConstructor
    if m.isAsync then fail pos .asyncConstructor
  else if head.isStatic && head.isNamed "prototype" then fail pos .staticPrototypeMethod
  let value ← g.method m.isGenerator m.isAsync (head.isConstructor && derived)
  if kind = .getter ∨ kind = .setter then checkAccessor (kind == .getter) value
  return .method (← finishSpan head.start) head.isStatic head.computed head.key kind value

/-- A field with or without a value. -/
def classField (head : ElementHead) : ParseM ClassElement := do
  let pos := head.key.span.start
  if head.isNamed "constructor" then fail pos .constructorField
  if head.isStatic && head.isNamed "prototype" then fail pos .staticPrototypeField
  let value ←
    if ← eat .eq then
      enterScope { fieldInitializer := true, super := true }
      let value ← g.plainAssignment .plain
      exitScope
      pure (some value)
    else pure none
  semicolon
  return .field (← finishSpan head.start) head.isStatic head.computed head.key value

/-- A static block, at its brace. -/
def staticBlock (start : NodeStart) : ParseM ClassElement := do
  next
  let body ← withoutLabels do
    enterScope { staticBlock := true, super := true }
    let body ← collectUntil .braceR (g.statement none false)
    next
    exitScope
    return body
  return .staticBlock (← finishSpan start) body

/-- An element after the modifier `static`, if it stood there. -/
def elementAfter (start : NodeStart) (derived : Bool) (m : Modifiers) : ParseM ClassElement := do
  let m ← modifiersAfter m
  let (key, computed) ←
    match m.word with
    | some word => pure (.identifier (← modifierName word), false)
    | none => g.elementName
  let head : ElementHead := ⟨start, m.isStatic, key, computed⟩
  if (← edition) < 13 || (← isKind .parenL) || m.kind != .method || m.isGenerator || m.isAsync then
    g.classMethod head m derived
  else g.classField head

/-- One element of a class. -/
def classElement (derived : Bool) : ParseM ClassElement := do
  let start ← startNode
  if ← eatContextual "static" then
    if (← since 13) && (← isKind .braceL) then g.staticBlock start
    else if (← atElementName) || (← isKind .star) then
      g.elementAfter start derived { isStatic := true }
    else g.elementAfter start derived { word := some "static" }
  else g.elementAfter start derived {}

/-- The elements of a class so far, latest first, and whether a constructor is among them. -/
structure ClassProgress where
  elements : List ClassElement := []
  hasConstructor : Bool := false

/-- Adds an element.  A class has one constructor. -/
def addElement (progress : ClassProgress) (e : ClassElement) : ParseM ClassProgress := do
  match e with
  | .method span _ _ _ .constructor _ =>
    if progress.hasConstructor then failRecoverable span.start .duplicateConstructor
    return ⟨e :: progress.elements, true⟩
  | e =>
    declarePrivate e
    return { progress with elements := e :: progress.elements }

/-- The elements up to the closing brace. -/
def classElements (derived : Bool) : ParseM (List ClassElement) :=
  repeatPast ({} : ClassProgress) fun progress => do
    if ← isKind .braceR then return .done progress.elements.reverse
    else if ← eat .semi then return .again progress
    else return .again (← addElement progress (← g.classElement derived))

/-- The name of a class, bound in the scope around it unless the class is an expression. -/
def className (place : ClassPlace) : ParseM (Option Identifier) := do
  if ← isKind .name then
    let id ← identifier
    unless place = .expression do checkBinding .lexical id
    return some id
  else if place = .declaration then unexpected
  else return none

/-- A class, at the word `class`.  All of it is strict. -/
def classDefinition (place : ClassPlace) : ParseM Class := do
  let start ← startNode
  next
  let outerStrict ← strict
  setStrict true
  let id ← className place
  let heritage ←
    if ← eat .kwExtends then some <$> (g.subscripted .plain).alone else pure none
  enterClassBody
  let bodyStart ← startNode
  expect .braceL
  let elements ← g.classElements heritage.isSome
  setStrict outerStrict
  next
  let bodySpan ← finishSpan bodyStart
  exitClassBody
  return ⟨← finishSpan start, id, heritage, bodySpan, elements⟩

end Grammar
end ScriptSyntax
