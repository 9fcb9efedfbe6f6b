import ScriptSyntax.Parser.State

/-!
Identifiers, and the words that cannot be one in a place.
-/

namespace ScriptSyntax

namespace Setting

def reservedWords (s : Setting) : ReservedWords :=
  ⟨s.edition, s.inModule, s.options.reservedPolicy == .yes⟩

/-- Are reserved words forbidden even as the names of properties? -/
def neverReserved (s : Setting) : Bool := s.options.reservedPolicy == .never

def isReserved (s : Setting) (strict : Bool) (name : String) : Bool :=
  if strict then s.reservedWords.containsStrict name else s.reservedWords.contains name

/-- Is the identifier written with an escape? -/
def hasEscape (s : Setting) (id : Identifier) : Bool :=
  (s.source.chars id.span.start id.span.stop).contains '\\'

/-- What forbids an identifier in the scopes around it. -/
def nameComplaint? (s : Setting) (strict : Bool) (scopes : ScopeStack) (id : Identifier) :
    Option Complaint :=
  let pos := id.span.start
  if scopes.inGenerator && id.name == "yield" then some (.recoverable pos .yieldInGenerator)
  else if scopes.inAsync && id.name == "await" then some (.recoverable pos .awaitInAsync)
  else if !scopes.thisScope.holdsVars && id.name == "arguments" then
    some (.recoverable pos .argumentsInFieldInitializer)
  else if scopes.inStaticBlock && (id.name == "arguments" || id.name == "await") then
    some (.fatal pos (.nameInStaticBlock id.name))
  else if Word.isKeyword s.edition s.inModule id.name then
    some (.fatal pos (.unexpectedKeyword id.name))
  else if s.edition < 6 && s.hasEscape id then none
  else if s.isReserved strict id.name then
    if id.name == "await" && !scopes.inAsync then some (.recoverable pos .awaitOutsideAsync)
    else some (.recoverable pos (.reservedWord id.name))
  else none

end Setting

namespace ParseM

/-- Fails if the identifier cannot stand here. -/
def checkName (id : Identifier) : ParseM Unit := do
  check ((← read).nameComplaint? (← strict) (← scopes) id)

/-- Remembers the first `await` that is a plain name. -/
def noteAwaitName (name : String) (pos : Nat) : ParseM Unit := do
  if name = "await" then modify fun p => { p with awaitNameAt := p.awaitNameAt.or (some pos) }

/-- A keyword turns out to be a name.  Away from a point, `function` and `class` opened a context that
nothing will close. -/
def keywordAsName (kind : TokenKind) : ParseM Unit := do
  let l ← lexer
  let s ← source
  let afterDot := l.last.stop == l.last.start + 1 && s.has l.last.start '.'
  let c := l.toCursor
  let c := if (kind = .kwClass ∨ kind = .kwFunction) ∧ !afterDot then c.pop.2 else c
  modify fun p => { p with lexer := { p.lexer with toCursor := { c with kind := .name } } }

/-- The text of the current word. -/
def wordText : ParseM String := do
  let l ← lexer
  if l.kind = .name then return l.text
  else
    match l.kind.keyword? with
    | some keyword =>
      keywordAsName l.kind
      return keyword
    | none => unexpected

/-- A word of any kind, as in the name of a property. -/
def anyWord : ParseM Identifier := do
  let start ← startNode
  let name ← wordText
  nextAfterWord
  return ⟨← finishSpan start, name⟩

def identifier : ParseM Identifier := do
  let start ← startNode
  let name ← wordText
  next
  let id : Identifier := ⟨← finishSpan start, name⟩
  checkName id
  noteAwaitName id.name id.span.start
  return id

/-- The name of a property or attribute. -/
def propertyWord : ParseM Identifier := do
  if (← read).neverReserved then identifier else anyWord

/-- A private name, used in a class body unless that goes unchecked. -/
def privateIdentifier : ParseM PrivateIdentifier := do
  let start ← startNode
  unless ← isKind .privateId do unexpected
  let name := (← lexer).text
  next
  let span ← finishSpan start
  if (← options).checkPrivateFields then
    let (known, privateNames) := (← get).privateNames.use name span.start
    modify fun p => { p with privateNames }
    unless known do fail span.start (.privateUndeclared name)
  return ⟨span, name⟩

end ParseM
end ScriptSyntax
