import ScriptSyntax.Lexer.Stream
import ScriptSyntax.Source.Directive
import ScriptSyntax.Scope
import ScriptSyntax.Scope.PrivateNames
import ScriptSyntax.Tree

/-!
The state of a parser and the steps on single tokens.
-/

namespace ScriptSyntax

/-- What a labeled statement, or an unlabeled jump's target, is. -/
inductive LabelKind where
  | loop
  | switch
deriving DecidableEq, Inhabited, Repr

/-- A statement that jumps can name or, without a name, end at. -/
structure Label where
  name : Option String
  kind : Option LabelKind
  /-- Where the labeled statement starts. -/
  statementStart : Option Nat
deriving DecidableEq, Inhabited, Repr

/-- The target of unlabeled jumps. -/
def Label.anonymous (kind : LabelKind) : Label := ⟨none, some kind, none⟩

structure Parser where
  lexer : Lexer
  scopes : ScopeStack
  privateNames : PrivateNames := {}
  /-- The labels around the current statement, innermost first. -/
  labels : List Label := []
  /-- Where the parameters of an arrow function may begin. -/
  potentialArrowAt : Option Nat := none
  /-- Was that in the head of a `for await`? -/
  arrowInForAwait : Bool := false
  /-- The first `yield` of the current parameters. -/
  yieldAt : Option Nat := none
  /-- The first `await` of the current parameters. -/
  awaitAt : Option Nat := none
  /-- The first `await` that is a plain name. -/
  awaitNameAt : Option Nat := none
  /-- The names that the module exports so far. -/
  exports : List String := []
  /-- How many productions that nest are around. -/
  nesting : Nat := 0

/-- A step of a parser.  A step that fails still leaves a state behind. -/
abbrev ParseM := ReaderT Setting (EStateM SyntaxError Parser)

/-- Where a node begins. -/
structure NodeStart where
  pos : Nat
  position : Position
deriving DecidableEq, Inhabited, Repr

/-- Is an expression in the head of a `for`?  There `in` is no operator. -/
inductive InitMode where
  | plain
  | forHead
  | forAwaitHead
deriving DecidableEq, Inhabited, Repr

/-- The statement whose body a statement is. -/
inductive StatementContext where
  | branch
  | label
  /-- Loops, `with`, and labels in one of them. -/
  | nested
deriving DecidableEq, Inhabited, Repr

namespace ParseM

/-- A step of the lexer alone. -/
def ofLexer {α : Type} (step : LexM α) : ParseM α := fun setting parser =>
  match step setting parser.lexer with
  | .ok a lexer => .ok a { parser with lexer }
  | .error e lexer => .error e { parser with lexer }

/-! ### Looking -/

def source : ParseM Source := return (← read).source

def edition : ParseM Nat := return (← read).edition

/-- Is the edition this one or a later one? -/
def since (edition : Nat) : ParseM Bool := return decide (edition ≤ (← read).edition)

def options : ParseM Options := return (← read).options

def lexer : ParseM Lexer := return (← get).lexer

def kind : ParseM TokenKind := return (← get).lexer.kind

def isKind (kind : TokenKind) : ParseM Bool := return (← get).lexer.kind == kind

/-- Where the current token starts. -/
def tokenStart : ParseM Nat := return (← get).lexer.token.start

/-- Where the last token ends. -/
def lastStop : ParseM Nat := return (← get).lexer.last.stop

def containsEscape : ParseM Bool := return (← get).lexer.containsEscape

def strict : ParseM Bool := return (← get).lexer.strict

def scopes : ParseM ScopeStack := return (← get).scopes

/-- Is the current token a word with a meaning in this place only? -/
def isContextual (word : String) : ParseM Bool := do
  let l ← lexer
  return l.kind == .name && !l.containsEscape && l.value == .name word

def lineBreakBefore : ParseM Bool := return (← lexer).lineBreakBefore (← source)

/-- May a semicolon be left out before the current token? -/
def canOmitSemicolon : ParseM Bool := do
  let kind ← kind
  if kind = .eof ∨ kind = .braceR then return true else lineBreakBefore

/-- The first character after the gap that follows the current token, by its offset. -/
def lookahead : ParseM Nat := return (← source).skipBlank (← lexer).pos

/-! ### Failing -/

def fail {α : Type} (pos : Nat) (fault : Fault) : ParseM α := do throw ((← read).fatal pos fault)

def failRecoverable {α : Type} (pos : Nat) (fault : Fault) : ParseM α := do
  throw ((← read).recoverable pos fault)

def complain {α : Type} (c : Complaint) : ParseM α := do throw (.ofComplaint (← source) c)

def ofExcept {α : Type} : Except Complaint α → ParseM α
  | .ok a => return a
  | .error c => complain c

/-- Fails if there is something to complain about. -/
def check : Option Complaint → ParseM Unit
  | some c => complain c
  | none => return

def unexpectedAt {α : Type} (pos : Nat) : ParseM α := fail pos .unexpectedToken

/-- Fails at the current token. -/
def unexpected {α : Type} : ParseM α := do unexpectedAt (← tokenStart)

/-! ### Moving -/

def setStrict (strict : Bool) : ParseM Unit :=
  modify fun p => { p with lexer := { p.lexer with strict } }

/-- Moves to the next token even if the current one is a keyword with an escape in it. -/
def nextAfterWord : ParseM Unit := ofLexer LexM.next

/-- Moves to the next token. -/
def next : ParseM Unit := do
  let l ← lexer
  if l.containsEscape then
    if let some keyword := l.kind.keyword? then
      failRecoverable l.token.start (.escapeInKeyword keyword)
  ofLexer LexM.next

/-- Moves past the current token if it is of a kind. -/
def eat (kind : TokenKind) : ParseM Bool := do
  if ← isKind kind then
    next
    return true
  else return false

def expect (kind : TokenKind) : ParseM Unit := do unless ← eat kind do unexpected

def eatContextual (word : String) : ParseM Bool := do
  if ← isContextual word then
    next
    return true
  else return false

def expectContextual (word : String) : ParseM Unit := do
  unless ← eatContextual word do unexpected

/-- The end of a statement. -/
def semicolon : ParseM Unit := do
  unless ← eat .semi do
    unless ← canOmitSemicolon do unexpected

/-! ### Nodes -/

/-- A node may begin at the current token. -/
def startNode : ParseM NodeStart := do
  let l ← lexer
  return ⟨l.token.start, l.token.startPosition⟩

def spanOf (start : NodeStart) (stop : Nat) (stopPosition : Position) : ParseM Span := do
  let s ← read
  return ⟨start.pos, stop, s.location start.position stopPosition, s.range start.pos stop⟩

/-- From a start to the end of the last token. -/
def finishSpan (start : NodeStart) : ParseM Span := do
  let l ← lexer
  spanOf start l.last.stop l.last.stopPosition

/-! ### Scopes and labels -/

def enterScope (flags : ScopeFlags) : ParseM Unit :=
  modify fun p => { p with scopes := p.scopes.enter flags }

def exitScope : ParseM Unit := modify fun p => { p with scopes := p.scopes.exit }

def pushLabel (label : Label) : ParseM Unit :=
  modify fun p => { p with labels := label :: p.labels }

def popLabel : ParseM Unit := modify fun p => { p with labels := p.labels.tail }

/-- Runs a step without the labels around it: jumps do not leave a function. -/
def withoutLabels {α : Type} (step : ParseM α) : ParseM α := do
  let labels := (← get).labels
  modify fun p => { p with labels := [] }
  let a ← step
  modify fun p => { p with labels }
  return a

/-! ### Nesting -/

/-- How deep productions may nest.  A level of brackets passes through three of them. -/
def maxDepth : Nat := 1000

/-- Fails because of too deep nesting. -/
def tooDeep {α : Type} : ParseM α := do fail (← tokenStart) .tooDeeplyNested

/-- Runs a production one level deeper, unless that is too deep.  Behind it the parser is back at the
level before, whether the production succeeds or fails. -/
def nested {α : Type} (step : ParseM α) : ParseM α := fun s p =>
  if maxDepth ≤ p.nesting then tooDeep s p
  else
    match step s { p with nesting := p.nesting + 1 } with
    | .ok a p => .ok a { p with nesting := p.nesting - 1 }
    | .error e p => .error e { p with nesting := p.nesting - 1 }

/-! ### Repeating -/

section Repeating

variable {m : Type → Type} [Monad m] [MonadLiftT ParseM m]

/-- Takes passes until one is done.  Passes that move past a token end before the fuel does; running
out of it fails at the current token. -/
def loop {α β : Type} (pass : α → m (Pass α β)) : Nat → α → m β
  | 0, _ => liftM (unexpected : ParseM β)
  | fuel + 1, a => do
    match ← pass a with
    | .again next => loop pass fuel next
    | .done result => return result

/-- Takes passes that each move past a token, which is at least a byte long. -/
def repeatPast {α β : Type} (start : α) (pass : α → m (Pass α β)) : m β := do
  loop pass ((← liftM source).size + 2) start

/-- Takes a step while the current token is not of a kind. -/
def collectUntil {α : Type} (close : TokenKind) (step : m α) : m (List α) :=
  repeatPast [] fun found => do
    if ← liftM (isKind close) then return .done found.reverse
    else return .again ((← step) :: found)

/-- Items with commas between them up to a closing token, which is moved past.  A comma may stand
before that token if `trailing` allows it. -/
def commaSeparated {α : Type} (close : TokenKind) (trailing : Bool) (item : m α) : m (List α) :=
  repeatPast [] fun found => do
    if ← liftM (eat close) then return .done found.reverse
    else if found.isEmpty then return .again [← item]
    else
      liftM (expect .comma)
      if ← pure trailing <&&> liftM (eat close) then return .done found.reverse
      else return .again ((← item) :: found)

end Repeating

end ParseM
end ScriptSyntax
