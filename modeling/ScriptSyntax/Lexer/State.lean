import ScriptSyntax.Options
import ScriptSyntax.Word
import ScriptSyntax.SyntaxError
import ScriptSyntax.Context

/-!
The state of a lexer, the settings it runs under, and the steps that only look at them.
-/

namespace ScriptSyntax

/-- Where a token lies. -/
structure Extent where
  start : Nat
  stop : Nat
  startPosition : Position
  stopPosition : Position
deriving DecidableEq, Inhabited, Repr

/-- What a checkpoint remembers of a lexer: how far the text is read, the current token, the extent
of the token before it, and what the tokens so far say about the next. -/
structure Cursor where
  pos : Nat
  lineStart : Nat
  line : Nat
  kind : TokenKind
  value : TokenValue
  token : Extent
  last : Extent
  /-- The contexts around the next token, innermost first. -/
  contexts : List Context
  /-- May an expression begin at the next token? -/
  exprAllowed : Bool
  /-- Does the current word contain an escape? -/
  containsEscape : Bool
deriving DecidableEq, Inhabited, Repr

structure Lexer extends Cursor where
  /-- Is the code strict? -/
  strict : Bool
  /-- Is the text of a template being read?  Some editions excuse an invalid escape there. -/
  inTemplate : Bool := false
  /-- The tokens left behind so far, latest first. -/
  tokens : List Token := []
  /-- The comments skipped so far, latest first. -/
  comments : List Comment := []
deriving DecidableEq, Inhabited, Repr

/-- An extension of the lexical grammar.  `read` is asked before the rules for every token, and
`updateContext` before the context rules after it; either falls back with none. -/
structure TokenReader where
  read : Source → Lexer → Option (EStateM.Result SyntaxError Lexer (TokenKind × TokenValue))
  updateContext : Source → Lexer → TokenKind → Option Lexer := fun _ _ _ => none

/-- What stays the same throughout a parse. -/
structure Setting where
  source : Source
  options : Options
  reader : Option TokenReader := none

namespace Setting

def edition (s : Setting) : Nat := s.options.edition

def inModule (s : Setting) : Bool := s.options.isModule

/-- Identifiers reach beyond the basic plane from the sixth edition on. -/
def astral (s : Setting) : Bool := 6 ≤ s.edition

def location (s : Setting) (start stop : Position) : Option SourceLocation :=
  if s.options.locations then some ⟨start, stop, s.options.sourceFile⟩ else none

def range (s : Setting) (start stop : Nat) : Option (Nat × Nat) :=
  if s.options.ranges then some (start, stop) else none

/-- The current token of a lexer. -/
def currentToken (s : Setting) (c : Cursor) : Token where
  kind := c.kind
  value := c.value
  start := c.token.start
  stop := c.token.stop
  location := s.location c.token.startPosition c.token.stopPosition
  range := s.range c.token.start c.token.stop

def fatal (s : Setting) (pos : Nat) (fault : Fault) : SyntaxError :=
  .ofFault s.source pos fault .fatal

def recoverable (s : Setting) (pos : Nat) (fault : Fault) : SyntaxError :=
  .ofFault s.source pos fault .recoverable

end Setting

namespace Cursor

/-- The line and column of the next character. -/
def position (c : Cursor) : Position := ⟨c.line, c.pos - c.lineStart⟩

def context (c : Cursor) : Context := c.contexts.head?.getD .blockBraces

/-- The text of the current token, if its value is one. -/
def text (c : Cursor) : String := c.value.text?.getD ""

/-- Does a line end between the last token and the current one? -/
def lineBreakBefore (s : Source) (c : Cursor) : Bool :=
  s.hasLineBreak c.last.stop c.token.start

/-- The innermost function context, the bottom of the stack aside, is a generator's. -/
def inGenerator (c : Cursor) : Bool :=
  (c.contexts.dropLast.find? (·.isFunction)).any (·.isGenerator)

end Cursor

namespace Lexer

/-- What a checkpoint remembers. -/
def checkpoint (l : Lexer) : Cursor := l.toCursor

/-- Goes back to a checkpoint. -/
def restore (c : Cursor) (l : Lexer) : Lexer := { l with toCursor := c }

@[simp] theorem restore_checkpoint (l : Lexer) : l.restore l.checkpoint = l := rfl

@[simp] theorem checkpoint_restore (c : Cursor) (l : Lexer) : (l.restore c).checkpoint = c := rfl

end Lexer

/-- What a pass of a loop leaves to do. -/
inductive Pass (α β : Type) where
  | again (next : α)
  | done (result : β)

/-- A step of a lexer.  A step that fails still leaves a state behind. -/
abbrev LexM := ReaderT Setting (EStateM SyntaxError Lexer)

namespace LexM

/-! ### Looking -/

def source : LexM Source := return (← read).source

def edition : LexM Nat := return (← read).edition

def pos : LexM Nat := return (← get).pos

/-- The character at a distance past the cursor. -/
def charAhead (distance : Nat) : LexM (Option Char) :=
  return (← source).charAt ((← pos) + distance)

def peek : LexM (Option Char) := charAhead 0

/-- Does the character stand at a distance past the cursor? -/
def seesAhead (distance : Nat) (c : Char) : LexM Bool := return (← charAhead distance) == some c

def sees (c : Char) : LexM Bool := seesAhead 0 c

/-- The text from an offset up to the cursor. -/
def textFrom (start : Nat) : LexM String := return (← source).slice start (← pos)

/-! ### Failing -/

def fail {α : Type} (pos : Nat) (fault : Fault) : LexM α := do throw ((← read).fatal pos fault)

def failRecoverable {α : Type} (pos : Nat) (fault : Fault) : LexM α := do
  throw ((← read).recoverable pos fault)

/-- Fails at the current token. -/
def unexpected {α : Type} : LexM α := do fail (← get).token.start .unexpectedToken

/-! ### Moving -/

def moveTo (pos : Nat) : LexM Unit := modify fun l => { l with pos }

def advance (distance : Nat) : LexM Unit := modify fun l => { l with pos := l.pos + distance }

/-- Moves past a character. -/
def skip (c : Char) : LexM Unit := advance c.utf8Size

/-- Begins a line at the cursor. -/
def newLine : LexM Unit := modify fun l => { l with line := l.line + 1, lineStart := l.pos }

/-- Moves past the line feed of a line break, if the cursor is at one, and begins a line. -/
def endCarriageReturn : LexM Unit := do
  if ← sees '\n' then advance 1
  newLine

/-! ### Repeating -/

/-- Takes passes until one is done.  Passes that move the cursor forward end before the fuel does;
running out of it fails at the current token. -/
def loop {α β : Type} (pass : α → LexM (Pass α β)) : Nat → α → LexM β
  | 0, _ => unexpected
  | fuel + 1, a => do
    match ← pass a with
    | .again next => loop pass fuel next
    | .done result => return result

/-- Takes passes that each move the cursor forward. -/
def repeatForward {α β : Type} (start : α) (pass : α → LexM (Pass α β)) : LexM β := do
  loop pass ((← source).size - (← pos) + 2) start

end LexM
end ScriptSyntax
