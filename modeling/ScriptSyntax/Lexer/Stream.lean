import ScriptSyntax.Lexer.Word
import ScriptSyntax.RegExp.Validator
import ScriptSyntax.Lexer.Blank
import ScriptSyntax.Lexer.Number

/-!
The stream of tokens: what a slash begins, operators and punctuation, the choice between the kinds of token, and the
steps from one token to the next.
-/

namespace ScriptSyntax
namespace LexM

/-! ### Slashes -/

/-- What the characters of a regular expression so far say about the next one. -/
structure BodyState where
  escaped : Bool := false
  inClass : Bool := false

/-- Reads one character of the body; a slash ends it unless escaped or in a class. -/
def bodyPass (start : Nat) (state : BodyState) : LexM (Pass BodyState Unit) := do
  match ← peek with
  | none => fail start .unterminatedRegExp
  | some c =>
    if Alphabet.isLineTerminator c then fail start .unterminatedRegExp
    else if state.escaped then
      skip c
      return .again { state with escaped := false }
    else if c = '/' ∧ !state.inClass then return .done ()
    else
      skip c
      return .again ⟨c = '\\', c = '[' || (state.inClass && c != ']')⟩

/-- A regular expression, its flags included, from just past the opening slash on. -/
def readRegExp : LexM Unit := do
  let start ← pos
  repeatForward {} (bodyPass start)
  let pattern := (← source).chars start (← pos)
  advance 1
  let flagsStart ← pos
  let flags ← readWordText
  if (← get).containsEscape then fail flagsStart .unexpectedToken
  match RegExp.validateLiteral (← edition) pattern flags.toList with
  | .ok _ => finish .regexp (.regexp (String.ofList pattern) flags)
  | .error fault =>
    failRecoverable (← get).token.start (.invalidRegExp (String.ofList pattern) fault)

def readSlash : LexM Unit := do
  if (← get).exprAllowed then
    advance 1
    readRegExp
  else if ← seesAhead 1 '=' then finishOperator .slashEq 2
  else finishOperator .slash 1

/-! ### Operators and punctuation -/

def readDot : LexM Unit := do
  if (← charAhead 1).any Alphabet.isDecimalDigit then readNumber true
  else if 6 ≤ (← edition) && (← seesAhead 1 '.') && (← seesAhead 2 '.') then
    finishOperator .ellipsis 3
  else finishOperator .dot 1

/-- An operator that a following equals sign makes an assignment. -/
def readAssignable (kind assign : TokenKind) (size : Nat) : LexM Unit := do
  if ← seesAhead size '=' then finishOperator assign (size + 1) else finishOperator kind size

def readStar : LexM Unit := do
  if 7 ≤ (← edition) && (← seesAhead 1 '*') then readAssignable .starStar .starStarEq 2
  else readAssignable .star .starEq 1

/-- A bar or an ampersand, single or doubled. -/
def readLogical (c : Char) (single singleAssign double doubleAssign : TokenKind) :
    LexM Unit := do
  if ← seesAhead 1 c then
    if 12 ≤ (← edition) then readAssignable double doubleAssign 2 else finishOperator double 2
  else readAssignable single singleAssign 1

/-- Does `-->` at the cursor stand first on its line? -/
def atClosingComment : LexM Bool := do
  let l ← get
  if (← seesAhead 2 '>') && !(← read).inModule then
    return l.last.stop == 0 || (← source).hasLineBreak l.last.stop l.pos
  else return false

/-- A minus; false if it begins a comment, which is skipped. -/
def readMinus : LexM Bool := do
  if ← seesAhead 1 '-' then
    if ← atClosingComment then
      skipLineComment 3
      return false
    else
      finishOperator .minusMinus 2
      return true
  else
    readAssignable .minus .minusEq 1
    return true

def readPlus : LexM Unit := do
  if ← seesAhead 1 '+' then finishOperator .plusPlus 2 else readAssignable .plus .plusEq 1

def readGreater : LexM Unit := do
  if ← seesAhead 1 '>' then
    if ← seesAhead 2 '>' then readAssignable .gtGtGt .gtGtGtEq 3
    else readAssignable .gtGt .gtGtEq 2
  else readAssignable .gt .gtEq 1

/-- A less-than sign; false if it begins a comment, which is skipped. -/
def readLess : LexM Bool := do
  if ← seesAhead 1 '<' then
    readAssignable .ltLt .ltLtEq 2
    return true
  else if !(← read).inModule && (← seesAhead 1 '!') && (← seesAhead 2 '-') && (← seesAhead 3 '-') then
    skipLineComment 4
    return false
  else
    readAssignable .lt .ltEq 1
    return true

def readEquals : LexM Unit := do
  if ← seesAhead 1 '=' then readAssignable .eqEq .eqEqEq 2
  else if 6 ≤ (← edition) && (← seesAhead 1 '>') then finishOperator .arrow 2
  else finishOperator .eq 1

def readBang : LexM Unit := do
  if ← seesAhead 1 '=' then readAssignable .notEq .notEqEq 2 else finishOperator .bang 1

def readQuestion : LexM Unit := do
  if (← edition) < 11 then finishOperator .question 1
  else if (← seesAhead 1 '.') && !(← charAhead 2).any Alphabet.isDecimalDigit then
    finishOperator .questionDot 2
  else if ← seesAhead 1 '?' then
    if 12 ≤ (← edition) then readAssignable .questionQuestion .questionQuestionEq 2
    else finishOperator .questionQuestion 2
  else finishOperator .question 1

/-- A private name. -/
def readHash : LexM Unit := do
  if (← edition) < 13 then fail (← pos) (.unexpectedCharacter '#')
  advance 1
  match ← peek with
  | some c =>
    if Alphabet.isIdentifierStart true c || c = '\\' then
      finish .privateId (.name (← readWordText))
    else fail (← pos) (.unexpectedCharacter c)
  | none => fail (← pos) (.unexpectedCharacter '#')

/-- The radix that the character after a leading zero names. -/
def radixMark? (edition : Nat) : Char → Option Nat
  | 'x' | 'X' => some 16
  | 'o' | 'O' => if 6 ≤ edition then some 8 else none
  | 'b' | 'B' => if 6 ≤ edition then some 2 else none
  | _ => none

def readZero : LexM Unit := do
  match (← charAhead 1).bind (radixMark? (← edition)) with
  | some radix => readRadixNumber radix
  | none => readNumber false

/-! ### Tokens -/

/-- Reads what begins with `c`; false if it was a comment. -/
def readToken (c : Char) : LexM Bool := do
  let token (read : LexM Unit) : LexM Bool := do read; return true
  let operator (kind : TokenKind) : LexM Bool := token (finishOperator kind 1)
  let s ← read
  if Alphabet.isIdentifierStart s.astral c || c = '\\' then token readWord
  else
    match c with
    | '.' => token readDot
    | '(' => operator .parenL
    | ')' => operator .parenR
    | ';' => operator .semi
    | ',' => operator .comma
    | '[' => operator .bracketL
    | ']' => operator .bracketR
    | '{' => operator .braceL
    | '}' => operator .braceR
    | ':' => operator .colon
    | '0' => token readZero
    | '"' | '\'' => token (readString c)
    | '/' => token readSlash
    | '%' => token (readAssignable .percent .percentEq 1)
    | '*' => token readStar
    | '|' => token (readLogical c .pipe .pipeEq .pipePipe .pipePipeEq)
    | '&' => token (readLogical c .amp .ampEq .ampAmp .ampAmpEq)
    | '^' => token (readAssignable .caret .caretEq 1)
    | '+' => token readPlus
    | '-' => readMinus
    | '<' => readLess
    | '>' => token readGreater
    | '=' => token readEquals
    | '!' => token readBang
    | '?' => token readQuestion
    | '~' => operator .tilde
    | '#' => token readHash
    | c =>
      if Alphabet.isDecimalDigit c then token (readNumber false)
      else if c = '\x60' ∧ 6 ≤ s.edition then operator .backQuote
      else fail (← pos) (.unexpectedCharacter c)

/-- The token that an extension reads at the cursor, if it reads one. -/
def readExtension : LexM Bool := do
  let s ← read
  match s.reader with
  | none => return false
  | some reader =>
    match reader.read s.source (← get) with
    | none => return false
    | some (.ok (kind, value) l) =>
      set l
      finish kind value
      return true
    | some (.error error l) =>
      set l
      throw error

/-- Reads one token, or skips one comment of the kind that only reading tells apart. -/
def readPass (_ : Unit) : LexM (Pass Unit Unit) := do
  let context := (← get).context
  unless context.keepsBlank do skipBlank
  modify fun l =>
    { l with token := { l.token with start := l.pos, startPosition := l.position } }
  if (← source).size ≤ (← pos) then
    finish .eof .none
    return .done ()
  else if ← readExtension then return .done ()
  else if context = .templateText then
    readTemplate
    return .done ()
  else
    match ← peek with
    | some c => if ← readToken c then return .done () else return .again ()
    | none => fail (← pos) .invalidCharacterPosition

/-- Makes the next token the current one. -/
def readNext : LexM Unit := repeatForward () readPass

/-- Leaves the current token behind and makes the next one current. -/
def next : LexM Unit := do
  let s ← read
  modify fun l => { l with tokens := s.currentToken l.toCursor :: l.tokens, last := l.token }
  readNext

/-- Moves on and gives the new current token. -/
def nextToken : LexM Token := do
  next
  return (← read).currentToken (← get).toCursor

/-- Makes the first token the current one and gives it. -/
def firstToken : LexM Token := do
  readNext
  return (← read).currentToken (← get).toCursor

/-- Reads one more token; `tokens` are those before it, latest first. -/
def tokenPass (tokens : List Token) : LexM (Pass (List Token) (List Token)) := do
  let token := (← read).currentToken (← get).toCursor
  if token.kind = .eof then return .done (token :: tokens).reverse
  else
    next
    return .again (token :: tokens)

/-- Reads the tokens up to the end of the text, the token of the end included.  Only an empty chunk
of a template fails to move the cursor forward, and a token that does follows it. -/
def allTokens : LexM (List Token) := do
  readNext
  loop tokenPass (2 * ((← source).size - (← pos)) + 4) []

end LexM

namespace Setting

/-- A lexer at a byte offset.  At the start of the text it skips a `#!` line, if that is
allowed. -/
def lexerAt (s : Setting) (start : Nat) : Lexer :=
  let start := min start s.source.size
  let position := s.source.position start
  let extent : Extent := ⟨start, start, position, position⟩
  let l : Lexer :=
    { pos := start
      lineStart := s.source.lineStart start
      line := position.line
      kind := .eof
      value := .none
      token := extent
      last := extent
      contexts := [.blockBraces]
      exprAllowed := true
      containsEscape := false
      strict := s.inModule }
  if start = 0 && s.options.hashBangAllowed && s.source.has 0 '#' && s.source.has 1 '!' then
    match (LexM.skipLineComment 2).run s |>.run l with
    | .ok _ l => l
    | .error _ l => l
  else l

/-- Runs a step of a lexer. -/
def runLexer {α : Type} (s : Setting) (l : Lexer) (step : LexM α) : Except SyntaxError α × Lexer :=
  match step.run s |>.run l with
  | .ok a l => (.ok a, l)
  | .error e l => (.error e, l)

/-- The tokens of a whole text, the token of its end included.  The lexer that is left holds the
tokens and comments read. -/
def tokenize (s : Setting) : Except SyntaxError (List Token) × Lexer :=
  s.runLexer (s.lexerAt 0) LexM.allTokens

/-- What steps to the next token give, up to the end of the text or the first fault. -/
def tokenItems (s : Setting) (step : LexM Token) : Nat → Lexer → List (Except SyntaxError Token) × Lexer
  | 0, l => ([], l)
  | fuel + 1, l =>
    match s.runLexer l step with
    | (.error e, l) => ([.error e], l)
    | (.ok token, l) =>
      if token.kind = .eof then ([.ok token], l)
      else
        let (items, l) := s.tokenItems LexM.nextToken fuel l
        (.ok token :: items, l)

/-- The tokens of a text one by one, up to its end or the first fault. -/
def tokens (s : Setting) : List (Except SyntaxError Token) × Lexer :=
  s.tokenItems LexM.firstToken (2 * s.source.size + 4) (s.lexerAt 0)

end Setting
end ScriptSyntax
