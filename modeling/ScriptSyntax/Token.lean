import ScriptSyntax.Number.Double
import ScriptSyntax.Source.Position

/-!
Tokens: their kinds, what a kind says about the tokens around it, and the values they carry.
-/

namespace ScriptSyntax

inductive TokenKind where
  | num | regexp | string | name | privateId | eof
  -- punctuation
  | bracketL | bracketR | braceL | braceR | parenL | parenR | comma | semi | colon | dot
  | question | questionDot | arrow | template | invalidTemplate | ellipsis | backQuote
  | dollarBraceL
  -- assignment operators
  | eq | plusEq | minusEq | starEq | slashEq | percentEq | starStarEq | ltLtEq | gtGtEq
  | gtGtGtEq | pipeEq | caretEq | ampEq | pipePipeEq | ampAmpEq | questionQuestionEq
  -- other operators
  | plusPlus | minusMinus | bang | tilde | pipePipe | ampAmp | pipe | caret | amp | eqEq | notEq
  | eqEqEq | notEqEq | lt | gt | ltEq | gtEq | ltLt | gtGt | gtGtGt | plus | minus | percent
  | star | slash | starStar | questionQuestion
  -- keywords
  | kwBreak | kwCase | kwCatch | kwContinue | kwDebugger | kwDefault | kwDo | kwElse | kwFinally
  | kwFor | kwFunction | kwIf | kwReturn | kwSwitch | kwThrow | kwTry | kwVar | kwConst
  | kwWhile | kwWith | kwNew | kwThis | kwSuper | kwClass | kwExtends | kwExport | kwImport
  | kwNull | kwTrue | kwFalse | kwIn | kwInstanceof | kwTypeof | kwVoid | kwDelete
  /-- A kind of an extension's own. -/
  | custom (tag : Nat)
deriving DecidableEq, Inhabited, Repr

namespace TokenKind

/-- The spelling of a keyword. -/
def keyword? : TokenKind → Option String
  | kwBreak => some "break"
  | kwCase => some "case"
  | kwCatch => some "catch"
  | kwContinue => some "continue"
  | kwDebugger => some "debugger"
  | kwDefault => some "default"
  | kwDo => some "do"
  | kwElse => some "else"
  | kwFinally => some "finally"
  | kwFor => some "for"
  | kwFunction => some "function"
  | kwIf => some "if"
  | kwReturn => some "return"
  | kwSwitch => some "switch"
  | kwThrow => some "throw"
  | kwTry => some "try"
  | kwVar => some "var"
  | kwConst => some "const"
  | kwWhile => some "while"
  | kwWith => some "with"
  | kwNew => some "new"
  | kwThis => some "this"
  | kwSuper => some "super"
  | kwClass => some "class"
  | kwExtends => some "extends"
  | kwExport => some "export"
  | kwImport => some "import"
  | kwNull => some "null"
  | kwTrue => some "true"
  | kwFalse => some "false"
  | kwIn => some "in"
  | kwInstanceof => some "instanceof"
  | kwTypeof => some "typeof"
  | kwVoid => some "void"
  | kwDelete => some "delete"
  | _ => none

/-- The keywords with their spelling. -/
def keywords : List (String × TokenKind) :=
  [("break", kwBreak), ("case", kwCase), ("catch", kwCatch), ("continue", kwContinue),
   ("debugger", kwDebugger), ("default", kwDefault), ("do", kwDo), ("else", kwElse),
   ("finally", kwFinally), ("for", kwFor), ("function", kwFunction), ("if", kwIf), ("return",
   kwReturn), ("switch", kwSwitch), ("throw", kwThrow), ("try", kwTry), ("var", kwVar),
   ("const", kwConst), ("while", kwWhile), ("with", kwWith), ("new", kwNew), ("this", kwThis),
   ("super", kwSuper), ("class", kwClass), ("extends", kwExtends), ("export", kwExport),
   ("import", kwImport), ("null", kwNull), ("true", kwTrue), ("false", kwFalse), ("in", kwIn),
   ("instanceof", kwInstanceof), ("typeof", kwTypeof), ("void", kwVoid), ("delete", kwDelete)]

def ofKeyword? (word : String) : Option TokenKind := keywords.lookup word

/-- The text that stands for a kind; for keywords, punctuation and operators their spelling. -/
def label : TokenKind → String
  | num => "num"
  | regexp => "regexp"
  | string => "string"
  | name => "name"
  | privateId => "privateId"
  | eof => "eof"
  | bracketL => "["
  | bracketR => "]"
  | braceL => "\x7b"
  | braceR => "\x7d"
  | parenL => "("
  | parenR => ")"
  | comma => ","
  | semi => ";"
  | colon => ":"
  | dot => "."
  | question => "?"
  | questionDot => "?."
  | arrow => "=>"
  | template => "template"
  | invalidTemplate => "invalidTemplate"
  | ellipsis => "..."
  | backQuote => "`"
  | dollarBraceL => "$\x7b"
  | eq => "="
  | plusEq => "+="
  | minusEq => "-="
  | starEq => "*="
  | slashEq => "/="
  | percentEq => "%="
  | starStarEq => "**="
  | ltLtEq => "<<="
  | gtGtEq => ">>="
  | gtGtGtEq => ">>>="
  | pipeEq => "|="
  | caretEq => "^="
  | ampEq => "&="
  | pipePipeEq => "||="
  | ampAmpEq => "&&="
  | questionQuestionEq => "??="
  | plusPlus => "++"
  | minusMinus => "--"
  | bang => "!"
  | tilde => "~"
  | pipePipe => "||"
  | ampAmp => "&&"
  | pipe => "|"
  | caret => "^"
  | amp => "&"
  | eqEq => "=="
  | notEq => "!="
  | eqEqEq => "==="
  | notEqEq => "!=="
  | lt => "<"
  | gt => ">"
  | ltEq => "<="
  | gtEq => ">="
  | ltLt => "<<"
  | gtGt => ">>"
  | gtGtGt => ">>>"
  | plus => "+"
  | minus => "-"
  | percent => "%"
  | star => "*"
  | slash => "/"
  | starStar => "**"
  | questionQuestion => "??"
  | custom _ => "custom"
  | kind => kind.keyword?.getD ""

def isKeyword (kind : TokenKind) : Bool := kind.keyword?.isSome

def isAssign : TokenKind → Bool
  | eq | plusEq | minusEq | starEq | slashEq | percentEq | starStarEq | ltLtEq | gtGtEq
  | gtGtGtEq | pipeEq | caretEq | ampEq | pipePipeEq | ampAmpEq | questionQuestionEq => true
  | _ => false

/-- How tight a binary operator binds, from one for the loosest to ten.  The right-associative
`**` is not among them. -/
def precedence? : TokenKind → Option Nat
  | pipePipe | questionQuestion => some 1
  | ampAmp => some 2
  | pipe => some 3
  | caret => some 4
  | amp => some 5
  | eqEq | notEq | eqEqEq | notEqEq => some 6
  | lt | gt | ltEq | gtEq | kwIn | kwInstanceof => some 7
  | ltLt | gtGt | gtGtGt => some 8
  | plus | minus => some 9
  | percent | star | slash => some 10
  | _ => none

/-- May an expression follow?  It decides whether a slash after the token divides. -/
def beforeExpr (kind : TokenKind) : Bool :=
  kind.isAssign || kind.precedence?.isSome ||
    match kind with
    | bracketL | braceL | parenL | comma | semi | colon | question | arrow | ellipsis
    | dollarBraceL | bang | tilde | starStar | kwCase | kwDefault | kwDo | kwElse | kwReturn
    | kwThrow | kwNew | kwTypeof | kwVoid | kwDelete | kwExtends => true
    | _ => false

/-- May an expression begin with the token? -/
def startsExpr : TokenKind → Bool
  | bracketL | braceL | parenL | backQuote | dollarBraceL | num | string | regexp | name
  | privateId | plusPlus | minusMinus | bang | tilde | plus | minus | kwFunction | kwClass
  | kwNew | kwThis | kwSuper | kwNull | kwTrue | kwFalse | kwTypeof | kwVoid | kwDelete
  | kwImport => true
  | _ => false

/-- Is it an operator that stands before its operand? -/
def isPrefixOperator : TokenKind → Bool
  | bang | tilde | plus | minus | plusPlus | minusMinus | kwTypeof | kwVoid | kwDelete => true
  | _ => false

def isUpdate : TokenKind → Bool
  | plusPlus | minusMinus => true
  | _ => false

/-- Does the word begin a loop? -/
def isLoop : TokenKind → Bool
  | kwFor | kwWhile | kwDo => true
  | _ => false

theorem precedence?_le {kind : TokenKind} {n : Nat} (h : kind.precedence? = some n) : n ≤ 10 := by
  cases kind <;> simp [precedence?] at h <;> omega

theorem precedence?_pos {kind : TokenKind} {n : Nat} (h : kind.precedence? = some n) : 0 < n := by
  cases kind <;> simp [precedence?] at h <;> omega

end TokenKind

/-- What a token stands for. -/
inductive TokenValue where
  | none
  /-- A word, its escapes decoded. -/
  | name (text : String)
  /-- The decoded text of a string or of a template chunk. -/
  | string (text : String)
  | number (value : Number.Double)
  /-- The digits of a big integer with the mark of their radix. -/
  | bigint (digits : String)
  | regexp (pattern flags : String)
deriving DecidableEq, Inhabited, Repr

/-- The text of a value that is one. -/
def TokenValue.text? : TokenValue → Option String
  | name text | string text | bigint text => some text
  | _ => Option.none

structure Token where
  kind : TokenKind
  value : TokenValue
  start : Nat
  stop : Nat
  location : Option SourceLocation
  range : Option (Nat × Nat)
deriving DecidableEq, Inhabited, Repr

inductive CommentKind where
  | line
  | block
deriving DecidableEq, Inhabited, Repr

/-- A comment; its text leaves out the marks around it. -/
structure Comment where
  kind : CommentKind
  text : String
  start : Nat
  stop : Nat
  location : Option SourceLocation
  range : Option (Nat × Nat)
deriving DecidableEq, Inhabited, Repr

end ScriptSyntax
