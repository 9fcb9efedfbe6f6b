import ScriptSyntax.Token

/-!
The operators of expressions, how they are spelled, and the tokens that write them.
-/

namespace ScriptSyntax

inductive UnaryOperator where
  | minus | plus | not | bitNot | typeof | void | delete
deriving DecidableEq, Inhabited, Repr

inductive UpdateOperator where
  | increment | decrement
deriving DecidableEq, Inhabited, Repr

inductive BinaryOperator where
  | equal | notEqual | strictEqual | strictNotEqual
  | less | lessEqual | greater | greaterEqual
  | shiftLeft | shiftRight | shiftRightUnsigned
  | add | subtract | multiply | divide | remainder | power
  | bitOr | bitXor | bitAnd | isIn | isInstance
deriving DecidableEq, Inhabited, Repr

inductive LogicalOperator where
  | or | and | coalesce
deriving DecidableEq, Inhabited, Repr

inductive AssignmentOperator where
  | assign
  | add | subtract | multiply | divide | remainder | power
  | shiftLeft | shiftRight | shiftRightUnsigned
  | bitOr | bitXor | bitAnd
  | or | and | coalesce
deriving DecidableEq, Inhabited, Repr

namespace UnaryOperator

def spelling : UnaryOperator → String
  | minus => "-"
  | plus => "+"
  | not => "!"
  | bitNot => "~"
  | typeof => "typeof"
  | void => "void"
  | delete => "delete"

def ofToken? : TokenKind → Option UnaryOperator
  | .minus => some minus
  | .plus => some plus
  | .bang => some not
  | .tilde => some bitNot
  | .kwTypeof => some typeof
  | .kwVoid => some void
  | .kwDelete => some delete
  | _ => none

end UnaryOperator

namespace UpdateOperator

def spelling : UpdateOperator → String
  | increment => "++"
  | decrement => "--"

def ofToken? : TokenKind → Option UpdateOperator
  | .plusPlus => some increment
  | .minusMinus => some decrement
  | _ => none

end UpdateOperator

namespace BinaryOperator

def spelling : BinaryOperator → String
  | equal => "=="
  | notEqual => "!="
  | strictEqual => "==="
  | strictNotEqual => "!=="
  | less => "<"
  | lessEqual => "<="
  | greater => ">"
  | greaterEqual => ">="
  | shiftLeft => "<<"
  | shiftRight => ">>"
  | shiftRightUnsigned => ">>>"
  | add => "+"
  | subtract => "-"
  | multiply => "*"
  | divide => "/"
  | remainder => "%"
  | power => "**"
  | bitOr => "|"
  | bitXor => "^"
  | bitAnd => "&"
  | isIn => "in"
  | isInstance => "instanceof"

def ofToken? : TokenKind → Option BinaryOperator
  | .eqEq => some equal
  | .notEq => some notEqual
  | .eqEqEq => some strictEqual
  | .notEqEq => some strictNotEqual
  | .lt => some less
  | .ltEq => some lessEqual
  | .gt => some greater
  | .gtEq => some greaterEqual
  | .ltLt => some shiftLeft
  | .gtGt => some shiftRight
  | .gtGtGt => some shiftRightUnsigned
  | .plus => some add
  | .minus => some subtract
  | .star => some multiply
  | .slash => some divide
  | .percent => some remainder
  | .starStar => some power
  | .pipe => some bitOr
  | .caret => some bitXor
  | .amp => some bitAnd
  | .kwIn => some isIn
  | .kwInstanceof => some isInstance
  | _ => none

end BinaryOperator

namespace LogicalOperator

def spelling : LogicalOperator → String
  | or => "||"
  | and => "&&"
  | coalesce => "??"

def ofToken? : TokenKind → Option LogicalOperator
  | .pipePipe => some or
  | .ampAmp => some and
  | .questionQuestion => some coalesce
  | _ => none

end LogicalOperator

namespace AssignmentOperator

def spelling : AssignmentOperator → String
  | assign => "="
  | add => "+="
  | subtract => "-="
  | multiply => "*="
  | divide => "/="
  | remainder => "%="
  | power => "**="
  | shiftLeft => "<<="
  | shiftRight => ">>="
  | shiftRightUnsigned => ">>>="
  | bitOr => "|="
  | bitXor => "^="
  | bitAnd => "&="
  | or => "||="
  | and => "&&="
  | coalesce => "??="

def ofToken? : TokenKind → Option AssignmentOperator
  | .eq => some assign
  | .plusEq => some add
  | .minusEq => some subtract
  | .starEq => some multiply
  | .slashEq => some divide
  | .percentEq => some remainder
  | .starStarEq => some power
  | .ltLtEq => some shiftLeft
  | .gtGtEq => some shiftRight
  | .gtGtGtEq => some shiftRightUnsigned
  | .pipeEq => some bitOr
  | .caretEq => some bitXor
  | .ampEq => some bitAnd
  | .pipePipeEq => some or
  | .ampAmpEq => some and
  | .questionQuestionEq => some coalesce
  | _ => none

/-- Does it assign only under a condition? -/
def isLogical : AssignmentOperator → Bool
  | or | and | coalesce => true
  | _ => false

theorem isSome_ofToken? (kind : TokenKind) : (ofToken? kind).isSome = kind.isAssign := by
  cases kind <;> rfl

end AssignmentOperator

theorem isSome_updateOperator (kind : TokenKind) :
    (UpdateOperator.ofToken? kind).isSome = kind.isUpdate := by
  cases kind <;> rfl

/-- Every operator with a precedence is logical or binary. -/
theorem isSome_of_precedence? {kind : TokenKind} (h : kind.precedence?.isSome = true) :
    (LogicalOperator.ofToken? kind).isSome = true ∨
      (BinaryOperator.ofToken? kind).isSome = true := by
  cases kind <;> simp_all [TokenKind.precedence?, LogicalOperator.ofToken?,
    BinaryOperator.ofToken?]

end ScriptSyntax
