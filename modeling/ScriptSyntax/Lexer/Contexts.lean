import ScriptSyntax.Lexer.State

/-!
How each token changes the contexts, and with them what the next token may be.
-/

namespace ScriptSyntax
namespace Cursor

def push (context : Context) (c : Cursor) : Cursor :=
  { c with contexts := context :: c.contexts }

def pop (c : Cursor) : Option Context × Cursor :=
  (c.contexts.head?, { c with contexts := c.contexts.tail })

/-- Replaces the innermost context. -/
def overrideContext (context : Context) (c : Cursor) : Cursor :=
  match c.contexts with
  | [] => c
  | _ :: outer => { c with contexts := context :: outer }

def allow (exprAllowed : Bool) (c : Cursor) : Cursor := { c with exprAllowed }

/-- Does a brace after a token of kind `prev` open a block? -/
def braceIsBlock (s : Source) (prev : TokenKind) (c : Cursor) : Bool :=
  let parent := c.context
  if parent = .functionExpression ∨ parent = .functionDeclaration then true
  else if prev = .colon ∧ (parent = .blockBraces ∨ parent = .objectBraces) then
    !parent.isExpression
  else if prev = .kwReturn ∨ (prev = .name ∧ c.exprAllowed) then c.lineBreakBefore s
  else
    match prev with
    | .kwElse | .semi | .eof | .parenR | .arrow => true
    | .braceL => parent == .blockBraces
    | .kwVar | .kwConst | .name => false
    | _ => !c.exprAllowed

/-- Leaves the innermost context at a closing bracket; the block of a function takes the function
with it. -/
def close (c : Cursor) : Cursor :=
  if c.contexts.length = 1 then c.allow true
  else
    let (out, inside) := c.pop
    let (out, outside) :=
      if out = some .blockBraces ∧ inside.context.isFunction then inside.pop else (out, inside)
    outside.allow (!out.any (·.isExpression))

/-- Is the word `function` or `class` after a token of kind `prev` the start of an expression? -/
def beginsExpression (s : Source) (prev : TokenKind) (c : Cursor) : Bool :=
  prev.beforeExpr && prev != .kwElse && !(prev == .semi && c.context != .statementParens) &&
    !(prev == .kwReturn && c.lineBreakBefore s) &&
    !((prev == .colon || prev == .braceL) && c.context == .blockBraces)

/-- The contexts after the current token, when the token before it was of kind `prev`. -/
def updateContext (s : Source) (edition : Nat) (prev : TokenKind) (c : Cursor) : Cursor :=
  if c.kind.isKeyword && prev == .dot then c.allow false
  else
    match c.kind with
    | .parenR | .braceR => c.close
    | .braceL =>
      (c.push (if c.braceIsBlock s prev then .blockBraces else .objectBraces)).allow true
    | .dollarBraceL => (c.push .templateBraces).allow true
    | .parenL =>
      let context : Context :=
        match prev with
        | .kwIf | .kwFor | .kwWith | .kwWhile => .statementParens
        | _ => .expressionParens
      (c.push context).allow true
    | .plusPlus | .minusMinus => c
    | .kwFunction | .kwClass =>
      (c.push (if c.beginsExpression s prev then .functionExpression
        else .functionDeclaration)).allow false
    | .colon => (if c.context.isFunction then c.pop.2 else c).allow true
    | .backQuote =>
      (if c.context = .templateText then c.pop.2 else c.push .templateText).allow false
    | .star =>
      let c :=
        if prev = .kwFunction then
          c.overrideContext
            (if c.context = .functionExpression then .generatorExpression
              else .generatorDeclaration)
        else c
      c.allow true
    | .name =>
      c.allow (6 ≤ edition && prev != .dot &&
        ((c.text == "of" && !c.exprAllowed) || (c.text == "yield" && c.inGenerator)))
    | kind => c.allow kind.beforeExpr

end Cursor

namespace LexM

/-- The contexts after the current token, by the rules or by an extension. -/
def updateContext (prev : TokenKind) : LexM Unit := do
  let s ← read
  modify fun l =>
    match s.reader.bind fun reader => reader.updateContext s.source l prev with
    | some l => l
    | none => { l with toCursor := l.toCursor.updateContext s.source s.edition prev }

/-- Ends the current token at the cursor. -/
def finish (kind : TokenKind) (value : TokenValue) : LexM Unit := do
  let prev := (← get).kind
  modify fun l =>
    { l with
      kind
      value
      token := { l.token with stop := l.pos, stopPosition := l.position } }
  updateContext prev

/-- Ends a token of fixed spelling, `size` bytes long. -/
def finishOperator (kind : TokenKind) (size : Nat) : LexM Unit := do
  advance size
  finish kind .none

end LexM
end ScriptSyntax
