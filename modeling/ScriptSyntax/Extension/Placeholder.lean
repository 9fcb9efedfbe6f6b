import ScriptSyntax.Parser.Program

/-!
An extension for code templates: placeholders `%%name%%`, and question marks that stand for the topic
of a pipeline.
-/

namespace ScriptSyntax
namespace Placeholder

/-- The kind of a placeholder's token. -/
def kind : TokenKind := .custom 1

/-- Do the marks around a placeholder stand at an offset? -/
def hasMarks (s : Source) (offset : Nat) : Bool := s.has offset '%' && s.has (offset + 1) '%'

/-- Reads a placeholder, its marks included. -/
def read (s : Source) (l : Lexer) :
    Option (EStateM.Result SyntaxError Lexer (TokenKind × TokenValue)) :=
  if hasMarks s l.pos then
    match s.find? (hasMarks s) (l.pos + 2) with
    | some close =>
      some (.ok (kind, .name (s.slice (l.pos + 2) close)) { l with pos := close + 2 })
    | none => some (.error (.ofFault s l.pos (.other "Unterminated placeholder") .fatal) l)
  else none

/-- A placeholder is an operand. -/
def updateContext (_ : Source) (l : Lexer) (_ : TokenKind) : Option Lexer :=
  if l.kind = kind then some { l with exprAllowed := false } else none

/-- Reads placeholders; with `asOperands` a slash after one divides. -/
def reader (asOperands : Bool) : TokenReader where
  read := read
  updateContext := if asOperands then updateContext else fun _ _ _ => none

/-- The type of the node for an operand of the extension. -/
def nodeType? (k : TokenKind) : Option String :=
  if k = kind then some "Placeholder" else if k = .question then some "TopicReference" else none

/-- A placeholder or a topic as an operand. -/
def operand : ParseM (Option Expression) := do
  let l ← ParseM.lexer
  match nodeType? l.kind with
  | none => return none
  | some type =>
    let start ← ParseM.startNode
    ParseM.next
    let fields := l.value.text?.toList.map fun name => ("name", name)
    return some (.extension (← ParseM.finishSpan start) type fields)

end Placeholder
end ScriptSyntax
