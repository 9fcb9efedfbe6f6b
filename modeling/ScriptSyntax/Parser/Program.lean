import ScriptSyntax.Parser.ForStatement
import ScriptSyntax.Parser.ModuleItem

/-!
The grammar as a whole, to a bounded depth of nesting, and the parses of programs and expressions.
-/

namespace ScriptSyntax
namespace Grammar

open ParseM

variable (g : Grammar)

/-- A function declaration in the body of another statement is sloppy, and never stands in a loop. -/
def checkFunctionPlace (context : Option StatementContext) : ParseM Unit := do
  if let some context := context then
    if ((← strict) || context == .nested) && (← since 6) then unexpected

/-- A statement, by its first token. -/
def statementLevel (context : Option StatementContext) (topLevel : Bool) : ParseM Statement := do
  let start ← startNode
  if ← atLet context then g.variableStatement start .lexical context
  else
    match ← kind with
    | .kwBreak => jump start true
    | .kwContinue => jump start false
    | .kwDebugger => debuggerStatement start
    | .kwDo => g.doWhileStatement start
    | .kwFor => g.forStatement start
    | .kwFunction =>
      checkFunctionPlace context
      g.functionStatement start false context.isSome
    | .kwClass =>
      if context.isSome then unexpected
      return .classDeclaration (← g.classDefinition .declaration)
    | .kwIf => g.ifStatement start
    | .kwReturn => g.returnStatement start
    | .kwSwitch => g.switchStatement start
    | .kwThrow => g.throwStatement start
    | .kwTry => g.tryStatement start
    | .kwConst => g.variableStatement start .constant context
    | .kwVar => g.variableStatement start .var context
    | .kwWhile => g.whileStatement start
    | .kwWith => g.withStatement start
    | .braceL => return .block (← g.block)
    | .semi =>
      next
      return .emptyStatement (← finishSpan start)
    | .kwExport => g.exportStatement start topLevel
    | .kwImport => g.importStatement start topLevel
    | _ => g.wordStatement start context

/-- The productions whose nested ones are those of `g`. -/
def level (extension : ParseM (Option Expression)) : Grammar where
  statement context topLevel := nested (g.statementLevel context topLevel)
  assignment init := fun d => nested (g.assignmentLevel init d)
  unary afterUnary inUpdate init := fun d => nested (g.unaryLevel afterUnary inUpdate init d)
  atom init forNew := fun d => nested (g.atomLevel extension init forNew d)
  bindingAtom := nested g.bindingLevel

/-- The grammar to a depth of nested productions.  Unrolled to the greatest depth it ends only where
the parser lets none nest any more. -/
def ofDepth (extension : ParseM (Option Expression)) : Nat → Grammar
  | 0 =>
    { statement := fun _ _ => tooDeep
      assignment := fun _ => tooDeep
      unary := fun _ _ _ => tooDeep
      atom := fun _ _ => tooDeep
      bindingAtom := tooDeep }
  | depth + 1 => (ofDepth extension depth).level extension

end Grammar

namespace ParseM

/-- An extension of the grammar that adds nothing. -/
def noExtension : ParseM (Option Expression) := return none

/-- A local name that a module exports is declared at its top level. -/
def checkExports : ParseM Unit := do
  if (← read).inModule then
    if let some (name, pos) := (← scopes).undefinedExports.head? then
      failRecoverable pos (.undefinedExport name)

/-- A script or a module. -/
def program (g : Grammar) : ParseM Program := do
  let start ← startNode
  ofLexer LexM.readNext
  let body ← collectUntil .eof (g.statement none true)
  checkExports
  let body ← withDirectives body
  next
  return ⟨← finishSpan start, body, (← options).sourceType⟩

/-- An expression; what comes after it is left unread. -/
def loneExpression (g : Grammar) : ParseM Expression := do
  ofLexer LexM.readNext
  g.plainExpression .plain

end ParseM

namespace Setting

/-- A parser at a byte offset, with no token read. -/
def parserAt (s : Setting) (start : Nat) : Parser :=
  let lexer := s.lexerAt start
  { lexer := { lexer with strict := s.inModule || s.source.opensStrict s.edition lexer.pos }
    scopes := ScopeStack.enter { top := true }
      { inModule := s.inModule
        edition := s.edition
        allowAwait := s.options.allowAwaitOutsideFunction
        allowSuper := s.options.allowSuperOutsideMethod } }

/-- Runs a step from an offset on.  The lexer that is left holds the tokens and comments read. -/
def runParser {α : Type} (s : Setting) (start : Nat) (step : ParseM α) :
    Except SyntaxError α × Lexer :=
  match step.run s |>.run (s.parserAt start) with
  | .ok a p => (.ok a, p.lexer)
  | .error e p => (.error e, p.lexer)

/-- Parses a script or a module from an offset on. -/
def parseProgram (s : Setting) (start : Nat := 0)
    (extension : ParseM (Option Expression) := ParseM.noExtension) :
    Except SyntaxError Program × Lexer :=
  s.runParser start (ParseM.program (.ofDepth extension ParseM.maxDepth))

/-- Parses one expression at an offset. -/
def parseExpression (s : Setting) (start : Nat)
    (extension : ParseM (Option Expression) := ParseM.noExtension) :
    Except SyntaxError Expression × Lexer :=
  s.runParser start (ParseM.loneExpression (.ofDepth extension ParseM.maxDepth))

end Setting

/-- The syntax tree of a script or a module. -/
def parse (source : String) (options : Options := {}) : Except SyntaxError Program :=
  (Setting.parseProgram { source := .ofString source, options }).1

/-- The syntax tree of the expression that begins at a byte offset. -/
def parseExpressionAt (source : String) (pos : Nat) (options : Options := {}) :
    Except SyntaxError Expression :=
  (Setting.parseExpression { source := .ofString source, options } pos).1

/-- The tokens of a text, the token of its end included. -/
def tokenize (source : String) (options : Options := {}) : Except SyntaxError (List Token) :=
  (Setting.tokenize { source := .ofString source, options }).1

end ScriptSyntax
