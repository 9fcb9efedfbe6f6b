import ScriptSyntax.Options
import ScriptSyntax.Tree.Leaf
import ScriptSyntax.Tree.Operator

/-!
Syntax trees of scripts and modules.
-/

namespace ScriptSyntax

inductive VariableKind where
  | var | lexical | constant | resource | asyncResource
deriving DecidableEq, Inhabited, Repr

namespace VariableKind

def spelling : VariableKind → String
  | var => "var"
  | lexical => "let"
  | constant => "const"
  | resource => "using"
  | asyncResource => "await using"

/-- Does it declare resources? -/
def isResource : VariableKind → Bool
  | resource | asyncResource => true
  | _ => false

end VariableKind

/-- How a property of an object is written. -/
inductive PropertyForm where
  | plain | shorthand | method | getter | setter
deriving DecidableEq, Inhabited, Repr

inductive MethodKind where
  | constructor | method | getter | setter
deriving DecidableEq, Inhabited, Repr

mutual

inductive Expression where
  | identifier (id : Identifier)
  | privateIdentifier (id : PrivateIdentifier)
  | literal (literal : Literal)
  | this (span : Span)
  | super (span : Span)
  /-- Holes are none. -/
  | array (span : Span) (elements : List (Option Expression))
  | object (span : Span) (members : List ObjectMember)
  | function (function : Callable)
  | arrow (span : Span) (isAsync : Bool) (params : List Pattern) (body : ArrowBody)
  | classExpression (definition : Class)
  | template (template : Template)
  | taggedTemplate (span : Span) (tag : Expression) (template : Template)
  | unary (span : Span) (operator : UnaryOperator) (argument : Expression)
  | update (span : Span) (operator : UpdateOperator) (isPrefix : Bool) (argument : Expression)
  | binary (span : Span) (operator : BinaryOperator) (left right : Expression)
  | logical (span : Span) (operator : LogicalOperator) (left right : Expression)
  | assignment (span : Span) (operator : AssignmentOperator) (target : Pattern)
    (value : Expression)
  | conditional (span : Span) (test consequent alternate : Expression)
  | call (span : Span) (callee : Expression) (arguments : List Expression) (optional : Bool)
  | new (span : Span) (callee : Expression) (arguments : List Expression)
  | member (member : Member)
  /-- The whole of a chain of members and calls that stops early at a missing value. -/
  | chain (span : Span) (expression : Expression)
  | sequence (span : Span) (expressions : List Expression)
  | yield (span : Span) (delegate : Bool) (argument : Option Expression)
  | await (span : Span) (argument : Expression)
  | dynamicImport (span : Span) (specifier : Expression) (options : Option Expression)
  /-- `new.target` or `import.meta`. -/
  | metaProperty (span : Span) (word property : Identifier)
  /-- An element of an array or an argument of a call only. -/
  | spread (span : Span) (argument : Expression)
  /-- A node of an extension's own type. -/
  | extension (span : Span) (type : String) (fields : List (String × String))

inductive ObjectMember where
  | property (span : Span) (form : PropertyForm) (computed : Bool) (key value : Expression)
  | spread (span : Span) (argument : Expression)

/-- A function or a method, apart from what introduces it. -/
structure Callable where
  span : Span
  id : Option Identifier
  isGenerator : Bool
  isAsync : Bool
  params : List Pattern
  body : Block

inductive ArrowBody where
  | block (block : Block)
  | expression (expression : Expression)

structure Class where
  span : Span
  id : Option Identifier
  heritage : Option Expression
  bodySpan : Span
  elements : List ClassElement

inductive ClassElement where
  | method (span : Span) (isStatic computed : Bool) (key : Expression) (kind : MethodKind)
    (value : Callable)
  | field (span : Span) (isStatic computed : Bool) (key : Expression)
    (value : Option Expression)
  | staticBlock (span : Span) (body : List Statement)

structure Template where
  span : Span
  expressions : List Expression
  elements : List TemplateElement

structure Member where
  span : Span
  object : Expression
  property : Expression
  computed : Bool
  optional : Bool

/-- What is assigned to, or what binds names. -/
inductive Pattern where
  | identifier (id : Identifier)
  | member (member : Member)
  | object (span : Span) (members : List PatternMember)
  /-- Holes are none. -/
  | array (span : Span) (elements : List (Option Pattern))
  | rest (span : Span) (argument : Pattern)
  /-- A target with a default. -/
  | assignment (span : Span) (target : Pattern) (value : Expression)

inductive PatternMember where
  | property (span : Span) (shorthand computed : Bool) (key : Expression) (value : Pattern)
  | rest (span : Span) (argument : Pattern)

structure Block where
  span : Span
  body : List Statement

structure VariableDeclaration where
  span : Span
  kind : VariableKind
  declarators : List Declarator

structure Declarator where
  span : Span
  target : Pattern
  value : Option Expression

inductive ForInit where
  | declaration (declaration : VariableDeclaration)
  | expression (expression : Expression)

/-- What each turn of a loop over a collection assigns to. -/
inductive ForTarget where
  | declaration (declaration : VariableDeclaration)
  | pattern (pattern : Pattern)

/-- The statements after `case test:`, or after `default:` without a test. -/
structure SwitchCase where
  span : Span
  test : Option Expression
  body : List Statement

structure CatchClause where
  span : Span
  param : Option Pattern
  body : Block

inductive DefaultExport where
  | function (function : Callable)
  | classDeclaration (definition : Class)
  | expression (expression : Expression)

inductive Statement where
  /-- A directive carries its text as written between the quotes. -/
  | expressionStatement (span : Span) (expression : Expression) (directive : Option String)
  | block (block : Block)
  | emptyStatement (span : Span)
  | debuggerStatement (span : Span)
  | withStatement (span : Span) (object : Expression) (body : Statement)
  | returnStatement (span : Span) (argument : Option Expression)
  | labeledStatement (span : Span) (label : Identifier) (body : Statement)
  | breakStatement (span : Span) (label : Option Identifier)
  | continueStatement (span : Span) (label : Option Identifier)
  | ifStatement (span : Span) (test : Expression) (consequent : Statement)
    (alternate : Option Statement)
  | switchStatement (span : Span) (discriminant : Expression) (cases : List SwitchCase)
  | throwStatement (span : Span) (argument : Expression)
  | tryStatement (span : Span) (block : Block) (handler : Option CatchClause)
    (finalizer : Option Block)
  | whileStatement (span : Span) (test : Expression) (body : Statement)
  | doWhileStatement (span : Span) (body : Statement) (test : Expression)
  | forStatement (span : Span) (init : Option ForInit) (test update : Option Expression)
    (body : Statement)
  | forInStatement (span : Span) (target : ForTarget) (collection : Expression)
    (body : Statement)
  | forOfStatement (span : Span) (isAwait : Bool) (target : ForTarget) (collection : Expression)
    (body : Statement)
  | functionDeclaration (function : Callable)
  | variableDeclaration (declaration : VariableDeclaration)
  | classDeclaration (definition : Class)
  /-- Attributes are none where the edition has no place for them. -/
  | importDeclaration (span : Span) (specifiers : List ImportSpecifier) (from' : Literal)
    (attributes : Option (List ImportAttribute))
  | exportNamed (span : Span) (declaration : Option Statement)
    (specifiers : List ExportSpecifier) (from' : Option Literal)
    (attributes : Option (List ImportAttribute))
  | exportDefault (span : Span) (declaration : DefaultExport)
  | exportAll (span : Span) (exported : Option ModuleName) (from' : Literal)
    (attributes : Option (List ImportAttribute))

end

structure Program where
  span : Span
  body : List Statement
  sourceType : SourceType

def Expression.span : Expression → Span
  | identifier id => id.span
  | privateIdentifier id => id.span
  | literal node => node.span
  | function node => node.span
  | classExpression node => node.span
  | template node => node.span
  | member node => node.span
  | this span | super span | array span _ | object span _ | arrow span _ _ _
  | taggedTemplate span _ _ | unary span _ _ | update span _ _ _ | binary span _ _ _
  | logical span _ _ _ | assignment span _ _ _ | conditional span _ _ _ | call span _ _ _
  | new span _ _ | chain span _ | sequence span _ | yield span _ _ | await span _
  | dynamicImport span _ _ | metaProperty span _ _ | spread span _ | extension span _ _ => span

def ArrowBody.isExpression : ArrowBody → Bool
  | expression _ => true
  | block _ => false

def Pattern.span : Pattern → Span
  | identifier id => id.span
  | member node => node.span
  | object span _ | array span _ | rest span _ | assignment span _ _ => span

def Statement.span : Statement → Span
  | block node => node.span
  | functionDeclaration node => node.span
  | variableDeclaration node => node.span
  | classDeclaration node => node.span
  | expressionStatement span _ _ | emptyStatement span | debuggerStatement span
  | withStatement span _ _ | returnStatement span _ | labeledStatement span _ _
  | breakStatement span _ | continueStatement span _ | ifStatement span _ _ _
  | switchStatement span _ _ | throwStatement span _ | tryStatement span _ _ _
  | whileStatement span _ _ | doWhileStatement span _ _ | forStatement span _ _ _ _
  | forInStatement span _ _ _ | forOfStatement span _ _ _ _ | importDeclaration span _ _ _
  | exportNamed span _ _ _ _ | exportDefault span _ | exportAll span _ _ _ => span

/-- The name of a node's type. -/
def Expression.typeName : Expression → String
  | identifier _ => "Identifier"
  | privateIdentifier _ => "PrivateIdentifier"
  | literal _ => "Literal"
  | this _ => "ThisExpression"
  | super _ => "Super"
  | array .. => "ArrayExpression"
  | object .. => "ObjectExpression"
  | function _ => "FunctionExpression"
  | arrow .. => "ArrowFunctionExpression"
  | classExpression _ => "ClassExpression"
  | template _ => "TemplateLiteral"
  | taggedTemplate .. => "TaggedTemplateExpression"
  | unary .. => "UnaryExpression"
  | update .. => "UpdateExpression"
  | binary .. => "BinaryExpression"
  | logical .. => "LogicalExpression"
  | assignment .. => "AssignmentExpression"
  | conditional .. => "ConditionalExpression"
  | call .. => "CallExpression"
  | new .. => "NewExpression"
  | member _ => "MemberExpression"
  | chain .. => "ChainExpression"
  | sequence .. => "SequenceExpression"
  | yield .. => "YieldExpression"
  | await .. => "AwaitExpression"
  | dynamicImport .. => "ImportExpression"
  | metaProperty .. => "MetaProperty"
  | spread .. => "SpreadElement"
  | extension _ type _ => type

def Pattern.typeName : Pattern → String
  | identifier _ => "Identifier"
  | member _ => "MemberExpression"
  | object .. => "ObjectPattern"
  | array .. => "ArrayPattern"
  | rest .. => "RestElement"
  | assignment .. => "AssignmentPattern"

end ScriptSyntax
