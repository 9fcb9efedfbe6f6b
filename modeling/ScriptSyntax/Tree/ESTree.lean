import ScriptSyntax.Report
import ScriptSyntax.Tree

/-!
Syntax trees as ESTree documents.
-/

namespace ScriptSyntax

/-! ### Leaves -/

def Identifier.toDocument (id : Identifier) : Document :=
  .node "Identifier" id.span [("name", .text id.name)]

def PrivateIdentifier.toDocument (id : PrivateIdentifier) : Document :=
  .node "PrivateIdentifier" id.span [("name", .text id.name)]

/-- Natural numbers below this one are written without a fraction. -/
def exactLimit : Nat := Nat.pow 2 53

def LiteralValue.toDocument : LiteralValue → Document
  | null | bigint _ | regexp _ _ => .null
  | boolean value => .boolean value
  | number value =>
    match value.toNat? with
    | some n => if n < exactLimit then .natural n else .number value
    | none => .number value
  | string value => .text value

def LiteralValue.extraFields : LiteralValue → List (String × Document)
  | regexp pattern flags =>
    [("regex", .object [("pattern", .text pattern), ("flags", .text flags)])]
  | bigint digits => [("bigint", .text digits)]
  | _ => []

def Literal.toDocument (literal : Literal) : Document :=
  .node "Literal" literal.span
    ([("value", literal.value.toDocument), ("raw", .text literal.raw)] ++ literal.value.extraFields)

def TemplateElement.toDocument (e : TemplateElement) : Document :=
  .node "TemplateElement" e.span
    [("value", .object [("raw", .text e.raw), ("cooked", .optional .text e.cooked)]),
     ("tail", .boolean e.isTail)]

def ModuleName.toDocument : ModuleName → Document
  | identifier id => id.toDocument
  | string literal => literal.toDocument

def ImportSpecifier.toDocument : ImportSpecifier → Document
  | named span imported name =>
    .node "ImportSpecifier" span [("imported", imported.toDocument), ("local", name.toDocument)]
  | main span name => .node "ImportDefaultSpecifier" span [("local", name.toDocument)]
  | whole span name => .node "ImportNamespaceSpecifier" span [("local", name.toDocument)]

def ExportSpecifier.toDocument (s : ExportSpecifier) : Document :=
  .node "ExportSpecifier" s.span
    [("local", s.inner.toDocument), ("exported", s.exported.toDocument)]

def ImportAttribute.toDocument (a : ImportAttribute) : Document :=
  .node "ImportAttribute" a.span [("key", a.key.toDocument), ("value", a.value.toDocument)]

/-- The attributes of an import, where the edition has a place for them. -/
def attributeFields (attributes : Option (List ImportAttribute)) : List (String × Document) :=
  Document.field? "attributes" (fun attributes => Document.list (attributes.map (·.toDocument))) attributes

def PropertyForm.kindName : PropertyForm → String
  | getter => "get"
  | setter => "set"
  | _ => "init"

def MethodKind.name : MethodKind → String
  | constructor => "constructor"
  | method => "method"
  | getter => "get"
  | setter => "set"

/-! ### Trees -/

mutual

def Expression.toDocument : Expression → Document
  | .identifier id => id.toDocument
  | .privateIdentifier id => id.toDocument
  | .literal literal => literal.toDocument
  | .this span => .node "ThisExpression" span []
  | .super span => .node "Super" span []
  | .array span elements => .node "ArrayExpression" span [("elements", .list (slots elements))]
  | .object span members => .node "ObjectExpression" span [("properties", .list (members? members))]
  | .function function => function.toDocument "FunctionExpression"
  | .arrow span isAsync params body =>
    .node "ArrowFunctionExpression" span
      [("id", .null), ("expression", .boolean body.isExpression), ("generator", .boolean false),
       ("async", .boolean isAsync), ("params", .list (patterns params)), ("body", body.toDocument)]
  | .classExpression definition => definition.toDocument "ClassExpression"
  | .template template => template.toDocument
  | .taggedTemplate span tag template =>
    .node "TaggedTemplateExpression" span
      [("tag", tag.toDocument), ("quasi", template.toDocument)]
  | .unary span operator argument =>
    .node "UnaryExpression" span
      [("operator", .text operator.spelling), ("prefix", .boolean true),
       ("argument", argument.toDocument)]
  | .update span operator isPrefix argument =>
    .node "UpdateExpression" span
      [("operator", .text operator.spelling), ("prefix", .boolean isPrefix),
       ("argument", argument.toDocument)]
  | .binary span operator left right =>
    .node "BinaryExpression" span
      [("left", left.toDocument), ("operator", .text operator.spelling),
       ("right", right.toDocument)]
  | .logical span operator left right =>
    .node "LogicalExpression" span
      [("left", left.toDocument), ("operator", .text operator.spelling),
       ("right", right.toDocument)]
  | .assignment span operator target value =>
    .node "AssignmentExpression" span
      [("operator", .text operator.spelling), ("left", target.toDocument),
       ("right", value.toDocument)]
  | .conditional span test consequent alternate =>
    .node "ConditionalExpression" span
      [("test", test.toDocument), ("consequent", consequent.toDocument),
       ("alternate", alternate.toDocument)]
  | .call span callee arguments optional =>
    .node "CallExpression" span
      [("callee", callee.toDocument), ("arguments", .list (expressions arguments)),
       ("optional", .boolean optional)]
  | .new span callee arguments =>
    .node "NewExpression" span
      [("callee", callee.toDocument), ("arguments", .list (expressions arguments))]
  | .member member => member.toDocument
  | .chain span expression =>
    .node "ChainExpression" span [("expression", expression.toDocument)]
  | .sequence span items =>
    .node "SequenceExpression" span [("expressions", .list (expressions items))]
  | .yield span delegate argument =>
    .node "YieldExpression" span
      [("delegate", .boolean delegate), ("argument", expression? argument)]
  | .await span argument => .node "AwaitExpression" span [("argument", argument.toDocument)]
  | .dynamicImport span specifier options =>
    .node "ImportExpression" span (("source", specifier.toDocument) :: optionsField options)
  | .metaProperty span word property =>
    .node "MetaProperty" span [("meta", word.toDocument), ("property", property.toDocument)]
  | .spread span argument => .node "SpreadElement" span [("argument", argument.toDocument)]
  | .extension span type fields =>
    .node type span (fields.map fun (name, value) => (name, Document.text value))

def expression? : Option Expression → Document
  | none => .null
  | some e => e.toDocument

def optionsField : Option Expression → List (String × Document)
  | none => []
  | some e => [("options", e.toDocument)]

def expressions : List Expression → List Document
  | [] => []
  | e :: rest => e.toDocument :: expressions rest

def slots : List (Option Expression) → List Document
  | [] => []
  | e :: rest => expression? e :: slots rest

def ObjectMember.toDocument : ObjectMember → Document
  | .property span form computed key value =>
    .node "Property" span
      [("method", .boolean (form == .method)), ("shorthand", .boolean (form == .shorthand)),
       ("computed", .boolean computed), ("key", key.toDocument), ("value", value.toDocument),
       ("kind", .text form.kindName)]
  | .spread span argument => .node "SpreadElement" span [("argument", argument.toDocument)]

def members? : List ObjectMember → List Document
  | [] => []
  | m :: rest => m.toDocument :: members? rest

def Callable.toDocument (type : String) : Callable → Document
  | ⟨span, id, isGenerator, isAsync, params, body⟩ =>
    .node type span
      [("id", .optional Identifier.toDocument id), ("expression", .boolean false),
       ("generator", .boolean isGenerator), ("async", .boolean isAsync),
       ("params", .list (patterns params)), ("body", body.toDocument)]

def ArrowBody.toDocument : ArrowBody → Document
  | .block block => block.toDocument
  | .expression e => e.toDocument

def Class.toDocument (type : String) : Class → Document
  | ⟨span, id, heritage, bodySpan, elements⟩ =>
    .node type span
      [("id", .optional Identifier.toDocument id), ("superClass", expression? heritage),
       ("body", .node "ClassBody" bodySpan [("body", .list (classElements elements))])]

def ClassElement.toDocument : ClassElement → Document
  | .method span isStatic computed key kind value =>
    .node "MethodDefinition" span
      [("static", .boolean isStatic), ("computed", .boolean computed), ("key", key.toDocument),
       ("kind", .text kind.name), ("value", value.toDocument "FunctionExpression")]
  | .field span isStatic computed key value =>
    .node "PropertyDefinition" span
      [("static", .boolean isStatic), ("computed", .boolean computed), ("key", key.toDocument),
       ("value", expression? value)]
  | .staticBlock span body => .node "StaticBlock" span [("body", .list (statements body))]

def classElements : List ClassElement → List Document
  | [] => []
  | e :: rest => e.toDocument :: classElements rest

def Template.toDocument : Template → Document
  | ⟨span, items, elements⟩ =>
    .node "TemplateLiteral" span
      [("expressions", .list (expressions items)),
       ("quasis", .list (elements.map (·.toDocument)))]

def Member.toDocument : Member → Document
  | ⟨span, object, property, computed, optional⟩ =>
    .node "MemberExpression" span
      [("object", object.toDocument), ("property", property.toDocument),
       ("computed", .boolean computed), ("optional", .boolean optional)]

def Pattern.toDocument : Pattern → Document
  | .identifier id => id.toDocument
  | .member member => member.toDocument
  | .object span members =>
    .node "ObjectPattern" span [("properties", .list (patternMembers members))]
  | .array span elements => .node "ArrayPattern" span [("elements", .list (patternSlots elements))]
  | .rest span argument => .node "RestElement" span [("argument", argument.toDocument)]
  | .assignment span target value =>
    .node "AssignmentPattern" span [("left", target.toDocument), ("right", value.toDocument)]

def pattern? : Option Pattern → Document
  | none => .null
  | some p => p.toDocument

def patterns : List Pattern → List Document
  | [] => []
  | p :: rest => p.toDocument :: patterns rest

def patternSlots : List (Option Pattern) → List Document
  | [] => []
  | p :: rest => pattern? p :: patternSlots rest

def PatternMember.toDocument : PatternMember → Document
  | .property span shorthand computed key value =>
    .node "Property" span
      [("method", .boolean false), ("shorthand", .boolean shorthand),
       ("computed", .boolean computed), ("key", key.toDocument), ("value", value.toDocument),
       ("kind", .text "init")]
  | .rest span argument => .node "RestElement" span [("argument", argument.toDocument)]

def patternMembers : List PatternMember → List Document
  | [] => []
  | m :: rest => m.toDocument :: patternMembers rest

def Block.toDocument : Block → Document
  | ⟨span, body⟩ => .node "BlockStatement" span [("body", .list (statements body))]

def block? : Option Block → Document
  | none => .null
  | some b => b.toDocument

def VariableDeclaration.toDocument : VariableDeclaration → Document
  | ⟨span, kind, items⟩ =>
    .node "VariableDeclaration" span
      [("declarations", .list (declarators items)), ("kind", .text kind.spelling)]

def Declarator.toDocument : Declarator → Document
  | ⟨span, target, value⟩ =>
    .node "VariableDeclarator" span [("id", target.toDocument), ("init", expression? value)]

def declarators : List Declarator → List Document
  | [] => []
  | d :: rest => d.toDocument :: declarators rest

def ForInit.toDocument : ForInit → Document
  | .declaration declaration => declaration.toDocument
  | .expression e => e.toDocument

def forInit? : Option ForInit → Document
  | none => .null
  | some init => init.toDocument

def ForTarget.toDocument : ForTarget → Document
  | .declaration declaration => declaration.toDocument
  | .pattern p => p.toDocument

def SwitchCase.toDocument : SwitchCase → Document
  | ⟨span, test, body⟩ =>
    .node "SwitchCase" span [("test", expression? test), ("consequent", .list (statements body))]

def switchCases : List SwitchCase → List Document
  | [] => []
  | c :: rest => c.toDocument :: switchCases rest

def CatchClause.toDocument : CatchClause → Document
  | ⟨span, param, body⟩ =>
    .node "CatchClause" span [("param", pattern? param), ("body", body.toDocument)]

def catchClause? : Option CatchClause → Document
  | none => .null
  | some c => c.toDocument

def DefaultExport.toDocument : DefaultExport → Document
  | .function function => function.toDocument "FunctionDeclaration"
  | .classDeclaration definition => definition.toDocument "ClassDeclaration"
  | .expression e => e.toDocument

def Statement.toDocument : Statement → Document
  | .expressionStatement span expression directive =>
    .node "ExpressionStatement" span
      (("expression", expression.toDocument) :: Document.field? "directive" .text directive)
  | .block block => block.toDocument
  | .emptyStatement span => .node "EmptyStatement" span []
  | .debuggerStatement span => .node "DebuggerStatement" span []
  | .withStatement span object body =>
    .node "WithStatement" span [("object", object.toDocument), ("body", body.toDocument)]
  | .returnStatement span argument =>
    .node "ReturnStatement" span [("argument", expression? argument)]
  | .labeledStatement span label body =>
    .node "LabeledStatement" span [("label", label.toDocument), ("body", body.toDocument)]
  | .breakStatement span label =>
    .node "BreakStatement" span [("label", .optional Identifier.toDocument label)]
  | .continueStatement span label =>
    .node "ContinueStatement" span [("label", .optional Identifier.toDocument label)]
  | .ifStatement span test consequent alternate =>
    .node "IfStatement" span
      [("test", test.toDocument), ("consequent", consequent.toDocument),
       ("alternate", statement? alternate)]
  | .switchStatement span discriminant cases =>
    .node "SwitchStatement" span
      [("discriminant", discriminant.toDocument), ("cases", .list (switchCases cases))]
  | .throwStatement span argument =>
    .node "ThrowStatement" span [("argument", argument.toDocument)]
  | .tryStatement span block handler finalizer =>
    .node "TryStatement" span
      [("block", block.toDocument), ("handler", catchClause? handler),
       ("finalizer", block? finalizer)]
  | .whileStatement span test body =>
    .node "WhileStatement" span [("test", test.toDocument), ("body", body.toDocument)]
  | .doWhileStatement span body test =>
    .node "DoWhileStatement" span [("body", body.toDocument), ("test", test.toDocument)]
  | .forStatement span init test update body =>
    .node "ForStatement" span
      [("init", forInit? init), ("test", expression? test), ("update", expression? update),
       ("body", body.toDocument)]
  | .forInStatement span target collection body =>
    .node "ForInStatement" span
      [("left", target.toDocument), ("right", collection.toDocument), ("body", body.toDocument)]
  | .forOfStatement span isAwait target collection body =>
    .node "ForOfStatement" span
      [("await", .boolean isAwait), ("left", target.toDocument),
       ("right", collection.toDocument), ("body", body.toDocument)]
  | .functionDeclaration function => function.toDocument "FunctionDeclaration"
  | .variableDeclaration declaration => declaration.toDocument
  | .classDeclaration definition => definition.toDocument "ClassDeclaration"
  | .importDeclaration span specifiers from' attributes =>
    .node "ImportDeclaration" span
      ([("specifiers", .list (specifiers.map (·.toDocument))), ("source", from'.toDocument)] ++
        attributeFields attributes)
  | .exportNamed span declaration specifiers from' attributes =>
    .node "ExportNamedDeclaration" span
      ([("declaration", statement? declaration),
        ("specifiers", .list (specifiers.map (·.toDocument))),
        ("source", .optional Literal.toDocument from')] ++ attributeFields attributes)
  | .exportDefault span declaration =>
    .node "ExportDefaultDeclaration" span [("declaration", declaration.toDocument)]
  | .exportAll span exported from' attributes =>
    .node "ExportAllDeclaration" span
      ([("exported", .optional ModuleName.toDocument exported), ("source", from'.toDocument)] ++
        attributeFields attributes)

def statement? : Option Statement → Document
  | none => .null
  | some s => s.toDocument

def statements : List Statement → List Document
  | [] => []
  | s :: rest => s.toDocument :: statements rest

end

def Program.toDocument (p : Program) : Document :=
  .node "Program" p.span [("body", .list (statements p.body)), ("sourceType", p.sourceType.toDocument)]

end ScriptSyntax
