import ScriptSyntax.Tree

/-!
The nodes of a syntax tree as one type, each with the nodes that lie directly in it, and the relation
of a node to the nodes that it lies in.
-/

namespace ScriptSyntax

/-- A node of a syntax tree, by what it holds. -/
inductive Node where
  | program (program : Program)
  | statement (statement : Statement)
  | expression (expression : Expression)
  | pattern (pattern : Pattern)
  | objectMember (member : ObjectMember)
  | patternMember (member : PatternMember)
  | classBody (span : Span) (elements : List ClassElement)
  | classElement (element : ClassElement)
  | templateElement (element : TemplateElement)
  | declarator (declarator : Declarator)
  | switchCase (switchCase : SwitchCase)
  | catchClause (clause : CatchClause)
  | identifier (id : Identifier)
  | literal (literal : Literal)
  | importSpecifier (specifier : ImportSpecifier)
  | exportSpecifier (specifier : ExportSpecifier)
  | importAttribute (demand : ImportAttribute)

/-! ### What lies in a node -/

/-- The chunks of a template with the substitutions between them. -/
def interleave : List TemplateElement → List Expression → List Node
  | e :: elements, x :: expressions =>
    .templateElement e :: .expression x :: interleave elements expressions
  | elements, [] => elements.map .templateElement
  | [], expressions => expressions.map .expression

/-- A chunk with a substitution before it goes after all others. -/
theorem interleave_concat {elements : List TemplateElement} {expressions : List Expression}
    (one : elements.length = expressions.length + 1) (x : Expression) (e : TemplateElement) :
    interleave (elements ++ [e]) (expressions ++ [x]) =
      interleave elements expressions ++ [.expression x, .templateElement e] := by
  induction expressions generalizing elements with
  | nil =>
    obtain ⟨first, rfl⟩ := List.length_eq_one_iff.mp one
    rfl
  | cons y expressions ih =>
    cases elements with
    | nil => simp at one
    | cons first elements => simp [interleave, ih (Nat.succ.inj one)]

theorem mem_interleave {elements : List TemplateElement} {expressions : List Expression} {c : Node}
    (child : c ∈ interleave elements expressions) :
    (∃ e, c = Node.templateElement e) ∨ ∃ x ∈ expressions, c = Node.expression x := by
  induction expressions generalizing elements with
  | nil =>
    cases elements <;> simp [interleave] at child
    grind
  | cons x expressions ih =>
    cases elements with
    | nil =>
      simp [interleave] at child
      grind
    | cons e elements =>
      simp only [interleave, List.mem_cons] at child
      grind

def Template.children (t : Template) : List Node := interleave t.elements t.expressions

def Callable.children (f : Callable) : List Node :=
  f.id.toList.map .identifier ++ f.params.map .pattern ++ [.statement (.block f.body)]

def Class.children (c : Class) : List Node :=
  c.id.toList.map .identifier ++ c.heritage.toList.map .expression ++
    [.classBody c.bodySpan c.elements]

def ArrowBody.node : ArrowBody → Node
  | .block b => .statement (.block b)
  | .expression e => .expression e

def Member.children (m : Member) : List Node := [.expression m.object, .expression m.property]

def ForInit.node : ForInit → Node
  | .declaration d => .statement (.variableDeclaration d)
  | .expression e => .expression e

def ForTarget.node : ForTarget → Node
  | .declaration d => .statement (.variableDeclaration d)
  | .pattern p => .pattern p

def DefaultExport.node : DefaultExport → Node
  | .function f => .statement (.functionDeclaration f)
  | .classDeclaration c => .statement (.classDeclaration c)
  | .expression e => .expression e

def ModuleName.node : ModuleName → Node
  | .identifier id => .identifier id
  | .string literal => .literal literal

def Expression.children : Expression → List Node
  | .identifier _ | .privateIdentifier _ | .literal _ | .this _ | .super _ | .extension .. => []
  | .array _ elements => (elements.filterMap id).map .expression
  | .object _ members => members.map .objectMember
  | .function f => f.children
  | .arrow _ _ params body => params.map .pattern ++ [body.node]
  | .classExpression c => c.children
  | .template t => t.children
  | .taggedTemplate _ tag t => [.expression tag, .expression (.template t)]
  | .unary _ _ argument | .update _ _ _ argument | .await _ argument | .spread _ argument =>
    [.expression argument]
  | .binary _ _ left right | .logical _ _ left right => [.expression left, .expression right]
  | .assignment _ _ target value => [.pattern target, .expression value]
  | .conditional _ test consequent alternate =>
    [.expression test, .expression consequent, .expression alternate]
  | .call _ callee arguments _ | .new _ callee arguments =>
    .expression callee :: arguments.map .expression
  | .member m => m.children
  | .chain _ e => [.expression e]
  | .sequence _ items => items.map .expression
  | .yield _ _ argument => argument.toList.map .expression
  | .dynamicImport _ specifier options =>
    .expression specifier :: options.toList.map .expression
  | .metaProperty _ word property => [.identifier word, .identifier property]

def ObjectMember.children : ObjectMember → List Node
  | .property _ _ _ key value => [.expression key, .expression value]
  | .spread _ argument => [.expression argument]

def Pattern.children : Pattern → List Node
  | .identifier _ => []
  | .member m => m.children
  | .object _ members => members.map .patternMember
  | .array _ elements => (elements.filterMap id).map .pattern
  | .rest _ argument => [.pattern argument]
  | .assignment _ target value => [.pattern target, .expression value]

def PatternMember.children : PatternMember → List Node
  | .property _ _ _ key value => [.expression key, .pattern value]
  | .rest _ argument => [.pattern argument]

def ClassElement.children : ClassElement → List Node
  | .method _ _ _ key _ value => [.expression key, .expression (.function value)]
  | .field _ _ _ key value => .expression key :: value.toList.map .expression
  | .staticBlock _ body => body.map .statement

def ImportSpecifier.children : ImportSpecifier → List Node
  | .named _ imported binding => [imported.node, .identifier binding]
  | .main _ binding | .whole _ binding => [.identifier binding]

def Statement.children : Statement → List Node
  | .expressionStatement _ e _ => [.expression e]
  | .block b => b.body.map .statement
  | .emptyStatement _ | .debuggerStatement _ => []
  | .withStatement _ object body => [.expression object, .statement body]
  | .returnStatement _ argument => argument.toList.map .expression
  | .labeledStatement _ label body => [.identifier label, .statement body]
  | .breakStatement _ label | .continueStatement _ label => label.toList.map .identifier
  | .ifStatement _ test consequent alternate =>
    [.expression test, .statement consequent] ++ alternate.toList.map .statement
  | .switchStatement _ discriminant cases => .expression discriminant :: cases.map .switchCase
  | .throwStatement _ argument => [.expression argument]
  | .tryStatement _ guarded handler finalizer =>
    .statement (.block guarded) ::
      (handler.toList.map .catchClause ++ finalizer.toList.map fun b => .statement (.block b))
  | .whileStatement _ test body => [.expression test, .statement body]
  | .doWhileStatement _ body test => [.statement body, .expression test]
  | .forStatement _ init test update body =>
    init.toList.map (·.node) ++ test.toList.map .expression ++ update.toList.map .expression ++
      [.statement body]
  | .forInStatement _ target collection body | .forOfStatement _ _ target collection body =>
    [target.node, .expression collection, .statement body]
  | .functionDeclaration f => f.children
  | .variableDeclaration d => d.declarators.map .declarator
  | .classDeclaration c => c.children
  | .importDeclaration _ specifiers from' attributes =>
    specifiers.map .importSpecifier ++ [.literal from'] ++ (attributes.getD []).map .importAttribute
  | .exportNamed _ declaration specifiers from' attributes =>
    declaration.toList.map .statement ++ specifiers.map .exportSpecifier ++
      from'.toList.map .literal ++ (attributes.getD []).map .importAttribute
  | .exportDefault _ declaration => [declaration.node]
  | .exportAll _ exported from' attributes =>
    exported.toList.map (·.node) ++ [.literal from'] ++ (attributes.getD []).map .importAttribute

namespace Node

/-- The nodes directly in a node, in source order. -/
def children : Node → List Node
  | program p => p.body.map .statement
  | statement s => s.children
  | expression e => e.children
  | pattern p => p.children
  | objectMember m => m.children
  | patternMember m => m.children
  | classBody _ elements => elements.map .classElement
  | classElement e => e.children
  | declarator d => .pattern d.target :: d.value.toList.map .expression
  | switchCase c => c.test.toList.map .expression ++ c.body.map .statement
  | catchClause c => c.param.toList.map .pattern ++ [.statement (.block c.body)]
  | importSpecifier i => i.children
  | exportSpecifier e => [e.inner.node, e.exported.node]
  | importAttribute a => [a.key.node, .literal a.value]
  | templateElement _ | identifier _ | literal _ => []

def span : Node → Span
  | program p => p.span
  | statement s => s.span
  | expression e => e.span
  | pattern p => p.span
  | objectMember (.property span ..) | objectMember (.spread span _) => span
  | patternMember (.property span ..) | patternMember (.rest span _) => span
  | classBody span _ => span
  | classElement (.method span ..) | classElement (.field span ..) | classElement (.staticBlock span _) =>
    span
  | templateElement e => e.span
  | declarator d => d.span
  | switchCase c => c.span
  | catchClause c => c.span
  | identifier id => id.span
  | literal l => l.span
  | importSpecifier (.named span ..) | importSpecifier (.main span _) | importSpecifier (.whole span _) =>
    span
  | exportSpecifier e => e.span
  | importAttribute a => a.span

/-! ### Nodes within nodes -/

/-- The node is `n` or lies in it at any depth. -/
inductive Within (m : Node) : Node → Prop
  | refl : Within m m
  | step {c n : Node} (child : c ∈ n.children) (within : Within m c) : Within m n

namespace Within

variable {m n k : Node}

theorem trans (first : Within m n) (second : Within n k) : Within m k := by
  induction second with
  | refl => exact first
  | step child _ ih => exact .step child ih

theorem iff : Within m n ↔ m = n ∨ ∃ c ∈ n.children, Within m c := by
  constructor
  · rintro (_ | ⟨child, within⟩)
    · exact .inl rfl
    · exact .inr ⟨_, child, within⟩
  · rintro (rfl | ⟨c, child, within⟩)
    · exact .refl
    · exact .step child within

theorem of_child {c : Node} (child : c ∈ n.children) : Within c n := .step child .refl

/-- What lies in a node without children is the node. -/
theorem eq_of_leaf (h : n.children = []) (within : Within m n) : m = n := by
  rcases iff.mp within with same | ⟨c, child, _⟩
  · exact same
  · simp [h] at child

end Within

/-- The property holds of a node and all that lies in it. -/
def All (P : Node → Prop) (n : Node) : Prop := ∀ m, Within m n → P m

theorem all_iff {P : Node → Prop} {n : Node} : n.All P ↔ P n ∧ ∀ c ∈ n.children, c.All P := by
  constructor
  · exact fun h => ⟨h n .refl, fun c child m within => h m (.step child within)⟩
  · rintro ⟨here, below⟩ m within
    rcases Within.iff.mp within with rfl | ⟨c, child, within⟩
    · exact here
    · exact below c child m within

theorem All.within {P : Node → Prop} {m n : Node} (all : n.All P) (within : Within m n) : m.All P :=
  fun k h => all k (h.trans within)

/-! ### Where nodes lie -/

/-- Is the node a name?  A name may stand for two nodes, as in a shorthand property. -/
def isName : Node → Bool
  | identifier _ | expression (.identifier _) | pattern (.identifier _) => true
  | _ => false

theorem children_of_isName {n : Node} (name : n.isName = true) : n.children = [] := by
  cases n with
  | expression e => cases e <;> first | rfl | cases name
  | pattern p => cases p <;> first | rfl | cases name
  | identifier => rfl
  | _ => cases name

/-- The two nodes may lie in one place: a name stands for the first, or one literal for both. -/
def IsClone (m n : Node) : Prop := m.isName = true ∨ ∃ l, m = .literal l ∧ n = .literal l

/-- The node ends where it starts or later, and the nodes directly in it lie inside it, one after
the other. -/
structure Nested (n : Node) : Prop where
  start_le : n.span.start ≤ n.span.stop
  contains : ∀ c ∈ n.children, n.span.contains c.span = true
  apart : n.children.Pairwise fun a b => a.span.stop ≤ b.span.start ∨ a.IsClone b

theorem Nested.le {n c : Node} (h : n.Nested) (child : c ∈ n.children) :
    n.span.start ≤ c.span.start ∧ c.span.stop ≤ n.span.stop := by
  simpa [Span.contains] using h.contains c child

/-- What lies in a tree of nested nodes lies inside its span. -/
theorem contains_of_within {m n : Node} (nested : n.All Nested) (within : Within m n) :
    n.span.contains m.span = true := by
  induction within with
  | refl => exact Span.contains_refl _
  | step child _ ih =>
    exact Span.contains_trans ((nested _ .refl).contains _ child) (ih (nested.within (.of_child child)))

/-! ### Tokens with a node of their own -/

/-- Does the node hold the text of one token? -/
def isTokenLeaf : Node → Bool
  | expression (.literal _) | literal _ | expression (.privateIdentifier _) | templateElement _ => true
  | _ => false

/-- The token lies between the start of an async arrow function and all that lies in it. -/
def Drops (t : Token) : Node → Prop
  | expression (.arrow span true params body) =>
    span.start < t.start ∧ ∀ c ∈ (expression (.arrow span true params body)).children,
      t.stop < c.span.start
  | _ => False

/-- A node within `n` is the token's, or an async arrow function in it drops the token. -/
def Keeps (t : Token) (n : Node) : Prop :=
  ∃ m, Within m n ∧ ((m.isTokenLeaf = true ∧ m.span.start = t.start ∧ m.span.stop = t.stop) ∨ m.Drops t)

theorem Keeps.of_within {t : Token} {m n : Node} (keeps : m.Keeps t) (within : Within m n) :
    n.Keeps t := by
  obtain ⟨k, inside, kept⟩ := keeps
  exact ⟨k, inside.trans within, kept⟩

/-- The node of a plain name holds no such token. -/
theorem not_keeps_of_isName {t : Token} {n : Node} (name : n.isName = true) : ¬ n.Keeps t := by
  rintro ⟨m, within, kept⟩
  obtain rfl := Within.eq_of_leaf (children_of_isName name) within
  cases m with
  | expression e => cases e <;> simp_all [isName, isTokenLeaf, Drops]
  | _ => simp_all [isName, isTokenLeaf, Drops]

end Node

/-- Is the token a number, a text or a private name, which its node has to hold? -/
def TokenKind.isTracked : TokenKind → Bool
  | num | string | regexp | privateId | template | invalidTemplate => true
  | _ => false

end ScriptSyntax
