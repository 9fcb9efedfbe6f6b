import ScriptSyntax.Proofs.Tree.Mark
import ScriptSyntax.Proofs.Tree.Recast

/-!
Nodes that show no other marks than nodes that were there before: what statements and functions are put
together from, and the expressions that patterns were.
-/

namespace ScriptSyntax

/-- What labels in front of a statement say of it. -/
def Statement.labelKind? (s : Statement) : Option LabelKind :=
  if s.unlabeled.isLoop then some .loop else if s.unlabeled.isSwitch then some .switch else none

@[simp] theorem Statement.labelKind?_labeledStatement (span : Span) (label : Identifier) (body : Statement) :
    (labeledStatement span label body).labelKind? = body.labelKind? := rfl

/-- A static block with nothing but the block in it. -/
def Block.asStaticBlock (b : Block) : ClassElement := .staticBlock b.span [.block b]

/-- The node whose marks an arrow function with the body shows. -/
def ArrowBody.alone : ArrowBody → Node
  | .block b => .classElement b.asStaticBlock
  | .expression e => .expression e

namespace Node

/-! ### Calm marks -/

/-- A mark that no statement around changes. -/
def Mark.isCalm : Mark → Bool
  | jump _ _ .free | label _ true => false
  | _ => true

/-- Do statements lie in the node in functions and static blocks only? -/
def isCalm : Node → Bool
  | program _ | switchCase _ | catchClause _ => false
  | statement (.variableDeclaration _) | statement (.functionDeclaration _)
  | statement (.classDeclaration _) => true
  | statement _ => false
  | _ => true

/-- Does the node show the marks of its children only? -/
def isSilent : Node → Bool
  | statement (.labeledStatement ..) | statement (.breakStatement ..) | statement (.continueStatement ..)
  | expression (.privateIdentifier _) | classBody .. => false
  | _ => true

variable {n m c : Node} {ns ms : List Node} {k : Mark}

theorem Mark.isCalm_through (calm : k.isCalm = true) : (k.through n).isCalm = true := by
  cases k with
  | use => rfl
  | jump j pos reach => cases reach <;> first | rfl | cases calm
  | label name near => cases near <;> first | rfl | cases calm
  | clash => rfl
  | misdeclared => rfl
  | body => rfl

theorem Mark.isCalm_through_boundary (boundary : n.isBoundary = true) : (k.through n).isCalm = true := by
  cases k with
  | use => rfl
  | jump j pos reach => cases reach <;> simp [through, boundary, isCalm]
  | label name near => cases near <;> simp [through, boundary, isCalm]
  | clash => rfl
  | misdeclared => rfl
  | body => rfl

theorem Mark.through_of_isCalm (calm : k.isCalm = true) (declares : ∀ name, n.declares name = false) :
    k.through n = k := by
  cases k with
  | use => simp [through, declares]
  | jump j pos reach => cases reach <;> first | rfl | cases calm
  | label name near => cases near <;> first | rfl | cases calm
  | clash => rfl
  | misdeclared => rfl
  | body => rfl

/-- What lies in a calm node and in no function is calm. -/
theorem isCalm_of_child (child : c ∈ n.children) (calm : n.isCalm = true) (inner : n.isBoundary = false) :
    c.isCalm = true := by
  cases n with
  | program | switchCase | catchClause => cases calm
  | statement s =>
    cases s with
    | functionDeclaration => cases inner
    | variableDeclaration | classDeclaration =>
      simp [children, Statement.children, Class.children] at child
      grind [isCalm]
    | _ => cases calm
  | expression e =>
    cases e with
    | function | arrow => cases inner
    | template t => rcases mem_interleave child with ⟨_, rfl⟩ | ⟨_, -, rfl⟩ <;> rfl
    | _ => simp [children, Expression.children, Class.children, Member.children] at child <;> grind [isCalm]
  | pattern p =>
    cases p <;> simp [children, Pattern.children, Member.children] at child <;> grind [isCalm]
  | objectMember m => cases m <;> simp [children, ObjectMember.children] at child <;> grind [isCalm]
  | patternMember m => cases m <;> simp [children, PatternMember.children] at child <;> grind [isCalm]
  | classElement e =>
    cases e with
    | staticBlock => cases inner
    | _ =>
      simp [children, ClassElement.children] at child
      grind [isCalm]
  | importSpecifier i =>
    cases i with
    | named _ imported binding =>
      cases imported <;> simp [children, ImportSpecifier.children, ModuleName.node] at child <;> grind [isCalm]
    | _ =>
      simp [children, ImportSpecifier.children] at child
      grind [isCalm]
  | exportSpecifier e =>
    simp only [children] at child
    rcases e with ⟨_, inner | inner, exported | exported⟩ <;> simp [ModuleName.node] at child <;> grind [isCalm]
  | importAttribute a =>
    simp only [children] at child
    rcases a with ⟨_, key | key, value⟩ <;> simp [ModuleName.node] at child <;> grind [isCalm]
  | _ => simp [children] at child <;> grind [isCalm]

theorem Has.isCalm (has : n.Has k) (calm : n.isCalm = true) : k.isCalm = true := by
  induction has with
  | use => rfl
  | @jump s _ is => cases s <;> simp_all [Node.isCalm, Statement.jump?]
  | label => cases calm
  | misdeclared => rfl
  | body => rfl
  | @inside c n k child _ ih =>
    by_cases boundary : n.isBoundary = true
    · exact Mark.isCalm_through_boundary boundary
    · exact Mark.isCalm_through (ih (isCalm_of_child child calm (by simpa using boundary)))

/-! ### Covers -/

theorem Has.of_isSilent (has : n.Has k) (silent : n.isSilent = true) :
    ∃ c ∈ n.children, ∃ k', c.Has k' ∧ k = k'.through n := by
  cases has with
  | use | label | misdeclared | body => cases silent
  | @jump s _ is => cases s <;> simp_all [isSilent, Statement.jump?]
  | inside child has => exact ⟨_, child, _, has, rfl⟩

namespace Covered

theorem trans (first : n.Covered ms) (second : ∀ m ∈ ms, m.Covered ns) : n.Covered ns := fun k has => by
  obtain ⟨m, mem, has⟩ := first k has
  exact second m mem k has

theorem mono (h : n.Covered ms) (subset : ms ⊆ ns) : n.Covered ns :=
  h.trans fun _ mem => .of_mem (subset mem)

/-- A plain node shows no other marks than its children. -/
theorem nodeOf (plain : n.isPlain = true) (covered : ∀ c ∈ n.children, c.Covered ns) :
    ∀ m ∈ [n], m.Covered ns := List.forall_mem_singleton.mpr (.of_isPlain plain covered)

theorem node (plain : n.isPlain = true) (subset : n.children ⊆ ns) : ∀ m ∈ [n], m.Covered ns :=
  nodeOf plain fun _ child => .of_mem (subset child)

theorem childless (plain : n.isPlain = true) (empty : n.children = []) : n.Covered ns :=
  .of_isPlain plain (by simp [empty])

theorem leaf (plain : n.isPlain = true) (empty : n.children = []) : ∀ m ∈ [n], m.Covered ns :=
  List.forall_mem_singleton.mpr (.childless plain empty)

@[simp] theorem ofName {id : Identifier} : (identifier id).Covered ns := .childless rfl rfl

@[simp] theorem ofIdentifier {id : Identifier} : (expression (.identifier id)).Covered ns :=
  .childless rfl rfl

@[simp] theorem ofBinding {id : Identifier} : (pattern (.identifier id)).Covered ns := .childless rfl rfl

@[simp] theorem ofLiteral {l : Literal} : (literal l).Covered ns := .childless rfl rfl

@[simp] theorem ofChunk {e : TemplateElement} : (templateElement e).Covered ns := .childless rfl rfl

/-- What lies in a plain node shows only marks of that node. -/
theorem of_child (child : n ∈ m.children) (plain : m.isPlain = true) (covered : m.Covered ns) :
    n.Covered ns := fun k has => covered k (through_of_isPlain plain k ▸ .inside child has)

/-- Calm marks pass out of every node unchanged. -/
theorem through_calm (silent : n.isSilent = true) (has : c.Has k)
    (calm : c.isCalm = true) (covered : c.Covered ns) : ∃ m ∈ ns, m.Has (k.through n) := by
  have declares : ∀ name, n.declares name = false := by
    cases n <;> first | exact fun _ => rfl | cases silent
  rw [Mark.through_of_isCalm (has.isCalm calm) declares]
  exact covered k has

theorem of_calm (silent : n.isSilent = true) (children : ∀ c ∈ n.children, c.isCalm = true ∧ c.Covered ns) :
    n.Covered ns := fun k has => by
  obtain ⟨c, child, k, inner, rfl⟩ := has.of_isSilent silent
  exact through_calm silent inner (children c child).1 (children c child).2

/-- A node that does to marks what another one does. -/
theorem of_like (mem : m ∈ ns) (like : ∀ k : Mark, k.through n = k.through m) (silent : n.isSilent = true)
    (children : ∀ c ∈ n.children, c ∈ m.children ∨ c.isCalm = true ∧ c.Covered ns) : n.Covered ns := by
  intro k has
  obtain ⟨c, child, k, inner, rfl⟩ := has.of_isSilent silent
  rcases children c child with same | ⟨calm, covered⟩
  · exact ⟨m, mem, like k ▸ .inside same inner⟩
  · exact through_calm silent inner calm covered

end Covered

/-! ### Likes -/

theorem Mark.through_congr (boundary : n.isBoundary = m.isBoundary) (catches : ∀ j, n.catches j = m.catches j)
    (label : n.label? = m.label?) (declares : ∀ name, n.declares name = m.declares name) (k : Mark) :
    k.through n = k.through m := by
  cases k with
  | use => simp only [through, declares]
  | jump j pos reach => cases reach <;> simp only [through, boundary, catches]
  | label name near => cases near <;> simp only [through, boundary, label]
  | clash => rfl
  | misdeclared => rfl
  | body => rfl

theorem inner_of_isBoundary (boundary : n.isBoundary = true) : (∀ j, n.catches j = false) ∧
    n.label? = none ∧ (∀ name, n.declares name = false) ∧ n.isSilent = true := by
  cases n with
  | statement s =>
    cases s with
    | functionDeclaration f =>
      refine ⟨fun ⟨_, target⟩ => ?_, rfl, fun _ => rfl, rfl⟩
      cases target <;> simp [catches, Statement.catches, Statement.isLoop, Statement.isSwitch]
    | _ => cases boundary
  | expression e => cases e <;> first | exact ⟨fun _ => rfl, rfl, fun _ => rfl, rfl⟩ | cases boundary
  | classElement e => exact ⟨fun _ => rfl, rfl, fun _ => rfl, rfl⟩
  | _ => cases boundary

theorem inner_of_isLoop {s : Statement} (loop : s.isLoop = true) : (statement s).isBoundary = false ∧
    (∀ j, (statement s).catches j = j.target.isNone) ∧ (statement s).label? = none ∧
      (statement s).isSilent = true := by
  have catches (j : Jump) : (statement s).catches j = j.target.isNone := by
    obtain ⟨_, target⟩ := j
    cases target with
    | none => simp [Node.catches, Statement.catches, loop]
    | some name => cases s <;> first | rfl | cases loop
  cases s <;> first | exact ⟨rfl, catches, rfl, rfl⟩ | cases loop

/-- A function shows no other marks than a static block with its body in it, and its parameters. -/
theorem Covered.of_boundary (mem : m ∈ ns) (boundary : n.isBoundary = true) (boundary' : m.isBoundary = true)
    (children : ∀ c ∈ n.children, c ∈ m.children ∨ c.isCalm = true ∧ c.Covered ns) : n.Covered ns := by
  obtain ⟨catches, label, declares, silent⟩ := inner_of_isBoundary boundary
  obtain ⟨catches', label', declares', -⟩ := inner_of_isBoundary boundary'
  exact .of_like mem (Mark.through_congr (boundary.trans boundary'.symm)
    (fun j => (catches j).trans (catches' j).symm) (label.trans label'.symm)
    fun name => (declares name).trans (declares' name).symm) silent children

theorem Covered.of_callable {f : Callable} (boundary : n.isBoundary = true) (children : n.children = f.children)
    (params : ∀ a ∈ f.params, (pattern a).Covered ns) (body : classElement f.body.asStaticBlock ∈ ns) :
    n.Covered ns := by
  refine .of_boundary body boundary rfl fun c child => ?_
  simp only [children, Callable.children, List.mem_append, List.mem_map, List.mem_singleton] at child
  rcases child with (⟨id, -, rfl⟩ | ⟨a, mem, rfl⟩) | rfl
  · exact .inr ⟨rfl, ofName⟩
  · exact .inr ⟨rfl, params a mem⟩
  · exact .inl (.head _)

theorem Covered.of_arrow {span : Span} {isAsync : Bool} {params : List Pattern} {body : ArrowBody}
    (covered : ∀ a ∈ params, (pattern a).Covered ns) (mem : body.alone ∈ ns) :
    (expression (.arrow span isAsync params body)).Covered ns := by
  cases body with
  | block b =>
    refine .of_boundary mem rfl rfl fun c child => ?_
    simp only [children, Expression.children, List.mem_append, List.mem_map, List.mem_singleton] at child
    rcases child with ⟨a, mem, rfl⟩ | rfl
    · exact .inr ⟨rfl, covered a mem⟩
    · exact .inl (.head _)
  | expression e =>
    refine .of_calm rfl fun c child => ?_
    simp only [children, Expression.children, List.mem_append, List.mem_map, List.mem_singleton] at child
    rcases child with ⟨a, mem, rfl⟩ | rfl
    · exact ⟨rfl, covered a mem⟩
    · exact ⟨rfl, of_mem mem⟩

theorem Covered.of_functionDeclaration {f : Callable} (mem : expression (.function f) ∈ ns) :
    (statement (.functionDeclaration f)).Covered ns := .of_boundary mem rfl rfl fun _ => .inl

/-- A loop shows no other marks than another loop with the same body, and its head. -/
theorem Covered.of_loop {s s' : Statement} (mem : statement s' ∈ ns) (loop : s.isLoop = true)
    (loop' : s'.isLoop = true)
    (children : ∀ c ∈ s.children, c ∈ s'.children ∨ c.isCalm = true ∧ c.Covered ns) :
    (statement s).Covered ns := by
  obtain ⟨boundary, catches, label, silent⟩ := inner_of_isLoop loop
  obtain ⟨boundary', catches', label', -⟩ := inner_of_isLoop loop'
  exact .of_like mem (Mark.through_congr (boundary.trans boundary'.symm)
    (fun j => (catches j).trans (catches' j).symm) (label.trans label'.symm) fun _ => rfl) silent children

theorem Covered.of_switch {span span' : Span} {test test' : Expression} {cases : List SwitchCase}
    (mem : statement (.switchStatement span' test' cases) ∈ ns)
    (covered : (expression test).Covered ns) : (statement (.switchStatement span test cases)).Covered ns :=
  .of_like mem (Mark.through_congr rfl (fun ⟨_, target⟩ => by cases target <;> rfl) rfl fun _ => rfl) rfl <| by
    simpa [children, Statement.children, isCalm] using .inr covered

end Node

/-! ### Expressions read as patterns -/

open Node

theorem covered_of_markDirectives {source : Source} {body : List Statement} :
    ∀ n ∈ (markDirectives source body).map Node.statement, n.Covered (body.map .statement) := by
  induction body with
  | nil => simp [markDirectives]
  | cons first rest ih =>
    simp only [markDirectives]
    split
    · next directive same =>
      unfold Statement.asDirective? at same
      split at same
      · next span e directive text _ =>
        obtain rfl := Option.some.inj same
        rw [List.map_cons, List.forall_mem_cons]
        have here : (statement (.expressionStatement span e directive)).Covered
            ((Statement.expressionStatement span e directive :: rest).map .statement) := .of_mem (.head _)
        refine ⟨.of_isPlain rfl fun c child =>
          .of_child (m := statement (.expressionStatement span e directive)) child rfl here, fun n mem => ?_⟩
        exact (ih n mem).mono (List.subset_cons_self ..)
      · cases same
    · exact fun n mem => .of_mem mem

namespace Node.Covered

variable {ns : List Node}

theorem of_children {m n : Node} (plain : n.isPlain = true) (plain' : m.isPlain = true)
    (children : ∀ c ∈ n.children, c.Covered m.children) : n.Covered [m] :=
  .of_isPlain plain fun c child => (children c child).trans fun _ inner => .of_child inner plain' (.of_mem (.head _))

end Node.Covered

namespace Node

theorem isPlain_of_isRecast {n : Node} (recast : n.isRecast = true) : n.isPlain = true := by
  cases n with
  | expression e => cases e <;> first | rfl | cases recast
  | _ => first | rfl | cases recast

theorem covering : Covering Covered where
  of_mem := .of_mem
  trans := .trans
  recast recast recast' children :=
    .of_children (isPlain_of_isRecast recast) (isPlain_of_isRecast recast') children

end Node
end ScriptSyntax
