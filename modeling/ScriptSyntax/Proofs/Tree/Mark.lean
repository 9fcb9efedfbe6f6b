import ScriptSyntax.Parser.Statement
import ScriptSyntax.Proofs.Tree.Node

/-!
What the nodes around a node settle about it: whether a class body declares a private name, whether a
statement catches a jump, and whether a label stands inside the same label.
-/

namespace ScriptSyntax

/-- A `break` or a `continue`, with the label that it names. -/
structure Jump where
  isBreak : Bool
  target : Option String
deriving DecidableEq, Inhabited, Repr

namespace Statement

def isLoop : Statement → Bool
  | whileStatement .. | doWhileStatement .. | forStatement .. | forInStatement .. | forOfStatement .. => true
  | _ => false

def isSwitch : Statement → Bool
  | switchStatement .. => true
  | _ => false

def jump? : Statement → Option Jump
  | breakStatement _ label => some ⟨true, label.map (·.name)⟩
  | continueStatement _ label => some ⟨false, label.map (·.name)⟩
  | _ => none

/-- The statement after all labels. -/
def unlabeled : Statement → Statement
  | labeledStatement _ _ body => body.unlabeled
  | s => s

/-- Does a jump end at the statement, if nothing inside it catches it? -/
def catches (j : Jump) (s : Statement) : Bool :=
  match j.target, s with
  | none, s => s.isLoop || (j.isBreak && s.isSwitch)
  | some name, labeledStatement _ label body => label.name == name && (j.isBreak || body.unlabeled.isLoop)
  | some _, _ => false

end Statement

/-- The kinds of the declarations of a private name in a class body, in source order. -/
def privateKinds (name : String) (elements : List ClassElement) : List PrivateKind :=
  (elements.filterMap ClassElement.privateName?).filterMap fun (id, kind) =>
    if id.name = name then some kind else none

/-- A private name is declared once, or by a getter and a setter that are both static or both not. -/
def DeclaredOnce (kinds : List PrivateKind) : Prop :=
  kinds.length ≤ 1 ∨ ∃ isStatic, kinds = [.getter isStatic, .setter isStatic] ∨
    kinds = [.setter isStatic, .getter isStatic]

namespace Node

/-- Is it a function or a static block, out of which no jump leads? -/
def isBoundary : Node → Bool
  | statement (.functionDeclaration _) | expression (.function _) | expression (.arrow ..)
  | classElement (.staticBlock ..) => true
  | _ => false

def catches (j : Jump) : Node → Bool
  | statement s => s.catches j
  | _ => false

def jump? : Node → Option Jump
  | statement s => s.jump?
  | _ => none

/-- The name of a labeled statement. -/
def label? : Node → Option String
  | statement (.labeledStatement _ label _) => some label.name
  | _ => none

/-- Is it a class body with an element of that private name? -/
def declares (name : String) : Node → Bool
  | classBody _ elements => !(privateKinds name elements).isEmpty
  | _ => false

/-- The node `m` is `n` or lies in it, and `around` are the nodes around it up to `n`, innermost first. -/
inductive Lies (m : Node) : List Node → Node → Prop
  | here : Lies m [] m
  | inside {c n : Node} {around : List Node} (child : c ∈ n.children) (lies : Lies m around c) :
    Lies m (around ++ [n]) n

/-! ### Marks -/

/-- What becomes of a jump on its way out. -/
inductive Reach where
  /-- Nothing caught it so far. -/
  | free
  | caught
  /-- It met the border of a function. -/
  | lost
deriving DecidableEq, Inhabited, Repr

/-- What can be seen of a node from outside. -/
inductive Mark where
  | use (name : String) (pos : Nat) (known : Bool)
  | jump (jump : Jump) (pos : Nat) (reach : Reach)
  /-- A label; it can clash as long as no border of a function is between. -/
  | label (name : String) (near : Bool)
  /-- A label inside the same label. -/
  | clash
  /-- A private name declared twice. -/
  | misdeclared
  | body (span : Span) (elements : List ClassElement)

/-- The mark as it is seen from outside of a node around it. -/
def Mark.through (n : Node) : Mark → Mark
  | use name pos known => use name pos (known || n.declares name)
  | jump j pos .free => jump j pos (if n.isBoundary then .lost else if n.catches j then .caught else .free)
  | label name true =>
    if n.isBoundary then label name false else if n.label? = some name then clash else label name true
  | k => k

/-- The marks of a node. -/
inductive Has : Mark → Node → Prop
  | use (id : PrivateIdentifier) : Has (.use id.name id.span.start false) (expression (.privateIdentifier id))
  | jump {s : Statement} {j : Jump} (is : s.jump? = some j) : Has (.jump j s.span.start .free) (statement s)
  | label {span : Span} {id : Identifier} {body : Statement} :
    Has (.label id.name true) (statement (.labeledStatement span id body))
  | misdeclared {span : Span} {elements : List ClassElement} {name : String}
    (twice : ¬ DeclaredOnce (privateKinds name elements)) : Has .misdeclared (classBody span elements)
  | body {span : Span} {elements : List ClassElement} : Has (.body span elements) (classBody span elements)
  | inside {c n : Node} {k : Mark} (child : c ∈ n.children) (has : Has k c) : Has (k.through n) n

/-- Do marks pass out of the node unchanged, and does it add none? -/
def isPlain : Node → Bool
  | statement (.labeledStatement ..) | statement (.breakStatement ..) | statement (.continueStatement ..)
  | statement (.whileStatement ..) | statement (.doWhileStatement ..) | statement (.forStatement ..)
  | statement (.forInStatement ..) | statement (.forOfStatement ..) | statement (.switchStatement ..)
  | statement (.functionDeclaration _) | expression (.privateIdentifier _) | expression (.function _)
  | expression (.arrow ..) | classBody .. | classElement (.staticBlock ..) => false
  | _ => true

theorem Mark.through_eq {n : Node} (k : Mark) (boundary : n.isBoundary = false)
    (catches : ∀ j, n.catches j = false) (label : n.label? = none)
    (declares : ∀ name, n.declares name = false) : k.through n = k := by
  cases k with
  | use => simp [through, declares]
  | jump j pos reach => cases reach <;> simp [through, boundary, catches]
  | label name near => cases near <;> simp [through, boundary, label]
  | clash => rfl
  | misdeclared => rfl
  | body => rfl

theorem through_of_isPlain {n : Node} (plain : n.isPlain = true) (k : Mark) : k.through n = k := by
  cases n with
  | statement s =>
    refine k.through_eq ?_ (fun ⟨isBreak, target⟩ => ?_) ?_ fun _ => rfl
    · cases s <;> first | rfl | cases plain
    · cases target <;> cases s <;> first | rfl | (cases isBreak <;> rfl) | cases plain
    · cases s <;> first | rfl | cases plain
  | expression e => exact k.through_eq (by cases e <;> first | rfl | cases plain) (fun _ => rfl) rfl fun _ => rfl
  | classElement e => exact k.through_eq (by cases e <;> first | rfl | cases plain) (fun _ => rfl) rfl fun _ => rfl
  | classBody => cases plain
  | _ => exact k.through_eq rfl (fun _ => rfl) rfl fun _ => rfl

/-- A plain node has the marks of its children. -/
theorem Has.of_isPlain {n : Node} {k : Mark} (has : n.Has k) (plain : n.isPlain = true) :
    ∃ c ∈ n.children, c.Has k := by
  cases has with
  | use => cases plain
  | @jump s _ is => cases s <;> simp_all [isPlain, Statement.jump?]
  | label => cases plain
  | misdeclared => cases plain
  | body => cases plain
  | inside child has => exact ⟨_, child, through_of_isPlain plain _ ▸ has⟩

/-! ### Covers -/

/-- All marks of the node are marks of nodes in the list. -/
def Covered (ns : List Node) (n : Node) : Prop := ∀ k, n.Has k → ∃ m ∈ ns, m.Has k

namespace Covered

variable {ns : List Node} {n : Node}

@[simp] theorem of_mem (mem : n ∈ ns) : n.Covered ns := fun _ has => ⟨n, mem, has⟩

@[simp] theorem of_isPlain (plain : n.isPlain = true) (covered : ∀ c ∈ n.children, c.Covered ns) :
    n.Covered ns := fun k has => by
  obtain ⟨c, child, has⟩ := has.of_isPlain plain
  exact covered c child k has

end Covered

/-- Marks are seen through all nodes around. -/
theorem Lies.has {m n : Node} {around : List Node} {k : Mark} (lies : Lies m around n) (own : m.Has k) :
    n.Has (around.foldl (fun k n => k.through n) k) := by
  induction lies with
  | here => exact own
  | inside child _ ih =>
    rw [List.foldl_append]
    exact .inside child ih

end Node
end ScriptSyntax
