import ScriptSyntax.Proofs.Tree.Node

/-!
The links of a chain: from a member to its object and from a call to its callee.  A chain that can stop
early at a missing value is open until a node around it marks its end.
-/

namespace ScriptSyntax
namespace Expression

/-- Can a chain stop early at this member or call? -/
def isOptional : Expression → Bool
  | member m => m.optional
  | call _ _ _ optional => optional
  | _ => false

/-- Is it a member or a call? -/
def isLink : Expression → Bool
  | member _ | call .. => true
  | _ => false

/-- The second is the first, or it is reached from there by objects and callees alone. -/
inductive LinksTo : Expression → Expression → Prop
  | refl {e : Expression} : LinksTo e e
  | object {m : Member} {x : Expression} (inner : LinksTo m.object x) : LinksTo (member m) x
  | callee {span : Span} {callee : Expression} {arguments : List Expression} {optional : Bool} {x : Expression}
    (inner : LinksTo callee x) : LinksTo (call span callee arguments optional) x

/-- Is it a chain that can stop early, and whose end is not marked? -/
def isOpen : Expression → Bool
  | member ⟨_, inner, _, _, optional⟩ => optional || inner.isOpen
  | call _ callee _ optional => optional || callee.isOpen
  | _ => false

@[simp] theorem isOpen_member (m : Member) : (member m).isOpen = (m.optional || m.object.isOpen) := by
  cases m
  rw [isOpen]

@[simp] theorem isOpen_call (span : Span) (callee : Expression) (arguments : List Expression) (optional : Bool) :
    (call span callee arguments optional).isOpen = (optional || callee.isOpen) := by rw [isOpen]

theorem isLink_of_isOpen {e : Expression} (h : e.isOpen = true) : e.isLink = true := by
  cases e <;> first | rfl | simp [isOpen] at h

theorem LinksTo.isOpen {e x : Expression} (links : e.LinksTo x) (optional : x.isOptional = true) : e.isOpen = true := by
  induction links with
  | refl =>
    rename_i e
    cases e <;> simp_all [isOptional]
  | object _ ih => simp [ih optional]
  | callee _ ih => simp [ih optional]

theorem LinksTo.isOptional_eq_false {e x : Expression} (links : e.LinksTo x) (closed : e.isOpen = false) :
    x.isOptional = false := by
  cases optional : x.isOptional with
  | false => rfl
  | true => exact absurd (links.isOpen optional) (by simp [closed])

theorem isOpen_iff {e : Expression} : e.isOpen = true ↔ ∃ x, e.LinksTo x ∧ x.isOptional = true := by
  refine ⟨fun h => ?_, fun ⟨_, links, optional⟩ => links.isOpen optional⟩
  fun_induction Expression.isOpen e with
  | case1 _ inner _ _ optional ih =>
    rcases Bool.or_eq_true_iff.mp h with here | below
    · exact ⟨_, .refl, here⟩
    · obtain ⟨x, links, isOptional⟩ := ih below
      exact ⟨x, .object links, isOptional⟩
  | case2 span callee arguments optional ih =>
    rcases Bool.or_eq_true_iff.mp h with here | below
    · exact ⟨_, .refl, here⟩
    · obtain ⟨x, links, isOptional⟩ := ih below
      exact ⟨x, .callee links, isOptional⟩
  | case3 => cases h

end Expression

namespace Node

def isOpen : Node → Bool
  | expression e => e.isOpen
  | _ => false

/-- Is it a member or call at which a chain can stop early, be it a target? -/
def isOptional : Node → Bool
  | expression e => e.isOptional
  | pattern (.member m) => m.optional
  | _ => false

/-- The nodes directly in a node, apart from the one that a link of a chain leads to. -/
def branches : Node → List Node
  | expression (.chain ..) => []
  | expression (.member m) => [expression m.property]
  | expression (.call _ _ arguments _) => arguments.map .expression
  | n => n.children

/-- The node lies in `root`.  The flag says that it is reached from the expression of a chain by objects
and callees alone. -/
inductive Descends (root : Node) : Bool → Node → Prop
  | root : Descends root false root
  | chain {b : Bool} {span : Span} {e : Expression} (outer : Descends root b (expression (.chain span e))) :
    Descends root true (expression e)
  | object {b : Bool} {m : Member} (outer : Descends root b (expression (.member m))) :
    Descends root b (expression m.object)
  | callee {b : Bool} {span : Span} {callee : Expression} {arguments : List Expression} {optional : Bool}
    (outer : Descends root b (expression (.call span callee arguments optional))) : Descends root b (expression callee)
  | branch {b : Bool} {n c : Node} (outer : Descends root b n) (child : c ∈ n.branches) : Descends root false c

/-- The chains in `root` are marked once, where they end. -/
structure ChainsMarked (root : Node) : Prop where
  optional : ∀ {b n}, root.Descends b n → n.isOptional = true → b = true
  chain : ∀ {b span e}, root.Descends b (expression (.chain span e)) →
    e.isLink = true ∧ ∃ x, e.LinksTo x ∧ x.isOptional = true
  tag : ∀ {b span tag template}, root.Descends b (expression (.taggedTemplate span tag template)) →
    ∀ x, tag.LinksTo x → x.isOptional = false
  callee : ∀ {b span callee arguments}, root.Descends b (expression (.new span callee arguments)) →
    ∀ x, callee.LinksTo x → x.isOptional = false

/-- The open chains directly in a node go on in it, or it marks their end. -/
def Linked : Node → Prop
  | expression (.chain _ e) => e.isOpen = true
  | pattern (.member m) => m.optional = false ∧ ∀ c ∈ m.children, c.isOpen = false
  | n => ∀ c ∈ n.branches, c.isOpen = false

variable {root n c : Node}

theorem Linked.branch (linked : n.Linked) (child : c ∈ n.branches) : c.isOpen = false := by
  unfold Linked at linked
  split at linked
  · simp [branches] at child
  · exact linked.2 c child
  · exact linked c child

theorem mem_children_of_mem_branches (child : c ∈ n.branches) : c ∈ n.children := by
  unfold branches at child
  split at child
  · cases child
  · exact .tail _ child
  · exact .tail _ child
  · exact child

theorem Descends.within {b : Bool} (h : root.Descends b n) : Within n root := by
  induction h with
  | root => exact .refl
  | chain _ ih => exact .trans (.of_child (by simp [children, Expression.children])) ih
  | object _ ih => exact .trans (.of_child (by simp [children, Expression.children, Member.children])) ih
  | callee _ ih => exact .trans (.of_child (by simp [children, Expression.children])) ih
  | branch _ child ih => exact .trans (.of_child (mem_children_of_mem_branches child)) ih

/-- Is the node a link of a chain, or does it mark the end of one? -/
def isChained : Node → Bool
  | expression (.chain ..) | expression (.member _) | expression (.call ..) | pattern (.member _) => true
  | _ => false

theorem branches_of_isChained (other : n.isChained = false) : n.branches = n.children := by
  unfold branches
  split <;> first | rfl | cases other

/-- In a node apart from chains, no chain is open. -/
theorem linked_of_isChained (other : n.isChained = false) (closed : ∀ c ∈ n.children, c.isOpen = false) : n.Linked := by
  rw [← branches_of_isChained other] at closed
  unfold Linked
  split <;> first | exact closed | cases other

theorem isOpen_of_isChained (other : n.isChained = false) : n.isOpen = false := by
  unfold isOpen
  split
  · unfold Expression.isOpen
    split <;> first | rfl | cases other
  · rfl

/-- An open chain is reached from the node that marks its end. -/
theorem Descends.of_isOpen {b : Bool} (linked : root.All Linked) (closed : root.isOpen = false) (h : root.Descends b n)
    (isOpen : n.isOpen = true) : b = true := by
  induction h with
  | root => simp [closed] at isOpen
  | chain => rfl
  | object _ ih => exact ih (by simp_all [Node.isOpen])
  | callee _ ih => exact ih (by simp_all [Node.isOpen])
  | branch outer child => simp [(linked _ outer.within).branch child] at isOpen

theorem chainsMarked (linked : root.All Linked) (closed : root.isOpen = false) : root.ChainsMarked where
  optional {b n} h optional := by
    unfold isOptional at optional
    split at optional
    · next e => exact h.of_isOpen linked closed (Expression.LinksTo.refl.isOpen optional)
    · next m =>
      have plain : m.optional = false := (linked _ h.within).1
      simp [plain] at optional
    · cases optional
  chain h := by
    have isOpen := linked _ h.within
    exact ⟨Expression.isLink_of_isOpen isOpen, Expression.isOpen_iff.mp isOpen⟩
  tag h _ links := links.isOptional_eq_false ((linked _ h.within).branch (.head _))
  callee h _ links := links.isOptional_eq_false ((linked _ h.within).branch (.head _))

end Node
end ScriptSyntax
