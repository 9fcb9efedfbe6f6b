import ScriptSyntax.Proofs.Tree.Frame

/-!
Every node that lies in another one is reached from it, apart from those that only group the parts of a
class or hold the function of a method.
-/

namespace ScriptSyntax

open Node

/-- The function of a member that is a method or an accessor. -/
def ObjectMember.function? : ObjectMember → Option Callable
  | .property _ .method _ _ (.function f) | .property _ .getter _ _ (.function f)
  | .property _ .setter _ _ (.function f) => some f
  | _ => none

def ClassElement.function? : ClassElement → Option Callable
  | .method _ _ _ _ _ f => some f
  | _ => none

/-- The nodes of an element that are no parts of its class. -/
def ClassElement.inlined (e : ClassElement) : List Node :=
  classElement e :: e.function?.toList.map fun f => expression (.function f)

/-- The nodes in a class that are no parts of it, but whose parts are. -/
def Class.inlined (c : Class) : List Node := classBody c.bodySpan c.elements :: c.elements.flatMap (·.inlined)

/-- The nodes in a node that are no parts of it, but whose parts are. -/
def Node.inlined : Node → List Node
  | objectMember m => m.function?.toList.map fun f => expression (.function f)
  | expression (.classExpression c) | statement (.classDeclaration c) => c.inlined
  | _ => []

variable {n m c : Node}

theorem Callable.map_parts (f : Callable) (kind : FunctionKind) : (f.parts kind).map (·.2) = f.children := by
  simp [Callable.parts, Callable.children, Function.comp_def]

theorem Callable.exists_part {f : Callable} (kind : FunctionKind) (child : c ∈ f.children) :
    ∃ frame, (frame, c) ∈ f.parts kind := by
  rw [← f.map_parts kind] at child
  obtain ⟨⟨frame, c⟩, mem, rfl⟩ := List.mem_map.mp child
  exact ⟨frame, mem⟩

theorem Callable.mem_children_of_part {f : Callable} {kind : FunctionKind} {frame : Option Frame}
    (part : (frame, c) ∈ f.parts kind) : c ∈ f.children := f.map_parts kind ▸ List.mem_map_of_mem part

theorem Callable.mem_parts_of_param {f : Callable} {a : Pattern} (kind : FunctionKind) (param : a ∈ f.params) :
    (some (.function kind f.isAsync f.isGenerator false), pattern a) ∈ f.parts kind := by
  simp [Callable.parts, param]

theorem ObjectMember.exists_part {o : ObjectMember} (child : c ∈ o.children) :
    (∃ frame, (frame, c) ∈ o.parts) ∨ c ∈ (objectMember o).inlined := by
  cases o with
  | property span form computed key value =>
    rcases List.mem_cons.mp child with rfl | child
    · exact .inl ⟨none, .head _⟩
    · obtain rfl := List.mem_singleton.mp child
      cases form <;> cases value <;> first
        | exact .inl ⟨none, .tail _ (.head _)⟩
        | exact .inr (.head _)
  | spread => exact .inl ⟨none, by simpa [ObjectMember.parts, ObjectMember.children] using child⟩

theorem ObjectMember.parts_of_function? {o : ObjectMember} {f : Callable} (function : o.function? = some f) :
    ∃ key, o.parts = (none, .expression key) :: f.parts .method := by
  unfold ObjectMember.function? at function
  split at function <;> cases function <;> exact ⟨_, rfl⟩

theorem ClassElement.parts_of_function? {e : ClassElement} {f : Callable} (derived : Bool)
    (function : e.function? = some f) : ∃ key kind, e.parts derived = (none, .expression key) :: f.parts kind := by
  cases e <;> cases function
  exact ⟨_, _, rfl⟩

/-- The parts of an element of a class are in it, or in its function. -/
theorem ClassElement.exists_part {e : ClassElement} (derived : Bool) (child : c ∈ e.children) :
    (∃ frame, (frame, c) ∈ e.parts derived) ∨ c ∈ e.inlined := by
  cases e with
  | method span isStatic computed key kind f =>
    rcases List.mem_cons.mp child with rfl | child
    · exact .inl ⟨none, .head _⟩
    · obtain rfl := List.mem_singleton.mp child
      exact .inr (.tail _ (.head _))
  | field span isStatic computed key value =>
    rcases List.mem_cons.mp child with rfl | child
    · exact .inl ⟨none, .head _⟩
    · obtain ⟨x, mem, rfl⟩ := List.mem_map.mp child
      exact .inl ⟨some .initializer, List.mem_cons_of_mem _ (List.mem_map.mpr ⟨x, mem, rfl⟩)⟩
  | staticBlock span body =>
    obtain ⟨a, mem, rfl⟩ := List.mem_map.mp child
    exact .inl ⟨some .staticBlock, List.mem_map_of_mem mem⟩

theorem Class.exists_part {d : Class} (child : c ∈ d.children) : (∃ frame, (frame, c) ∈ d.parts) ∨ c ∈ d.inlined := by
  rcases List.mem_append.mp child with child | child
  · exact .inl ⟨none, List.mem_append_left _ (List.mem_map_of_mem child)⟩
  · obtain rfl := List.mem_singleton.mp child
    exact .inr (.head _)

theorem Class.exists_part_of_inlined {d : Class} (inlined : c ∈ d.inlined) {frame : Option Frame}
    (part : (frame, m) ∈ c.parts) : (∃ frame, (frame, m) ∈ d.parts) ∨ m ∈ d.inlined := by
  rcases List.mem_cons.mp inlined with rfl | inlined
  · simp only [Node.parts, Node.children, List.map_map, List.mem_map] at part
    obtain ⟨e, mem, same⟩ := part
    cases same
    exact .inr (.tail _ (List.mem_flatMap.mpr ⟨e, mem, .head _⟩))
  · obtain ⟨e, mem, inlined⟩ := List.mem_flatMap.mp inlined
    have inClass {frame : Option Frame} (part : (frame, m) ∈ e.parts d.heritage.isSome) : (frame, m) ∈ d.parts :=
      List.mem_append_right _ (List.mem_flatMap.mpr ⟨e, mem, part⟩)
    rcases List.mem_cons.mp inlined with rfl | inlined
    · obtain ⟨child, mem', same⟩ := List.mem_map.mp part
      cases same
      rcases ClassElement.exists_part d.heritage.isSome mem' with ⟨frame, part⟩ | inlined
      · exact .inl ⟨frame, inClass part⟩
      · exact .inr (.tail _ (List.mem_flatMap.mpr ⟨e, mem, inlined⟩))
    · obtain ⟨f, function, rfl⟩ := List.mem_map.mp inlined
      obtain ⟨key, kind, parts⟩ := ClassElement.parts_of_function? d.heritage.isSome (by simpa using function)
      obtain ⟨frame, part⟩ := Callable.exists_part kind (Callable.mem_children_of_part part)
      exact .inl ⟨frame, inClass (by simp [parts, part])⟩

namespace Node

theorem exists_part_of_child (child : c ∈ n.children) : (∃ frame, (frame, c) ∈ n.parts) ∨ c ∈ n.inlined := by
  cases n with
  | expression e =>
    cases e with
    | function f => exact .inl (Callable.exists_part .plain child)
    | arrow span isAsync params body =>
      rcases List.mem_append.mp child with child | child
      · obtain ⟨a, mem, rfl⟩ := List.mem_map.mp child
        exact .inl ⟨_, List.mem_append_left _ (List.mem_map_of_mem mem)⟩
      · obtain rfl := List.mem_singleton.mp child
        exact .inl ⟨_, List.mem_append_right _ (.head _)⟩
    | classExpression d => exact Class.exists_part child
    | _ => exact .inl ⟨none, List.mem_map_of_mem child⟩
  | statement a =>
    cases a with
    | functionDeclaration f => exact .inl (Callable.exists_part .plain child)
    | classDeclaration d => exact Class.exists_part child
    | _ => exact .inl ⟨none, List.mem_map_of_mem child⟩
  | objectMember o => exact ObjectMember.exists_part child
  | _ => exact .inl ⟨none, List.mem_map_of_mem child⟩

theorem exists_part_of_inlined (inlined : c ∈ n.inlined) {frame : Option Frame} (part : (frame, m) ∈ c.parts) :
    (∃ frame, (frame, m) ∈ n.parts) ∨ m ∈ n.inlined := by
  unfold Node.inlined at inlined
  split at inlined
  · next o =>
    obtain ⟨f, function, rfl⟩ := List.mem_map.mp inlined
    obtain ⟨frame, part⟩ := Callable.exists_part .method (Callable.mem_children_of_part part)
    obtain ⟨key, parts⟩ := ObjectMember.parts_of_function? (by simpa using function)
    exact .inl ⟨frame, by simp [Node.parts, parts, part]⟩
  · exact Class.exists_part_of_inlined inlined part
  · exact Class.exists_part_of_inlined inlined part
  · cases inlined

/-- What is inlined is the body of a class, an element of one, or the function of a method. -/
theorem cases_of_inlined (inlined : c ∈ n.inlined) :
    (∃ span elements, c = classBody span elements) ∨ (∃ e, c = classElement e) ∨ ∃ f, c = expression (.function f) := by
  have ofClass {d : Class} (inlined : c ∈ d.inlined) :
      (∃ span elements, c = classBody span elements) ∨ (∃ e, c = classElement e) ∨
        ∃ f, c = expression (.function f) := by
    rcases List.mem_cons.mp inlined with rfl | inlined
    · exact .inl ⟨_, _, rfl⟩
    · obtain ⟨e, -, inlined⟩ := List.mem_flatMap.mp inlined
      rcases List.mem_cons.mp inlined with rfl | inlined
      · exact .inr (.inl ⟨e, rfl⟩)
      · obtain ⟨f, -, rfl⟩ := List.mem_map.mp inlined
        exact .inr (.inr ⟨f, rfl⟩)
  unfold Node.inlined at inlined
  split at inlined
  · obtain ⟨f, -, rfl⟩ := List.mem_map.mp inlined
    exact .inr (.inr ⟨f, rfl⟩)
  · exact ofClass inlined
  · exact ofClass inlined
  · cases inlined

theorem inlined_eq_nil (inlined : c ∈ n.inlined) : c.inlined = [] := by
  rcases cases_of_inlined inlined with ⟨_, _, rfl⟩ | ⟨_, rfl⟩ | ⟨_, rfl⟩ <;> rfl

/-- The parameters of a method are in its head. -/
theorem exists_head_of_inlined {f : Callable} {a : Pattern} (inlined : expression (.function f) ∈ n.inlined)
    (param : a ∈ f.params) : ∃ frame : Frame, frame.isHead = true ∧ (some frame, pattern a) ∈ n.parts := by
  have ofClass {d : Class} (inlined : expression (.function f) ∈ d.inlined) :
      ∃ frame : Frame, frame.isHead = true ∧ (some frame, pattern a) ∈ d.parts := by
    obtain ⟨e, mem, inlined⟩ := List.mem_flatMap.mp ((List.mem_cons.mp inlined).resolve_left nofun)
    obtain ⟨f, function, same⟩ := List.mem_map.mp ((List.mem_cons.mp inlined).resolve_left nofun)
    cases same
    obtain ⟨key, kind, parts⟩ := ClassElement.parts_of_function? d.heritage.isSome (by simpa using function)
    refine ⟨.function kind f.isAsync f.isGenerator false, rfl,
      List.mem_append_right _ (List.mem_flatMap.mpr ⟨e, mem, ?_⟩)⟩
    rw [parts]
    exact .tail _ (f.mem_parts_of_param kind param)
  unfold Node.inlined at inlined
  split at inlined
  · obtain ⟨f, function, same⟩ := List.mem_map.mp inlined
    cases same
    obtain ⟨key, parts⟩ := ObjectMember.parts_of_function? (by simpa using function)
    exact ⟨.function .method f.isAsync f.isGenerator false, rfl, by
      simpa [Node.parts, parts] using f.mem_parts_of_param .method param⟩
  · exact ofClass inlined
  · exact ofClass inlined
  · cases inlined

/-- The node is reached, or it only groups parts of a node that is. -/
def Finds (n m : Node) : Prop := (∃ frames, n.Reaches frames m) ∨ ∃ frames k, n.Reaches frames k ∧ m ∈ k.inlined

theorem Reaches.finds {frames : List Frame} (reaches : c.Reaches frames m) (inlined : c ∈ n.inlined) : n.Finds m := by
  induction reaches with
  | here => exact .inr ⟨[], n, .here n, inlined⟩
  | part part reaches ih =>
    rcases exists_part_of_inlined inlined part with ⟨frame, part⟩ | inlined
    · exact .inl ⟨_, .part part reaches⟩
    · exact ih inlined

/-- What lies in a node is reached from it, or groups parts of what is. -/
theorem Within.finds (within : Within m n) : n.Finds m := by
  induction within with
  | refl => exact .inl ⟨[], .here m⟩
  | step child _ ih =>
    rcases exists_part_of_child child with ⟨frame, part⟩ | inlined
    · rcases ih with ⟨frames, reaches⟩ | ⟨frames, k, reaches, inside⟩
      · exact .inl ⟨_, .part part reaches⟩
      · exact .inr ⟨_, k, .part part reaches, inside⟩
    · rcases ih with ⟨frames, reaches⟩ | ⟨frames, k, reaches, inside⟩
      · exact reaches.finds inlined
      · rcases reaches.finds inlined with ⟨frames, reaches⟩ | ⟨frames, k', -, inlined⟩
        · exact .inr ⟨frames, k, reaches, inside⟩
        · rw [inlined_eq_nil inlined] at inside
          cases inside

/-- Does its place decide whether the node is legal? -/
def isContextual (n : Node) : Bool := n.isYield || n.isAwait || n.isSuper || n.callsSuper

theorem isContextual_eq_false_of_inlined (inlined : m ∈ n.inlined) : m.isContextual = false := by
  rcases cases_of_inlined inlined with ⟨_, _, rfl⟩ | ⟨_, rfl⟩ | ⟨_, rfl⟩ <;> rfl

/-- Whatever is legal in some places only is reached. -/
theorem Within.reaches (within : Within m n) (contextual : m.isContextual = true) : ∃ frames, n.Reaches frames m := by
  rcases within.finds with reaches | ⟨frames, k, -, inlined⟩
  · exact reaches
  · simp [isContextual_eq_false_of_inlined inlined] at contextual

/-- The parameters of a function; the function of a method has them too. -/
def params : Node → List Pattern
  | expression (.function f) | statement (.functionDeclaration f) => f.params
  | expression (.arrow _ _ params _) => params
  | _ => []

theorem exists_head_of_params {a : Pattern} (param : a ∈ n.params) :
    ∃ frame : Frame, frame.isHead = true ∧ (some frame, pattern a) ∈ n.parts := by
  unfold params at param
  split at param
  · next f => exact ⟨.function .plain f.isAsync f.isGenerator false, rfl, f.mem_parts_of_param .plain param⟩
  · next f => exact ⟨.function .plain f.isAsync f.isGenerator false, rfl, f.mem_parts_of_param .plain param⟩
  · next isAsync _ _ =>
    exact ⟨.function .arrow isAsync false false, rfl, List.mem_append_left _ (List.mem_map.mpr ⟨a, param, rfl⟩)⟩
  · cases param

/-- No function that lies in a lawful node has a parameter that suspends. -/
theorem Lawful.calm_params {s : Surroundings} {a : Pattern} (lawful : n.Lawful s) (within : Within m n)
    (param : a ∈ m.params) :
    ¬ (pattern a).Suspends := by
  rcases within.finds with ⟨frames, reaches⟩ | ⟨frames, k, reaches, inlined⟩
  · obtain ⟨frame, head, part⟩ := exists_head_of_params param
    exact (lawful frames m reaches).2 frame _ part head
  · rcases cases_of_inlined inlined with ⟨_, _, rfl⟩ | ⟨_, rfl⟩ | ⟨f, rfl⟩
    · cases param
    · cases param
    · obtain ⟨frame, head, part⟩ := exists_head_of_inlined inlined param
      exact (lawful frames k reaches).2 frame _ part head

end Node
end ScriptSyntax
