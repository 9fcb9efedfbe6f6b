import ScriptSyntax.Proofs.Tree.Node

/-!
The functions, field initializers and static blocks around a node, and what they allow: `yield`, `await`,
members of `super` and calls of it.
-/

namespace ScriptSyntax

inductive FunctionKind where
  | plain
  | arrow
  | method
  /-- The constructor of a class that extends another one. -/
  | derivedConstructor
deriving DecidableEq, Repr

/-- What can stand between a node and a node around it. -/
inductive Frame where
  /-- A function, by its body or by its head, which is its name and its parameters. -/
  | function (kind : FunctionKind) (isAsync isGenerator inBody : Bool)
  | initializer
  | staticBlock
deriving DecidableEq, Repr

namespace Frame

def isAsync : Frame → Bool
  | function _ isAsync _ _ => isAsync
  | _ => false

def isGenerator : Frame → Bool
  | function _ _ isGenerator _ => isGenerator
  | _ => false

def isArrow : Frame → Bool
  | function .arrow .. => true
  | _ => false

def isHead : Frame → Bool
  | function _ _ _ inBody => !inBody
  | _ => false

def inBody : Frame → Bool
  | function _ _ _ inBody => inBody
  | _ => false

theorem inBody_of_isHead {f : Frame} (head : f.isHead = true) : f.inBody = false := by
  cases f <;> simp_all [isHead, inBody]

/-- Does it have members of `super`? -/
def hasSuper : Frame → Bool
  | function .method .. | function .derivedConstructor .. | initializer | staticBlock => true
  | _ => false

def isDerivedConstructor : Frame → Bool
  | function .derivedConstructor .. => true
  | _ => false

end Frame

/-- A node in another one, with the frame between them. -/
abbrev Part := Option Frame × Node

/-- The parts of a function; the function of a method is no node of its own here. -/
def Callable.parts (kind : FunctionKind) (f : Callable) : List Part :=
  let frame := Frame.function kind f.isAsync f.isGenerator
  (f.id.toList.map Node.identifier ++ f.params.map Node.pattern).map (some (frame false), ·) ++
    [(some (frame true), .statement (.block f.body))]

def ObjectMember.parts : ObjectMember → List Part
  | .property _ form _ key value =>
    (none, .expression key) ::
      match form, value with
      | .method, .function f | .getter, .function f | .setter, .function f => f.parts .method
      | _, value => [(none, .expression value)]
  | .spread _ argument => [(none, .expression argument)]

namespace ObjectMember

variable {span : Span} {computed : Bool} {key value : Expression}

@[simp] theorem parts_plain :
    (property span .plain computed key value).parts = [(none, .expression key), (none, .expression value)] := rfl

@[simp] theorem parts_shorthand :
    (property span .shorthand computed key value).parts = [(none, .expression key), (none, .expression value)] := rfl

theorem parts_accessor {form : PropertyForm} (accessor : form = .getter ∨ form = .setter) (f : Callable) :
    (property span form computed key (.function f)).parts = (none, .expression key) :: f.parts .method := by
  rcases accessor with rfl | rfl <;> rfl

end ObjectMember

def MethodKind.functionKind (derived : Bool) (kind : MethodKind) : FunctionKind :=
  if kind = .constructor ∧ derived then .derivedConstructor else .method

def ClassElement.parts (derived : Bool) : ClassElement → List Part
  | .method _ _ _ key kind value => (none, .expression key) :: value.parts (kind.functionKind derived)
  | .field _ _ _ key value =>
    (none, .expression key) :: value.toList.map fun e => (some .initializer, .expression e)
  | .staticBlock _ body => body.map fun a => (some .staticBlock, .statement a)

/-- The parts of a class; its body and the elements in it are no nodes of their own here. -/
def Class.parts (c : Class) : List Part :=
  (c.id.toList.map Node.identifier ++ c.heritage.toList.map Node.expression).map (none, ·) ++
    c.elements.flatMap (·.parts c.heritage.isSome)

namespace Node

/-- The nodes in a node, each with the frame that the node puts around it. -/
def parts : Node → List Part
  | expression (.function f) | statement (.functionDeclaration f) => f.parts .plain
  | expression (.arrow _ isAsync params body) =>
    params.map (fun a => (some (.function .arrow isAsync false false), .pattern a)) ++
      [(some (.function .arrow isAsync false true), body.node)]
  | expression (.classExpression c) | statement (.classDeclaration c) => c.parts
  | objectMember m => m.parts
  | n => n.children.map (none, ·)

/-- The node `m` is `n` or lies in it, and these are the frames from `n` to it, innermost first. -/
inductive Reaches : Node → List Frame → Node → Prop
  | here (n : Node) : Reaches n [] n
  | part {n c m : Node} {frame : Option Frame} {frames : List Frame} (part : (frame, c) ∈ n.parts)
    (reaches : Reaches c frames m) : Reaches n (frames ++ frame.toList) m

def isYield : Node → Bool
  | expression (.yield ..) => true
  | _ => false

/-- Does it wait for a value? -/
def isAwait : Node → Bool
  | expression (.await ..) | statement (.forOfStatement _ true ..) => true
  | _ => false

def isSuper : Node → Bool
  | expression (.super _) => true
  | _ => false

def callsSuper : Node → Bool
  | expression (.call _ (.super _) ..) => true
  | _ => false

/-- Is it a `yield` or an `await` expression? -/
def isSuspension : Node → Bool
  | expression (.yield ..) | expression (.await ..) => true
  | _ => false

/-- It contains a `yield` or an `await` expression that is not in the body of a function in it. -/
def Suspends (n : Node) : Prop :=
  ∃ frames m, n.Reaches frames m ∧ m.isSuspension = true ∧ ∀ f ∈ frames, f.inBody = false

/-- No head of a function that is directly in the node suspends. -/
def HeadsCalm (n : Node) : Prop := ∀ frame c, (some frame, c) ∈ n.parts → frame.isHead = true → ¬ c.Suspends

end Node

/-- What the frames around a place allow. -/
structure Surroundings where
  generator : Bool
  async : Bool
  super : Bool
  /-- Are calls of `super` legal? -/
  construct : Bool
  /-- Is `super` legal everywhere? -/
  superAnywhere : Bool
deriving DecidableEq, Repr

namespace Surroundings

/-- In an arrow function `super` is what it is around it. -/
def enter (f : Frame) (c : Surroundings) : Surroundings where
  generator := f.isGenerator
  async := f.isAsync
  super := if f.isArrow then c.super else f.hasSuper
  construct := if f.isArrow then c.construct else f.isDerivedConstructor
  superAnywhere := c.superAnywhere

def into (c : Surroundings) : Option Frame → Surroundings
  | some f => c.enter f
  | none => c

/-- What is allowed behind frames, innermost first. -/
def through (c : Surroundings) (frames : List Frame) : Surroundings := frames.foldr enter c

variable {c : Surroundings} {f : Frame} {frames : List Frame}

@[simp] theorem into_none : c.into none = c := rfl

@[simp] theorem into_some : c.into (some f) = c.enter f := rfl

@[simp] theorem through_nil : c.through [] = c := rfl

@[simp] theorem through_cons : c.through (f :: frames) = (c.through frames).enter f := rfl

/-- A function asks only for `super` around it. -/
theorem enter_eq {c c' : Surroundings} (super : c'.super = c.super) (construct : c'.construct = c.construct)
    (anywhere : c'.superAnywhere = c.superAnywhere) : c'.enter f = c.enter f := by
  simp [enter, super, construct, anywhere]

theorem through_eq {c c' : Surroundings} (super : c'.super = c.super) (construct : c'.construct = c.construct)
    (anywhere : c'.superAnywhere = c.superAnywhere) :
    ∀ {frames : List Frame}, frames ≠ [] → c'.through frames = c.through frames
  | [f], _ => enter_eq super construct anywhere
  | f :: g :: frames, _ => congrArg (enter f) (@through_eq c c' super construct anywhere (g :: frames) (by simp))

theorem through_append (frame : Option Frame) : c.through (frames ++ frame.toList) = (c.into frame).through frames := by
  cases frame <;> simp [through]

theorem generator_through : (c.through frames).generator = frames.head?.elim c.generator (·.isGenerator) := by
  cases frames <;> rfl

theorem async_through : (c.through frames).async = frames.head?.elim c.async (·.isAsync) := by
  cases frames <;> rfl

theorem superAnywhere_through : (c.through frames).superAnywhere = c.superAnywhere := by
  induction frames with
  | nil => rfl
  | cons f frames ih => exact ih

/-- Arrow functions do not hide what `super` is around them. -/
theorem super_through :
    (c.through frames).super = (frames.dropWhile (·.isArrow)).head?.elim c.super (·.hasSuper) := by
  induction frames with
  | nil => rfl
  | cons f frames ih => cases arrow : f.isArrow <;> simp [enter, arrow, ih]

theorem construct_through :
    (c.through frames).construct = (frames.dropWhile (·.isArrow)).head?.elim c.construct (·.isDerivedConstructor) := by
  induction frames with
  | nil => rfl
  | cons f frames ih => cases arrow : f.isArrow <;> simp [enter, arrow, ih]

end Surroundings

namespace Node

/-- The place of the node allows it. -/
structure Fits (c : Surroundings) (n : Node) : Prop where
  yield : n.isYield = true → c.generator = true
  await : n.isAwait = true → c.async = true
  super : n.isSuper = true → c.super = true ∨ c.superAnywhere = true
  call : n.callsSuper = true → c.construct = true

/-- All nodes reached from the node stand where they are allowed, and no head of a function suspends. -/
def Lawful (c : Surroundings) (n : Node) : Prop :=
  ∀ frames m, n.Reaches frames m → m.Fits (c.through frames) ∧ m.HeadsCalm

end Node

/-- The part may stand in its frame. -/
def Part.Lawful (c : Surroundings) (x : Part) : Prop :=
  x.2.Lawful (c.into x.1) ∧ (x.1.any (·.isHead) = true → ¬ x.2.Suspends)

/-- The part suspends what is around it. -/
def Part.Suspends (x : Part) : Prop := x.1.any (·.inBody) = false ∧ x.2.Suspends

namespace Node

variable {c c' : Surroundings} {n m : Node} {frames : List Frame}

theorem reaches_iff :
    n.Reaches frames m ↔
      (frames = [] ∧ m = n) ∨ ∃ x ∈ n.parts, ∃ inner, x.2.Reaches inner m ∧ frames = inner ++ x.1.toList := by
  constructor
  · rintro (_ | ⟨part, reaches⟩)
    · exact .inl ⟨rfl, rfl⟩
    · exact .inr ⟨_, part, _, reaches, rfl⟩
  · rintro (⟨rfl, rfl⟩ | ⟨x, part, inner, reaches, rfl⟩)
    · exact .here _
    · exact .part part reaches

theorem lawful_iff : n.Lawful c ↔ n.Fits c ∧ ∀ x ∈ n.parts, Part.Lawful c x := by
  constructor
  · intro lawful
    obtain ⟨fits, calm⟩ := lawful [] n (.here n)
    refine ⟨fits, fun x part => ⟨fun frames m reaches => ?_, fun head => ?_⟩⟩
    · simpa [Surroundings.through_append] using lawful _ m (.part part reaches)
    · obtain ⟨_ | frame, child⟩ := x
      · cases head
      · exact calm frame child part head
  · rintro ⟨fits, parts⟩ frames m reaches
    rcases reaches_iff.mp reaches with ⟨rfl, rfl⟩ | ⟨x, part, inner, below, rfl⟩
    · exact ⟨fits, fun frame child part head => (parts _ part).2 (by simpa using head)⟩
    · rw [Surroundings.through_append]
      exact (parts x part).1 inner m below

theorem suspends_iff : n.Suspends ↔ n.isSuspension = true ∨ ∃ x ∈ n.parts, Part.Suspends x := by
  constructor
  · rintro ⟨frames, m, reaches, suspension, free⟩
    rcases reaches_iff.mp reaches with ⟨rfl, rfl⟩ | ⟨⟨frame, child⟩, part, inner, below, rfl⟩
    · exact .inl suspension
    · refine .inr ⟨_, part, ?_, inner, m, below, suspension, fun f mem => free f (by simp [mem])⟩
      cases frame with
      | none => rfl
      | some frame => exact free frame (by simp)
  · rintro (suspension | ⟨⟨frame, child⟩, part, free, inner, m, reaches, suspension, frees⟩)
    · exact ⟨[], n, .here n, suspension, by simp⟩
    · refine ⟨_, m, .part part reaches, suspension, ?_⟩
      cases frame with
      | none => simpa using frees
      | some frame =>
        simp only [Option.toList_some, List.mem_append, List.mem_singleton]
        rintro f (mem | rfl)
        · exact frees f mem
        · exact free

/-- Can the node lie in an expression with no function or class element between? -/
def isOperand : Node → Bool
  | expression _ | pattern _ | objectMember _ | patternMember _ | templateElement _ | identifier _ | literal _ => true
  | _ => false

end Node

theorem Callable.not_mem_parts {f : Callable} {n : Node} {kind : FunctionKind} :
    ((none : Option Frame), n) ∉ f.parts kind := by
  simp [Callable.parts]

theorem ClassElement.isOperand_of_part {e : ClassElement} {n : Node} {derived : Bool}
    (part : (none, n) ∈ e.parts derived) :
    n.isOperand = true := by
  cases e with
  | method =>
    rcases List.mem_cons.mp part with same | part
    · cases same
      rfl
    · cases Callable.not_mem_parts part
  | field _ _ _ key value =>
    rcases List.mem_cons.mp part with same | part
    · cases same
      rfl
    · simp at part
  | staticBlock => simp [ClassElement.parts] at part

namespace Node

variable {c c' : Surroundings} {n m : Node} {frames : List Frame}

theorem isOperand_of_part (operand : n.isOperand = true) (part : (none, m) ∈ n.parts) : m.isOperand = true := by
  cases n with
  | expression e =>
    cases e with
    | function f => cases Callable.not_mem_parts part
    | arrow => simp [parts] at part
    | classExpression c =>
      simp only [parts, Class.parts, List.mem_append, List.mem_map, List.mem_flatMap] at part
      rcases part with ⟨_, ⟨_, -, rfl⟩ | ⟨_, -, rfl⟩, same⟩ | ⟨e, -, part⟩
      · cases same
        rfl
      · cases same
        rfl
      · exact ClassElement.isOperand_of_part part
    | template t =>
      simp [parts, children, Expression.children, Template.children] at part
      rcases mem_interleave part with ⟨_, rfl⟩ | ⟨_, -, rfl⟩ <;> rfl
    | _ => simp [parts, children, Expression.children, Member.children] at part <;> grind [isOperand]
  | pattern p =>
    cases p <;> simp [parts, children, Pattern.children, Member.children] at part <;> grind [isOperand]
  | objectMember m =>
    cases m with
    | property _ form _ key value =>
      rcases List.mem_cons.mp part with same | part
      · cases same
        rfl
      · split at part
        case h_4 => exact (Prod.mk.inj (List.mem_singleton.mp part)).2 ▸ rfl
        all_goals cases Callable.not_mem_parts part
    | spread => exact (Prod.mk.inj (List.mem_singleton.mp part)).2 ▸ rfl
  | patternMember m =>
    cases m <;> simp [parts, children, PatternMember.children] at part <;> grind [isOperand]
  | templateElement | identifier | literal => simp [parts, children] at part
  | _ => cases operand

theorem Reaches.isOperand (operand : n.isOperand = true) (reaches : n.Reaches frames m) (direct : frames = []) :
    m.isOperand = true := by
  induction reaches with
  | here => exact operand
  | @part n c m frame frames part _ ih =>
    obtain ⟨rfl, same⟩ := List.append_eq_nil_iff.mp direct
    obtain rfl : frame = none := Option.toList_eq_nil_iff.mp same
    exact ih (isOperand_of_part operand part) rfl

/-- Where nothing suspends it does not matter what the function around is. -/
theorem Lawful.reframed (lawful : n.Lawful c) (calm : ¬ n.Suspends) (operand : n.isOperand = true)
    (super : c'.super = c.super) (construct : c'.construct = c.construct)
    (anywhere : c'.superAnywhere = c.superAnywhere) : n.Lawful c' := by
  intro frames m reaches
  obtain ⟨fits, heads⟩ := lawful frames m reaches
  refine ⟨?_, heads⟩
  by_cases direct : frames = []
  · subst direct
    have still (suspension : m.isSuspension = true) : False := calm ⟨[], m, reaches, suspension, by simp⟩
    have operand' := reaches.isOperand operand rfl
    refine ⟨fun yields => (still ?_).elim, fun awaits => (still ?_).elim, ?_, ?_⟩
    · cases m with
      | expression e => cases e <;> first | rfl | cases yields
      | _ => cases yields
    · cases m with
      | expression e => cases e <;> first | rfl | cases awaits
      | statement => cases operand'
      | _ => cases awaits
    · simpa [super, anywhere] using fits.super
    · simpa [construct] using fits.call
  · rwa [Surroundings.through_eq super construct anywhere direct]

end Node
end ScriptSyntax
