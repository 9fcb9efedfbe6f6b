import ScriptSyntax.Proofs.Parser.Look
import ScriptSyntax.Proofs.Parser.Step
import ScriptSyntax.Proofs.Tree.Frame

/-!
The ambient state of a parser: strictness, scopes, labels, class bodies and how deep productions nest,
which every production restores.  What a production gives is lawful where it was read, and if it suspends, that is
noted.
-/

namespace ScriptSyntax

/-- What the scopes around a place allow there. -/
def ScopeStack.surroundings (s : ScopeStack) : Surroundings where
  generator := s.inGenerator
  async := s.canAwait
  super := s.thisScope.super
  construct := s.directSuperAllowed
  superAnywhere := s.allowSuper

def ScopeStack.flags (s : ScopeStack) : List ScopeFlags := s.scopes.map (·.flags)

namespace Parser

def around (p : Parser) : Surroundings := p.scopes.surroundings

/-- Was a `yield` or an `await` noted? -/
def noted (p : Parser) : Bool := p.yieldAt.isSome || p.awaitAt.isSome

def withStrict (strict : Bool) (p : Parser) : Parser := { p with lexer := { p.lexer with strict } }

/-- The parser in a new scope. -/
def entered (flags : ScopeFlags) (p : Parser) : Parser := { p with scopes := p.scopes.enter flags }

/-- The parser with the innermost scope left. -/
def left (p : Parser) : Parser := { p with scopes := p.scopes.exit }

/-- The parser behind the border of a function. -/
def within (flags : ScopeFlags) (p : Parser) : Parser :=
  { p with scopes := p.scopes.enter flags, yieldAt := none, awaitAt := none, awaitNameAt := none }

/-- The parser with nothing noted. -/
def unnoted (p : Parser) : Parser := { p with yieldAt := none, awaitAt := none, awaitNameAt := none }

/-- The parser with no `yield` and no `await` noted. -/
def silenced (p : Parser) : Parser := { p with yieldAt := none, awaitAt := none }

/-- The parser `q` with what `p` noted. -/
def noting (p q : Parser) : Parser :=
  { q with yieldAt := p.yieldAt, awaitAt := p.awaitAt, awaitNameAt := p.awaitNameAt }

end Parser

namespace Ambient

/-- The two scope stacks are nested alike. -/
structure SameScopes (a b : ScopeStack) : Prop where
  flags : b.flags = a.flags
  inModule : b.inModule = a.inModule
  edition : b.edition = a.edition
  allowAwait : b.allowAwait = a.allowAwait
  allowSuper : b.allowSuper = a.allowSuper

/-- The ambient state at `q` is that at `p`. -/
structure Kept (p q : Parser) : Prop where
  strict : q.lexer.strict = p.lexer.strict
  scopes : SameScopes p.scopes q.scopes
  labels : q.labels.map (·.name) = p.labels.map (·.name)
  classes : q.privateNames.classes.length = p.privateNames.classes.length
  nesting : q.nesting = p.nesting

/-- The parts `ns` were read since `p`. -/
structure Since (p : Parser) (ns : List Part) (q : Parser) : Prop where
  kept : Kept p q
  noted : p.noted = true → q.noted = true
  lawful : ∀ x ∈ ns, x.Lawful p.around
  suspends : ∀ x ∈ ns, x.Suspends → q.noted = true

/-- Without an extension of the lexer, a step from states where `P` holds ends where `Q` does. -/
def Leads {α : Type} (s : Setting) (P : Parser → Prop) (m : ParseM α) (Q : α → Parser → Prop) : Prop :=
  s.reader = none → ∀ p a q, P p → Runs s m p a q → Q a q

/-- The step reads the parts `N` from any state on. -/
def Adds {α : Type} (s : Setting) (m : ParseM α) (N : α → List Part) : Prop :=
  ∀ p, Leads s (· = p) m fun a => Since p (N a)

/-- A step that gives no parts. -/
def Quiet {α : Type} (s : Setting) (m : ParseM α) : Prop := Adds s m fun _ => []

variable {s : Setting} {α β : Type} {p q r : Parser} {ns ms : List Part} {x : Part}

/-! ### Scopes -/

theorem SameScopes.refl (a : ScopeStack) : SameScopes a a := ⟨rfl, rfl, rfl, rfl, rfl⟩

theorem SameScopes.trans {a b c : ScopeStack} (first : SameScopes a b) (second : SameScopes b c) : SameScopes a c :=
  ⟨second.flags.trans first.flags, second.inModule.trans first.inModule, second.edition.trans first.edition,
    second.allowAwait.trans first.allowAwait, second.allowSuper.trans first.allowSuper⟩

theorem canAwait_go_eq (a b : ScopeStack) (inModule : b.inModule = a.inModule) (edition : b.edition = a.edition)
    (allowAwait : b.allowAwait = a.allowAwait) {xs ys : List Scope} (same : ys.map (·.flags) = xs.map (·.flags)) :
    ScopeStack.canAwait.go b ys = ScopeStack.canAwait.go a xs := by
  induction xs generalizing ys with
  | nil =>
    obtain rfl : ys = [] := by simpa using same
    simp [ScopeStack.canAwait.go, inModule, edition, allowAwait]
  | cons x xs ih =>
    obtain ⟨y, ys, rfl, here, rest⟩ := List.map_eq_cons_iff.mp same
    simp only [ScopeStack.canAwait.go, here, ih rest]

theorem SameScopes.nearest {a b : ScopeStack} (h : SameScopes a b) (test : ScopeFlags → Bool) :
    b.nearest test = a.nearest test := by
  have flags := h.flags
  simp only [ScopeStack.flags] at flags
  simp only [ScopeStack.nearest, flags]

theorem SameScopes.surroundings {a b : ScopeStack} (h : SameScopes a b) : b.surroundings = a.surroundings := by
  have async : b.canAwait = a.canAwait := canAwait_go_eq a b h.inModule h.edition h.allowAwait h.flags
  simp only [ScopeStack.surroundings, ScopeStack.inGenerator, ScopeStack.varScope, ScopeStack.thisScope,
    ScopeStack.directSuperAllowed, h.nearest, async, h.allowSuper]

/-- What was entered is left. -/
theorem SameScopes.exit {a b : ScopeStack} {flags : ScopeFlags} (h : SameScopes (a.enter flags) b) :
    SameScopes a b.exit where
  flags := by
    have flags := congrArg List.tail h.flags
    simpa [ScopeStack.flags, ScopeStack.exit, ScopeStack.enter, List.map_tail] using flags
  inModule := h.inModule
  edition := h.edition
  allowAwait := h.allowAwait
  allowSuper := h.allowSuper

theorem nearest_enter (a : ScopeStack) {flags : ScopeFlags} {test : ScopeFlags → Bool} (other : test flags = false) :
    (a.enter flags).nearest test = a.nearest test := by
  simp [ScopeStack.nearest, ScopeStack.enter, other]

/-- A declaration changes what is bound, and what is exported and not bound. -/
theorem exists_declare_eq (a : ScopeStack) (name : String) (binding : Binding) :
    ∃ scopes undefinedExports, (a.declare name binding).2 = { a with scopes, undefinedExports } := by
  unfold ScopeStack.declare
  split
  · exact ⟨a.scopes, a.undefinedExports, rfl⟩
  · cases binding
    case simpleCatch | function => exact ⟨_, a.undefinedExports, rfl⟩
    all_goals
      dsimp only
      split
      · exact ⟨_, _, rfl⟩
      · exact ⟨_, a.undefinedExports, rfl⟩

theorem SameScopes.declare (a : ScopeStack) (name : String) (binding : Binding) :
    SameScopes a (a.declare name binding).2 := by
  have flags := ScopeStack.map_flags_declare name binding a
  obtain ⟨scopes, exports, same⟩ := exists_declare_eq a name binding
  rw [same] at flags ⊢
  exact ⟨flags, rfl, rfl, rfl, rfl⟩

theorem SameScopes.exportLocal (a : ScopeStack) (name : String) (pos : Nat) :
    SameScopes a (a.exportLocal name pos) := by
  unfold ScopeStack.exportLocal
  split
  · split
    · exact .refl a
    · exact ⟨rfl, rfl, rfl, rfl, rfl⟩
  · exact .refl a

/-- A scope that is no body allows what is allowed around it. -/
theorem surroundings_enter_block (a : ScopeStack) {flags : ScopeFlags} (block : flags.isBody = false) :
    (a.enter flags).surroundings = a.surroundings := by
  have async : (a.enter flags).canAwait = a.canAwait := by
    obtain ⟨⟨⟨-, notFunction⟩, notStatic⟩, notField⟩ :
        ((flags.top = false ∧ flags.function = false) ∧ flags.staticBlock = false) ∧
          flags.fieldInitializer = false := by
      simpa [ScopeFlags.isBody, ScopeFlags.holdsVars] using block
    simp only [ScopeStack.canAwait, ScopeStack.enter, ScopeStack.canAwait.go, notFunction, notStatic, notField,
      Bool.or_self, Bool.false_eq_true, if_false]
    exact canAwait_go_eq a (a.enter flags) rfl rfl rfl rfl
  have var : (a.enter flags).varScope = a.varScope := nearest_enter a block
  have this : (a.enter flags).thisScope = a.thisScope := nearest_enter a (by simp [block])
  simp only [ScopeStack.surroundings, ScopeStack.inGenerator, ScopeStack.directSuperAllowed, async, var, this]
  rfl

/-- The scope of a function, an initializer or a static block. -/
inductive Encloses : ScopeFlags → Frame → Prop
  | function (isAsync isGenerator inBody : Bool) :
    Encloses (.ofFunction isAsync isGenerator) (.function .plain isAsync isGenerator inBody)
  | arrow (isAsync inBody : Bool) :
    Encloses { ScopeFlags.ofFunction isAsync false with arrow := true } (.function .arrow isAsync false inBody)
  | method (isAsync isGenerator inBody : Bool) :
    Encloses { ScopeFlags.ofFunction isAsync isGenerator with super := true, directSuper := false }
      (.function .method isAsync isGenerator inBody)
  | constructor (isAsync isGenerator inBody : Bool) :
    Encloses { ScopeFlags.ofFunction isAsync isGenerator with super := true, directSuper := true }
      (.function .derivedConstructor isAsync isGenerator inBody)
  | initializer : Encloses { fieldInitializer := true, super := true } .initializer
  | staticBlock : Encloses { staticBlock := true, super := true } .staticBlock

theorem Encloses.surroundings {flags : ScopeFlags} {frame : Frame} (h : Encloses flags frame) (a : ScopeStack) :
    (a.enter flags).surroundings = a.surroundings.enter frame := by
  cases h <;> rfl

/-! ### Private names -/

theorem length_use (names : PrivateNames) (name : String) (pos : Nat) :
    (names.use name pos).2.classes.length = names.classes.length := by
  obtain ⟨classes⟩ := names
  cases classes <;> rfl

theorem length_declare (names : PrivateNames) (name : String) (kind : PrivateKind) :
    (names.declare name kind).2.classes.length = names.classes.length := by
  unfold PrivateNames.declare
  split
  · simp [*]
  · split
    · simp [*]
    · split <;> simp [*]

/-! ### What is kept -/

theorem Kept.refl (p : Parser) : Kept p p := ⟨rfl, .refl _, rfl, rfl, rfl⟩

theorem Kept.trans (first : Kept p q) (second : Kept q r) : Kept p r :=
  ⟨second.strict.trans first.strict, first.scopes.trans second.scopes, second.labels.trans first.labels,
    second.classes.trans first.classes, second.nesting.trans first.nesting⟩

theorem Kept.around (h : Kept p q) : q.around = p.around := h.scopes.surroundings

/-! ### Parts -/

/-- The part is lawful wherever all the parts are, and suspends only if one of them does. -/
structure Covered (ns : List Part) (x : Part) : Prop where
  lawful : ∀ c, (∀ y ∈ ns, y.Lawful c) → x.Lawful c
  suspends : x.Suspends → ∃ y ∈ ns, y.Suspends

/-- Nothing is read where no `yield` and no `await` is forgotten. -/
theorem Since.still (kept : Kept p q) (noted : p.noted = true → q.noted = true) : Since p [] q :=
  ⟨kept, noted, by simp, by simp⟩

theorem Since.refl (p : Parser) : Since p [] p := .still (.refl p) id

theorem Since.trans (first : Since p ns q) (second : Since q ms r) : Since p (ns ++ ms) r where
  kept := first.kept.trans second.kept
  noted := second.noted ∘ first.noted
  lawful x mem := by
    rcases List.mem_append.mp mem with mem | mem
    · exact first.lawful x mem
    · rw [← first.kept.around]
      exact second.lawful x mem
  suspends x mem h :=
    (List.mem_append.mp mem).elim (fun mem => second.noted (first.suspends x mem h)) fun mem => second.suspends x mem h

/-- What was read stays read where what is around it is the same. -/
theorem Since.shift {p' q' : Parser} (h : Since p' ns q') (around : p'.around = p.around) (kept : Kept p q)
    (noted : p.noted = true → q.noted = true) (noted' : q'.noted = true → q.noted = true) : Since p ns q where
  kept := kept
  noted := noted
  lawful x mem := around ▸ h.lawful x mem
  suspends x mem suspends := noted' (h.suspends x mem suspends)

/-- What was read one level deeper is read. -/
theorem Since.nested {r : Parser} (h : Since { p with nesting := p.nesting + 1 } ns r) :
    Since p ns { r with nesting := r.nesting - 1 } :=
  h.shift rfl ⟨h.kept.strict, h.kept.scopes, h.kept.labels, h.kept.classes, by simp [h.kept.nesting]⟩ h.noted id

/-- What does not suspend needs no note. -/
theorem Since.aside {p' q' : Parser} (h : Since p' ns q') (calm : ∀ x ∈ ns, ¬ x.Suspends)
    (around : p'.around = p.around) (kept : Kept p q) (noted : p.noted = true → q.noted = true) : Since p ns q where
  kept := kept
  noted := noted
  lawful x mem := around ▸ h.lawful x mem
  suspends x mem suspends := (calm x mem suspends).elim

/-- A scope that is no body is left. -/
theorem Since.left {flags : ScopeFlags} (h : Since (p.entered flags) ns q) (block : flags.isBody = false) :
    Since p ns q.left :=
  h.shift (surroundings_enter_block p.scopes block) ⟨h.kept.strict, h.kept.scopes.exit, h.kept.labels,
    h.kept.classes, h.kept.nesting⟩
    h.noted id

/-- The scope of an initializer or a static block is left. -/
theorem Since.leftFrame {flags : ScopeFlags} {frame : Frame} (nodes : List Node)
    (h : Since (p.entered flags) (nodes.map (none, ·)) q) (encloses : Encloses flags frame)
    (body : frame.isHead = false) :
    Since p (nodes.map (some frame, ·)) q.left where
  kept := ⟨h.kept.strict, h.kept.scopes.exit, h.kept.labels, h.kept.classes, h.kept.nesting⟩
  noted := h.noted
  lawful x mem := by
    obtain ⟨n, inside, rfl⟩ := List.mem_map.mp mem
    have lawful := (h.lawful _ (List.mem_map_of_mem inside)).1
    rw [Parser.around, Parser.entered, encloses.surroundings] at lawful
    exact ⟨lawful, by simp [body]⟩
  suspends x mem suspends := by
    obtain ⟨n, inside, rfl⟩ := List.mem_map.mp mem
    exact h.suspends _ (List.mem_map_of_mem inside) ⟨rfl, suspends.2⟩

/-- The border of a function is passed again.  Nothing in its head suspends. -/
theorem Since.outside {flags : ScopeFlags} {frame : Bool → Frame} {heads : List Node} {body : Node}
    (h : Since (p.within flags) ((heads ++ [body]).map (none, ·)) q)
    (encloses : ∀ inBody, Encloses flags (frame inBody))
    (known : ∀ inBody, (frame inBody).inBody = inBody) (calm : ∀ n ∈ heads, ¬ n.Suspends) :
    Since p (heads.map (some (frame false), ·) ++ [(some (frame true), body)]) (p.noting q.left) where
  kept := ⟨h.kept.strict, h.kept.scopes.exit, h.kept.labels, h.kept.classes, h.kept.nesting⟩
  noted := id
  lawful x mem := by
    have lawful (inBody : Bool) {n : Node} (mem : n ∈ heads ++ [body]) : n.Lawful (p.around.enter (frame inBody)) := by
      have lawful := (h.lawful _ (List.mem_map_of_mem mem)).1
      rwa [Parser.around, Parser.within, (encloses inBody).surroundings] at lawful
    rcases List.mem_append.mp mem with mem | mem
    · obtain ⟨n, inside, rfl⟩ := List.mem_map.mp mem
      exact ⟨lawful false (List.mem_append_left _ inside), fun _ => calm n inside⟩
    · obtain rfl := List.mem_singleton.mp mem
      refine ⟨lawful true (List.mem_append_right _ (.head _)), fun head => ?_⟩
      cases (known true).symm.trans (Frame.inBody_of_isHead head)
  suspends x mem suspends := by
    rcases List.mem_append.mp mem with mem | mem
    · obtain ⟨n, inside, rfl⟩ := List.mem_map.mp mem
      exact (calm n inside suspends.2).elim
    · obtain rfl := List.mem_singleton.mp mem
      cases (known true).symm.trans suspends.1

theorem Since.weaken (h : Since p ns q) (covered : ∀ x ∈ ms, Covered ns x) : Since p ms q where
  kept := h.kept
  noted := h.noted
  lawful x mem := (covered x mem).lawful _ h.lawful
  suspends x mem suspends := by
    obtain ⟨y, mem, suspends⟩ := (covered x mem).suspends suspends
    exact h.suspends y mem suspends

namespace Covered

variable {n : Node} {frame : Option Frame}

theorem of_mem (mem : x ∈ ns) : Covered ns x := ⟨fun _ all => all x mem, fun h => ⟨x, mem, h⟩⟩

theorem trans (first : Covered ms x) (second : ∀ y ∈ ms, Covered ns y) : Covered ns x where
  lawful c all := first.lawful c fun y mem => (second y mem).lawful c all
  suspends h := by
    obtain ⟨y, mem, h⟩ := first.suspends h
    exact (second y mem).suspends h

theorem mono (h : Covered ms x) (subset : ms ⊆ ns) : Covered ns x := h.trans fun _ mem => .of_mem (subset mem)

end Covered

end Ambient

namespace Node

/-- Does the node itself need nothing from what is around it? -/
def isFree (n : Node) : Bool := !n.isYield && !n.isAwait && !n.isSuper && !n.callsSuper && !n.isSuspension

variable {n : Node} {c : Surroundings}

theorem isFree_iff : n.isFree = true ↔ (((n.isYield = false ∧ n.isAwait = false) ∧ n.isSuper = false) ∧
    n.callsSuper = false) ∧ n.isSuspension = false := by
  simp [isFree]

theorem fits_of_isFree (free : n.isFree = true) : n.Fits c := by
  obtain ⟨⟨⟨⟨yields, awaits⟩, super⟩, calls⟩, -⟩ := isFree_iff.mp free
  exact ⟨by simp [yields], by simp [awaits], by simp [super], by simp [calls]⟩

end Node

namespace Ambient.Covered

variable {ns : List Part} {n : Node}

/-- A node that needs nothing itself is covered by what covers its parts. -/
theorem of_parts (free : n.isFree = true) (covered : ∀ x ∈ n.parts, Covered ns x) : Covered ns (none, n) where
  lawful _ all := ⟨Node.lawful_iff.mpr ⟨Node.fits_of_isFree free, fun x mem => (covered x mem).lawful _ all⟩, nofun⟩
  suspends h := by
    obtain ⟨x, mem, h⟩ := (Node.suspends_iff.mp h.2).resolve_left (by simp [(Node.isFree_iff.mp free).2])
    exact (covered x mem).suspends h

/-- The parts of a node are covered by it. -/
theorem of_part {x : Part} (part : x ∈ n.parts) : Covered [(none, n)] x where
  lawful _ all := (Node.lawful_iff.mp (all (none, n) (.head _)).1).2 x part
  suspends h := ⟨_, .head _, rfl, Node.suspends_iff.mpr (.inr ⟨x, part, h⟩)⟩

theorem node (free : n.isFree = true) (subset : n.parts ⊆ ns) : ∀ x ∈ [((none : Option Frame), n)], Covered ns x :=
  List.forall_mem_singleton.mpr (.of_parts free fun _ mem => .of_mem (subset mem))

theorem nodeOf (free : n.isFree = true) (covered : ∀ x ∈ n.parts, Covered ns x) :
    ∀ x ∈ [((none : Option Frame), n)], Covered ns x := List.forall_mem_singleton.mpr (.of_parts free covered)

theorem leaf (free : n.isFree = true) (none' : n.parts = []) : ∀ x ∈ [((none : Option Frame), n)], Covered ns x :=
  nodeOf free (by simp [none'])

/-- A name asks for nothing. -/
@[simp] theorem identifier {id : Identifier} : Covered ns (none, .identifier id) :=
  .of_parts rfl (by simp [Node.parts, Node.children])

end Ambient.Covered

/-- The parts read become a node that may stand here. -/
theorem Ambient.Since.node {p q : Parser} {ns : List Part} {n : Node} (h : Since p ns q) (fits : n.Fits p.around)
    (suspension : n.isSuspension = true → q.noted = true) (covered : ∀ x ∈ n.parts, Covered ns x) :
    Since p [(none, n)] q where
  kept := h.kept
  noted := h.noted
  lawful x mem := by
    obtain rfl := List.mem_singleton.mp mem
    exact ⟨Node.lawful_iff.mpr ⟨fits, fun x part => (covered x part).lawful _ h.lawful⟩, nofun⟩
  suspends x mem suspends := by
    obtain rfl := List.mem_singleton.mp mem
    rcases Node.suspends_iff.mp suspends.2 with here | ⟨x, part, suspends⟩
    · exact suspension here
    · obtain ⟨y, mem, suspends⟩ := (covered x part).suspends suspends
      exact h.suspends y mem suspends

end ScriptSyntax
