import ScriptSyntax.Proofs.Accepted
import ScriptSyntax.Proofs.Ambient.Function
import ScriptSyntax.Proofs.Ambient.Program
import ScriptSyntax.Proofs.Parser.Function
import ScriptSyntax.Proofs.Tree.Reach

/-!
What is legal in some places only stands there in every accepted program, and every production restores the state of
the parser that decides it; so the token after the body of a function is read by the code around the function.
-/

namespace ScriptSyntax

open Node ParseM

namespace Ambient

variable {s : Setting} {p q r : Parser} {g : Grammar} {params : List Pattern} {b : Block}

/-- The current token was read by strict code, or by sloppy code. -/
def ReadIn (s : Setting) (strict : Bool) (q : Parser) : Prop := ∃ l, l.strict = strict ∧ Runs s LexM.next l ⟨⟩ q.lexer

theorem next_readIn (run : Runs s ParseM.next p ⟨⟩ q) : ReadIn s p.lexer.strict q := by
  obtain ⟨l, step, rfl⟩ := Runs.ofLexer_iff.mp (Runs.afterWord_of_next run)
  exact ⟨p.lexer, rfl, step⟩

namespace Settled

variable (hg : Settled s g) (plain : s.reader = none)
include hg plain

theorem statementsInBraces_readIn {strictAfter : Option Bool} {body : List Statement}
    (run : Runs s (g.statementsInBraces strictAfter) p body q) : ReadIn s (strictAfter.getD p.lexer.strict) q := by
  simp only [Grammar.statementsInBraces, Runs.bind_iff] at run
  obtain ⟨_, p₁, opens, found, p₂, collected, run⟩ := run
  have kept := (((Quiet.expect p) plain p _ p₁ rfl opens).trans
    ((Adds.collectUntil (hg.statement none false)) p₁ plain p₁ _ p₂ rfl collected)).kept
  cases strictAfter with
  | none =>
    simp at run
    obtain ⟨moved, rfl⟩ := run
    rw [Option.getD_none, ← kept.strict]
    exact next_readIn moved
  | some strict =>
    simp at run
    obtain ⟨moved, rfl⟩ := run
    exact next_readIn moved

theorem functionBody_readIn {id : Option Identifier} {start : Nat} {unique : Bool}
    (run : Runs s (g.functionBody params id start unique) p b q) : ReadIn s p.lexer.strict q := by
  have body {p₁ p₂ p₃ r : Parser} {strictAfter : Option Bool} {block : Block} {found : List Statement}
      (strict : strictAfter.getD p₁.lexer.strict = p.lexer.strict) (same : p₂.lexer = p₁.lexer)
      (blockRun : Runs s (g.scopelessBlock strictAfter) p₂ block p₃)
      (marked : Runs s (ParseM.withDirectives block.body) p₃ found r) : ReadIn s p.lexer.strict r := by
    simp [Grammar.scopelessBlock] at blockRun
    obtain ⟨body, blockRun, -⟩ := blockRun
    have read := hg.statementsInBraces_readIn plain blockRun
    rw [same, strict] at read
    obtain rfl : r = p₃ := by
      simp [ParseM.withDirectives] at marked
      grind
    exact read
  have strict {c : Prop} [Decidable (c ∧ p.lexer.strict = false)] {p₁ : Parser}
      (h : (c ∧ p₁.lexer.strict = true) ∨ (¬ c ∧ p₁.lexer.strict = p.lexer.strict)) :
      (if c ∧ p.lexer.strict = false then some false else none).getD p₁.lexer.strict = p.lexer.strict := by
    split
    · simp_all
    · rcases h with ⟨directive, strict⟩ | ⟨-, same⟩
      · simp_all
      · simpa using same
  cases id with
  | none =>
    simp [Grammar.functionBody] at run
    obtain ⟨-, p₅, p₁, p₂, block, p₃, found, ⟨setStrict, params, blockRun, marked⟩, rfl, rfl⟩ := run
    refine body (r := p₅) (strict ?_) (Runs.checkParams_lexer params) blockRun marked
    rcases setStrict with ⟨directive, rfl⟩ | ⟨plain, rfl⟩
    · exact .inl ⟨directive, rfl⟩
    · exact .inr ⟨by simpa using plain, rfl⟩
  | some id =>
    simp [Grammar.functionBody] at run
    obtain ⟨-, p₅, p₁, p₂, p₃, block, p₄, found, ⟨setStrict, params, name, blockRun, marked⟩, rfl, rfl⟩ := run
    have same : p₃.lexer = p₂.lexer := by
      rcases name with ⟨-, name⟩ | ⟨-, rfl⟩
      · exact Runs.checkBinding_lexer name
      · rfl
    refine body (r := p₅) (strict ?_) (same.trans (Runs.checkParams_lexer params)) blockRun marked
    rcases setStrict with ⟨directive, rfl⟩ | ⟨plain, rfl⟩
    · exact .inl ⟨directive, rfl⟩
    · exact .inr ⟨by simpa using plain, rfl⟩

end Settled
end Ambient

/-! ### Accepted programs -/

open Ambient

variable {s : Setting} {start : Nat} {a : Program} {l : Lexer}

/-- A parameter of the function that a program begins with. -/
def Program.firstParam? (a : Program) : Option (Callable × Pattern) :=
  match a.body with
  | .functionDeclaration f :: _ => f.params.head?.map (f, ·)
  | _ => none

theorem Program.within_of_firstParam? {f : Callable} {p : Pattern} (found : a.firstParam? = some (f, p)) :
    Within (statement (.functionDeclaration f)) (program a) ∧ p ∈ (statement (.functionDeclaration f)).params := by
  unfold Program.firstParam? at found
  split at found
  · next f' rest body =>
    obtain ⟨p', first, same⟩ := Option.map_eq_some_iff.mp found
    cases same
    exact ⟨.of_child (by simp [children, body]), List.mem_of_head? first⟩
  · cases found

/-! ### The ambient state -/

/-- Each production leaves strictness, the flags of the scopes, the names of the labels, the number of class
bodies and the depth of the nesting as they were.  The token after the body of a function is read by the code around the
function. -/
structure Grammar.Restores (s : Setting) (g : Grammar) : Prop where
  statement : ∀ context topLevel p a q, Runs s (g.statement context topLevel) p a q → Kept p q
  assignment : ∀ init d p x q, Runs s ((g.assignment init).run d) p x q → Kept p q
  unary : ∀ afterUnary inUpdate init d p x q, Runs s ((g.unary afterUnary inUpdate init).run d) p x q → Kept p q
  atom : ∀ init forNew d p x q, Runs s ((g.atom init forNew).run d) p x q → Kept p q
  bindingAtom : ∀ p a q, Runs s g.bindingAtom p a q → Kept p q
  functionBody : ∀ params id start unique p b q, Runs s (g.functionBody params id start unique) p b q →
    ReadIn s p.lexer.strict q

theorem Grammar.ofDepth_restores (plain : s.reader = none) (depth : Nat) : (ofDepth noExtension depth).Restores s := by
  have settled := settled_ofDepth (s := s) depth
  constructor
  · exact fun context topLevel p a q run => (settled.statement context topLevel p plain p a q rfl run).kept
  · exact fun init d p x q run => (settled.assigns init p d plain p x q rfl run).since.kept
  · exact fun afterUnary inUpdate init d p x q run =>
      (settled.operates afterUnary inUpdate init p d plain p x q rfl run).since.kept
  · exact fun init forNew d p x q run => (settled.begins init forNew p d plain p x q rfl run).since.kept
  · exact fun p a q run => (settled.bindingAtom p plain p a q rfl run).kept
  · exact fun params id start unique p b q run => settled.functionBody_readIn plain run

/-- A step that does not fail runs. -/
theorem Runs.exists_of_ok {α : Type} {m : ParseM α} {p : Parser}
    (ok : (match m s p with | .ok .. => true | .error .. => false) = true) : ∃ a q, Runs s m p a q := by
  split at ok
  · next a q run => exact ⟨a, q, run⟩
  · cases ok

/-- A labeled function that makes itself strict. -/
theorem Grammar.ofDepth_restores_directive :
    ∃ s : Setting, s.source = .ofString "a: function f() \x7b 'use strict'; b \x7d\n07" ∧
      ∃ p a q, Runs s ((ofDepth noExtension 12).statement none true) p a q ∧ Kept p q := by
  let s : Setting := { source := .ofString "a: function f() \x7b 'use strict'; b \x7d\n07", options := {} }
  obtain ⟨a, q, run⟩ := Runs.exists_of_ok (s := s) (p := s.parserAt 0)
    (m := do
      ofLexer LexM.readNext
      (ofDepth noExtension 12).statement none true) (by decide +kernel)
  obtain ⟨_, p, -, run⟩ := Runs.bind_iff.mp run
  exact ⟨s, rfl, p, a, q, run, (ofDepth_restores (s := s) rfl 12).statement none true p a q run⟩

namespace Setting

/-! ### Places -/

/-- What is legal outside all functions and classes. -/
def surroundings (s : Setting) : Surroundings where
  generator := false
  async := (s.inModule && 13 ≤ s.edition) || s.options.allowAwaitOutsideFunction
  super := false
  construct := false
  superAnywhere := s.options.allowSuperOutsideMethod

/-- Every node of a program is legal where it stands. -/
theorem lawful_of_parseProgram (plain : s.reader = none) (run : s.parseProgram start = (.ok a, l)) :
    (program a).Lawful s.surroundings := by
  simp only [parseProgram, runParser] at run
  split at run
  · next found q ran =>
    obtain ⟨rfl, -⟩ : found = a ∧ q.lexer = l := by simpa using run
    have since := (settled_ofDepth ParseM.maxDepth).program (s.parserAt start) plain _ _ _ rfl ran
    exact (since.lawful _ (.head _)).1
  · simp at run

/-- In a program with these nodes each of them is legal where it stands.  The frames are those around the node,
innermost first. -/
structure ContextualLegal (s : Setting) (a : Program) : Prop where
  reached : ∀ m, Within m (program a) → m.isContextual = true → ∃ frames, (program a).Reaches frames m
  /-- The innermost frame is a generator. -/
  yield : ∀ frames m, (program a).Reaches frames m → m.isYield = true → frames.head?.any (·.isGenerator) = true
  /-- The innermost frame is an async function, or there is none. -/
  await : ∀ frames m, (program a).Reaches frames m → m.isAwait = true →
    frames.head?.any (·.isAsync) = true ∨
      frames = [] ∧ ((s.inModule = true ∧ 13 ≤ s.edition) ∨ s.options.allowAwaitOutsideFunction = true)
  /-- The innermost frame that is no arrow function has members of `super`. -/
  super : ∀ frames m, (program a).Reaches frames m → m.isSuper = true →
    (frames.dropWhile (·.isArrow)).head?.any (·.hasSuper) = true
  /-- The innermost frame that is no arrow function is the constructor of a class that extends another one. -/
  superCall : ∀ frames m, (program a).Reaches frames m → m.callsSuper = true →
    (frames.dropWhile (·.isArrow)).head?.any (·.isDerivedConstructor) = true

theorem parseProgram_contextual (plain : s.reader = none) (noSuper : s.options.allowSuperOutsideMethod = false)
    (run : s.parseProgram start = (.ok a, l)) : s.ContextualLegal a := by
  have fits (frames : List Frame) (m : Node) (reaches : (program a).Reaches frames m) :
      m.Fits (s.surroundings.through frames) := (lawful_of_parseProgram plain run frames m reaches).1
  refine ⟨fun m within contextual => within.reaches contextual, fun frames m reaches yields => ?_,
    fun frames m reaches awaits => ?_, fun frames m reaches super => ?_, fun frames m reaches calls => ?_⟩
  · have legal := (fits frames m reaches).yield yields
    rw [Surroundings.generator_through] at legal
    cases frames <;> simp_all [surroundings]
  · have legal := (fits frames m reaches).await awaits
    rw [Surroundings.async_through] at legal
    cases frames <;> simp_all [surroundings]
  · have legal := (fits frames m reaches).super super
    rw [Surroundings.super_through, Surroundings.superAnywhere_through] at legal
    generalize (frames.dropWhile (·.isArrow)).head? = frame at legal ⊢
    cases frame <;> simp_all [surroundings]
  · have legal := (fits frames m reaches).call calls
    rw [Surroundings.construct_through] at legal
    generalize (frames.dropWhile (·.isArrow)).head? = frame at legal ⊢
    cases frame <;> simp_all [surroundings]

/-- All four kinds stand in a method of a class, the call of `super` in its constructor. -/
theorem parseProgram_contextual_class :
    ∃ s : Setting, s.source =
      .ofString "class A extends B { constructor() { super() } async *m() { yield await super.m } }" ∧
      ∃ a l, s.parseProgram = (.ok a, l) ∧ s.ContextualLegal a := by
  let s : Setting :=
    { source := .ofString "class A extends B { constructor() { super() } async *m() { yield await super.m } }",
      options := {} }
  obtain ⟨a, l, run⟩ := exists_of_isOk (x := s.parseProgram) (by decide +kernel)
  exact ⟨s, rfl, a, l, run, parseProgram_contextual (s := s) rfl rfl run⟩

/-! ### Parameters -/

/-- No parameter of a function, a method or an arrow function contains a `yield` or an `await` expression outside the
bodies of functions in it. -/
theorem parseProgram_calm_params (plain : s.reader = none) (run : s.parseProgram start = (.ok a, l))
    {m : Node} {p : Pattern} (within : Within m (program a)) (param : p ∈ m.params) : ¬ (pattern p).Suspends :=
  (lawful_of_parseProgram plain run).calm_params within param

/-- The parameter has a function as its default, and only that one yields. -/
theorem parseProgram_calm_params_default :
    ∃ s : Setting, s.source = .ofString "function* f(x = function* () { yield }) {}" ∧
      ∃ a l f p, s.parseProgram = (.ok a, l) ∧ Within (statement (.functionDeclaration f)) (program a) ∧ p ∈ f.params ∧
        ¬ (pattern p).Suspends := by
  let s : Setting := { source := .ofString "function* f(x = function* () { yield }) {}", options := {} }
  have begins : s.parseProgram.1.toOption.any (·.firstParam?.isSome) = true := by decide +kernel
  obtain ⟨a, l, run⟩ := exists_of_isOk (x := s.parseProgram) (by decide +kernel)
  obtain ⟨⟨f, p⟩, found⟩ : ∃ x, a.firstParam? = some x :=
    Option.isSome_iff_exists.mp (by simpa [run, Except.toOption] using begins)
  obtain ⟨within, param⟩ := a.within_of_firstParam? found
  exact ⟨s, rfl, a, l, f, p, run, within, param, parseProgram_calm_params (s := s) rfl run within param⟩

end Setting
end ScriptSyntax
