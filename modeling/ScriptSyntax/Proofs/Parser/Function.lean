import ScriptSyntax.Parser.Function
import ScriptSyntax.Proofs.Parser.Binding

/-!
Runs that read blocks and functions.
-/

namespace ScriptSyntax

open Runs

variable {s : Setting} {p q : Parser} {g : Grammar} {u : Unit}

namespace Runs

@[simp] theorem withOwnAwait_iff {α : Type} {step : ParseM α} {a : α} :
    Runs s (ParseM.withOwnAwait step) p a q ↔
      ∃ r, Runs s step { p with yieldAt := none, awaitAt := none, awaitNameAt := none } a r ∧
        q = { r with yieldAt := p.yieldAt, awaitAt := p.awaitAt, awaitNameAt := p.awaitNameAt } := by
  simp only [ParseM.withOwnAwait, bind_iff, get_iff, exists_look, modify_iff, exists_unit, pure_iff,
    exists_eq_left]
  constructor
  · rintro ⟨_, r, run, value, state⟩
    exact ⟨r, value ▸ run, state⟩
  · rintro ⟨r, run, state⟩
    exact ⟨a, r, run, rfl, state⟩

/-! ### Checks -/

theorem declare_lexer {name : String} {binding : Binding} {pos : Nat}
    (run : Runs s (ParseM.declare name binding pos) p u q) : q.lexer = p.lexer := by
  simp [ParseM.declare] at run
  rw [run.2]

theorem checkTargetName_lexer {binding : Binding} {clashes : Bool} {id : Identifier}
    (run : Runs s (ParseM.checkTargetName binding clashes id) p u q) : q.lexer = p.lexer := by
  simp [ParseM.checkTargetName] at run
  rcases run with ⟨-, ⟨-, rfl⟩ | ⟨-, -, -, ⟨-, rfl⟩ | ⟨-, declared⟩⟩⟩
  · rfl
  · rfl
  · exact declare_lexer declared

theorem checkTargets_lexer {binding : Binding} {distinct : Bool} {seen : List String}
    {targets : List Target} (run : Runs s (ParseM.checkTargets binding distinct seen targets) p u q) :
    q.lexer = p.lexer := by
  induction targets generalizing seen p with
  | nil =>
    simp [ParseM.checkTargets] at run
    rw [run]
  | cons target rest ih =>
    cases target <;> simp [ParseM.checkTargets] at run
    case name id =>
      obtain ⟨r, name, run⟩ := run
      rw [ih run, checkTargetName_lexer name]
    case member pos => exact ih run.2

theorem checkParams_lexer {params : List Pattern} {distinct : Bool}
    (run : Runs s (ParseM.checkParams params distinct) p u q) : q.lexer = p.lexer :=
  checkTargets_lexer run

theorem checkPattern_lexer {binding : Binding} {a : Pattern}
    (run : Runs s (ParseM.checkPattern binding a) p u q) : q.lexer = p.lexer :=
  checkTargets_lexer run

theorem checkBinding_lexer {binding : Binding} {id : Identifier}
    (run : Runs s (ParseM.checkBinding binding id) p u q) : q.lexer = p.lexer :=
  checkTargetName_lexer run

theorem checkParameterAwait_same (run : Runs s ParseM.checkParameterAwait p u q) : q = p := by
  simp [ParseM.checkParameterAwait] at run
  split at run <;> simp at run
  exact run

end Runs

namespace Reads

/-- Whether a statement is a directive changes nothing in what lies in it. -/
theorem directive_becomes {edition : Nat} {span : Span} {e : Expression} {text text' : Option String} :
    let n := Node.statement (.expressionStatement span e text)
    let m := Node.statement (.expressionStatement span e text')
    m.span = n.span ∧ (n.Sound edition none → m.Sound edition none) ∧ ∀ t, n.Keeps t → m.Keeps t := by
  have same {text text' : Option String} {k : Node}
      (within : Node.Within k (.statement (.expressionStatement span e text))) :
      k = .statement (.expressionStatement span e text) ∨
        Node.Within k (.statement (.expressionStatement span e text')) :=
    Node.within_of_same_children rfl within
  refine ⟨rfl, fun sound => ?_, ?_⟩
  · obtain ⟨here, below⟩ := Node.all_iff.mp sound.nested
    have settled : (Node.statement (.expressionStatement span e text')).Settled edition := by
      intro x left within
      obtain ⟨m, inner, exposes⟩ := sound.allSettled x left ((same within).resolve_left nofun)
      exact ⟨m, (same inner).resolve_left nofun, exposes⟩
    refine ⟨Node.all_iff.mpr ⟨⟨here.start_le, here.contains, here.apart⟩, below⟩,
      Node.all_iff.mpr ⟨nofun, (Node.all_iff.mp sound.restPlain).2⟩, ?_, .settled settled, .inr settled⟩
    rintro ⟨m, within, early⟩
    rcases same within with rfl | within
    · exact (early nofun).elim
    · obtain ⟨k, within, hides⟩ := sound.rests ⟨m, within, early⟩
      rcases same within with rfl | within
      · obtain ⟨before, _, _, _, slots, -⟩ := hides
        simp [Node.slots] at slots
      · exact ⟨k, within, hides⟩
  · rintro t ⟨m, within, kept⟩
    rcases same within with rfl | within
    · simp [Node.isTokenLeaf, Node.Drops] at kept
    · exact ⟨m, within, kept⟩

theorem directives {l l' : Lexer} {b : Bool} {body : List Statement}
    (h : Reads s none l l' b (body.map .statement)) (source : Source) :
    Reads s none l l' b ((markDirectives source body).map .statement) := by
  intro plain ordered
  refine (h plain ordered).replace ?_
  clear h
  induction body with
  | nil => exact .nil
  | cons a rest ih =>
    have same : List.Forall₂ (fun n m : Node => m.span = n.span ∧
        (n.Sound s.edition none → m.Sound s.edition none) ∧ ∀ t, n.Keeps t → m.Keeps t)
        (rest.map .statement) (rest.map .statement) :=
      List.forall₂_same.mpr fun _ _ => ⟨rfl, id, fun _ => id⟩
    unfold markDirectives
    split
    · rename_i directive h
      unfold Statement.asDirective? at h
      split at h <;> simp at h
      subst h
      exact .cons directive_becomes ih
    · exact .cons ⟨rfl, id, fun _ => id⟩ same

theorem withDirectives {l l' : Lexer} {b : Bool} {body found : List Statement}
    (h : Reads s none l l' b (body.map .statement))
    (run : Runs s (ParseM.withDirectives body) p found q) :
    Reads s none l l' b (found.map .statement) ∧ q = p := by
  simp [ParseM.withDirectives] at run
  rcases run with ⟨-, rfl, rfl⟩ | ⟨-, rfl, rfl⟩
  · exact ⟨h.directives s.source, rfl⟩
  · exact ⟨h, rfl⟩

end Reads

namespace Grammar.Faithful

variable (hg : g.Faithful s)
include hg

theorem statementsInBraces {strictAfter : Option Bool} {body : List Statement}
    (run : Runs s (g.statementsInBraces strictAfter) p body q) :
    Reads s none p.lexer q.lexer true (body.map .statement) := by
  simp [Grammar.statementsInBraces] at run
  obtain ⟨p₁, ⟨opens, moved⟩, found, p₂, collected, run⟩ := run
  obtain ⟨read, closes⟩ := Reads.collectUntil hg.statement collected
  have read := (Reads.next moved opens rfl).trans read
  cases strictAfter with
  | none =>
    simp at run
    obtain ⟨moved, rfl⟩ := run
    simpa using read.trans (.next moved closes rfl)
  | some strict =>
    simp at run
    obtain ⟨moved, rfl⟩ := run
    have next := Reads.next moved closes rfl
    simpa using (read.trans (.strict strict)).trans next

theorem block {b : Block} (run : Runs s g.block p b q) :
    Reads s none p.lexer q.lexer true [.statement (.block b)] := by
  simp [Grammar.block] at run
  obtain ⟨p₁, ⟨opens, moved⟩, found, p₂, collected, p₃, moved', rfl, rfl⟩ := run
  obtain ⟨read, closes⟩ := Reads.collectUntil hg.statement collected
  have all := ((Reads.next moved opens rfl).trans read).trans (.next moved' closes rfl)
  exact all.node (by simp [Node.children, Statement.children]) rfl rfl trivial

theorem scopelessBlock {strictAfter : Option Bool} {b : Block}
    (run : Runs s (g.scopelessBlock strictAfter) p b q) :
    Reads s none p.lexer q.lexer true (b.body.map .statement) ∧
      b.span.start = p.lexer.token.start ∧ b.span.stop = q.lexer.last.stop := by
  simp [Grammar.scopelessBlock] at run
  obtain ⟨body, run, rfl⟩ := run
  exact ⟨hg.statementsInBraces run, rfl, rfl⟩

theorem functionBody {params : List Pattern} {id : Option Identifier} {start : Nat} {unique : Bool}
    {b : Block} (run : Runs s (g.functionBody params id start unique) p b q) :
    Reads s none p.lexer q.lexer true [.statement (.block b)] := by
  have body {p₁ p₂ p₃ r : Parser} {strictAfter : Option Bool} {block : Block} {found : List Statement}
      (strict : Reads s none p.lexer p₁.lexer false []) (same : p₂.lexer = p₁.lexer)
      (blockRun : Runs s (g.scopelessBlock strictAfter) p₂ block p₃)
      (marked : Runs s (ParseM.withDirectives block.body) p₃ found r) :
      Reads s none p.lexer r.lexer true [.statement (.block ⟨block.span, found⟩)] := by
    obtain ⟨read, start, stop⟩ := hg.scopelessBlock blockRun
    obtain ⟨read, rfl⟩ := read.withDirectives marked
    rw [same] at read start
    exact strict.trans (read.node rfl start stop trivial)
  have strict {c c' : Prop} {p₁ : Parser} {labels : List Label}
      (h : (c ∧ p₁ = { p with lexer := { p.lexer with strict := true }, labels }) ∨
        (c' ∧ p₁ = { p with labels })) : Reads s none p.lexer p₁.lexer false [] := by
    rcases h with ⟨-, rfl⟩ | ⟨-, rfl⟩
    · exact .strict true
    · exact .refl
  cases id with
  | none =>
    simp [Grammar.functionBody] at run
    obtain ⟨-, p₅, p₁, p₂, block, p₃, found, ⟨setStrict, params, blockRun, marked⟩, rfl, rfl⟩ := run
    exact body (r := p₅) (strict setStrict) (checkParams_lexer params) blockRun marked
  | some id =>
    simp [Grammar.functionBody] at run
    obtain ⟨-, p₅, p₁, p₂, p₃, block, p₄, found, ⟨setStrict, params, name, blockRun, marked⟩, rfl, rfl⟩ :=
      run
    have same : p₃.lexer = p₂.lexer := by
      rcases name with ⟨-, name⟩ | ⟨-, rfl⟩
      · exact checkBinding_lexer name
      · rfl
    exact body (r := p₅) (strict setStrict) (same.trans (checkParams_lexer params)) blockRun marked

theorem paramsAndBody {params : List Pattern} {id : Option Identifier} {start : Nat} {unique : Bool}
    {b : Block} {p₁ p₂ p₃ : Parser} (moved : Runs s ParseM.next p ⟨⟩ p₁) (opens : p.lexer.kind = .parenL)
    (list : Runs s g.parameters p₁ params p₂) (checked : Runs s ParseM.checkParameterAwait p₂ ⟨⟩ p₃)
    (body : Runs s (g.functionBody params id start unique) p₃ b q) :
    Reads s none p.lexer q.lexer true (params.map .pattern ++ [.statement (.block b)]) ∧
      RestsPlaced (params.map some) := by
  obtain ⟨read, placed⟩ := hg.parameters list
  obtain rfl := checkParameterAwait_same checked
  exact ⟨((Reads.next moved opens rfl).trans read).trans (hg.functionBody body), placed⟩

theorem method {isGenerator isAsync directSuper : Bool} {f : Callable}
    (run : Runs s (g.method isGenerator isAsync directSuper) p f q) :
    Reads s none p.lexer q.lexer true [.expression (.function f)] := by
  simp [Grammar.method] at run
  obtain ⟨params, body, ⟨p₁, ⟨p₂, ⟨opens, moved⟩, p₃, list, p₄, checked, bodyRun⟩, rfl⟩, rfl⟩ := run
  obtain ⟨read, placed⟩ := hg.paramsAndBody moved opens list checked bodyRun
  exact read.node rfl rfl rfl placed

omit hg in
theorem generatorStar {place : FunctionPlace} {isAsync b : Bool}
    (run : Runs s (Grammar.generatorStar place isAsync) p b q) :
    Reads s none p.lexer q.lexer false [] := by
  simp [Grammar.generatorStar] at run
  rcases run with ⟨-, -, ⟨-, star, moved⟩ | ⟨-, -, rfl⟩⟩ | ⟨-, -, rfl⟩
  · exact (Reads.next moved star rfl).weaken
  · exact .refl
  · exact .refl

omit hg in
theorem functionBinding_same {special : Bool} {binding : Binding}
    (run : Runs s (Grammar.functionBinding special) p binding q) : q = p := by
  simp [Grammar.functionBinding] at run
  rcases run with ⟨-, -, rfl⟩ | ⟨-, -, rfl⟩ <;> rfl

omit hg in
theorem functionName {place : FunctionPlace} {special : Bool} {id : Option Identifier}
    (run : Runs s (Grammar.functionName place special) p id q) :
    Reads s none p.lexer q.lexer false (id.toList.map .identifier) ∧
      (place = .expression → id = none) := by
  simp [Grammar.functionName] at run
  rcases run with ⟨-, rfl, rfl⟩ | ⟨⟨notExpression, -⟩, id, p₁, name, h⟩
  · exact ⟨.refl, fun _ => rfl⟩
  · refine ⟨?_, fun expression => (notExpression expression).elim⟩
    have read := Reads.identifier (n := .identifier id) name rfl rfl
    rcases h with ⟨-, rfl, rfl⟩ | ⟨-, binding, p₂, bindingRun, bound, rfl⟩
    · exact read.weaken
    · have same : q.lexer = p₁.lexer := by
        rw [checkBinding_lexer bound, functionBinding_same bindingRun]
      exact same ▸ read.weaken

theorem function {start : NodeStart} {place : FunctionPlace} {isAsync : Bool} {f : Callable}
    (run : Runs s (g.function start place isAsync) p f q) :
    f.span = spanTo s start q.lexer ∧ Reads s none p.lexer q.lexer true f.children ∧
      RestsPlaced (f.params.map some) := by
  simp only [Grammar.function, bind_iff, since_iff, exists_look] at run
  obtain ⟨isGenerator, p₁, star, declared, p₂, name, run⟩ := run
  simp at run
  obtain ⟨id, params, body, ⟨p₃, h, rfl⟩, rfl⟩ := run
  obtain ⟨nameRead, unnamed⟩ := functionName name
  have before := (generatorStar star).trans nameRead
  rcases h with ⟨⟨rfl, -⟩, own, p₄, ownRun, p₅, ⟨opens, moved⟩, p₆, list, p₇, checked, bodyRun, rfl⟩ |
    ⟨-, p₄, ⟨opens, moved⟩, p₅, list, p₆, checked, bodyRun, rfl⟩
  · obtain ⟨read, placed⟩ := hg.paramsAndBody moved opens list checked bodyRun
    obtain rfl := unnamed rfl
    have ownRead := Reads.identifier (n := .identifier own) ownRun rfl rfl
    exact ⟨rfl, (before.trans ownRead).trans read, placed⟩
  · obtain ⟨read, placed⟩ := hg.paramsAndBody moved opens list checked bodyRun
    refine ⟨rfl, ?_, placed⟩
    simpa [Callable.children] using before.trans read

/-- The targets of an arrow function are parameters read before; its body is read. -/
theorem arrowParts {start : NodeStart} {es : List (Option Expression)} {rest : Option Pattern}
    {isAsync : Bool} {init : InitMode} {e : Expression}
    (run : Runs s (g.arrow start es rest isAsync init) p e q) :
    ∃ rules targets body, slotTargets rules es = .ok targets ∧
      e = .arrow (spanTo s start q.lexer) (isAsync && decide (8 ≤ s.edition))
        (targets.filterMap id ++ rest.toList) body ∧
      Reads s none p.lexer q.lexer true [body.node] := by
  simp [Grammar.arrow] at run
  obtain ⟨params, body, ⟨p₁, ⟨targets, reads, h⟩, rfl⟩, rfl⟩ := run
  refine ⟨_, targets, body, reads, ?_⟩
  rcases h with ⟨-, block, bodyRun, rfl, rfl⟩ | ⟨-, value, p₂, valueRun, p₃, checked, rfl, rfl, rfl⟩
  · have read := hg.functionBody bodyRun
    exact ⟨rfl, read⟩
  · have same : p₃.lexer = p₂.lexer := checkParams_lexer checked
    have read := hg.plainAssignment valueRun
    rw [← same] at read
    exact ⟨rfl, read⟩

theorem arrow_parts {start : NodeStart} {es : List (Option Expression)} {rest : Option Pattern}
    {isAsync : Bool} {init : InitMode} {e : Expression}
    (run : Runs s (g.arrow start es rest isAsync init) p e q) : e.parts = [] := by
  obtain ⟨_, _, _, -, rfl, -⟩ := hg.arrowParts run
  rfl

end Grammar.Faithful

/-- An arrow function was read that starts at `start` and has its parameters from the lexer `m` on. -/
structure ArrowRead (s : Setting) (isAsync : Bool) (start : NodeStart) (m l' : Lexer) (e : Expression) :
    Prop where
  kept : ∃ d ns, Stretch s d m l' true ns ∧
    ∀ t, ∀ n ∈ ns, n.Keeps t → (Node.expression e).Keeps t
  sound : (Node.expression e).Sound s.edition none
  form : ∃ params body, e = .arrow (spanTo s start l') isAsync params body
  placed : ∀ c ∈ e.children, m.token.start ≤ c.span.start

theorem Grammar.Faithful.arrow (hg : g.Faithful s) {d : Option Deferred} {start : NodeStart}
    {m m' : Lexer} {es : List (Option Expression)} {rest : Option Pattern} {isAsync b c : Bool}
    {init : InitMode} {e : Expression} (run : Runs s (g.arrow start es rest isAsync init) p e q)
    (paramsRead : Reads s d m m' b ((es.filterMap id).map .expression))
    (restRead : Reads s none m' p.lexer c (rest.toList.map .pattern)) (full : none ∉ es)
    (closed : ¬ OpenParts es)
    (last : ∀ a ∈ rest, a.RestPlain ∧ ∀ e, some e ∈ es → e.isSpread = false)
    (plain : s.reader = none) (ordered : m.Ordered s.source) (before : start.pos ≤ m.token.start) :
    ArrowRead s (isAsync && decide (8 ≤ s.edition)) start m q.lexer e := by
  obtain ⟨rules, targets, body, reads, rfl, bodyRead⟩ := hg.arrowParts run
  have written : List.Forall₂ (Option.Rel (Expression.Writes s.edition)) es targets :=
    (writes_of_slotTargets reads).1
  have params := paramsRead plain ordered
  have rests := restRead plain params.ordered
  have bodies := bodyRead plain rests.ordered
  have all := (params.trans rests.of_none).trans bodies.of_none
  rw [Bool.or_true] at all
  have spans : (Node.expression (.arrow (spanTo s start q.lexer) (isAsync && decide (8 ≤ s.edition))
      (targets.filterMap id ++ rest.toList) body)).children.map Node.span =
      ((es.filterMap id).map Node.expression ++ rest.toList.map Node.pattern ++ [body.node]).map
        Node.span := by
    simp only [Node.children, Expression.children, List.map_append, spans_of_written written]
  have nested := all.nested spans before rfl
  refine ⟨⟨d, _, all, fun t n mem keeps => ?_⟩, ?_, ⟨_, _, rfl⟩, fun c child => ?_⟩
  · rcases List.mem_append.mp mem with mem | same
    · rcases List.mem_append.mp mem with param | last
      · obtain ⟨e, found, rfl⟩ := List.mem_map.mp param
        obtain ⟨_, slot, rfl⟩ := List.mem_filterMap.mp found
        obtain ⟨_, target, related⟩ := Node.exists_right_of_forall₂ written slot
        cases related with
        | @some _ a writes =>
          refine (writes.keeps keeps).of_within (.of_child (List.mem_append_left _ ?_))
          exact List.mem_map_of_mem (List.mem_append_left _ (List.mem_filterMap.mpr ⟨_, target, rfl⟩))
      · obtain ⟨a, found, rfl⟩ := List.mem_map.mp last
        refine keeps.of_within (.of_child (List.mem_append_left _ ?_))
        exact List.mem_map_of_mem (List.mem_append_right _ found)
    · obtain rfl := List.mem_singleton.mp same
      exact keeps.of_within (.of_child (List.mem_append_right _ (.head _)))
  · exact sound_arrow written full (restsPlaced_params reads last) closed
      (fun e mem => params.sound _ (List.mem_map_of_mem (List.mem_filterMap.mpr ⟨_, mem, rfl⟩)))
      (fun a mem => rests.sound _ (by simpa using mem)) (bodies.sound _ (.head _)) nested
  · have mem : c.span ∈ _ := spans ▸ List.mem_map_of_mem child
    obtain ⟨n, mem, same⟩ := List.mem_map.mp mem
    exact same ▸ (all.placed n mem).1

namespace ArrowRead

variable {isAsync b : Bool} {start : NodeStart} {d : Option Deferred} {l m l' : Lexer} {e : Expression}
  {ns : List Node}

/-- Tokens before the parameters of an async function may have no node: the function drops them. -/
theorem stretch (arrow : ArrowRead s isAsync start m l' e) (first : Stretch s d l m b ns)
    (here : start.pos = l.token.start)
    (dropped : ∀ new, m.tokens = new ++ l.tokens → ∀ t ∈ new, t.kind.isTracked = true →
      isAsync = true ∧ l.token.start < t.start ∧ t.stop < m.token.start) :
    Stretch s none l l' true [.expression e] := by
  obtain ⟨d', ms, read, keeps⟩ := arrow.kept
  obtain ⟨params, body, rfl⟩ := arrow.form
  refine
    { ordered := read.ordered
      token_le := Nat.le_trans first.token_le read.token_le
      last_le := Nat.le_trans first.last_le read.last_le
      stop_le := Nat.le_trans first.stop_le read.stop_le
      past := fun _ => Nat.le_trans first.token_le (read.past rfl)
      placed := by simp [Node.span, Expression.span, here]
      apart := List.pairwise_singleton _ _
      sound := by simpa using arrow.sound
      tokens := ?_
      accounted := fun before => read.accounted (first.accounted before) }
  obtain ⟨new, same, places⟩ := first.tokens
  obtain ⟨new', same', kept⟩ := read.tokens
  refine ⟨new' ++ new, by rw [same', same, List.append_assoc], fun t mem tracked => ?_⟩
  rcases List.mem_append.mp mem with mem | mem
  · obtain ⟨place, n, mem, keep⟩ := kept t mem tracked
    exact ⟨⟨Nat.le_trans first.token_le place.1, place.2⟩, _, .head _, keeps t n mem keep⟩
  · obtain ⟨rfl, after, before⟩ := dropped new same t mem tracked
    refine ⟨⟨Nat.le_of_lt after, Nat.le_trans (places t mem tracked).1.2 read.stop_le⟩, _, .head _, _, .refl,
      .inr ⟨?_, fun c child => Nat.lt_of_lt_of_le before (arrow.placed c child)⟩⟩
    simpa [here] using after

/-- Only words and marks stand before the parameters. -/
theorem reads (arrow : ArrowRead s isAsync start m l' e) (first : Stretch s none l m b [])
    (here : start.pos = l.token.start) : Stretch s none l l' true [.expression e] := by
  refine arrow.stretch first here fun new same t mem tracked => ?_
  obtain ⟨new', same', kept⟩ := first.tokens
  obtain rfl := List.append_cancel_right (same.symm.trans same')
  obtain ⟨-, n, none, -⟩ := kept t mem tracked
  cases none

end ArrowRead
end ScriptSyntax
