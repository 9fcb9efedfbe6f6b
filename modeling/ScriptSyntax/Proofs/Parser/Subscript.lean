import ScriptSyntax.Parser.Subscript
import ScriptSyntax.Proofs.Parser.Function

/-!
Runs that read templates, lists of expressions, and chains of members and calls.
-/

namespace ScriptSyntax

open Runs

variable {s : Setting} {p q : Parser} {g : Grammar} {d d' : Option Deferred}

/-! ### Templates -/

namespace Reads

theorem templateElement {tagged : Bool} {e : TemplateElement}
    (run : Runs s (Grammar.templateElement tagged) p e q) :
    Reads s none p.lexer q.lexer true [.templateElement e] ∧
      (e.isTail = true → q.lexer.kind = .backQuote) := by
  simp only [Grammar.templateElement, bind_iff, startNode_iff, lexer_iff, source_iff, exists_look] at run
  split at run <;> simp at run
  · obtain ⟨-, moved, rfl⟩ := run
    exact ⟨.leaf moved rfl rfl rfl, by simp⟩
  · obtain ⟨moved, rfl⟩ := run
    exact ⟨.leaf moved rfl rfl rfl, by simp⟩

end Reads

namespace Grammar.Faithful

variable (hg : g.Faithful s)
include hg

theorem substitution {tagged : Bool} {e : Expression} {chunk : TemplateElement}
    (run : Runs s (g.substitution tagged) p (e, chunk) q) :
    Reads s none p.lexer q.lexer true [.expression e, .templateElement chunk] ∧
      (chunk.isTail = true → q.lexer.kind = .backQuote) := by
  simp [Grammar.substitution] at run
  obtain ⟨-, p₁, ⟨opens, moved⟩, p₂, value, p₃, ⟨closes, moved'⟩, chunkRun⟩ := run
  obtain ⟨read, tail⟩ := Reads.templateElement chunkRun
  have inner := ((Reads.next moved opens rfl).trans (hg.plainExpression value)).trans
    (.next moved' closes rfl)
  exact ⟨inner.trans read, tail⟩

theorem template {tagged : Bool} {t : Template} (run : Runs s (g.template tagged) p t q)
    (here : p.lexer.kind = .backQuote) :
    Reads s none p.lexer q.lexer true [.expression (.template t)] := by
  simp [Grammar.template] at run
  obtain ⟨p₁, moved, first, p₂, firstRun, expressions, elements, p₃, loop, moved', rfl⟩ := run
  obtain ⟨firstRead, firstTail⟩ := Reads.templateElement firstRun
  obtain ⟨⟨xs, last, es⟩, r, ⟨read, one, tail⟩, done⟩ := Runs.of_repeatPast
    (fun found r =>
      Reads s none p.lexer r.lexer true (interleave (found.2.1 :: found.2.2).reverse found.1.reverse) ∧
        found.2.2.length = found.1.length ∧ (found.2.1.isTail = true → r.lexer.kind = .backQuote))
    ⟨(Reads.next moved here rfl).trans firstRead, rfl, firstTail⟩ (by
      rintro ⟨xs, last, es⟩ next r r' ⟨read, one, -⟩ pass
      simp at pass
      obtain ⟨-, x, chunk, chunkRun, rfl⟩ := pass
      obtain ⟨chunkRead, chunkTail⟩ := hg.substitution chunkRun
      refine ⟨?_, by simp [one], chunkTail⟩
      have both := read.trans chunkRead
      rw [← interleave_concat (by simp [one])] at both
      simpa using both) loop
  simp at done
  obtain ⟨ends, ⟨rfl, rfl⟩, rfl⟩ := done
  refine (read.trans (.next moved' (tail ends) rfl)).node ?_ rfl rfl trivial
  simp [Node.children, Expression.children, Template.children]

end Grammar.Faithful

/-! ### Lists -/

/-- A comma that follows is noted, and nothing that was noted is lost. -/
theorem Grammar.noteCommaAfterSpread_spec {u : Unit}
    (run : CoverRuns s Grammar.noteCommaAfterSpread p d u q d') (ready : Ready s p d) :
    q = p ∧ Passage s p d false [] p d' ∧ Recalls d d' ∧
      (p.lexer.kind = .comma → ∀ y ∈ d', ∀ b, y.patternComplaint? b ≠ none) := by
  simp [Grammar.noteCommaAfterSpread] at run
  rcases run with ⟨-, rfl, rfl⟩ | ⟨other, rfl, rfl⟩
  · refine ⟨rfl, (Passage.refl ready).amend (fun y mem => ?_) (fun x _ y _ grows => ?_) fun _ => id,
      fun x mem y mem' b settled => ?_, fun _ y mem b settled => ?_⟩
    · exact ⟨(ready.before y mem).shorthandDefault, (ready.before y mem).parenthesized⟩
    · exact ⟨grows.shorthandDefault, grows.parenthesized, grows.secondProto⟩
    · obtain rfl : d = some x := mem
      obtain rfl := Option.mem_some.mp mem'
      cases comma : x.commaAfterRest <;> simp_all
    · obtain ⟨x, -, rfl⟩ := Option.mem_map.mp mem
      cases comma : x.commaAfterRest <;> simp_all
  · exact ⟨rfl, .refl ready, .refl, fun comma => (other comma).elim⟩

namespace Grammar.Faithful

variable {close : TokenKind} (hg : g.Faithful s)
include hg

/-- Three points with what they spread were read, as an element or as a member. -/
theorem spreadArgument {n : Node} {p₁ : Parser} (span : Span) {argument : Expression}
    (ready : Ready s p d) (here : p.lexer.kind = .ellipsis) (moved : Runs s ParseM.next p ⟨⟩ p₁)
    (run : CoverRuns s (g.assignment .plain) p₁ d argument q d') (children : n.children = [.expression argument])
    (closed : n.closed = []) (start : n.span.start = p.lexer.token.start)
    (stop : n.span.stop = q.lexer.last.stop) (regular : n.Regular s.edition d') :
    Passage s p d true [n] q d' ∧ (Expression.spread span argument).Noted d' ∧
      ((Expression.spread span argument).clears = false → Recalls d d') := by
  have next := Passage.of_reads ready (.next moved here rfl)
  obtain ⟨item, notSpread⟩ := hg.assignment next.ready run
  have both := next.trans item.passage
  refine ⟨⟨both.ready, both.grows, ?_⟩, fun y mem b settled inner => ?_, fun remembered => ?_⟩
  · exact both.reads.cover children (by simp [closed]) start stop regular
  · exact item.noted argument rfl y mem b settled (.of_single inner)
  · refine item.recalls fun e same => ?_
    obtain rfl := Option.some.inj same
    cases argument <;> first | rfl | exact nomatch (notSpread : true = false) |
      exact nomatch (remembered : true = false)

omit hg in
/-- A spread part is complete once a comma after it is noted. -/
theorem itemOfSpread {n : Node} {r : Parser} {d₁ : Option Deferred} {span : Span} {argument : Expression}
    {u : Unit} (spread : Passage s p d true [n] r d₁ ∧ (Expression.spread span argument).Noted d₁ ∧
      ((Expression.spread span argument).clears = false → Recalls d d₁))
    (run : CoverRuns s Grammar.noteCommaAfterSpread r d₁ u q d') :
    q = r ∧ Item s p d true (some (.spread span argument)) [n] q d' := by
  obtain ⟨passage, noted, recalls⟩ := spread
  obtain ⟨rfl, note, recalls', comma⟩ := noteCommaAfterSpread_spec run passage.ready
  refine ⟨rfl, by simpa using passage.trans note, ?_, fun remembered => ?_, fun here y mem b settled => ?_⟩
  · rintro _ ⟨⟩
    exact noted.later note.grows recalls'
  · exact (recalls (remembered _ rfl)).trans passage.grows recalls'
  · exact (comma here y mem b settled).elim

theorem listElement {holes : Bool} {x : Option Expression} (ready : Ready s p d)
    (run : CoverRuns s (g.listElement holes) p d x q d') :
    (∃ c, Item s p d c x (x.toList.map .expression) q d') ∧ (holes = false → x ≠ none) := by
  simp [Grammar.listElement, Grammar.spread] at run
  rcases run with ⟨⟨rfl, -⟩, rfl, rfl, rfl⟩ |
    ⟨-, ⟨here, p₁, moved, argument, r, d₁, run, noteRun, rfl⟩ | ⟨-, e, run, rfl⟩⟩
  · exact ⟨⟨_, .refl ready, by simp, fun _ => .refl, by simp⟩, nofun⟩
  · let span := spanTo s ⟨p.lexer.token.start, p.lexer.token.startPosition⟩ r.lexer
    have spread := hg.spreadArgument (n := .expression (.spread span argument)) span ready here moved run
      rfl rfl rfl rfl trivial
    obtain ⟨-, item⟩ := itemOfSpread spread noteRun
    exact ⟨⟨_, item⟩, by simp⟩
  · exact ⟨⟨_, (hg.assignment ready run).1⟩, by simp⟩

/-- A list was read with the token that closes it. -/
theorem expressionList {trailing holes : Bool} {es : List (Option Expression)} (ready : Ready s p d)
    (untracked : close.isTracked = false)
    (run : CoverRuns s (g.expressionList close trailing holes) p d es q d') :
    Passage s p d true ((es.filterMap id).map .expression) q d' ∧
      (∀ y ∈ d', ∀ b, y.patternComplaint? b = none → ¬ OpenParts es) ∧ (holes = false → none ∉ es) := by
  obtain ⟨found, r, d₁, ⟨listed, full⟩, done⟩ := CoverRuns.of_repeatPast
    (fun found r d₁ => Listed s p d found.reverse ((found.reverse.filterMap id).map .expression) r d₁ ∧
      (holes = false → none ∉ found)) ⟨.nil ready, by simp⟩ (by
      rintro found next r r' d₁ d₂ ⟨listed, full⟩ pass
      have add {r₁ : Parser} {x : Option Expression}
          (separated : (found.reverse = [] ∧ r₁ = r) ∨
            (r.lexer.kind = .comma ∧ Runs s ParseM.next r ⟨⟩ r₁))
          (itemRun : CoverRuns s (g.listElement holes) r₁ d₁ x r' d₂) :
          Listed s p d (x :: found).reverse (((x :: found).reverse.filterMap id).map .expression) r' d₂ ∧
            (holes = false → none ∉ x :: found) := by
        obtain ⟨⟨c, item⟩, notHole⟩ := hg.listElement (listed.separated separated).ready itemRun
        have added := listed.add separated item
        cases x <;> simp_all
      simp at pass
      rcases pass with ⟨-, ⟨rfl, x, itemRun, rfl⟩ | ⟨-, r₁, ⟨comma, moved⟩, -, x, itemRun, rfl⟩⟩
      · exact add (.inl ⟨rfl, rfl⟩) itemRun
      · exact add (.inr ⟨comma, moved⟩) itemRun) run
  have close {r : Parser} (passage : Passage s p d false ((found.reverse.filterMap id).map .expression) r d₁)
      (closes : r.lexer.kind = close) (moved : Runs s ParseM.next r ⟨⟩ q) :
      Passage s p d true ((found.reverse.filterMap id).map .expression) q d₁ := by
    simpa using passage.step (.next moved closes untracked)
  simp at done
  rcases done with ⟨-, -, r₁, separated, ⟨⟨-, closes⟩, moved⟩, rfl, rfl⟩ | ⟨⟨closes, moved⟩, rfl, rfl⟩
  · exact ⟨close (listed.separated (.inr separated)) closes moved, listed.closed, by simpa using full⟩
  · exact ⟨close listed.passage closes moved, listed.closed, by simpa using full⟩

end Grammar.Faithful

/-! ### Chains -/

/-- What lies before a node is not excused with it. -/
theorem Passage.excuseMember {b : Bool} {ns : List Node} {start : Nat} (h : Passage s p d b ns q d')
    (after : p.lexer.token.start ≤ start) (ready : Ready s p d) :
    Passage s p d b ns q (d'.map (·.excuseMember start)) := by
  refine h.amend (fun y mem => ?_) (fun x mem y _ grows => ?_) fun _ => id
  · refine ⟨(h.ready.before y mem).shorthandDefault, fun pos here => ?_⟩
    exact (h.ready.before y mem).parenthesized pos (Option.filter_eq_some_iff.mp here).1
  · refine ⟨grows.shorthandDefault, fun pos here => ?_, grows.secondProto⟩
    have before := (ready.before x mem).parenthesized pos here
    exact Option.filter_eq_some_iff.mpr
      ⟨grows.parenthesized pos here, by simpa using Nat.lt_of_lt_of_le before after⟩

/-- `e` is a link more than `base`, with the nodes `ms` in that link. -/
structure Expression.Extends (base e : Expression) (ms : List Node) : Prop where
  children : (Node.expression e).children = .expression base :: ms
  exposed : (Node.expression e).exposed = [.expression base]
  closed : (Node.expression e).closed = ms
  parts : e.parts = []

theorem Expression.Extends.regular {base e : Expression} {ms : List Node} (h : base.Extends e ms)
    (edition : Nat) (d : Option Deferred) : (Node.expression e).Regular edition d := by
  have exposed := h.exposed
  cases e with
  | object span members => cases members <;> simp [Node.exposed] at exposed
  | arrow | function => simp [Node.exposed] at exposed
  | _ => trivial

namespace Reads

theorem memberName {object e : Expression} (run : Runs s (Grammar.memberName object) p e q) :
    Reads s none p.lexer q.lexer true [.expression e] := by
  simp [Grammar.memberName] at run
  rcases run with ⟨-, id, run, rfl⟩ | ⟨-, id, run, rfl⟩
  · exact .privateIdentifier run
  · exact .propertyWord run rfl rfl

end Reads

namespace Grammar.Faithful

variable {start : NodeStart} {base : Expression} {l : Lexer} {optional callee asyncArrow : Bool}
  {init : InitMode} (hg : g.Faithful s)
include hg

theorem memberAccess {e : Expression}
    (run : Runs s (g.memberAccess? base start optional) p (some e) q) :
    ∃ ms, base.Extends e ms ∧ e.span = spanTo s start q.lexer ∧
      Reads s none p.lexer q.lexer true ms := by
  simp [Grammar.memberAccess?] at run
  rcases run with ⟨-, r, point, property, run, rfl⟩ |
    ⟨r, ⟨opens, moved⟩, property, r', run, ⟨closes, moved'⟩, rfl⟩
  · refine ⟨[.expression property], ⟨rfl, rfl, rfl, rfl⟩, rfl, ?_⟩
    rcases point with ⟨-, rfl⟩ | ⟨-, here, moved⟩
    · exact .memberName run
    · exact (Reads.next moved here rfl).trans (.memberName run)
  · refine ⟨[.expression property], ⟨rfl, rfl, rfl, rfl⟩, rfl, ?_⟩
    exact ((Reads.next moved opens rfl).trans (hg.plainExpression run)).trans (.next moved' closes rfl)

omit hg in
theorem memberAccess_none (run : Runs s (g.memberAccess? base start optional) p none q) : q = p := by
  simp [Grammar.memberAccess?] at run
  exact run.1.2

theorem call {e : Expression} (run : Runs s (g.call base start optional asyncArrow init) p (.again e) q) :
    ∃ ms, base.Extends e ms ∧ e.span = spanTo s start q.lexer ∧
      Reads s none p.lexer q.lexer true ms := by
  simp [Grammar.call] at run
  obtain ⟨arguments, p₁, d₁, list, ⟨-, settled, rfl, rfl⟩ | ⟨p₂, -, -, p₃, -, run⟩⟩ := run
  · refine ⟨_, ⟨rfl, rfl, rfl, rfl⟩, rfl, fun plain ordered => ?_⟩
    obtain ⟨passage, -⟩ := hg.expressionList (by exact .fresh plain ordered) rfl list
    obtain ⟨y, rfl, -⟩ := passage.exists_some
    rw [Deferred.expressionComplaint?_eq_none_iff] at settled
    exact passage.reads.settled settled
  · split at run <;> simp at run

/-- The arguments turn out to be parameters.  Nothing is left of the operand before them. -/
theorem arrowOfCall {e : Expression}
    (run : Runs s (g.call base start optional asyncArrow init) p (.done e) q) (plain : s.reader = none)
    (ordered : p.lexer.Ordered s.source) (before : start.pos ≤ p.lexer.token.start) :
    asyncArrow = true ∧ ArrowRead s (decide (8 ≤ s.edition)) start p.lexer q.lexer e := by
  simp [Grammar.call] at run
  obtain ⟨arguments, p₁, d₁, list, p₂, ⟨⟨⟨⟨async, -⟩, -⟩, here⟩, moved⟩, ⟨comma, paren⟩, p₃, checked, run⟩ := run
  split at run <;> simp at run
  obtain rfl := checkParameterAwait_same checked
  obtain ⟨passage, closed, full⟩ := hg.expressionList (by exact .fresh plain ordered) rfl list
  obtain ⟨y, rfl, -⟩ := passage.exists_some
  have params : Reads s (some y) p.lexer p₃.lexer true ((arguments.filterMap id).map .expression) := by
    have read : Reads s (some y) p.lexer p₁.lexer true _ := fun _ _ => passage.reads
    simpa using read.trans (.of_none (.next moved here rfl))
  have faultless : y.patternComplaint? true = none := by simpa using And.intro comma paren
  have arrow := hg.arrow run params .refl (full rfl) (closed y rfl true faultless) (by simp) plain ordered
    before
  exact ⟨async, by simpa using arrow⟩

omit hg in
/-- What one pass over a chain does. -/
theorem chainPass_cases {chain : Chain} {pass : Pass Chain (Expression × Bool)}
    (run : Runs s (g.chainPass start callee asyncArrow init chain) p pass q) :
    ∃ optional p₁, Reads s none p.lexer p₁.lexer false [] ∧
      ((∃ e o, Runs s (g.memberAccess? chain.base start optional) p₁ (some e) q ∧ pass = .again ⟨e, o⟩) ∨
        (p₁.lexer.kind = .parenL ∧ ∃ p₂ result, Runs s ParseM.next p₁ ⟨⟩ p₂ ∧
          Runs s (g.call chain.base start optional asyncArrow init) p₂ result q ∧
          ((∃ e o, result = .again e ∧ pass = .again ⟨e, o⟩) ∨
            ∃ e, result = .done e ∧ pass = .done (e, false))) ∨
        (p₁.lexer.kind = .backQuote ∧ ∃ t, Runs s (g.template true) p₁ t q ∧
          pass = .again ⟨.taggedTemplate (spanTo s start q.lexer) chain.base t, chain.isOptional⟩) ∨
        pass = .done (chain.base, chain.isOptional) ∧ q = p₁) := by
  simp only [Grammar.chainPass, bind_iff] at run
  obtain ⟨optional, p₁, eaten, run⟩ := run
  refine ⟨optional, p₁, ?_, ?_⟩
  · simp at eaten
    rcases eaten with ⟨-, ⟨-, here⟩, moved⟩ | ⟨-, -, rfl⟩
    · exact (Reads.next moved here rfl).weaken
    · exact .refl
  · simp at run
    obtain ⟨-, access, p₂, accessRun, run⟩ := run
    cases access with
    | some e =>
      simp at run
      obtain ⟨rfl, rfl⟩ := run
      exact .inl ⟨_, _, accessRun, rfl⟩
    | none =>
      obtain rfl := memberAccess_none accessRun
      simp at run
      rcases run with ⟨-, ⟨here, -, t, template, rfl⟩ | ⟨-, rfl, rfl⟩⟩ |
        ⟨p₃, ⟨⟨-, here⟩, moved⟩, result, p₄, call, run⟩
      · exact .inr (.inr (.inl ⟨here, t, template, rfl⟩))
      · exact .inr (.inr (.inr ⟨rfl, rfl⟩))
      · refine .inr (.inl ⟨here, p₃, result, moved, ?_⟩)
        cases result <;> simp at run <;> obtain ⟨rfl, rfl⟩ := run
        · exact ⟨call, .inl ⟨_, _, rfl, rfl⟩⟩
        · exact ⟨call, .inr ⟨_, rfl, rfl⟩⟩

theorem link {chain chain' : Chain}
    (run : Runs s (g.chainPass start callee asyncArrow init chain) p (.again chain') q) :
    ∃ ms, chain.base.Extends chain'.base ms ∧ chain'.base.span = spanTo s start q.lexer ∧
      Reads s none p.lexer q.lexer true ms := by
  obtain ⟨optional, p₁, before, h⟩ := chainPass_cases run
  rcases h with ⟨e, o, access, same⟩ | ⟨opens, p₂, result, moved, call, ⟨e, o, rfl, same⟩ | ⟨e, -, same⟩⟩ |
    ⟨opens, t, template, same⟩ | ⟨same, -⟩ <;> cases same
  · obtain ⟨ms, extend, span, read⟩ := hg.memberAccess access
    exact ⟨ms, extend, span, before.trans read⟩
  · obtain ⟨ms, extend, span, read⟩ := hg.call call
    exact ⟨ms, extend, span, before.trans ((Reads.next moved opens rfl).trans read)⟩
  · exact ⟨_, ⟨rfl, rfl, rfl, rfl⟩, rfl, before.trans (hg.template template opens)⟩

omit hg in
theorem beginsAsyncArrow_spec {b : Bool} (run : Runs s (Grammar.beginsAsyncArrow base) p b q) :
    q = p ∧ (b = true → 8 ≤ s.edition ∧ ∃ id, base = .identifier id ∧
      id.span.start < id.span.stop ∧ p.lexer.last.stop = id.span.stop) := by
  simp [Grammar.beginsAsyncArrow] at run
  split at run <;> simp at run
  · obtain ⟨rfl, rfl⟩ := run
    refine ⟨rfl, fun begins => ?_⟩
    simp at begins
    exact ⟨by simp [begins], _, rfl, by omega, by simp [begins]⟩
  · exact ⟨run.2, by simp [run.1]⟩

/-- A chain that turns out to be the parameters of an async arrow function.  All of the chain before
its last parenthesis is dropped. -/
theorem dropChain {e f : Expression} {p₀ r : Parser} {b c : Bool} {ns ms : List Node}
    (chain : Stretch s d l p.lexer true ns) (first : Stretch s d l p₀.lexer b [.expression base])
    (links : Stretch s none p₀.lexer p.lexer c ms) (here : start.pos = l.token.start)
    (async : asyncArrow = true → 8 ≤ s.edition ∧ ∃ id, base = .identifier id ∧
      id.span.start < id.span.stop ∧ p₀.lexer.last.stop = id.span.stop)
    (plain : s.reader = none) (opens : p.lexer.kind = .parenL) (moved : Runs s ParseM.next p ⟨⟩ r)
    (run : Runs s (g.call f start optional asyncArrow init) r (.done e) q) :
    Stretch s none l q.lexer true [.expression e] ∧ e.parts = [] ∧
      p.lexer.token.start ≤ q.lexer.token.start := by
  have step := Reads.next moved opens rfl plain chain.ordered
  have whole := chain.trans step.of_none
  have before : start.pos ≤ r.lexer.token.start := here ▸ whole.token_le
  obtain ⟨isAsync, arrow⟩ := hg.arrowOfCall run plain step.ordered before
  obtain ⟨edition, id, rfl, nonempty, stop⟩ := async isAsync
  have rest : e.parts = [] ∧ p.lexer.token.start ≤ q.lexer.token.start := by
    obtain ⟨params, body, rfl⟩ := arrow.form
    obtain ⟨_, _, read, -⟩ := arrow.kept
    exact ⟨rfl, Nat.le_trans step.token_le read.token_le⟩
  refine ⟨arrow.stretch whole here fun new same t mem tracked => ⟨by simpa using edition, ?_⟩, rest⟩
  obtain ⟨new₁, same₁, kept₁⟩ := first.tokens
  obtain ⟨new₂, same₂, kept₂⟩ := links.tokens
  obtain ⟨new₃, same₃, kept₃⟩ := step.tokens
  have split : new = new₃ ++ (new₂ ++ new₁) := by
    refine List.append_cancel_right (same.symm.trans ?_)
    rw [same₃, same₂, same₁, List.append_assoc, List.append_assoc]
  rw [split, List.mem_append, List.mem_append] at mem
  rcases mem with mem | mem | mem
  · obtain ⟨-, n, none, -⟩ := kept₃ t mem tracked
    cases none
  · obtain ⟨⟨after, before⟩, -⟩ := kept₂ t mem tracked
    have placed := (first.placed _ (.head _)).1
    have ordered := first.ordered.last_le_token
    have ordered' := chain.ordered.last_le_token
    have gap := Reads.next_nonempty moved (by rw [opens]; rfl) plain chain.ordered
    refine ⟨?_, by omega⟩
    simp only [Node.span, Expression.span] at placed
    omega
  · obtain ⟨-, n, single, keeps⟩ := kept₁ t mem tracked
    obtain rfl := List.mem_singleton.mp single
    exact (Node.not_keeps_of_isName rfl keeps).elim

theorem subscripts {e : Expression} (before : Reads s d l p.lexer true [.expression base])
    (here : start.pos = l.token.start) (run : Runs s (g.subscripts base start callee init) p e q)
    (plain : s.reader = none) (ordered : l.Ordered s.source) :
    Stretch s d l q.lexer true [.expression e] ∧ (e = base ∨ e.parts = []) ∧
      p.lexer.token.start ≤ q.lexer.token.start := by
  simp only [Grammar.subscripts, bind_iff] at run
  obtain ⟨asyncArrow, p₁, begins, ⟨found, isOptional⟩, p₂, loop, done⟩ := run
  obtain ⟨rfl, async⟩ := beginsAsyncArrow_spec begins
  obtain ⟨chain, r, ⟨read, link, c, ms, links⟩, last⟩ := Runs.of_repeatPast
    (fun (chain : Chain) r => Reads s d l r.lexer true [.expression chain.base] ∧
      (chain.base = base ∨ chain.base.parts = []) ∧ ∃ c ms, Reads s none p₁.lexer r.lexer c ms)
    ⟨before, .inl rfl, _, _, .refl⟩ (by
      rintro chain chain' r r' ⟨read, -, c, ms, links⟩ pass
      obtain ⟨ns, extend, span, more⟩ := hg.link pass
      refine ⟨?_, .inr extend.parts, _, _, links.trans more⟩
      exact read.cover more rfl extend.children (by simp [extend.closed])
        ((congrArg Span.start span).trans here) (congrArg Span.stop span) (extend.regular _ _)) loop
  obtain ⟨optional, r₁, link₁, h⟩ := chainPass_cases last
  rcases h with ⟨_, _, -, same⟩ | ⟨opens, r₂, result, moved, callRun, ⟨_, _, -, same⟩ | ⟨e', rfl, same⟩⟩ |
    ⟨_, _, -, same⟩ | ⟨same, rfl⟩ <;> cases same
  · simp at done
    obtain ⟨rfl, rfl⟩ := done
    have read := read.trans link₁.of_none plain ordered
    have first := before plain ordered
    have links := links.trans link₁ plain first.ordered
    obtain ⟨arrow, parts, le⟩ := hg.dropChain read first links here async plain opens moved callRun
    exact ⟨arrow.of_none, .inr parts, Nat.le_trans links.token_le le⟩
  · have read := read.trans link₁.of_none
    have links := links.trans link₁ plain (before plain ordered).ordered
    simp at done
    rcases done with ⟨-, rfl, rfl⟩ | ⟨-, rfl, rfl⟩
    · refine ⟨?_, .inr rfl, links.token_le⟩
      exact read.cover (n := .expression (.chain _ chain.base)) .refl rfl rfl (List.nil_subset _) here rfl
        trivial plain ordered
    · exact ⟨read plain ordered, link, links.token_le⟩

omit hg in
theorem afterParenthesis_same {b : Bool} (run : Runs s Grammar.afterParenthesis p b q) : q = p := by
  simp [Grammar.afterParenthesis] at run
  exact run.2

theorem subscripted {e : Expression} (ready : Ready s p d)
    (run : CoverRuns s (g.subscripted init) p d e q d') : Offered s p d e q d' := by
  have follow {base f : Expression} {p₁ p₂ : Parser} {d₁ : Option Deferred} {start : NodeStart}
      (offered : Offered s p d base p₁ d₁) (here : start.pos = p.lexer.token.start)
      (chain : Runs s (g.subscripts base start false init) p₁ f p₂) : Offered s p d f p₂ d₁ := by
    obtain ⟨read, link, le⟩ := hg.subscripts (fun _ _ => offered.passage.reads) here chain ready.plain
      ready.ordered
    have later : Ready s p₂ d₁ :=
      ⟨ready.plain, read.ordered, fun y mem => (offered.passage.ready.before y mem).mono le⟩
    have passage : Passage s p d true [.expression f] p₂ d₁ := ⟨later, offered.passage.grows, read⟩
    rcases link with rfl | none
    · exact ⟨passage, offered.noted, offered.notSpread⟩
    · exact ⟨passage, Expression.noted_of_parts none, by cases f <;> first | rfl | cases none⟩
  simp [Grammar.subscripted] at run
  obtain ⟨base, p₁, d₁, atomRun, ⟨p₂, test, ⟨-, rfl, rfl, rfl⟩ | ⟨-, f, p₃, chain, done⟩⟩ |
    ⟨p₂, test, f, p₃, chain, done⟩⟩ := run <;> obtain rfl := afterParenthesis_same test
  · exact hg.atom ready atomRun
  all_goals
    have offered := follow (hg.atom ready atomRun) rfl chain
    cases f with
    | member m =>
      simp at done
      obtain ⟨⟨rfl, rfl⟩, rfl⟩ := done
      have place := (offered.passage.reads.placed _ (.head _)).1
      exact ⟨offered.passage.excuseMember place ready, Expression.noted_of_parts rfl, rfl⟩
    | _ =>
      simp at done
      obtain ⟨rfl, rfl, rfl⟩ := done
      exact offered

end Grammar.Faithful
end ScriptSyntax
