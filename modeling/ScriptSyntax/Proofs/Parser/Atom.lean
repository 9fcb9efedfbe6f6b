import ScriptSyntax.Parser.Atom
import ScriptSyntax.Proofs.Parser.Class

/-!
Runs that read operands by themselves.
-/

namespace ScriptSyntax

open Runs

variable {s : Setting} {p q : Parser} {g : Grammar} {d d' : Option Deferred} {e : Expression}
  {start : NodeStart} {init : InitMode}

namespace Reads

/-- A token that is read again as a regular expression stays where it stood. -/
theorem regExpAgain {l l' : Lexer} {u : Unit}
    (run : Runs s (do
      LexM.moveTo ((← get).token.start + 1)
      LexM.readRegExp) l u l') : Reads s none l l' false [] := by
  intro plain ordered
  simp at run
  have read := readRegExp_finished plain run
  have inside := read.inside (readRegExp_inside run)
  have start : l'.token.start = l.token.start := read.start
  have last : l'.last = l.last := read.last
  have pos_le : l.token.start + 1 ≤ l'.pos := read.pos_le
  refine
    { ordered :=
        { last_le := last ▸ ordered.last_le
          last_le_token := last ▸ start ▸ ordered.last_le_token
          token_le := ?_
          token_le_pos := Nat.le_of_eq read.stop
          pos_le := inside
          eof := fun atEnd => (read.kind atEnd).elim
          nonempty := fun _ => ?_ }
      token_le := Nat.le_of_eq start.symm
      last_le := Nat.le_of_eq (congrArg _ last.symm)
      stop_le := Nat.le_of_eq (congrArg _ last.symm)
      past := nofun
      placed := by simp
      apart := .nil
      sound := by simp
      tokens := ⟨[], read.tokens, by simp⟩
      accounted := fun ⟨account, _⟩ => ⟨by rwa [start, read.tokens, read.comments], read.stop⟩ }
  · rw [read.stop, start]
    omega
  · rw [read.stop, start]
    omega

theorem rereadSlash {u : Unit} (run : Runs s Grammar.rereadSlash p u q) :
    Reads s none p.lexer q.lexer false [] := by
  simp only [Grammar.rereadSlash, bind_iff, ite_iff, isKind_iff, exists_look, ofLexer_iff, pure_iff] at run
  rcases run with ⟨-, l, step, rfl⟩ | ⟨-, -, rfl⟩
  · exact regExpAgain (by simpa only [bind_iff] using step)
  · exact .refl

theorem metaWord {expected : String} {wrong escaped : Fault} {id : Identifier}
    (run : Runs s (Grammar.metaWord start expected wrong escaped) p id q) (here : p.lexer.kind = .dot) :
    Reads s none p.lexer q.lexer true [.identifier id] := by
  simp [Grammar.metaWord] at run
  obtain ⟨p₁, moved, word, -⟩ := run
  exact (Reads.next moved here rfl).trans (.anyWord word rfl rfl)

theorem keywordLiteral {value : LiteralValue} (run : Runs s (Grammar.keywordLiteral start value) p e q)
    (untracked : p.lexer.kind.isTracked = false) (here : start.pos = p.lexer.token.start) :
    Reads s none p.lexer q.lexer true [.expression e] ∧ e.parts = [] := by
  simp [Grammar.keywordLiteral] at run
  obtain ⟨moved, rfl⟩ := run
  exact ⟨(Reads.next moved rfl untracked).node rfl here rfl trivial, rfl⟩

theorem super (run : Runs s (Grammar.super start) p e q) (word : p.lexer.kind = .kwSuper)
    (here : start.pos = p.lexer.token.start) :
    Reads s none p.lexer q.lexer true [.expression e] ∧ e.parts = [] := by
  simp [Grammar.super] at run
  obtain ⟨-, moved, -, -, rfl⟩ := run
  exact ⟨(Reads.next moved word rfl).node rfl here rfl trivial, rfl⟩

theorem asyncParameterFollows_same {b : Bool} (run : Runs s Grammar.asyncParameterFollows p b q) :
    q = p := by
  simp [Grammar.asyncParameterFollows] at run
  exact run.2

end Reads

namespace Grammar.Faithful

variable (hg : g.Faithful s)
include hg

theorem arrowOfName {id : Identifier} {isAsync b c : Bool} {l m : Lexer}
    (run : Runs s (g.arrowOfName start id isAsync init) p e q)
    (first : Reads s none l m b []) (here : start.pos = l.token.start)
    (param : Reads s none m p.lexer c [.expression (.identifier id)]) :
    Reads s none l q.lexer true [.expression e] ∧ e.parts = [] := by
  refine ⟨fun plain ordered => ?_, hg.arrow_parts run⟩
  have first := first plain ordered
  have closed : ¬ OpenParts [some (.identifier id)] := fun inner => inner.of_single.ne_nil rfl
  have arrow := hg.arrow run param .refl (by simp) closed (by simp) plain first.ordered
    (here ▸ first.token_le)
  exact arrow.reads first here

/-- The rest of a function expression is read after its first words. -/
theorem functionAtom {isAsync : Bool} {l : Lexer} {f : Callable} (before : Reads s none l p.lexer true [])
    (here : start.pos = l.token.start) (run : Runs s (g.function start .expression isAsync) p f q) :
    Reads s none l q.lexer true [.expression (.function f)] := by
  obtain ⟨span, read, placed⟩ := hg.function run
  exact (before.trans read).node rfl ((congrArg Span.start span).trans here) (congrArg Span.stop span) placed

theorem nameAtom {canBeArrow : Bool} (run : Runs s (g.nameAtom start canBeArrow init) p e q)
    (here : start.pos = p.lexer.token.start) :
    Reads s none p.lexer q.lexer true [.expression e] ∧ e.parts = [] := by
  simp [Grammar.nameAtom] at run
  obtain ⟨id, p₁, name, h⟩ := run
  have read : Reads s none p.lexer p₁.lexer true [.expression (.identifier id)] := .identifier name rfl rfl
  have word := read.forget rfl
  rcases h with ⟨-, ⟨-, rfl, rfl⟩ | ⟨-, ⟨-, h⟩ | ⟨p₂, ⟨arrow, moved⟩, run⟩⟩⟩ |
    ⟨p₂, ⟨⟨-, function⟩, moved⟩, f, run, rfl⟩
  · exact ⟨read, rfl⟩
  · rcases h with ⟨test, rfl⟩ | ⟨p₂, test, ⟨-, param, p₃, paramRun, p₄, ⟨-, arrow, moved⟩, run⟩ |
      ⟨-, rfl, rfl⟩⟩ <;> obtain rfl := Reads.asyncParameterFollows_same test
    · exact ⟨read, rfl⟩
    · have paramRead : Reads s none _ p₃.lexer true [.expression (.identifier param)] :=
        .identifier paramRun rfl rfl
      exact hg.arrowOfName run word here (by simpa using paramRead.trans (.next moved arrow rfl))
    · exact ⟨read, rfl⟩
  · exact hg.arrowOfName run .refl here (by simpa using read.trans (.next moved arrow rfl))
  · refine ⟨hg.functionAtom ?_ here run, rfl⟩
    exact (word.trans (.next moved function rfl)).trans
      (.of_sameToken (Cursor.sameToken_overrideContext _ _))

end Grammar.Faithful

/-! ### Parentheses -/

/-- What is known of the contents of parentheses so far, which start at the token of `p`. -/
structure ParenRead (s : Setting) (p r : Parser) (contents : Grammar.ParenContents) : Prop where
  listed : Listed s p (some {}) (contents.items.reverse.map some)
    (contents.items.reverse.map .expression) r (some contents.deferred)
  notSpread : ∀ e ∈ contents.items, e.isSpread = false
  past : contents.items ≠ [] → p.lexer.token.start ≤ r.lexer.last.start
  noRest : contents.rest = none
  noComma : contents.commaLast = false

/-- What stands after the items in parentheses: nothing, a comma or a rest. -/
structure ParenEnds (s : Setting) (r q : Parser) (contents contents' : Grammar.ParenContents) : Prop where
  items : contents'.items = contents.items
  deferred : contents'.deferred = contents.deferred
  reads : Reads s none r.lexer q.lexer false ((contents'.rest.map (·.1)).toList.map .pattern)
  plain : ∀ x ∈ contents'.rest, x.1.RestPlain
  last : contents'.rest = none → contents'.commaLast = false → q = r

namespace Grammar.Faithful

variable {r r' : Parser} {contents contents' : ParenContents} {trailing canBeArrow : Bool}
  (hg : g.Faithful s)
include hg

theorem parenItem (before : ParenRead s p r contents)
    (run : Runs s (g.parenPass trailing contents) r (.again contents') r') : ParenRead s p r' contents' := by
  have add {r₁ : Parser} {e : Expression} {d₁ : Option Deferred}
      (separated : (contents.items.reverse.map some = [] ∧ r₁ = r) ∨
        (r.lexer.kind = .comma ∧ Runs s ParseM.next r ⟨⟩ r₁))
      (itemRun : CoverRuns s (g.assignment .plain) r₁ (some contents.deferred) e r' d₁) :
      ParenRead s p r' { contents with items := e :: contents.items, deferred := d₁.getD {} } := by
    have passage := before.listed.separated separated
    obtain ⟨item, notSpread⟩ := hg.assignment passage.ready itemRun
    obtain ⟨y, rfl, -⟩ := item.passage.exists_some
    refine ⟨by simpa using before.listed.add separated item, by simpa [notSpread] using before.notSpread,
      fun _ => ?_, before.noRest, before.noComma⟩
    exact Nat.le_trans passage.reads.token_le (item.passage.reads.past rfl)
  simp [Grammar.parenPass] at run
  obtain ⟨-, r₁, separated, -, -, e, d₁, itemRun, rfl⟩ := run
  rcases separated with ⟨first, rfl⟩ | ⟨-, separated⟩
  · exact add (.inl ⟨by simp [first], rfl⟩) itemRun
  · exact add (.inr separated) itemRun

theorem parenEnd (noRest : contents.rest = none) (noComma : contents.commaLast = false)
    (run : Runs s (g.parenPass trailing contents) r (.done contents') r') :
    ParenEnds s r r' contents contents' := by
  have separator {c c' : Prop} {r₁ : Parser}
      (separated : (c ∧ r₁ = r) ∨ (c' ∧ r.lexer.kind = .comma ∧ Runs s ParseM.next r ⟨⟩ r₁)) :
      Reads s none r.lexer r₁.lexer false [] := by
    rcases separated with ⟨-, rfl⟩ | ⟨-, comma, moved⟩
    · exact .refl
    · exact (Reads.next moved comma rfl).weaken
  simp [Grammar.parenPass, checkNoComma_iff] at run
  rcases run with ⟨-, rfl, rfl⟩ | ⟨-, r₁, separated, ⟨-, rfl, rfl⟩ | ⟨-, here, a, rest, -, rfl⟩⟩
  · refine ⟨rfl, rfl, ?_, by simp [noRest], fun _ _ => rfl⟩
    rw [noRest]
    exact .refl
  · refine ⟨rfl, rfl, ?_, by simp [noRest], by simp⟩
    rw [noRest]
    exact separator separated
  · obtain ⟨read, plain⟩ := hg.restBinding rest here
    refine ⟨rfl, rfl, ?_, by simpa using plain, nofun⟩
    exact ((separator separated).trans read).weaken

/-- The parentheses hold the parameters of an arrow function. -/
theorem parenArrow {p₁ p₂ p₃ p₄ p₅ : Parser} (read : ParenRead s p₁ p₂ contents)
    (ends : ParenEnds s p₂ p₃ contents contents') (closes : p₃.lexer.kind = .parenR)
    (moved : Runs s ParseM.next p₃ ⟨⟩ p₄) (arrow : p₄.lexer.kind = .arrow)
    (moved' : Runs s ParseM.next p₄ ⟨⟩ p₅)
    (faultless : contents'.deferred.commaAfterRest = none ∧ contents'.deferred.parenthesized = none)
    {yieldAt awaitAt : Option Nat} (run : Runs s (g.arrow start (contents'.items.map some).reverse
      (contents'.rest.map (·.1)) false init) { p₅ with yieldAt, awaitAt } e q)
    (plain : s.reader = none) (ordered : p₁.lexer.Ordered s.source)
    (before : start.pos ≤ p₁.lexer.token.start) : ArrowRead s false start p₁.lexer q.lexer e := by
  have items : (contents'.items.map some).reverse = contents.items.reverse.map some := by
    rw [ends.items, List.map_reverse]
  have full : none ∉ contents.items.reverse.map some := by simp
  have params : Reads s (some contents.deferred) p₁.lexer p₂.lexer false
      (((contents.items.reverse.map some).filterMap id).map .expression) := fun _ _ => by
    simpa using read.listed.passage.reads
  have rest : Reads s none p₂.lexer p₅.lexer true
      ((contents'.rest.map (·.1)).toList.map .pattern) := by
    simpa using (ends.reads.trans (.next moved closes rfl)).trans (.next moved' arrow rfl)
  have closed := read.listed.closed _ rfl true (by simpa [ends.deferred] using faultless)
  rw [items] at run
  have arrow := hg.arrow run params rest full closed (fun a mem => ?_) plain ordered before
  · simpa using arrow
  · obtain ⟨x, found, rfl⟩ := Option.mem_map.mp mem
    exact ⟨ends.plain x found, fun e mem => read.notSpread e (by simpa using mem)⟩

omit hg in
/-- The parentheses hold an expression, or several. -/
theorem parenItems {p₁ p₂ : Parser} (read : ParenRead s p₁ p₂ contents) (nonempty : contents.items ≠ [])
    (settled : contents.deferred.expressionComplaint? = none) (here : start.pos = p₁.lexer.token.start)
    {stop : Nat} {stopPosition : Position} (last : p₂.lexer.last.stop = stop)
    (plain : s.reader = none) (ordered : p₁.lexer.Ordered s.source)
    (run : Runs s (match contents.items.reverse with
      | [e] => pure e
      | items => (fun a => Expression.sequence a items) <$> ParseM.spanOf start stop stopPosition) r e q) :
    Stretch s none p₁.lexer p₂.lexer false [.expression e] ∧ e.isSpread = false ∧ q = r := by
  have whole := read.listed.passage.reads.settled
    (by simpa [Deferred.expressionComplaint?_eq_none_iff] using settled)
  split at run
  · rename_i single
    simp at run
    obtain ⟨rfl, rfl⟩ := run
    refine ⟨by simpa [single] using whole, read.notSpread e ?_, rfl⟩
    rw [← List.mem_reverse, single]
    exact .head _
  · simp at run
    obtain ⟨rfl, rfl⟩ := run
    have items : Reads s none p₁.lexer p₂.lexer true (contents.items.reverse.map .expression) := fun _ _ =>
      { whole with past := fun _ => read.past nonempty }
    let span : Span := ⟨start.pos, stop, s.location start.position stopPosition, s.range start.pos stop⟩
    have whole := items.node (n := .expression (.sequence span _)) rfl here last.symm trivial
    exact ⟨whole.weaken plain ordered, rfl, rfl⟩

/-- An expression in parentheses, or an arrow function, was read. -/
theorem paren (run : Runs s (g.paren canBeArrow init) p e q) (here : p.lexer.kind = .parenL)
    (plain : s.reader = none) (ordered : p.lexer.Ordered s.source) :
    Stretch s none p.lexer q.lexer true [.expression e] ∧ p.lexer.token.start < q.lexer.token.start ∧
      e.isSpread = false := by
  simp [Grammar.paren] at run
  rcases run with ⟨-, run⟩ | ⟨-, p₁, moved, contents', p₂, loop, p₃, ⟨closes, moved'⟩, h⟩
  · refine ⟨hg.parenthesized run plain ordered, ?_⟩
    simp [Grammar.parenthesized] at run
    obtain ⟨p₁, ⟨-, moved⟩, p₂, run, closes, moved'⟩ := run
    have opened := Reads.next moved here rfl plain ordered
    have rest := ((hg.plainExpression run).trans (.next moved' closes rfl)) plain opened.ordered
    exact ⟨Nat.lt_of_lt_of_le (Reads.next_nonempty moved (by rw [here]; rfl) plain ordered) rest.token_le,
      hg.plainExpression_notSpread run plain opened.ordered⟩
  · have opened := Reads.next moved here rfl plain ordered
    have nonempty := Reads.next_nonempty moved (by rw [here]; rfl) plain ordered
    have empty : ParenRead s { p₁ with yieldAt := none, awaitAt := none }
        { p₁ with yieldAt := none, awaitAt := none } {} :=
      ⟨.nil (by exact .fresh plain opened.ordered), by simp, by simp, rfl, rfl⟩
    obtain ⟨contents, r, read, last⟩ := Runs.of_repeatPast
      (fun contents r => ParenRead s { p₁ with yieldAt := none, awaitAt := none } r contents) empty
      hg.parenItem loop
    have ends := hg.parenEnd read.noRest read.noComma last
    rcases h with ⟨-, ⟨items, noComma⟩, run⟩ | ⟨p₄, ⟨⟨-, arrow⟩, moved''⟩, faultless, p₅, checked, run⟩
    · split at run <;> simp at run
      rename_i noRest
      obtain ⟨settled, run⟩ := run
      have absent : contents'.rest = none := by
        cases rest : contents'.rest with
        | none => rfl
        | some x => exact (noRest x.1 x.2 rest).elim
      obtain rfl := ends.last absent noComma
      rw [ends.items] at run items
      rw [ends.deferred] at settled
      obtain ⟨whole, notSpread, rfl⟩ := parenItems read items settled rfl rfl plain opened.ordered run
      have close := Reads.next moved' closes rfl plain whole.ordered
      have all := opened.trans (whole.trans close)
      exact ⟨all, Nat.lt_of_lt_of_le nonempty (whole.trans close).token_le, notSpread⟩
    · obtain rfl := checkParameterAwait_same checked
      have before : p.lexer.token.start ≤ p₁.lexer.token.start := Nat.le_of_lt nonempty
      have arrow := hg.parenArrow read ends closes moved' arrow moved'' faultless run plain opened.ordered
        before
      obtain ⟨_, _, kept, -⟩ := arrow.kept
      refine ⟨arrow.reads opened rfl, Nat.lt_of_lt_of_le nonempty kept.token_le, ?_⟩
      obtain ⟨params, body, rfl⟩ := arrow.form
      rfl

theorem parenAtom (ready : Ready s p d) (run : CoverRuns s (g.parenAtom canBeArrow init) p d e q d')
    (here : p.lexer.kind = .parenL) : Offered s p d e q d' := by
  simp [Grammar.parenAtom] at run
  obtain ⟨run, rfl⟩ := run
  obtain ⟨read, after, notSpread⟩ := hg.paren run here ready.plain ready.ordered
  have passage := Passage.of_reads ready fun _ _ => read
  refine ⟨passage.amend (fun y mem => ?_) (fun x _ y _ grows => ?_) fun _ => id, ?_, notSpread⟩
  · have old := passage.ready.before y mem
    refine ⟨old.shorthandDefault, fun pos there => ?_⟩
    obtain rfl := Option.some.inj there
    cases earlier : y.parenthesized with
    | none => exact after
    | some pos => exact old.parenthesized pos earlier
  · exact ⟨grows.shorthandDefault, fun pos there => by simp [grows.parenthesized pos there], grows.secondProto⟩
  · intro y mem b settled inner
    obtain ⟨x, -, rfl⟩ := Option.mem_map.mp mem
    cases b with
    | true => simp at settled
    | false =>
      cases e with
      | identifier | member => exact inner.ne_nil rfl
      | _ => simp [Expression.isSimpleTarget] at settled

/-! ### `new` and `import` -/

omit hg in
theorem metaProperty {word property : Identifier} {p₁ : Parser} {kind : TokenKind}
    (moved : Runs s ParseM.next p ⟨⟩ p₁) (here : p.lexer.kind = kind) (untracked : kind.isTracked = false)
    (starts : start.pos = p.lexer.token.start) (span : word.span = spanTo s start p₁.lexer)
    (read : Reads s none p₁.lexer q.lexer true [.identifier property]) :
    Reads s none p.lexer q.lexer true
      [.expression (.metaProperty (spanTo s start q.lexer) word property)] := by
  have first : Reads s none p.lexer p₁.lexer true [.identifier word] :=
    (Reads.next moved here untracked).node rfl ((congrArg Span.start span).trans starts)
      (congrArg Span.stop span) trivial
  exact (first.trans read).node rfl starts rfl trivial

theorem new (run : Runs s g.new p e q) (here : p.lexer.kind = .kwNew) :
    Reads s none p.lexer q.lexer true [.expression e] ∧ e.parts = [] := by
  simp [Grammar.new, Grammar.newTarget] at run
  obtain ⟨p₁, moved, ⟨⟨-, dot⟩, property, word, -, rfl⟩ | ⟨-, base, p₂, ⟨_, atom⟩, callee, p₃, chain, h⟩⟩ := run
  · exact ⟨metaProperty moved here rfl rfl rfl (.metaWord word dot), rfl⟩
  · have base : Reads s none p₁.lexer p₂.lexer true [.expression base] :=
      .of_passage fun ready => (hg.atom ready atom).passage
    have callee : Reads s none p₁.lexer p₃.lexer true [.expression callee] := fun plain ordered =>
      (hg.subscripts base rfl chain plain ordered).1
    have first := (Reads.next moved here rfl).trans callee
    rcases h with ⟨⟨-, rfl⟩, rfl⟩ | ⟨p₄, ⟨opens, moved'⟩, arguments, ⟨_, list⟩, rfl⟩
    · exact ⟨first.node rfl rfl rfl trivial, rfl⟩
    · have items : Reads s none p₄.lexer q.lexer true ((arguments.filterMap id).map .expression) :=
        .of_passage fun ready => (hg.expressionList ready rfl list).1
      exact ⟨(first.trans ((Reads.next moved' opens rfl).trans items)).node rfl rfl rfl trivial, rfl⟩

theorem importOptions {options : Option Expression} (run : Runs s g.importOptions p options q) :
    Reads s none p.lexer q.lexer true (options.toList.map .expression) := by
  simp [Grammar.importOptions] at run
  rcases run with ⟨-, p₁, ⟨comma, moved⟩, ⟨-, e, p₂, value, h⟩ | ⟨⟨closes, moved'⟩, rfl⟩⟩ |
    ⟨⟨closes, moved⟩, rfl⟩
  · have read := (Reads.next moved comma rfl).trans (hg.plainAssignment value)
    rcases h with ⟨-, p₃, ⟨comma', moved'⟩, ⟨closes, moved''⟩, rfl⟩ | ⟨⟨closes, moved'⟩, rfl⟩
    · exact (read.trans (.next moved' comma' rfl)).trans (.next moved'' closes rfl)
    · exact read.trans (.next moved' closes rfl)
  · exact (Reads.next moved comma rfl).trans (.next moved' closes rfl)
  · exact .next moved closes rfl

omit hg in
theorem importEnd {u : Unit} (run : Runs s Grammar.importEnd p u q) :
    Reads s none p.lexer q.lexer true [] := by
  simp [Grammar.importEnd] at run
  exact .next run.2 run.1 rfl

theorem dynamicImport {l : Lexer} (before : Reads s none l p.lexer true [])
    (starts : start.pos = l.token.start) (opens : p.lexer.kind = .parenL)
    (run : Runs s (g.dynamicImport start) p e q) :
    Reads s none l q.lexer true [.expression e] ∧ e.parts = [] := by
  simp [Grammar.dynamicImport] at run
  obtain ⟨p₁, moved, specifier, p₂, value, h⟩ := run
  have first := (before.trans (.next moved opens rfl)).trans (hg.plainAssignment value)
  rcases h with ⟨-, options, run, rfl⟩ | ⟨-, run, rfl⟩
  · exact ⟨(first.trans (hg.importOptions run)).node rfl starts rfl trivial, rfl⟩
  · exact ⟨(first.trans (importEnd run)).node rfl starts rfl trivial, rfl⟩

theorem importAtom {forNew : Bool} (run : Runs s (g.importAtom forNew) p e q) (here : p.lexer.kind = .kwImport) :
    Reads s none p.lexer q.lexer true [.expression e] ∧ e.parts = [] := by
  simp [Grammar.importAtom, Grammar.importMeta] at run
  obtain ⟨p₁, moved, ⟨⟨opens, -⟩, run⟩ | ⟨-, dot, property, word, -, rfl⟩⟩ := run
  · exact hg.dynamicImport (.next moved here rfl) rfl opens run
  · exact ⟨metaProperty moved here rfl rfl rfl (.metaWord word dot), rfl⟩

/-! ### Atoms -/

theorem array (ready : Ready s p d) (run : CoverRuns s (g.array start) p d e q d')
    (here : p.lexer.kind = .bracketL) (starts : start.pos = p.lexer.token.start) :
    Offered s p d e q d' := by
  simp [Grammar.array] at run
  obtain ⟨p₁, moved, elements, list, rfl⟩ := run
  have opened := Passage.of_reads ready (.next moved here rfl)
  obtain ⟨passage, closed, -⟩ := hg.expressionList opened.ready rfl list
  have whole := opened.trans passage
  refine ⟨⟨whole.ready, whole.grows, ?_⟩, closed, rfl⟩
  exact whole.reads.cover (n := .expression (.array _ elements)) rfl (by simp [Node.closed]) starts rfl trivial

omit hg in
theorem offered_of_reads (ready : Ready s p d)
    (h : Reads s none p.lexer q.lexer true [.expression e] ∧ e.parts = []) : Offered s p d e q d where
  passage := .of_reads ready h.1
  noted := Expression.noted_of_parts h.2
  notSpread := by cases e <;> first | rfl | exact nomatch h.2

omit hg in
/-- What is moved past before an operand gives no node. -/
theorem offeredAfter {b : Bool} {d₁ : Option Deferred} (before : Passage s p d b [] r d₁)
    (offered : Offered s r d₁ e q d') : Offered s p d e q d' where
  passage := by simpa using before.trans offered.passage
  noted := offered.noted
  notSpread := offered.notSpread

/-- An operand by itself was read, by its first token, where a slash begins a regular expression. -/
theorem coreAtom {forNew : Bool} (ready : Ready s p d)
    (run : CoverRuns s (g.coreAtom init forNew) p d e q d') : Offered s p d e q d' := by
  simp only [Grammar.coreAtom, CoverRuns.bind_iff, exists_unit, CoverRuns.liftM_iff, CoverRuns.getThe_iff,
    tokenStart_iff, startNode_iff, kind_iff, and_assoc, exists_and_left, exists_eq_left] at run
  obtain ⟨p₁, slash, run⟩ := run
  have reread := Passage.of_reads ready (.rereadSlash slash)
  refine offeredAfter reread ?_
  have ready := reread.ready
  generalize here : p₁.lexer.kind = kind at run
  have read (h : Reads s none p₁.lexer q.lexer true [.expression e] ∧ e.parts = []) (same : d' = d) :
      Offered s p₁ d e q d' := by
    subst same
    exact offered_of_reads ready h
  split at run
  case h_10 => exact hg.parenAtom ready run here
  case h_11 => exact hg.array ready run here rfl
  case h_12 =>
    simp only [CoverRuns.bind_iff, exists_unit, CoverRuns.modifyThe_iff] at run
    obtain ⟨_, _, ⟨rfl, rfl⟩, run⟩ := run
    have same := Cursor.sameToken_overrideContext .objectBraces p₁.lexer.toCursor
    have braces := Passage.of_reads (q := { p₁ with lexer := _ }) ready (.of_sameToken same)
    exact offeredAfter braces (hg.object braces.ready (same.kind_eq.trans here) run)
  all_goals simp at run
  case h_1 => exact read (Reads.super run.1 here rfl) run.2
  case h_2 =>
    obtain ⟨moved, rfl, same⟩ := run
    exact read ⟨(Reads.next moved here rfl).node rfl rfl rfl trivial, rfl⟩ same
  case h_3 => exact read (hg.nameAtom run.1 rfl) run.2
  case h_4 | h_5 | h_6 =>
    obtain ⟨l, run, rfl, same⟩ := run
    exact read ⟨.literal run rfl rfl, rfl⟩ same
  case h_7 | h_8 | h_9 => exact read (Reads.keywordLiteral run.1 (here ▸ rfl) rfl) run.2
  case h_13 =>
    obtain ⟨p₂, moved, f, run, rfl, same⟩ := run
    exact read ⟨hg.functionAtom (.next moved here rfl) rfl run, rfl⟩ same
  case h_14 =>
    obtain ⟨c, run, rfl, same⟩ := run
    obtain ⟨inner, starts, stops⟩ := hg.classDefinition run here
    exact read ⟨inner.node rfl starts stops trivial, rfl⟩ same
  case h_15 => exact read (hg.new run.1 here) run.2
  case h_16 =>
    obtain ⟨t, run, rfl, same⟩ := run
    exact read ⟨hg.template run here, rfl⟩ same
  case h_17 => exact read (hg.importAtom run.2.1 here) run.2.2

theorem atomLevel {extension : ParseM (Option Expression)} {forNew : Bool} (ready : Ready s p d)
    (noExtension : ∀ {p q : Parser} {x : Option Expression}, Runs s extension p x q → x = none ∧ q = p)
    (run : CoverRuns s (g.atomLevel extension init forNew) p d e q d') : Offered s p d e q d' := by
  simp only [Grammar.atomLevel, CoverRuns.bind_iff, CoverRuns.liftM_iff] at run
  obtain ⟨x, p₁, _, ⟨asked, rfl⟩, run⟩ := run
  obtain ⟨rfl, rfl⟩ := noExtension asked
  exact hg.coreAtom ready run

end Grammar.Faithful
end ScriptSyntax
