import ScriptSyntax.Proofs.Chain.Token
import ScriptSyntax.Proofs.Parser.Step

/-!
The operands of a chain.  The parser reads a name with nothing before or after it that would belong to it, and stands at
the next operator then, or at the end.
-/

namespace ScriptSyntax

open ParseM

variable {s : Setting} {level : Nat} {p q : Parser} {name : String} {k : Link} {links : List Link}

/-! ### Where the parser stands -/

/-- The scopes around the statements of a program, before the first of them. -/
def Setting.topScopes (s : Setting) : ScopeStack := (s.parserAt 0).scopes

/-- The parser is at a name outside all functions, in productions that nest so deep. -/
structure Parser.AtName (s : Setting) (level : Nat) (name : String) (links : List Link) (p : Parser) : Prop where
  lexer : p.lexer.AtName s name links
  scopes : p.scopes = s.topScopes
  nesting : p.nesting = level

/-- The parser is at an operator or at the end, outside all functions, in productions that nest so deep. -/
structure Parser.AtLinks (s : Setting) (level : Nat) (links : List Link) (p : Parser) : Prop where
  lexer : p.lexer.AtLinks s links
  scopes : p.scopes = s.topScopes
  nesting : p.nesting = level

theorem Parser.AtName.deeper (h : p.AtName s level name links) :
    Parser.AtName s (level + 1) name links { p with nesting := p.nesting + 1 } :=
  ⟨h.lexer, h.scopes, congrArg (· + 1) h.nesting⟩

theorem Parser.AtLinks.back (h : p.AtLinks s (level + 1) links) :
    Parser.AtLinks s level links { p with nesting := p.nesting - 1 } :=
  ⟨h.lexer, h.scopes, congrArg (· - 1) h.nesting⟩

theorem Runs.next_of_lexer {l : Lexer} (escape : p.lexer.containsEscape = false) (run : Runs s LexM.next p.lexer ⟨⟩ l) :
    Runs s next p ⟨⟩ { p with lexer := l } := by
  simpa [next, escape] using run

theorem Parser.AtName.next (plain : s.reader = none) (late : 11 ≤ s.edition) (h : p.AtName s level name links) :
    ∃ l, Runs s ParseM.next p ⟨⟩ { p with lexer := l } ∧ l.AtLinks s links := by
  obtain ⟨l, run, after⟩ := h.lexer.next plain late
  exact ⟨l, Runs.next_of_lexer h.lexer.before.escape run, after⟩

theorem Parser.AtLinks.next (plain : s.reader = none) (h : p.AtLinks s level (k :: links))
    (names : s.options.Names k.operand) :
    ∃ q, Runs s ParseM.next p ⟨⟩ q ∧ q.AtName s level k.operand links := by
  obtain ⟨l, run, after⟩ := h.lexer.next plain names
  exact ⟨{ p with lexer := l }, Runs.next_of_lexer h.lexer.2.escape run, after, h.scopes, h.nesting⟩

theorem Parser.AtLinks.next_end (plain : s.reader = none) (h : p.AtLinks s level []) :
    ∃ q, Runs s ParseM.next p ⟨⟩ q := by
  have before : Lexer.Before s false []
    { p.lexer with tokens := s.currentToken p.lexer.toCursor :: p.lexer.tokens, last := p.lexer.token } :=
    { h.lexer.2 with }
  obtain ⟨l, run, -⟩ := readNext_ended plain before
  exact ⟨{ p with lexer := l }, Runs.next_of_lexer h.lexer.2.escape (by simpa [LexM.next] using run)⟩

/-! ### Names -/

theorem Options.Names.nameComplaint? (names : s.options.Names name) {id : Identifier} (same : id.name = name) :
    s.nameComplaint? s.inModule s.topScopes id = none := by
  have top : s.topScopes.thisScope.holdsVars = true := rfl
  have plainScope : s.topScopes.inGenerator = false ∧ s.topScopes.inAsync = false ∧
    s.topScopes.inStaticBlock = false := ⟨rfl, rfl, rfl⟩
  have noKeyword : Word.isKeyword s.edition s.inModule name = false := names.noKeyword
  have free : s.isReserved s.inModule name = false := names.free
  simp [Setting.nameComplaint?, same, top, plainScope, noKeyword, free]

/-- Where the name stands, `await` is none with an operand. -/
theorem Options.Names.not_canAwait (names : s.options.Names name) (await : name = "await") :
    s.topScopes.canAwait = false := by
  obtain ⟨option, inModule⟩ := names.noOperator await
  simp [Setting.topScopes, Setting.parserAt, ScopeStack.enter, ScopeStack.canAwait, ScopeStack.canAwait.go,
    Setting.inModule, Setting.edition, option]
  simpa using inModule

section Operand

variable (plain : s.reader = none) (late : 11 ≤ s.edition) (names : s.options.Names name)
  (h : p.AtName s level name links)
include plain late names h

theorem identifier_name : ∃ id q, Runs s identifier p id q ∧ id.name = name ∧ q.AtLinks s level links := by
  obtain ⟨l, run, after⟩ := h.next plain late
  have text : p.lexer.text = name := by simp [Cursor.text, h.lexer.value, TokenValue.text?]
  have complaint := names.nameComplaint?
    (show (Identifier.mk (Runs.spanTo s ⟨p.lexer.token.start, p.lexer.token.startPosition⟩ l) name).name =
      name from rfl)
  rw [← after.strict, ← h.scopes] at complaint
  simp [identifier, wordText, h.lexer.kind, text, noteAwaitName, checkName]
  by_cases await : name = "await"
  · exact ⟨_, ⟨_, run, complaint, .inl ⟨await, rfl⟩⟩, after, h.scopes, h.nesting⟩
  · exact ⟨_, ⟨_, run, complaint, .inr ⟨await, rfl⟩⟩, after, h.scopes, h.nesting⟩

theorem nameAtom_name (g : Grammar) (start : NodeStart) (canBeArrow : Bool) (init : InitMode) :
    ∃ id q, Runs s (g.nameAtom start canBeArrow init) p (.identifier id) q ∧ id.name = name ∧
      q.AtLinks s level links := by
  obtain ⟨id, q, run, same, after⟩ := identifier_name plain late names h
  refine ⟨id, q, ?_, same, after⟩
  have function : q.lexer.kind ≠ .kwFunction := after.lexer.other rfl (by decide)
  have arrow : q.lexer.kind ≠ .arrow := after.lexer.other rfl (by decide)
  have word : q.lexer.kind ≠ .name := after.lexer.other rfl (by decide)
  simp only [Grammar.nameAtom, Runs.bind_iff, Runs.containsEscape_iff, Runs.exists_look]
  refine ⟨id, q, run, ?_⟩
  simp [function, arrow, Grammar.asyncParameterFollows, word]
  grind

theorem atom_name (g : Grammar) (init : InitMode) (d : Option Deferred) :
    ∃ id q, CoverRuns s (g.atomLevel noExtension init false) p d (.identifier id) q d ∧ id.name = name ∧
      q.AtLinks s level links := by
  obtain ⟨id, q, run, same, after⟩ :=
    nameAtom_name plain late names h g ⟨p.lexer.token.start, p.lexer.token.startPosition⟩
    (p.potentialArrowAt == some p.lexer.token.start) init
  refine ⟨id, q, ?_, same, after⟩
  have still : Runs s Grammar.rereadSlash p ⟨⟩ p := by simp [Grammar.rereadSlash, h.lexer.kind]
  simp only [Grammar.atomLevel, noExtension, CoverRuns.bind_iff, CoverRuns.liftM_iff, Runs.pure_iff, and_assoc,
    exists_and_left, exists_eq_left]
  simp only [Grammar.coreAtom, CoverRuns.bind_iff, CoverRuns.liftM_iff, CoverRuns.getThe_iff, Runs.tokenStart_iff,
    Runs.startNode_iff,
    Runs.kind_iff, and_assoc, exists_and_left, exists_eq_left]
  refine ⟨⟨⟩, p, still, ?_⟩
  rw [h.lexer.kind]
  exact CoverRuns.liftM_iff.mpr ⟨run, rfl⟩

end Operand

/-! ### What does not follow a name -/

theorem Runs.repeatPast_first {α β : Type} {pass : α → ParseM (Pass α β)} {a : α} {b : β}
    (run : Runs s (pass a) p (.done b) q) :
    Runs s (repeatPast a pass) p b q := by
  simp only [repeatPast, loop, bind_iff]
  exact ⟨_, p, source_iff.mpr ⟨rfl, rfl⟩, _, q, run, pure_iff.mpr ⟨rfl, rfl⟩⟩

section Follow

variable (h : p.AtLinks s level links) (g : Grammar) (start : NodeStart)
include h

theorem subscripts_name (id : Identifier) (init : InitMode) :
    Runs s (g.subscripts (.identifier id) start false init) p (.identifier id) p := by
  have optional : p.lexer.kind ≠ .questionDot := h.lexer.other rfl (by decide)
  have bracket : p.lexer.kind ≠ .bracketL := h.lexer.other rfl (by decide)
  have dot : p.lexer.kind ≠ .dot := h.lexer.other rfl (by decide)
  have call : p.lexer.kind ≠ .parenL := h.lexer.other rfl (by decide)
  have tag : p.lexer.kind ≠ .backQuote := h.lexer.other rfl (by decide)
  obtain ⟨asyncArrow, look⟩ : ∃ b, Runs s (Grammar.beginsAsyncArrow (.identifier id)) p b p := by
    simp [Grammar.beginsAsyncArrow]
  have pass : Runs s (g.chainPass start false asyncArrow init ⟨.identifier id, false⟩) p
      (.done (.identifier id, false)) p := by
    simp [Grammar.chainPass, Grammar.memberAccess?, optional, bracket, dot, call, tag]
  simp only [Grammar.subscripts, Runs.bind_iff]
  exact ⟨_, p, look, _, p, Runs.repeatPast_first pass, by simp⟩

theorem postfixUpdates_name (e : Expression) : Runs s (Grammar.postfixUpdates start e) p e p := by
  refine Runs.repeatPast_first ?_
  have increment : p.lexer.kind ≠ .plusPlus := h.lexer.other rfl (by decide)
  have decrement : p.lexer.kind ≠ .minusMinus := h.lexer.other rfl (by decide)
  have none : UpdateOperator.ofToken? p.lexer.kind = none := by
    unfold UpdateOperator.ofToken?
    split
    · next same => exact (increment same).elim
    · next same => exact (decrement same).elim
    · rfl
  simp [none]

theorem power_name (e : Expression) (init : InitMode) : Runs s (g.power start e false false init) p e p := by
  have power : p.lexer.kind ≠ .starStar := h.lexer.other rfl (by decide)
  simp [Grammar.power, power]

end Follow

/-- An operand of a chain is the name by itself. -/
theorem unaryLevel_name (plain : s.reader = none) (late : 11 ≤ s.edition) (names : s.options.Names name)
    (h : p.AtName s level name links) {g inner : Grammar}
    (atom : g.atom = (inner.level noExtension).atom) (shallow : level < maxDepth) (init : InitMode)
    {d : Option Deferred} (expression : d.any (·.mustBePattern) = false) :
    ∃ id q, CoverRuns s (g.unaryLevel false false init) p d (.identifier id) q d ∧ id.name = name ∧
      q.AtLinks s level links := by
  obtain ⟨id, r, inside, same, deeper⟩ := atom_name plain late names h.deeper inner init d
  obtain ⟨q, run, after⟩ : ∃ q, CoverRuns s (g.atom init false) p d (.identifier id) q d ∧ q.AtLinks s level links :=
    ⟨_, atom ▸ CoverRuns.nested_iff.mpr ⟨h.nesting ▸ shallow, r, inside, rfl⟩, deeper.back⟩
  refine ⟨id, q, ?_, same, after⟩
  have subscripted : CoverRuns s (g.subscripted init) p d (.identifier id) q d := by
    have chain := subscripts_name after g ⟨p.lexer.token.start, p.lexer.token.startPosition⟩ id init
    obtain ⟨parenthesis, look⟩ : ∃ b, Runs s Grammar.afterParenthesis q b q := by simp [Grammar.afterParenthesis]
    simp [Grammar.subscripted]
    refine ⟨_, q, d, run, ?_⟩
    cases parenthesis with
    | false => exact .inl ⟨q, look, .inr ⟨rfl, _, q, chain, by simp⟩⟩
    | true => exact .inr ⟨q, look, _, q, chain, by simp⟩
  simp [Grammar.unaryLevel, h.lexer.kind, h.lexer.value, h.scopes, UpdateOperator.ofToken?, UnaryOperator.ofToken?]
  refine .inr ⟨fun _ => names.not_canAwait, _, q, d, subscripted,
    .inr ⟨expression, _, q, ⟨postfixUpdates_name after _ _, rfl⟩, ?_⟩⟩
  exact power_name after g _ _ init

end ScriptSyntax
