import ScriptSyntax.Parser.Program
import ScriptSyntax.Proofs.Parser.Program
import ScriptSyntax.Proofs.Tandem.ModuleItem
import ScriptSyntax.Proofs.Accepted
import ScriptSyntax.Proofs.Source.Text

/-!
Whole parses, side by side: to any depth of nesting the productions give the same in both runs, and the parsers begin
side by side.

The tree of an accepted program, read next to itself, has its chains marked, the parameters of its functions distinct
where they have to be, and its literals are copies of their texts.  And an expression in a text is the same whatever
stands before it.
-/

namespace ScriptSyntax

open ParseM

namespace Tandem

open Node Grammar

variable {t : Twins}

/-! ### Where parsers begin -/

theorem lexerAt_abreast (t : Twins) :
    Abreast t.start t.first t.second t.options ((setting t.first t.options).lexerAt t.start)
    ((setting t.second t.options).lexerAt t.start) := by
  have inside : min t.start t.first.size = t.start := Nat.min_eq_left (Source.le_size_of_isBoundary t.texts.start)
  have here : t.Placed t.start := ⟨Nat.le_refl _, t.texts.start⟩
  have opens : (decide (t.start = 0) && t.options.hashBangAllowed && t.second.has 0 '#' && t.second.has 1 '!') =
      (decide (t.start = 0) && t.options.hashBangAllowed && t.first.has 0 '#' && t.first.has 1 '!') := by
    by_cases zero : t.start = 0
    · rw [t.texts.agree.has (Nat.le_of_eq zero), t.texts.agree.has (Nat.le_trans (Nat.le_of_eq zero) (Nat.zero_le _))]
    · simp [zero]
  simp only [Setting.lexerAt, opens, t.texts.agree.size, inside]
  generalize base : Lexer.mk _ _ _ _ _ = l
  generalize base' : Lexer.mk _ _ _ _ _ = k
  have abreast : Abreast t.start t.first t.second t.options l k := by
    rw [← base, ← base']
    refine ⟨t.texts, rfl, fun located => ?_, ⟨here, here, here, here, here⟩⟩
    rw [t.texts.located located]
  split
  · next marks =>
    simp only [Bool.and_eq_true, decide_eq_true_eq] at marks
    obtain ⟨⟨⟨zero, -⟩, number⟩, bang⟩ := marks
    have pos : l.pos = 0 := by rw [← base, ← zero]
    obtain ⟨l', run, -⟩ :=
      skipHashBang_spec (s := setting t.first t.options) (l := l) (by simp [Source.spells, pos, number, bang])
    have past : t.Placed (l.pos + 2) := by
      rw [pos]
      exact .succ (zero ▸ Nat.zero_le _) (Source.has_iff.mp bang) rfl
    have ends := skipLineComment_agrees past l k abreast rfl
    have run : LexM.skipLineComment 2 (setting t.first t.options) l = .ok ⟨⟩ l' := run
    simp only [ReaderT.run, EStateM.run, run] at ends ⊢
    generalize LexM.skipLineComment 2 (setting t.second t.options) k = y at ends ⊢
    cases ends with
    | passes state => exact state
  · exact abreast

theorem parserAt_abreast (t : Twins) :
    Abreast t.start t.first t.second t.options ((setting t.first t.options).parserAt t.start).lexer
      ((setting t.second t.options).parserAt t.start).lexer := by
  have abreast := lexerAt_abreast t
  refine abreast.changes (c := fun l =>
    { l with strict := (setting t.first t.options).inModule || t.first.opensStrict t.options.edition l.pos })
    (d := fun l =>
      { l with strict := (setting t.second t.options).inModule || t.second.opensStrict t.options.edition l.pos })
    (fun x => ?_) (fun _ same => by simp only [same]) { abreast.sited with }
  simp only [Lexer.relined, Cursor.relined, t.texts.agree.opensStrict abreast.sited.pos]
  rfl

/-- A first token is read where the parsers begin. -/
theorem first_ends {α : Type} {f₀ f₁ : Unit → ParseM α} {R : α → α → Prop} (rest : ∀ u, Yields t (f₀ u) (f₁ u) R) :
    t.parsers.Ends (fun x y _ => R x y) ((ofLexer LexM.readNext >>= f₀) (setting t.first t.options)
      ((setting t.first t.options).parserAt t.start))
      ((ofLexer LexM.readNext >>= f₁) (setting t.second t.options)
        ((setting t.second t.options).parserAt t.start)) := by
  have abreast := parserAt_abreast t
  have begins := (setting t.first t.options).lexerAt_begins t.start
  have begins : ((setting t.first t.options).parserAt t.start).lexer.Begins t.first (min t.start t.first.size) :=
    ⟨begins.token, begins.last, begins.le_pos, begins.pos_le, begins.tokens, begins.account⟩
  have strict (inModule : t.options.isModule = true) :
      ((setting t.first t.options).parserAt t.start).lexer.strict = true := by
    simp [Setting.parserAt, Setting.inModule, inModule]
  have visits : (setting t.first t.options).Visits t.start ((setting t.first t.options).parserAt t.start).lexer :=
    ⟨true, .strict .start _⟩
  have noted : Noted t ((setting t.first t.options).parserAt t.start) :=
    ⟨List.forall_mem_nil _, List.forall_mem_nil _, nofun, nofun, nofun⟩
  have first := ofLexer_ends rfl noted (readNext_agrees _ _ abreast rfl)
    (fun sited run => Current.read run (begins.first rfl run).1 visits strict sited) fun run =>
      ((readNext_visits rfl).leaves visits run).1
  simp only [Bind.bind, ReaderT.bind, EStateM.bind]
  generalize ofLexer LexM.readNext (setting t.first t.options) _ = x at first ⊢
  generalize ofLexer LexM.readNext (setting t.second t.options) _ = y at first ⊢
  cases first with
  | passes state => exact rest _ _ _ state trivial
  | fails fault => exact .fails fault

theorem Quiet.checkFunctionPlace {context : Option StatementContext} : Quiet t (checkFunctionPlace context) := by
  cases context with
  | none => exact .pure
  | some => exact .bind .strict fun _ => .bind .since fun _ => .ite .unexpected .pure

theorem Quiet.checkExports : Quiet t checkExports := by
  refine .read (.ite (fun _ => .step .scopes fun scopes exports => ?_) fun _ => .done trivial)
  split
  · next name pos first => exact .failRecoverable (exports _ (List.mem_of_head? first)) nofun
  · exact .done trivial

/-! ### Nesting -/

section Nesting

variable {α : Type} {R : α → α → Prop} {m₀ m₁ : ParseM α} {n₀ n₁ : CoverM α}

theorem Alongside.renest {p q : Parser} (h : Alongside t p q) (n : Nat) :
    Alongside t { p with nesting := n } { q with nesting := n } :=
  { h with rest := by rw [h.rest], noted := { h.noted with } }

theorem Yields.tooDeep : Yields t (tooDeep : ParseM α) tooDeep R :=
  .step .tokenStart fun _ placed => .fail placed nofun

/-- The parsers are at one level, and the levels come and go together. -/
theorem Yields.nested (h : Yields t m₀ m₁ R) : Yields t (nested m₀) (nested m₁) R := by
  intro p q state _
  have level : q.nesting = p.nesting := by rw [state.rest]
  unfold ParseM.nested
  rw [level]
  split
  · exact Yields.tooDeep p q state trivial
  · have ends := h _ _ (state.renest (p.nesting + 1)) trivial
    generalize m₀ _ { p with nesting := p.nesting + 1 } = x at ends ⊢
    generalize m₁ _ { q with nesting := p.nesting + 1 } = y at ends ⊢
    cases ends with
    | @passes a b p' q' state' related =>
      have level' : q'.nesting = p'.nesting := by rw [state'.rest]
      simp only [level']
      exact .passes (state'.renest (p'.nesting - 1)) related
    | fails fault => exact .fails fault

theorem CoverYields.nested (h : CoverYields t n₀ n₁ R) :
    CoverYields t (fun d => ParseM.nested (n₀ d)) (fun d => ParseM.nested (n₁ d)) R :=
  ⟨fun d put => Yields.nested (h.run d put)⟩

end Nesting

end Tandem

namespace Grammar

open Tandem Node

variable {t : Twins} {g : Grammar}

/-! ### The grammar as a whole -/

theorem Paired.statementLevel (hg : g.Paired t) {context : Option StatementContext} {topLevel : Bool} :
    Gives t (g.statementLevel context topLevel) (g.statementLevel context topLevel) (StatementFits t) := by
  refine .start fun _ _ same => .quiet .atLet fun _ => .ite (fun _ => hg.variableStatement same) fun _ =>
    .quiet .kind fun kind => ?_
  split
  · exact Gives.jump same
  · exact Gives.jump same
  · exact Gives.debuggerStatement same
  · exact hg.doWhileStatement same
  · exact hg.forStatement same
  · exact .quiet .checkFunctionPlace fun _ => hg.functionStatement same
  · exact .guard (fun _ => .unexpected) fun _ => .step hg.classDefinition fun _ fits =>
      .done (Fits.classDeclaration fits)
  · exact hg.ifStatement same
  · exact hg.returnStatement same
  · exact hg.switchStatement same
  · exact hg.throwStatement same
  · exact hg.tryStatement same
  · exact hg.variableStatement same
  · exact hg.variableStatement same
  · exact hg.whileStatement same
  · exact hg.withStatement same
  · exact .step hg.block fun _ fits => .done fits
  · refine .quiet .next fun _ => .finish same fun span spans => .done ?_
    exact Fits.leaf (n := .statement (.emptyStatement span)) spans rfl rfl
  · exact hg.exportStatement same
  · exact hg.importStatement same
  · exact hg.wordStatement same

theorem Paired.level (hg : g.Paired t) : (g.level noExtension).Paired t where
  statement _ _ := .nested hg.statementLevel
  assignment _ := .nested hg.assignmentLevel
  unary _ _ _ := .nested hg.unaryLevel
  atom _ _ := .nested hg.atomLevel
  bindingAtom := .nested hg.bindingLevel

/-- To any depth of nesting the productions give the same in both runs. -/
theorem ofDepth_paired (t : Twins) (depth : Nat) : (ofDepth noExtension depth).Paired t := by
  induction depth with
  | zero => exact ⟨fun _ _ => .tooDeep, fun _ => .lift .tooDeep, fun _ _ _ => .lift .tooDeep, fun _ _ =>
      .lift .tooDeep, .tooDeep⟩
  | succ depth ih => exact ih.level

end Grammar

/-! ### Parses -/

namespace Tandem

variable {t : Twins}

theorem startAt (t : Twins) : SameStart t
    ⟨((setting t.first t.options).parserAt t.start).lexer.token.start,
      ((setting t.first t.options).parserAt t.start).lexer.token.startPosition⟩
    ⟨((setting t.second t.options).parserAt t.start).lexer.token.start,
      ((setting t.second t.options).parserAt t.start).lexer.token.startPosition⟩ := by
  have abreast := parserAt_abreast t
  exact ⟨abreast.start, abreast.sited.start, fun located => by rw [abreast.located located]⟩

/-- Programs that begin side by side are the same, or their faults are. -/
theorem program_ends (t : Twins) {g : Grammar} (hg : g.Paired t) :
    t.parsers.Ends (fun x y _ => y = x ∧ Fits t (.program x))
      (program g (setting t.first t.options) ((setting t.first t.options).parserAt t.start))
      (program g (setting t.second t.options) ((setting t.second t.options).parserAt t.start)) := by
  have same := startAt t
  refine first_ends fun _ => .step (.collectUntil (hg.statement none true)) fun body fits =>
    .quiet .checkExports fun _ => ?_
  refine .step (.withDirectives fits) fun body fits => .quiet .next fun _ => .finish same fun span spans =>
    .quiet .options fun _ => .done ?_
  exact Fits.node (n := .program ⟨span, body, _⟩) spans (fits_map fits) rfl

/-- So are expressions. -/
theorem loneExpression_ends (t : Twins) {g : Grammar} (hg : g.Paired t) :
    t.parsers.Ends (fun x y _ => y = x ∧ ExpressionFits t x)
      (loneExpression g (setting t.first t.options) ((setting t.first t.options).parserAt t.start))
      (loneExpression g (setting t.second t.options) ((setting t.second t.options).parserAt t.start)) :=
  first_ends fun _ => hg.plainExpression

end Tandem

/-! ### Texts with a common end -/

open Node

namespace Source

/-- Texts that go on alike agree. -/
theorem TextAt.agree {n : Nat} {a b : Source} {text : List Char} (first : a.TextAt n text) (second : b.TextAt n text) :
    Agree n a b where
  size := by rw [← first.size, ← second.size]
  charAt i le := by
    obtain ⟨before, cells, rfl⟩ := first
    obtain ⟨before', cells', same⟩ := second
    rw [Source.charAt, Source.charAt, ← Array.getElem?_toList, ← Array.getElem?_toList, cells, cells',
      List.getElem?_append_right le, List.getElem?_append_right (same.symm ▸ le), same]

theorem textAt_append (p s : String) : (ofString (p ++ s)).TextAt p.utf8ByteSize s.toList := by
  have whole := textAt_ofString (p ++ s)
  rw [String.toList_append] at whole
  have size : 0 + width p.toList = p.utf8ByteSize := (textAt_ofString p).size.trans (size_eq _)
  exact size ▸ whole.past

end Source

/-- Two parses give the same, or faults that differ in line and column at most. -/
inductive SameAnswer {α : Type} : Except SyntaxError α → Except SyntaxError α → Prop
  | accepts {x : α} : SameAnswer (.ok x) (.ok x)
  | rejects {e f : SyntaxError} (message : f.message = e.message) (pos : f.pos = e.pos)
      (severity : f.severity = e.severity) :
    SameAnswer (.error e) (.error f)

namespace Tandem

/-- A text next to itself. -/
def Twins.same (text : String) (o : Options) : Twins where
  start := 0
  first := .ofString text
  second := .ofString text
  options := o
  texts :=
    { agree := ⟨rfl, fun _ _ => rfl⟩
      start := (Source.textAt_ofString text).isBoundary
      located := fun _ => rfl }

/-- Two texts that end alike, where no lines are reported. -/
def Twins.ofTails {p q : String} (s : String) {o : Options} (same : q.utf8ByteSize = p.utf8ByteSize)
    (off : o.locations = false) : Twins where
  start := p.utf8ByteSize
  first := .ofString (p ++ s)
  second := .ofString (q ++ s)
  options := o
  texts :=
    { agree := (Source.textAt_append p s).agree (same ▸ Source.textAt_append q s)
      start := (Source.textAt_append p s).isBoundary
      located := fun located => by simp [off] at located }

variable {t : Twins} {α : Type}

/-- How the answers of two runs go together. -/
inductive Answers (t : Twins) (V : α → Prop) : Except SyntaxError α → Except SyntaxError α → Prop
  | accepts {x : α} (value : V x) : Answers t V (.ok x) (.ok x)
  | rejects {e f : SyntaxError} (same : SameFault t.start t.first e f) : Answers t V (.error e) (.error f)

theorem Answers.same {V : α → Prop} {x y : Except SyntaxError α} (h : Answers t V x y) : SameAnswer x y := by
  cases h with
  | accepts => exact .accepts
  | rejects same => exact .rejects (congrArg Fault.message same.fault) same.pos same.severity

theorem runParser_answers {V : α → Prop} {m : ParseM α}
    (ends : t.parsers.Ends (fun x y _ => y = x ∧ V x)
      (m (setting t.first t.options) ((setting t.first t.options).parserAt t.start))
      (m (setting t.second t.options) ((setting t.second t.options).parserAt t.start))) :
    Answers t V ((setting t.first t.options).runParser t.start m).1
      ((setting t.second t.options).runParser t.start m).1 := by
  simp only [Setting.runParser, ReaderT.run, EStateM.run]
  generalize m (setting t.first t.options) _ = x at ends ⊢
  generalize m (setting t.second t.options) _ = y at ends ⊢
  cases ends with
  | passes _ value =>
    obtain ⟨rfl, value⟩ := value
    exact .accepts value
  | fails fault => exact .rejects fault.1

theorem parse_answers (text : String) (o : Options) :
    Answers (.same text o) (fun a => Fits (.same text o) (.program a)) (parse text o) (parse text o) :=
  runParser_answers (program_ends _ (Grammar.ofDepth_paired _ _))

theorem fits_of_parse {text : String} {o : Options} {a : Program} (run : parse text o = .ok a) :
    Fits (.same text o) (.program a) := by
  have answers := parse_answers text o
  rw [run] at answers
  cases answers with
  | accepts value => exact value

end Tandem

open Tandem

theorem exists_parse {text : String} {o : Options} (accepts : (parse text o).isOk = true) :
    ∃ a, parse text o = .ok a := by
  cases run : parse text o with
  | ok a => exact ⟨a, rfl⟩
  | error => simp [run, Except.isOk, Except.toBool] at accepts

variable {text : String} {o : Options} {a : Program}

/-! ### Chains that can stop early -/

theorem parse_chainsMarked (run : parse text o = .ok a) : (program a).ChainsMarked :=
  have fits := fits_of_parse run
  chainsMarked (fun n within => (fits.all n within).linked) fits.closed

/-- A chain in brackets ends there, and the chain around it starts anew. -/
theorem parse_chainsMarked_brackets :
    ∃ a, parse "(a?.b.c(d?.[e])).f?.g; new (h?.i)" {} = .ok a ∧ (program a).ChainsMarked := by
  obtain ⟨a, run⟩ := exists_parse (show (parse "(a?.b.c(d?.[e])).f?.g; new (h?.i)" {}).isOk = true by decide +kernel)
  exact ⟨a, run, parse_chainsMarked run⟩

/-! ### Parameters -/

/-- Where no name may be bound twice, none is. -/
theorem parse_uniqueParams (run : parse text o = .ok a) {n : Node} (within : Within n (program a)) :
    n.UniqueParams o.isModule :=
  ((fits_of_parse run).all n within).unique

/-- The names stand at any depth of a pattern, and in the parameters of an arrow function that was read as an
expression first. -/
theorem parse_uniqueParams_nested :
    ∃ a, parse "({ m(a, [b, { c: d = 1 }], ...e) {} }); (a, { b, ...c }) => a" {} = .ok a ∧
    ∀ n, Within n (program a) → n.UniqueParams false := by
  obtain ⟨a, run⟩ :=
    exists_parse (show (parse "({ m(a, [b, { c: d = 1 }], ...e) {} }); (a, { b, ...c }) => a" {}).isOk =
      true by decide +kernel)
  exact ⟨a, run, fun n within => parse_uniqueParams run within⟩

/-! ### Literals -/

theorem parse_literalCopies (run : parse text o = .ok a) {n : Node} (within : Within n (program a)) :
    n.LiteralCopies (.ofString text) o :=
  ((fits_of_parse run).all n within).literal

theorem parse_literalCopies_kinds : ∃ a, parse "a = [0x1F, 1n, /b+/g, null]; 'c\\n' in { .5: d }" {} = .ok a ∧
    ∀ n, Within n (program a) → n.LiteralCopies (.ofString "a = [0x1F, 1n, /b+/g, null]; 'c\\n' in { .5: d }") {} := by
  obtain ⟨a, run⟩ :=
    exists_parse (show (parse "a = [0x1F, 1n, /b+/g, null]; 'c\\n' in { .5: d }" {}).isOk = true by decide +kernel)
  exact ⟨a, run, fun n within => parse_literalCopies run within⟩

/-! ### What stands before an expression -/

/-- What stands before an expression makes no difference, so long as no lines are reported. -/
theorem parseExpressionAt_tail {p q s : String} (same : q.utf8ByteSize = p.utf8ByteSize) (off : o.locations = false) :
    SameAnswer (parseExpressionAt (p ++ s) p.utf8ByteSize o) (parseExpressionAt (q ++ s) p.utf8ByteSize o) :=
  (runParser_answers (loneExpression_ends (.ofTails s same off) (Grammar.ofDepth_paired _ _))).same

/-- A line break and a comment that is left open, or a name of as many bytes. -/
theorem parseExpressionAt_tail_arrow : SameAnswer (parseExpressionAt ("\n/*" ++ "--> a\n.b") "\n/*".utf8ByteSize {})
    (parseExpressionAt ("éa" ++ "--> a\n.b") "\n/*".utf8ByteSize {}) :=
  parseExpressionAt_tail (by decide +kernel) rfl

end ScriptSyntax
