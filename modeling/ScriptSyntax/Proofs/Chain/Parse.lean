import ScriptSyntax.Parser.Lookahead
import ScriptSyntax.Proofs.Chain.Operand
import ScriptSyntax.Proofs.Chain.Climb
import ScriptSyntax.Proofs.Lexer.CommentFree

/-!
Programs that are a chain of names.  Such a program is refused if the chain mixes `??` with `||` or `&&`, and otherwise
its tree is the one in which operators of one precedence join from the left and tighter ones first.  A look past the
first name finds no declaration, whatever the name is.
-/

namespace ScriptSyntax

open ParseM

variable {s : Setting} {source : Source} {offset level : Nat} {allowed : Bool} {l : Lexer} {p : Parser} {name : String}
  {links : List Link}
  {rest text : List Char} {o : Connective}

/-! ### Looks past the first name -/

/-- An operator is a word, or it begins with a mark. -/
theorem Connective.mark_or_word (o : Connective) :
    (∃ c marks, o.kind.label.toList = c :: marks ∧ c ∉ ['\\', '[', '\x7b'] ∧
    ∀ astral, Alphabet.isIdentifierStart astral c = false) ∨ o.kind.label = "in" ∨ o.kind.label = "instanceof" := by
  obtain ⟨kind, precedence, joins⟩ := o
  cases kind <;> cases joins
  all_goals simp [TokenKind.label_operators, Alphabet.isIdentifierStart]

/-- Past the gap there is an operator, or nothing. -/
theorem Lexer.Before.ahead (before : l.Before s allowed (linksText links)) :
    s.source.TextAt (s.source.skipBlank l.pos) (linksText links).tail := by
  cases links with
  | nil =>
    rw [Source.skipBlank_end before.text.charAt_nil]
    exact before.text
  | cons k links =>
    have text : linksText (k :: links) = ' ' ::
        (k.operator.kind.label.toList ++ ' ' :: (k.operand.toList ++ linksText links)) := by
      simp [linksText, Link.text]
    have at' := before.text
    rw [text] at at' ⊢
    rw [Source.skipBlank_gap at'.charAt_cons (by decide), Source.skipBlank_solid k.operator.solid at'.step]
    exact at'.step

theorem linksText_tail (links : List Link) :
    (linksText links).tail = [] ∨ ∃ (o : Connective) (rest : List Char), (linksText links).tail =
      o.kind.label.toList ++ ' ' :: rest := by
  cases links with
  | nil => exact .inl rfl
  | cons k links => exact .inr ⟨k.operator, k.operand.toList ++ linksText links, by simp [linksText, Link.text]⟩

namespace Source.TextAt

/-- What is cut out from an offset on is the beginning of the text. -/
theorem slice_prefix (stop : Nat) (at' : source.TextAt offset text) :
    ∃ t, t <+: text ∧ source.slice offset stop = String.ofList t := by
  by_cases boundary : source.isBoundary stop = true
  · obtain before | le := Nat.lt_or_ge stop offset
    · exact ⟨[], List.nil_prefix, by simp [Source.slice, Source.chars,
        Array.extract_empty_of_stop_le_start (Nat.le_of_lt before)]⟩
    · obtain ⟨t, rest, rfl, rfl⟩ := at'.split boundary le
      exact ⟨t, List.prefix_append t rest, at'.slice⟩
  · exact ⟨[], List.nil_prefix, by simp [Source.slice, Source.chars, boundary]⟩

/-- A look for a name sees at most an operator that is a word. -/
theorem not_beginsName {except : List String} (words : "in" ∈ except ∧ "instanceof" ∈ except)
    (at' : source.TextAt offset (linksText links).tail) :
    source.beginsName except offset = false := by
  obtain none | ⟨o, rest, same⟩ := linksText_tail links
  · rw [none] at at'
    simp [beginsName, at'.charAt_nil]
  · rw [same] at at'
    have word (t : List Char) (spelled : o.kind.label.toList = t)
        (parts : ∀ c ∈ t, Alphabet.isIdentifierPart true c = true)
        (known : String.ofList t ∈ except) (c : Char) (here : t.head? = some c) (plain : c ≠ '\\') :
          source.beginsName except offset = false := by
      rw [spelled] at at'
      have wordEnd : source.wordEnd offset = offset + width t :=
        at'.skipWhile parts (by simp [Alphabet.isIdentifierPart])
      have next : source.has (offset + width t) '\\' = false := by simp [Source.has, at'.past.charAt]
      have first : source.charAt offset = some c := by simp [at'.charAt, here]
      simp [beginsName, first, plain, wordEnd, next, at'.slice, known]
    obtain ⟨c, marks, spelled, none, start⟩ | spelled | spelled := o.mark_or_word
    · rw [spelled] at at'
      have here : source.charAt offset = some c := at'.charAt
      simp at none
      simp [beginsName, here, start, none]
    · exact word ['i', 'n'] (by rw [spelled]; rfl) (by simp [Alphabet.isIdentifierPart]) words.1 'i' rfl (by decide)
    · exact word ['i', 'n', 's', 't', 'a', 'n', 'c', 'e', 'o', 'f'] (by rw [spelled]; rfl)
        (by simp [Alphabet.isIdentifierPart]) words.2 'i' rfl
        (by decide)

theorem not_hasWord {word : String} (other : word = "function" ∨ word = "using")
    (at' : source.TextAt offset (linksText links).tail) :
    source.hasWord word offset = false := by
  obtain ⟨t, isPrefix, slice⟩ := at'.slice_prefix (offset + word.utf8ByteSize)
  have different : String.ofList t ≠ word := by
    intro same
    obtain ⟨c, begins, here⟩ : ∃ c, (c = 'f' ∨ c = 'u') ∧ t.head? = some c := by
      have same := congrArg String.toList same
      rw [String.toList_ofList] at same
      rcases other with rfl | rfl
      · exact ⟨'f', .inl rfl, by simp [same]⟩
      · exact ⟨'u', .inr rfl, by simp [same]⟩
    have here : (linksText links).tail.head? = some c := by
      obtain ⟨more, split⟩ := isPrefix
      rw [← split]
      simp [here]
    obtain none | ⟨o, rest, same⟩ := linksText_tail links
    · simp [none] at here
    · rw [same] at here
      obtain ⟨d, marks, spelled, -, start⟩ | spelled | spelled := o.mark_or_word
      · obtain rfl : d = c := by simpa [spelled] using here
        rcases begins with rfl | rfl <;> simpa [Alphabet.isIdentifierStart] using start true
      · rcases begins with rfl | rfl <;> simp [spelled] at here
      · rcases begins with rfl | rfl <;> simp [spelled] at here
  simp [hasWord, slice, different]

end Source.TextAt

/-! ### Declarations -/

section Declarations

variable (h : p.AtName s level name links)
include h

theorem atLet_name : Runs s (atLet none) p false p := by
  have ahead := h.lexer.before.ahead
  have words : "in" ∈ ["in", "instanceof"] ∧ "instanceof" ∈ ["in", "instanceof"] := by decide
  have none := ahead.not_beginsName words
  have mark (c : Char) (mark : c ∈ ['\\', '[', '\x7b']) : s.source.has (s.source.skipBlank p.lexer.pos) c = false := by
    rw [Source.has, ahead.charAt]
    obtain empty | ⟨o, rest, same⟩ := linksText_tail links
    · simp [empty]
    · rw [same]
      obtain ⟨d, marks, spelled, other, -⟩ | spelled | spelled := o.mark_or_word
      · rw [spelled]
        have : d ≠ c := by
          rintro rfl
          exact other mark
        simpa using this
      all_goals
        rw [spelled]
        have : 'i' ≠ c := by
          rintro rfl
          simp at mark
        simpa using this
  by_cases word : name = "let"
  · simp [atLet, h.lexer.kind, h.lexer.value, h.lexer.before.escape, word, mark, none, le_or_gt]
  · simp [atLet, h.lexer.kind, h.lexer.value, h.lexer.before.escape, word]

theorem sameLine_name (test : Nat → Bool) (fails : ∀ offset, s.source.TextAt offset (linksText links).tail →
    test offset = false) :
    (s.source.sameLine? p.lexer.pos).any test = false := by
  simp only [Source.sameLine?]
  split
  · rfl
  · exact fails _ h.lexer.before.ahead

theorem atAsyncFunction_name : Runs s atAsyncFunction p false p := by
  have none := sameLine_name h (s.source.hasWord "function") fun _ at' => at'.not_hasWord (.inl rfl)
  simp [atAsyncFunction, none]
  tauto

theorem atUsing_name : Runs s (atUsing false) p false p := by
  have none := sameLine_name h (s.source.beginsName (operatorWords false)) fun _ at' => at'.not_beginsName (by decide)
  simp [atUsing, none]
  tauto

theorem atAwaitUsing_name : Runs s (atAwaitUsing false) p false p := by
  have none := sameLine_name h (fun next => s.source.hasWord "using" next &&
    (s.source.sameLine? (next + "using".utf8ByteSize)).any (s.source.beginsName (operatorWords false))) fun _ at' => by
      simp [at'.not_hasWord (.inr rfl)]
  simp [atAwaitUsing, none]
  tauto

end Declarations

/-! ### One level deeper -/

/-- What is decided one level deeper is decided, if there is such a level. -/
theorem Decides.nested {α : Type} {s : Setting} {m : ParseM α} {p : Parser} {c : Prop} {P P' : α → Parser → Prop}
    (shallow : p.nesting < maxDepth)
    (h : Decides s m { p with nesting := p.nesting + 1 } c P)
    (post : ∀ a q, P a q → P' a { q with nesting := q.nesting - 1 }) :
    Decides s (ParseM.nested m) p c P' := by
  refine ⟨fun faulty a q run => ?_, fun calm => ?_⟩
  · obtain ⟨-, r, run, -⟩ := Runs.nested_iff.mp run
    exact h.1 faulty a r run
  · obtain ⟨a, q, run, ends⟩ := h.2 calm
    exact ⟨a, _, Runs.nested_iff.mpr ⟨shallow, q, run, rfl⟩, post a q ends⟩

/-! ### Steps that may put faults off -/

/-- From `p` and the faults `d` the step fails if it is faulty, and otherwise it succeeds, leaves the faults `d'` and
ends as `post` says. -/
def CoverDecides {α : Type} (s : Setting) (m : CoverM α) (p : Parser) (d d' : Option Deferred) (faulty : Prop)
    (post : α → Parser → Prop) :
    Prop :=
  Decides s (m.run d) p faulty fun x q => x.2 = d' ∧ post x.1 q

namespace CoverDecides

variable {α β : Type} {m : CoverM α} {f : α → CoverM β} {q : Parser} {d d' e : Option Deferred} {a : α} {c : Prop}
  {P P' : α → Parser → Prop} {Q : β → Parser → Prop}

theorem after (run : CoverRuns s m p d a q e) (next : CoverDecides s (f a) q e d' c Q) :
    CoverDecides s (m >>= f) p d d' c Q := by
  rw [CoverDecides, StateT.run_bind]
  exact Decides.after run next

/-- Once the step has succeeded, the rest does. -/
theorem ending (first : CoverDecides s m p d e c P)
    (last : ∀ a q, P a q → ∃ b r, CoverRuns s (f a) q e b r d' ∧ Q b r) :
    CoverDecides s (m >>= f) p d d' c Q := by
  rw [CoverDecides, StateT.run_bind]
  refine Decides.ending first ?_
  rintro ⟨a, e⟩ q ⟨rfl, ends⟩
  obtain ⟨b, r, run, ends'⟩ := last a q ends
  exact .of_runs run ⟨rfl, ends'⟩

theorem lift {m : ParseM α} (h : Decides s m p c P) : CoverDecides s (liftM m) p d d c P := by
  refine ⟨fun faulty x q run => ?_, fun calm => ?_⟩
  · exact h.1 faulty x.1 q (CoverRuns.liftM_iff.mp run).1
  · obtain ⟨a, q, run, ends⟩ := h.2 calm
    exact ⟨(a, d), q, CoverRuns.liftM_iff.mpr ⟨run, rfl⟩, rfl, ends⟩

theorem nested (shallow : p.nesting < maxDepth) (h : CoverDecides s m { p with nesting := p.nesting + 1 } d d' c P)
    (post : ∀ a q, P a q → P' a { q with nesting := q.nesting - 1 }) :
      CoverDecides s (fun d => ParseM.nested (m d)) p d d' c P' :=
  Decides.nested shallow h fun x q ends => ⟨ends.1, post x.1 q ends.2⟩

/-- What is put off is left to nobody. -/
theorem alone (h : CoverDecides s m p none d c P) : Decides s m.alone p c P := by
  refine ⟨fun faulty a q run => ?_, fun calm => ?_⟩
  · obtain ⟨e, run⟩ := CoverRuns.alone_iff.mp run
    exact h.1 faulty _ q run
  · obtain ⟨⟨a, e⟩, q, run, -, ends⟩ := h.2 calm
    exact ⟨a, q, CoverRuns.alone_iff.mpr ⟨e, run⟩, ends⟩

end CoverDecides

variable {q : Parser} {g : Grammar} {d : Option Deferred}

/-! ### Expressions -/

theorem ofDepth_readsNames (plain : s.reader = none) (late : 11 ≤ s.edition) (depth : Nat)
    (shallow : level + 1 < maxDepth) :
    (Grammar.ofDepth noExtension (depth + 2)).ReadsNames s level := by
  intro p name links d names h expression
  obtain ⟨id, q, run, same, after⟩ :=
    unaryLevel_name plain late names h.deeper (g := .ofDepth noExtension (depth + 1)) rfl shallow
    .plain expression
  have here : p.nesting < maxDepth := h.nesting ▸ Nat.lt_of_succ_lt shallow
  exact ⟨id, _, CoverRuns.nested_iff.mpr ⟨here, q, run, rfl⟩, same, after.back⟩

theorem tight_zero (links : List Link) : tight 0 links = links ∧ loose 0 links = [] := by
  have all : ∀ k ∈ links, decide (0 < k.operator.precedence) = true :=
    fun k _ => by simpa using TokenKind.precedence?_pos k.operator.joins
  exact ⟨List.takeWhile_eq_self_iff.mpr all, List.dropWhile_eq_nil_iff.mpr all⟩

/-- The whole chain is read, and the expression stands for a graded tree of it. -/
def ReadsChain (s : Setting) (level : Nat) (c : NameChain) (e : Expression) (q : Parser) : Prop :=
  q.AtLinks s level [] ∧ ∃ t : Bracketing, e.Stands t ∧ t.Graded ∧ t.chain = c

section Expression

variable (plain : s.reader = none) (reads : g.ReadsNames s level)
  (names : ∀ x ∈ (NameChain.mk name links).names, s.options.Names x)
  (h : p.AtName s level name links)
include plain reads names h

theorem operators_decides (expression : d.any (·.mustBePattern) = false) :
    CoverDecides s (g.operators .plain) p d d (Clash links []) (ReadsChain s level ⟨name, links⟩) := by
  obtain ⟨x, q, run, same, after⟩ := reads (names name (.head _)) h expression
  have inner (k : Link) (mem : k ∈ links) : s.options.Names k.operand := names _ (.tail _ (List.mem_map_of_mem mem))
  refine .after (CoverRuns.liftM_iff.mpr ⟨Runs.startNode_iff.mpr ⟨rfl, rfl⟩, rfl⟩) (.after run ?_)
  refine .after (CoverRuns.mustBePattern_iff.mpr ⟨rfl, rfl, rfl⟩) ?_
  simp only [expression, Bool.or_false]
  have climbs := climbs_of_enough plain reads Grammar.binaryHeight 0 (by decide)
    ⟨p.lexer.token.start, p.lexer.token.startPosition⟩ inner after
      (show (Expression.identifier x).Stands (.name x.name) from .name) trivial (show 0 < 11 by decide)
    fun k _ _ => Nat.le_trans (TokenKind.precedence?_le k.operator.joins) (Nat.le_succ 10)
  rw [(tight_zero links).1, (tight_zero links).2] at climbs
  refine .lift (climbs.weaken Iff.rfl fun e r => ?_)
  rintro ⟨atEnd, t, stands, graded, -, chain⟩
  exact ⟨atEnd, t, stands, graded, by simpa [Bracketing.chain, same] using chain⟩

theorem conditional_decides (expression : d.any (·.mustBePattern) = false) :
    CoverDecides s (g.conditional .plain) p d d (Clash links []) (ReadsChain s level ⟨name, links⟩) := by
  refine .after (CoverRuns.liftM_iff.mpr ⟨Runs.startNode_iff.mpr ⟨rfl, rfl⟩, rfl⟩) ?_
  refine .ending (operators_decides plain reads names h expression) fun e q ends => ⟨e, q, ?_, ends⟩
  have other : q.lexer.kind ≠ .question := ends.1.lexer.other rfl (by decide)
  simp [expression, other]

theorem assignmentOrTighter_decides :
    CoverDecides s (g.assignmentOrTighter .plain) p none none (Clash links []) (ReadsChain s level ⟨name, links⟩) := by
  refine .after (CoverRuns.get_iff.mpr ⟨rfl, rfl, rfl⟩) (.after (a := ⟨⟩) (CoverRuns.set_iff.mpr ⟨rfl, rfl⟩) ?_)
  refine .after (CoverRuns.liftM_iff.mpr ⟨Runs.startNode_iff.mpr ⟨rfl, rfl⟩, rfl⟩) ?_
  refine .after (CoverRuns.liftM_iff.mpr ⟨Runs.isKind_iff.mpr ⟨rfl, rfl⟩, rfl⟩) ?_
  refine .after (CoverRuns.liftM_iff.mpr ⟨Runs.isKind_iff.mpr ⟨rfl, rfl⟩, rfl⟩) ?_
  simp only [h.lexer.kind, beq_self_eq_true, Bool.or_true, if_true]
  refine .after (a := ⟨⟩) (CoverRuns.modifyThe_iff.mpr ⟨rfl, rfl⟩) ?_
  refine .ending (conditional_decides plain reads names ⟨h.lexer, h.scopes, h.nesting⟩ rfl) fun e q ends =>
    ⟨e, q, ?_, ends⟩
  simp [ends.1.lexer.1, AssignmentOperator.ofToken?]
  rfl

theorem assignmentLevel_decides :
    CoverDecides s (g.assignmentLevel .plain) p none none (Clash links []) (ReadsChain s level ⟨name, links⟩) := by
  refine .after (CoverRuns.liftM_iff.mpr ⟨Runs.isContextual_iff.mpr ⟨rfl, rfl⟩, rfl⟩) ?_
  split
  · have outside : p.scopes.inGenerator = false := by
      rw [h.scopes]
      rfl
    refine .after (CoverRuns.liftM_iff.mpr ⟨Runs.scopes_iff.mpr ⟨rfl, rfl⟩, rfl⟩) ?_
    rw [if_neg (by simp [outside])]
    refine .after (a := ⟨⟩) (CoverRuns.modifyThe_iff.mpr ⟨rfl, rfl⟩) ?_
    exact assignmentOrTighter_decides plain reads names
      ⟨⟨h.lexer.kind, h.lexer.value, { h.lexer.before with allowed := rfl }⟩, h.scopes, h.nesting⟩
  · exact assignmentOrTighter_decides plain reads names h

end Expression

section Statement

variable (plain : s.reader = none) (reads : g.ReadsNames s (level + 1))
  (names : ∀ x ∈ (NameChain.mk name links).names, s.options.Names x)
  (h : p.AtName s level name links) {outer : Grammar} (assigns : outer.assignment = (g.level noExtension).assignment)
  (shallow : level < maxDepth)
include plain reads names h assigns shallow

theorem plainExpression_decides :
    Decides s (outer.plainExpression .plain) p (Clash links []) (ReadsChain s level ⟨name, links⟩) := by
  refine CoverDecides.alone (d := none) ?_
  refine .after (CoverRuns.liftM_iff.mpr ⟨Runs.startNode_iff.mpr ⟨rfl, rfl⟩, rfl⟩) ?_
  rw [assigns]
  have deeper := assignmentLevel_decides plain reads names h.deeper
  refine .ending (P := ReadsChain s level ⟨name, links⟩) (.nested (h.nesting ▸ shallow) deeper fun _ _ ends =>
    ⟨ends.1.back, ends.2⟩)
    fun e q ends => ⟨e, q, ?_, ends⟩
  have other : q.lexer.kind ≠ .comma := ends.1.lexer.other rfl (by decide)
  simp [other]

/-! ### Statements -/

/-- The statement is an expression that is read so. -/
def ReadsStatement (s : Setting) (level : Nat) (c : NameChain) (x : Statement) (q : Parser) : Prop :=
  ∃ span e, x = .expressionStatement span e none ∧ ReadsChain s level c e q

omit plain reads names h assigns shallow in
theorem ReadsStatement.atEnd {s : Setting} {c : NameChain} {x : Statement} {q : Parser}
    (reads : ReadsStatement s level c x q) :
    q.lexer.kind = .eof := by
  obtain ⟨span, e, same, atEnd, tree⟩ := reads
  exact atEnd.lexer.1

theorem statementLevel_decides :
    Decides s (outer.statementLevel none true) p (Clash links []) (ReadsStatement s level ⟨name, links⟩) := by
  refine .after (Runs.startNode_iff.mpr ⟨rfl, rfl⟩) (.after (atLet_name h) ?_)
  refine .after (Runs.kind_iff.mpr ⟨rfl, rfl⟩) ?_
  rw [h.lexer.kind]
  refine .after (atAsyncFunction_name h) (.after (atAwaitUsing_name h) (.after (atUsing_name h) ?_))
  refine .after (Runs.isKind_iff.mpr ⟨rfl, rfl⟩) ?_
  refine .ending (plainExpression_decides plain reads names h assigns shallow) ?_
  rintro e q ⟨atEnd, t, stands, tree⟩
  have ended : q.lexer.kind = .eof := atEnd.lexer.1
  refine .of_runs (q := q) ?_ ⟨Runs.spanTo s ⟨p.lexer.token.start, p.lexer.token.startPosition⟩ q.lexer, e, rfl,
    atEnd, t, stands, tree⟩
  cases stands <;> simp [Grammar.expressionStatement, ended]

end Statement

/-- A body of one item, up to the end. -/
theorem Decides.collectUntil_single {α : Type} {close : TokenKind} {step : ParseM α} {c : Prop} {P : α → Parser → Prop}
    (first : p.lexer.kind ≠ close) (each : Decides s step p c P) (last : ∀ a q, P a q → q.lexer.kind = close) :
    Decides s (collectUntil close step) p c fun found q => ∃ a, found = [a] ∧ P a q := by
  refine .after (Runs.source_iff.mpr ⟨rfl, rfl⟩) ?_
  have pass : Decides s (do if ← isKind close then return .done [] else return .again [← step] : ParseM
      (Pass (List α) (List α))) p c
      fun x q => ∃ a, x = .again [a] ∧ P a q := by
    refine .after (Runs.isKind_iff.mpr ⟨rfl, rfl⟩) ?_
    rw [if_neg (by simpa using first)]
    refine .ending each fun a q ends => ?_
    exact .of_runs (Runs.pure_iff.mpr ⟨rfl, rfl⟩) ⟨a, rfl, ends⟩
  refine .ending pass ?_
  rintro _ q ⟨a, rfl, ends⟩
  refine .of_runs (a := [a]) (q := q) ?_ ⟨a, rfl, ends⟩
  simp [loop, last a q ends]

/-! ### Programs -/

section Program

variable {c : NameChain} (written : s.source = .ofString c.text)
include written

theorem textAt_chain : s.source.TextAt 0 (c.first.toList ++ linksText c.links) := by
  have at' := Source.textAt_ofString c.text
  rwa [← written, NameChain.text, String.toList_ofList] at at'

variable (names : s.options.Names c.first)
include names

/-- A name is no directive. -/
theorem opensStrict_chain : s.source.opensStrict s.edition 0 = false := by
  have at' := textAt_chain written
  obtain ⟨first, rest, same, start, -⟩ := names.letters
  have here : s.source.charAt 0 = some first := by
    rw [at'.charAt, same]
    rfl
  have quote : first ≠ '"' ∧ first ≠ '\'' := by
    constructor
    all_goals
      rintro rfl
      simp [Alphabet.isIdentifierStart] at start
  simp [Source.opensStrict, Source.strictDirective, Source.skipBlank_solid names.solid at',
    Source.directiveEnd?, here, quote]

theorem parserAt_before : (s.parserAt 0).lexer.Before s true (c.first.toList ++ linksText c.links) := by
  have at' := textAt_chain written
  have noComment : ¬ s.OpensWithComment := by
    rintro ⟨-, mark, -⟩
    obtain ⟨first, rest, same, start, -⟩ := names.letters
    rw [at'.charAt, same] at mark
    cases mark
    simp [Alphabet.isIdentifierStart] at start
  have pos := lexerAt_pos noComment
  have frame := lexerAt_frame s
  refine ⟨?_, ?_, ?_, ?_, ?_, ?_⟩
  · exact congrArg (·.contexts) frame
  · exact congrArg (·.exprAllowed) frame
  · exact congrArg (·.containsEscape) frame
  · simp [Setting.parserAt, pos, opensStrict_chain written names]
  · have kind : (s.parserAt 0).lexer.kind = .eof := congrArg (·.kind) frame
    rw [kind]
    decide
  · rw [show (s.parserAt 0).lexer.pos = 0 from pos]
    exact at'

end Program

/-- The program is the chain alone, and its expression stands for a graded tree of it. -/
def ReadsProgram (c : NameChain) (a : Program) : Prop :=
  ∃ span e t, a.body = [.expressionStatement span e none] ∧ e.Stands t ∧ t.Graded ∧ t.chain = c

theorem program_decides (plain : s.reader = none) (late : 11 ≤ s.edition) {c : NameChain}
    (text : s.source = .ofString c.text) (names : ∀ x ∈ c.names, s.options.Names x) :
    Decides s (program (.ofDepth noExtension ParseM.maxDepth)) (s.parserAt 0) (Clash c.links []) fun a _ =>
      ReadsProgram c a := by
  have before := parserAt_before text (names _ (.head _))
  have gap : Runs s LexM.skipBlank (s.parserAt 0).lexer ⟨⟩ (s.parserAt 0).lexer :=
    Runs.of_first_pass (skipBlankPass_stop (Source.skipBlank_solid (names _ (.head _)).solid before.text))
  obtain ⟨l, run, atName⟩ := readNext_name plain (names _ (.head _)) before.outside gap before
  refine .after (Runs.startNode_iff.mpr ⟨rfl, rfl⟩) (.after (Runs.ofLexer_iff.mpr ⟨l, run, rfl⟩) ?_)
  generalize begun : ({ s.parserAt 0 with lexer := l } : Parser) = p
  have atName : p.AtName s 0 c.first c.links := begun ▸ ⟨atName, rfl, rfl⟩
  have reads : (Grammar.ofDepth noExtension 998).ReadsNames s 2 := ofDepth_readsNames plain late 996 (by decide)
  have statement : Decides s ((Grammar.ofDepth noExtension maxDepth).statement none true) p (Clash c.links [])
      (ReadsStatement s 0 c) := by
    refine .nested (atName.nesting ▸ by decide)
      (statementLevel_decides plain reads names atName.deeper rfl (by decide)) ?_
    rintro _ q ⟨span, e, rfl, ends⟩
    exact ⟨span, e, rfl, ends.1.back, ends.2⟩
  have more : p.lexer.kind ≠ .eof := by simp [atName.lexer.kind]
  have body := Decides.collectUntil_single more statement fun _ _ ends => ends.atEnd
  refine .ending body ?_
  rintro _ q ⟨_, rfl, span, e, rfl, atEnd, t, stands, tree⟩
  have exports : Runs s checkExports q ⟨⟩ q := by
    have none : q.scopes.undefinedExports = [] := by
      rw [atEnd.scopes]
      rfl
    simp [checkExports, none]
  have directives : markDirectives s.source [.expressionStatement span e none] =
      [.expressionStatement span e none] := by
    cases stands <;> rfl
  obtain ⟨r, last⟩ := atEnd.next_end plain
  have since : 5 ≤ s.edition := by omega
  refine .of_runs (q := r)
    (a := ⟨Runs.spanTo s ⟨(s.parserAt 0).lexer.token.start, (s.parserAt 0).lexer.token.startPosition⟩ r.lexer,
    [.expressionStatement span e none], s.options.sourceType⟩) ?_ ⟨span, e, t, rfl, stands, tree⟩
  simp [withDirectives, since, directives]
  exact ⟨q, exports, last⟩

/-- A chain is refused if it mixes `??` with `||` or `&&`.  Otherwise its expression stands for the one graded tree of
it. -/
theorem parse_chain (o : Options) (c : NameChain) (late : 11 ≤ o.edition) (names : ∀ x ∈ c.names, o.Names x) :
    (c.Mixes → ∃ e, parse c.text o = .error e) ∧
      (¬ c.Mixes → ∃ a span e t, parse c.text o = .ok a ∧ a.body = [.expressionStatement span e none] ∧ e.Stands t ∧
        t.chain = c ∧ t.Graded ∧
        ∀ t' : Bracketing, t'.chain = c → t'.Graded → t' = t) := by
  have decides := program_decides (s := ⟨.ofString c.text, o, none⟩) rfl late rfl names
  rw [clash_iff_mixes] at decides
  constructor
  · intro mixes
    cases outcome : program (.ofDepth noExtension ParseM.maxDepth) ⟨.ofString c.text, o, none⟩
      (Setting.parserAt ⟨.ofString c.text, o, none⟩ 0) with
    | ok a q => exact (decides.1 mixes a q outcome).elim
    | error e q => exact ⟨e, by simp only [parse, Setting.parseProgram, Setting.runParser, ReaderT.run,
        EStateM.run, outcome]⟩
  · intro apart
    obtain ⟨a, q, run, span, e, t, body, stands, graded, chain⟩ := decides.2 apart
    refine ⟨a, span, e, t, ?_, body, stands, chain, graded, fun t' chain' graded' =>
      graded'.unique graded (chain'.trans chain.symm)⟩
    have run : program (.ofDepth noExtension ParseM.maxDepth) ⟨.ofString c.text, o, none⟩
      (Setting.parserAt ⟨.ofString c.text, o, none⟩ 0) = .ok a q := run
    simp only [parse, Setting.parseProgram, Setting.runParser, ReaderT.run, EStateM.run, run]

/-- A sum in the right operand of `??`, which then stands beside `||`. -/
theorem parse_chain_coalesce :
    (∃ a span e, parse "a ?? b in c + d * e" = .ok a ∧ a.body = [.expressionStatement span e none] ∧
      e.Stands (.join ⟨.questionQuestion, 1, rfl⟩ (.name "a") (.join ⟨.kwIn, 7, rfl⟩ (.name "b")
        (.join ⟨.plus, 9, rfl⟩ (.name "c") (.join ⟨.star, 10, rfl⟩ (.name "d") (.name "e")))))) ∧
      ∃ e, parse "a ?? b || c" = .error e := by
  have late : 11 ≤ ({} : Options).edition := by decide
  have named (name : String) (known : name ∈ ["a", "b", "c", "d", "e"]) : ({} : Options).Names name := by
    fin_cases known
    all_goals exact ⟨⟨_, [], rfl, by decide, by simp⟩, by decide, by decide, by decide⟩
  constructor
  · obtain ⟨a, span, e, t, parses, body, stands, -, -, only⟩ :=
      (parse_chain {} ⟨"a", [⟨⟨.questionQuestion, 1, rfl⟩, "b"⟩, ⟨⟨.kwIn, 7, rfl⟩, "c"⟩,
      ⟨⟨.plus, 9, rfl⟩, "d"⟩, ⟨⟨.star, 10, rfl⟩, "e"⟩]⟩ late fun x mem =>
        named x (by simpa [NameChain.names] using mem)).2 (by simp [NameChain.Mixes])
    have text : NameChain.text ⟨"a", [⟨⟨.questionQuestion, 1, rfl⟩, "b"⟩, ⟨⟨.kwIn, 7, rfl⟩, "c"⟩,
        ⟨⟨.plus, 9, rfl⟩, "d"⟩, ⟨⟨.star, 10, rfl⟩, "e"⟩]⟩ =
        "a ?? b in c + d * e" := by decide
    refine ⟨a, span, e, text ▸ parses, body, ?_⟩
    rwa [only (.join ⟨.questionQuestion, 1, rfl⟩ (.name "a") (.join ⟨.kwIn, 7, rfl⟩ (.name "b")
        (.join ⟨.plus, 9, rfl⟩ (.name "c") (.join ⟨.star, 10, rfl⟩ (.name "d") (.name "e"))))) rfl
          (by simp [Bracketing.Graded, Bracketing.precedence])]
  · have text : NameChain.text ⟨"a", [⟨⟨.questionQuestion, 1, rfl⟩, "b"⟩, ⟨⟨.pipePipe, 1, rfl⟩, "c"⟩]⟩ =
      "a ?? b || c" := by decide
    rw [← text]
    exact (parse_chain {} _ late fun x mem => named x (by simp [NameChain.names] at mem ⊢; tauto)).1
      (by simp [NameChain.Mixes])

end ScriptSyntax
