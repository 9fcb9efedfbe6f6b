import ScriptSyntax.Proofs.Chain.Operand

/-!
How the parser joins the operands of a chain.  One loop takes the operators that bind tighter than a bound; each of them
has the operators that bind tighter still in its right operand.
-/

namespace ScriptSyntax

open ParseM

/-! ### Steps whose outcome is known -/

/-- From `p` the step fails if it is faulty, and otherwise it succeeds and ends as `post` says. -/
def Decides {ε σ α : Type} (s : Setting) (m : ReaderT Setting (EStateM ε σ) α) (p : σ) (faulty : Prop)
    (post : α → σ → Prop) : Prop :=
  (faulty → ∀ a q, ¬ Runs s m p a q) ∧ (¬ faulty → ∃ a q, Runs s m p a q ∧ post a q)

namespace Decides

variable {ε σ α β : Type} {s : Setting} {m : ReaderT Setting (EStateM ε σ) α}
  {f : α → ReaderT Setting (EStateM ε σ) β} {p q : σ} {a : α}
  {c c' : Prop} {P P' : α → σ → Prop} {Q : β → σ → Prop}

theorem of_runs (run : Runs s m p a q) (post : P a q) : Decides s m p False P :=
  ⟨False.elim, fun _ => ⟨a, q, run, post⟩⟩

theorem weaken (h : Decides s m p c P) (same : c' ↔ c) (post : ∀ a q, P a q → P' a q) : Decides s m p c' P' := by
  refine ⟨fun faulty => h.1 (same.mp faulty), fun calm => ?_⟩
  obtain ⟨a, q, run, ends⟩ := h.2 (mt same.mpr calm)
  exact ⟨a, q, run, post a q ends⟩

/-- After a step that succeeds, the next one decides. -/
theorem after (run : Runs s m p a q) (next : Decides s (f a) q c Q) : Decides s (m >>= f) p c Q := by
  refine ⟨fun faulty b r whole => ?_, fun calm => ?_⟩
  · obtain ⟨a', q', run', rest⟩ := Runs.bind_iff.mp whole
    cases run.symm.trans run'
    exact next.1 faulty b r rest
  · obtain ⟨b, r, rest, ends⟩ := next.2 calm
    exact ⟨b, r, Runs.bind_iff.mpr ⟨a, q, run, rest⟩, ends⟩

theorem bind (first : Decides s m p c P) (next : ∀ a q, P a q → Decides s (f a) q c' Q) :
    Decides s (m >>= f) p (c ∨ c') Q := by
  by_cases faulty : c
  · refine ⟨fun _ b r whole => ?_, fun calm => (calm (.inl faulty)).elim⟩
    obtain ⟨a, q, run, -⟩ := Runs.bind_iff.mp whole
    exact first.1 faulty a q run
  · obtain ⟨a, q, run, ends⟩ := first.2 faulty
    exact (after run (next a q ends)).weaken (by simp [faulty]) fun _ _ => id

/-- Once the step has succeeded, the rest does. -/
theorem ending (first : Decides s m p c P) (last : ∀ a q, P a q → Decides s (f a) q False Q) :
    Decides s (m >>= f) p c Q :=
  (first.bind last).weaken (by simp) fun _ _ => id

end Decides

/-! ### Trees -/

/-- The expression is built like the tree, of names and operators that are spelled alike. -/
inductive Expression.Stands : Expression → Bracketing → Prop
  | name {id : Identifier} : Stands (.identifier id) (.name id.name)
  | logical {span : Span} {operator : LogicalOperator} {o : Connective} {left right : Expression} {t t' : Bracketing}
    (same : operator.spelling = o.kind.label) : left.Stands t → right.Stands t' →
      Stands (.logical span operator left right) (.join o t t')
  | binary {span : Span} {operator : BinaryOperator} {o : Connective} {left right : Expression} {t t' : Bracketing}
    (same : operator.spelling = o.kind.label) : left.Stands t → right.Stands t' →
      Stands (.binary span operator left right) (.join o t t')

theorem Connective.operator (o : Connective) :
    (∃ operator, LogicalOperator.ofToken? o.kind = some operator ∧ operator.spelling = o.kind.label) ∨
      LogicalOperator.ofToken? o.kind = none ∧ ∃ operator, BinaryOperator.ofToken? o.kind = some operator ∧
        operator.spelling = o.kind.label := by
  obtain ⟨kind, precedence, joins⟩ := o
  cases kind
  all_goals
    first
    | simp [TokenKind.precedence?] at joins
      done
    | exact .inl ⟨_, rfl, rfl⟩
    | exact .inr ⟨rfl, _, rfl, rfl⟩

variable {s : Setting} {level : Nat} {p : Parser} {k : Link} {links : List Link} {left right : Expression}
  {t t' : Bracketing} {o : Connective}

/-- Two operands are joined as their trees are. -/
theorem join_stands (start : NodeStart) (stands : left.Stands t) (stands' : right.Stands t') :
    ∃ e, Runs s (Grammar.join start o.kind left right) p e p ∧ e.Stands (.join o t t') := by
  obtain ⟨operator, known, same⟩ | ⟨none, operator, known, same⟩ := o.operator
  · refine ⟨.logical (Runs.spanTo s start p.lexer) operator left right, ?_, .logical same stands stands'⟩
    cases stands' <;> simp [Grammar.join, known]
  · refine ⟨.binary (Runs.spanTo s start p.lexer) operator left right, ?_, .binary same stands stands'⟩
    cases stands' <;> simp [Grammar.join, none, known]

/-! ### Links by how tight they bind -/

/-- The links at the front with operators that bind tighter than `n`. -/
def tight (n : Nat) (links : List Link) : List Link := links.takeWhile (n < ·.operator.precedence)

/-- What comes after them. -/
def loose (n : Nat) (links : List Link) : List Link := links.dropWhile (n < ·.operator.precedence)

@[simp] theorem tight_append_loose (n : Nat) (links : List Link) : tight n links ++ loose n links = links :=
  List.takeWhile_append_dropWhile

theorem tight_cons {n : Nat} (tighter : n < k.operator.precedence) :
    tight n (k :: links) = k :: tight n links := by simp [tight, tighter]

theorem loose_cons {n : Nat} (tighter : n < k.operator.precedence) :
    loose n (k :: links) = loose n links := by simp [loose, tighter]

theorem tight_stop {n : Nat} (stop : ∀ k ∈ links.head?, ¬ n < k.operator.precedence) :
    tight n links = [] ∧ loose n links = links := by
  cases links with
  | nil => simp [tight, loose]
  | cons k links => simp [tight, loose, stop k rfl]

/-- First the tighter ones are taken. -/
theorem tight_of_le {m n : Nat} (le : m ≤ n) (links : List Link) :
    tight m links = tight n links ++ tight m (loose n links) ∧ loose m links = loose m (loose n links) := by
  induction links with
  | nil => simp [tight, loose]
  | cons k links ih =>
    by_cases tighter : n < k.operator.precedence
    · rw [tight_cons tighter, tight_cons (Nat.lt_of_le_of_lt le tighter), loose_cons tighter,
        loose_cons (Nat.lt_of_le_of_lt le tighter)]
      exact ⟨congrArg (k :: ·) ih.1, ih.2⟩
    · have stop : tight n (k :: links) = [] ∧ loose n (k :: links) = k :: links := tight_stop (by simpa using tighter)
      simp [stop]

theorem head_loose {n : Nat} (mem : k ∈ (loose n links).head?) : k.operator.precedence ≤ n := by
  have := List.head?_dropWhile_not (fun k : Link => n < k.operator.precedence) links
  rw [show links.dropWhile (fun k : Link => n < k.operator.precedence) = loose n links from rfl, mem] at this
  simpa using this

theorem clashAt_eq : clashAt o links = (loose o.reach links).head?.any fun k =>
    Grammar.isMixed o.kind k.operator.kind := rfl

/-- An operator that clashes is not one of those that may follow. -/
theorem clashAt_of_at (h : p.AtLinks s level (loose o.reach links)) :
    Grammar.isMixed o.kind p.lexer.kind = clashAt o links := by
  rw [clashAt_eq, h.lexer.kind_eq]
  cases (loose o.reach links).head? with
  | some k => rfl
  | none => simp [Grammar.isMixed]

/-- Without a clash the next operator binds no tighter than the last one. -/
theorem precedence_le_of_calm (calm : clashAt o links = false) (mem : k ∈ (loose o.reach links).head?) :
    k.operator.precedence ≤ o.precedence := by
  have le := head_loose mem
  rw [clashAt_eq, mem] at calm
  by_cases coalesces : o.kind = .questionQuestion
  · have reach : o.reach = 2 := by simp [Connective.reach, Grammar.rightPrecedence, coalesces]
    have least := TokenKind.precedence?_pos o.joins
    obtain kind | kind | kind := Connective.loose (reach ▸ le)
    · rw [Connective.precedence_eq (o := k.operator) (congrArg _ kind)]
      exact least
    · simp [Grammar.isMixed, coalesces, kind] at calm
    · simp [Grammar.isMixed, coalesces, kind] at calm
  · simpa [Connective.reach, Grammar.rightPrecedence, coalesces] using le

/-! ### The loop -/

/-- The operands of a chain are read as names. -/
def Grammar.ReadsNames (g : Grammar) (s : Setting) (level : Nat) : Prop :=
  ∀ {p : Parser} {name : String} {links : List Link} {d : Option Deferred}, s.options.Names name →
    p.AtName s level name links →
    d.any (·.mustBePattern) = false →
      ∃ id q, CoverRuns s (g.unary false false .plain) p d (.identifier id) q d ∧ id.name = name ∧
        q.AtLinks s level links

theorem length_le_linksText (links : List Link) : links.length ≤ (linksText links).length := by
  induction links with
  | nil => exact Nat.le_refl _
  | cons k links ih =>
    simp only [linksText, List.flatMap_cons, Link.text, List.length_append, List.length_cons] at ih ⊢
    omega

/-- There are fewer links than passes. -/
theorem Parser.AtLinks.length_lt (h : p.AtLinks s level links) : links.length < s.source.size + 2 := by
  cases links with
  | nil => exact Nat.succ_pos _
  | cons k links =>
    have size := h.lexer.2.text.size
    have le := length_le_width (' ' :: (k.operand.toList ++ linksText links))
    have := length_le_linksText links
    simp only [List.length_cons, List.length_append] at le ⊢
    omega

/-- A pass of the loop, which takes one operator with its right operand. -/
def Grammar.binaryPass (g : Grammar) (init : InitMode) (height n : Nat) (start : NodeStart) (left : Expression) :
    ParseM (Pass Expression Expression) := do
  match ← tighterOperator? n init with
  | none => return .done left
  | some (operator, precedence) =>
    next
    let rightStart ← startNode
    let operand ← g.plainUnary false false init
    let right ← g.binary init height (rightPrecedence operator precedence) rightStart operand
    let left ← join start operator left right
    if isMixed operator (← kind) then failRecoverable (← tokenStart) .mixedCoalesce
    return .again left

theorem Grammar.binary_succ (g : Grammar) (init : InitMode) (height n : Nat) (start : NodeStart) (left : Expression) :
    g.binary init (height + 1) n start left = repeatPast left (g.binaryPass init height n start) := rfl

/-- What is read stands for a graded tree of `chain` whose outermost operator binds as `bound` says, and `links` come
next. -/
def Joins (s : Setting) (level : Nat) (bound : Nat → Prop) (chain : NameChain) (links : List Link) (e : Expression)
    (q : Parser) : Prop :=
  q.AtLinks s level links ∧ ∃ t : Bracketing, e.Stands t ∧ t.Graded ∧ bound t.precedence ∧ t.chain = chain

/-- The operators that bind tighter than `n` are joined to what stands before them, unless they clash. -/
def Grammar.Climbs (g : Grammar) (s : Setting) (level height n : Nat) : Prop :=
  ∀ {p : Parser} {links : List Link} {left : Expression} {t : Bracketing} (start : NodeStart),
    (∀ k ∈ links, s.options.Names k.operand) →
    p.AtLinks s level links → left.Stands t → t.Graded → n < t.precedence →
    (∀ k ∈ links.head?, n < k.operator.precedence → k.operator.precedence ≤ t.precedence) →
    Decides s (g.binary .plain height n start left) p (Clash (tight n links) (loose n links))
      (Joins s level (n < ·) ⟨t.chain.first, t.chain.links ++ tight n links⟩ (loose n links))

variable {g : Grammar} {height n : Nat}

/-- Nothing is left for the pass to take. -/
theorem binaryPass_done (start : NodeStart) (h : p.AtLinks s level links)
    (stop : ∀ k ∈ links.head?, ¬ n < k.operator.precedence) :
    Runs s (g.binaryPass .plain height n start left) p (.done left) p := by
  have look : Runs s (Grammar.tighterOperator? n .plain) p none p := by
    simp [Grammar.tighterOperator?, h.lexer.kind_eq]
    cases links with
    | nil => simp [TokenKind.precedence?]
    | cons k links => simpa [k.operator.joins] using stop
  exact Runs.bind_iff.mpr ⟨_, p, look, Runs.pure_iff.mpr ⟨rfl, rfl⟩⟩

/-- The right operand of an operator that is taken leaves no looser ones than the loop takes. -/
theorem clash_tight_cons (above : n < k.operator.precedence) : Clash (tight n (k :: links)) (loose n (k :: links)) ↔
    (Clash (tight k.operator.reach links) (loose k.operator.reach links) ∨ clashAt k.operator links = true) ∨
      Clash (tight n (loose k.operator.reach links)) (loose n (loose k.operator.reach links)) := by
  have le : n ≤ k.operator.reach := Nat.le_trans (Nat.le_of_lt above) k.operator.le_reach
  obtain ⟨taken, rest⟩ := tight_of_le le links
  rw [tight_cons above, loose_cons above, Clash.cons, tight_append_loose, taken, Clash.append, rest, tight_append_loose]
  tauto

section Loop

variable (plain : s.reader = none) (reads : g.ReadsNames s level)
include plain reads

/-- The pass takes the first operator, and in its right operand those that bind tighter. -/
theorem binaryPass_decides (start : NodeStart) (climbs : g.Climbs s level height k.operator.reach)
    (names : ∀ j ∈ k :: links, s.options.Names j.operand)
    (h : p.AtLinks s level (k :: links)) (stands : left.Stands t) (graded : t.Graded)
    (above : n < k.operator.precedence) (next : k.operator.precedence ≤ t.precedence) :
    Decides s (g.binaryPass .plain height n start left) p
      (Clash (tight k.operator.reach links) (loose k.operator.reach links) ∨ clashAt k.operator links = true) fun x q =>
        clashAt k.operator links = false ∧ ∃ e, x = .again e ∧ Joins s level (· = k.operator.precedence)
          ⟨t.chain.first, t.chain.links ++ k :: tight k.operator.reach links⟩ (loose k.operator.reach links) e q := by
  have look : Runs s (Grammar.tighterOperator? n .plain) p (some (k.operator.kind, k.operator.precedence)) p := by
    simp [Grammar.tighterOperator?, h.lexer.1, k.operator.joins, above]
  obtain ⟨p₁, moved, atName⟩ := h.next plain (names k (.head _))
  obtain ⟨x, p₂, operand, same, after⟩ := reads (names k (.head _)) atName (d := none) rfl
  have bound : k.operator.reach < 11 := by
    have := TokenKind.precedence?_le k.operator.joins
    simp only [Connective.reach, Grammar.rightPrecedence]
    split <;> omega
  refine .after look (.after moved (.after (Runs.startNode_iff.mpr ⟨rfl, rfl⟩)
    (.after (CoverRuns.alone_iff.mpr ⟨_, operand⟩) ?_)))
  refine .bind (climbs _ (fun j mem => names j (.tail _ mem)) after .name trivial bound fun j _ _ => ?_) ?_
  · exact Nat.le_trans (TokenKind.precedence?_le j.operator.joins) (Nat.le_succ 10)
  · rintro right r ⟨atRest, t', stands', graded', tighter, chain⟩
    obtain ⟨e, joined, standsJoin⟩ := join_stands (s := s) (p := r) (o := k.operator) start stands stands'
    refine .after joined ?_
    have mixed := clashAt_of_at atRest
    constructor
    · intro clashes x r' run
      simp [mixed, clashes] at run
    · intro calm
      rw [Bool.not_eq_true] at calm
      refine ⟨.again e, r, by simp [mixed, calm], calm, e, rfl, atRest, _, standsJoin, ?_, rfl, ?_⟩
      · exact ⟨next, Nat.lt_of_le_of_lt k.operator.le_reach tighter, graded, graded'⟩
      · simp [Bracketing.chain, chain, same]

theorem loop_decides (climbs : ∀ m, n < m → g.Climbs s level height m) (start : NodeStart) (fuel : Nat)
    (enough : links.length < fuel)
    (names : ∀ k ∈ links, s.options.Names k.operand) (h : p.AtLinks s level links) (stands : left.Stands t)
    (graded : t.Graded) (tighter : n < t.precedence)
    (next : ∀ k ∈ links.head?, n < k.operator.precedence → k.operator.precedence ≤ t.precedence) :
    Decides s (loop (g.binaryPass .plain height n start) fuel left) p (Clash (tight n links) (loose n links))
      (Joins s level (n < ·) ⟨t.chain.first, t.chain.links ++ tight n links⟩ (loose n links)) := by
  induction fuel generalizing p left t links with
  | zero => omega
  | succ fuel ih =>
    by_cases stop : ∀ k ∈ links.head?, ¬ n < k.operator.precedence
    · obtain ⟨nothing, rest⟩ := tight_stop stop
      rw [nothing, rest, List.append_nil]
      have run : Runs s (loop (g.binaryPass .plain height n start) (fuel + 1) left) p left p :=
        Runs.bind_iff.mpr ⟨_, p, binaryPass_done start h stop, Runs.pure_iff.mpr ⟨rfl, rfl⟩⟩
      exact (Decides.of_runs run ⟨h, t, stands, graded, tighter, rfl⟩).weaken (by simp) fun _ _ => id
    · obtain ⟨k, links, rfl, above⟩ : ∃ k rest, links = k :: rest ∧ n < k.operator.precedence := by
        cases links with
        | nil => simp at stop
        | cons k rest => exact ⟨k, rest, rfl, by simpa using stop⟩
      have le : n < k.operator.reach := Nat.lt_of_lt_of_le above k.operator.le_reach
      have pass := binaryPass_decides plain reads start (climbs _ le) names h stands graded above (next k rfl above)
      refine (pass.bind ?_).weaken (clash_tight_cons above) fun _ _ => id
      rintro _ r ⟨calm, e, rfl, atRest, t', stands', graded', precedence, chain⟩
      have rest : (loose k.operator.reach links).Sublist links := List.dropWhile_sublist _
      have shorter : (loose k.operator.reach links).length < fuel :=
        Nat.lt_of_le_of_lt rest.length_le (Nat.lt_of_succ_lt_succ enough)
      refine (ih shorter (fun j mem => names j (.tail _ (rest.mem mem))) atRest stands' graded'
        (precedence ▸ above) ?_).weaken Iff.rfl ?_
      · exact fun j mem _ => precedence ▸ precedence_le_of_calm calm mem
      · obtain ⟨taken, rest⟩ := tight_of_le (Nat.le_of_lt le) links
        rw [chain, tight_cons above, loose_cons above, rest, taken]
        simp

/-- As long as there are precedences left, the operators that bind tighter are joined. -/
theorem climbs_of_enough (height n : Nat) (enough : 11 ≤ height + n) : g.Climbs s level height n := by
  induction height generalizing n with
  | zero =>
    intro p links left t start names h stands graded tighter next
    have : t.precedence ≤ 11 := by
      cases t with
      | name => exact Nat.le_refl _
      | join o => exact Nat.le_trans (TokenKind.precedence?_le o.joins) (by decide)
    omega
  | succ height ih =>
    intro p links left t start names h stands graded tighter next
    rw [Grammar.binary_succ]
    refine .after (Runs.source_iff.mpr ⟨rfl, rfl⟩) ?_
    exact loop_decides plain reads (fun m lt => ih _ (by omega)) start _ h.length_lt names h stands graded tighter next

end Loop

end ScriptSyntax
