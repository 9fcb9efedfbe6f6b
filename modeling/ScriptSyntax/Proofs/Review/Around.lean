import ScriptSyntax.Proofs.Review.Track
import ScriptSyntax.Proofs.Tree.Cover

/-!
The steps on single tokens do the same in the strict and in the lenient reading.  A node around others has their marks,
and labels come and go with it.
-/

namespace ScriptSyntax

open ParseM

variable {s : Setting} {α β : Type} {p q : Parser} {m : ParseM α} {f : α → ParseM β}

/-! ### Quiet steps -/

namespace Quiet

@[grind ←] theorem pure {a : α} : Quiet s (pure a : ParseM α) := .of fun _ => .done id (by simp)

@[grind ←] theorem bind (first : Quiet s m) (next : ∀ a, Quiet s (f a)) : Quiet s (m >>= f) :=
  .of fun _ => .quiet first fun a => (next a).since

@[grind ←] theorem map {g : α → β} (h : Quiet s m) : Quiet s (g <$> m) := by
  rw [map_eq_pure_bind]
  exact h.bind fun _ => pure

theorem ite {c : Prop} [Decidable c] {n : ParseM α} (yes : Quiet s m) (no : Quiet s n) :
    Quiet s (if c then m else n) := by
  split
  · exact yes
  · exact no

@[grind ←] theorem of_looks (h : Looks s m) : Quiet s m := fun p ready => by
  obtain ⟨x, same⟩ := h
  rintro q _ ⟨rfl, rfl⟩
  simp only [(same q).1]
  refine ⟨{}, trivial, .refl ready, ?_⟩
  rw [(same q.bare).1, show x q.bare = x q from (same q).2 _]
  exact .passes Log.clean_empty

@[grind ←] theorem of_fails (h : Fails s m) : Quiet s m := fun _ _ => .fails h h

/-- A change of the parser that concerns neither labels nor private names. -/
theorem changes (h : ∀ p, ∃ a q, m s p = .ok a q ∧ m s p.bare = .ok a q.bare ∧ q.labels = p.labels ∧
    q.privateNames = p.privateNames ∧
      (Steady s p → q.lexer.Ordered s.source ∧ p.lexer.token.start ≤ q.lexer.token.start ∧
        p.lexer.tokens <:+ q.lexer.tokens)) :
    Quiet s m := fun p ready => by
  rintro q _ ⟨rfl, rfl⟩
  obtain ⟨a, r, run, runBare, labels, names, forward⟩ := h q
  obtain ⟨ordered, token_le, tokens⟩ := forward ready
  have depth : r.depth = q.depth := congrArg (·.classes.length) names
  have ready' : Steady s r :=
    ⟨ready.plain, ordered, depth ▸ ready.enclosed, labels ▸ fun l mem n start =>
      Nat.le_trans (ready.labels l mem n start) token_le⟩
  simp only [run, runBare]
  exact ⟨{}, depth, .still ready' token_le tokens labels names, .passes Log.clean_empty⟩

/-- A step of the lexer that goes on. -/
theorem ofLexer {step : LexM α}
    (forward : ∀ {l l' : Lexer} {a : α}, s.reader = none → l.Ordered s.source → Runs s step l a l' →
      l'.Ordered s.source ∧ l.token.start ≤ l'.token.start ∧ l.tokens <:+ l'.tokens) :
        Quiet s (ofLexer step) := fun p ready => by
  rintro q _ ⟨rfl, rfl⟩
  simp only [ParseM.ofLexer, show q.bare.lexer = q.lexer from rfl]
  cases run : step s q.lexer with
  | error e l => exact ⟨_, _, rfl⟩
  | ok a l =>
    obtain ⟨ordered, token_le, tokens⟩ := forward ready.plain ready.ordered run
    have ready' : Steady s { q with lexer := l } :=
      ⟨ready.plain, ordered, ready.enclosed, fun label mem n start =>
        Nat.le_trans (ready.labels label mem n start) token_le⟩
    exact ⟨{}, rfl, .still ready' token_le tokens rfl rfl, .passes Log.clean_empty⟩

/-! ### Moving -/

@[grind ←] theorem check {c : Option Complaint} : Quiet s (check c) := by
  cases c with
  | none => exact pure
  | some c => exact of_fails .complain

@[grind ←] theorem setStrict {strict : Bool} : Quiet s (setStrict strict) :=
  changes fun _ => ⟨_, _, rfl, rfl, rfl, rfl, fun ready =>
    ⟨(Reads.strict (s := s) strict ready.plain ready.ordered).ordered, Nat.le_refl _, List.suffix_rfl⟩⟩

@[grind ←] theorem nextAfterWord : Quiet s nextAfterWord := ofLexer fun plain ordered run => by
  obtain ⟨ordered', last, tokens, -⟩ := next_spec plain ordered run
  exact ⟨ordered', Nat.le_trans ordered.token_le (last ▸ ordered'.last_le_token), tokens ▸ List.suffix_cons ..⟩

@[grind ←] theorem next : Quiet s next := by
  refine bind (of_looks .lexer) fun l => ite ?_ nextAfterWord
  cases l.kind.keyword? with
  | none => exact nextAfterWord
  | some _ => exact of_fails (.bind .failRecoverable)

@[grind ←] theorem eat {kind : TokenKind} : Quiet s (eat kind) := by grind [ParseM.eat]

@[grind ←] theorem expect {kind : TokenKind} : Quiet s (expect kind) := by grind [ParseM.expect]

@[grind ←] theorem eatContextual {word : String} : Quiet s (eatContextual word) := by grind [ParseM.eatContextual]

@[grind ←] theorem expectContextual {word : String} : Quiet s (expectContextual word) := by
  grind [ParseM.expectContextual]

@[grind ←] theorem semicolon : Quiet s semicolon := by grind [ParseM.semicolon]

@[grind ←] theorem enterScope {flags : ScopeFlags} : Quiet s (enterScope flags) :=
  changes fun _ => ⟨_, _, rfl, rfl, rfl, rfl, fun ready => ⟨ready.ordered, Nat.le_refl _, List.suffix_rfl⟩⟩

@[grind ←] theorem exitScope : Quiet s exitScope :=
  changes fun _ => ⟨_, _, rfl, rfl, rfl, rfl, fun ready => ⟨ready.ordered, Nat.le_refl _, List.suffix_rfl⟩⟩

@[grind ←] theorem andM {m n : ParseM Bool} (first : Quiet s m) (second : Quiet s n) : Quiet s (m <&&> n) := by
  refine bind first fun b => ?_
  cases b
  · exact pure
  · exact second

@[grind ←] theorem orM {m n : ParseM Bool} (first : Quiet s m) (second : Quiet s n) : Quiet s (m <||> n) := by
  refine bind first fun b => ?_
  cases b
  · exact second
  · exact pure

@[grind ←] theorem lift (h : Quiet s m) : Quiet s (monadLift m : ParseM α) := h

end Quiet

namespace CoverQuiet

variable {n : CoverM α} {h : α → CoverM β}

@[grind ←] theorem pure {a : α} : CoverQuiet s (pure a : CoverM α) := .of fun _ _ => .done id (by simp)

@[grind ←] theorem bind (first : CoverQuiet s n) (next : ∀ a, CoverQuiet s (h a)) : CoverQuiet s (n >>= h) :=
  .of fun _ => .coverQuiet first fun a => (next a).since

@[grind ←] theorem lift (quiet : Quiet s m) : CoverQuiet s (liftM m : CoverM α) :=
  .of fun _ => .lift quiet.since

@[grind ←] theorem andM {m n : CoverM Bool} (first : CoverQuiet s m) (second : CoverQuiet s n) :
    CoverQuiet s (m <&&> n) := by
  refine bind first fun b => ?_
  cases b
  · exact pure
  · exact second

@[grind ←] theorem of_onlyDefers (h : OnlyDefers n) : CoverQuiet s n :=
  .of fun _ d => by
    obtain ⟨x, same⟩ := h d
    rw [same]
    exact .done id (by simp)

@[grind ←] theorem amend {change : Deferred → Deferred} : CoverQuiet s (CoverM.amend change) :=
  of_onlyDefers fun _ => ⟨_, rfl⟩

@[grind ←] theorem get : CoverQuiet s (get : CoverM (Option Deferred)) := of_onlyDefers fun _ => ⟨_, rfl⟩

@[grind ←] theorem set {d : Option Deferred} : CoverQuiet s (set d : CoverM PUnit) := of_onlyDefers fun _ => ⟨_, rfl⟩

@[grind ←] theorem mustBePattern : CoverQuiet s CoverM.mustBePattern := of_onlyDefers fun _ => ⟨_, rfl⟩

@[grind ←] theorem checkExpression : CoverQuiet s CoverM.checkExpression := by
  refine bind get fun d => ?_
  cases d with
  | none => exact pure
  | some _ => exact lift .check

end CoverQuiet

/-! ### Nodes around others -/

open Node

variable {b : Bool} {ns : List Node} {n : Node} {log : Log} {k : Mark} {labels : List Label} {l : Label}
  {start stop : Nat}

/-- A step to the next token does not depend on private names. -/
theorem Runs.next_bare {u : Unit} (run : Runs s ParseM.next p u q) :
    Runs s ParseM.next p.bare u q.bare := by
  have moved := Runs.afterWord_of_next run
  obtain ⟨l, step, rfl⟩ := Runs.ofLexer_iff.mp moved
  have bare : Runs s ParseM.nextAfterWord p.bare u (Parser.bare { p with lexer := l }) :=
    Runs.ofLexer_iff.mpr ⟨l, step, rfl⟩
  simp only [ParseM.next, Runs.bind_iff, Runs.lexer_iff, Runs.exists_look, Runs.ite_iff] at run ⊢
  refine run.imp (And.imp_right fun run => ?_) (And.imp_right fun _ => bare)
  cases k : p.lexer.kind.keyword? with
  | some keyword => simp [k] at run
  | none =>
    simp only [show p.bare.lexer = p.lexer from rfl, k]
    exact bare

namespace Log.Admits

/-- A calm mark agrees with a log whatever labels are around. -/
theorem of_isCalm {labels' : List Label} (admits : log.Admits s labels start stop k) (calm : k.isCalm = true) :
    log.Admits s labels' start stop k := by
  cases k with
  | use => exact admits
  | jump j pos reach => cases reach <;> first | exact admits | cases calm
  | label name near =>
    cases near with
    | true => cases calm
    | false => exact nofun
  | clash => exact admits
  | misdeclared => exact admits
  | body => exact admits

/-- A node around is no surprise if the labels know of what it does. -/
theorem through (admits : log.Admits s labels start stop k) (declares : ∀ name, n.declares name = false)
    (boundary : n.isBoundary = true → labels = [])
    (catches : ∀ j, n.catches j = true → labels.any (·.accepts j.isBreak j.target) = true)
    (label : ∀ name, n.label? = some name → ∃ l ∈ labels, l.name = some name) :
    log.Admits s labels start stop (k.through n) := by
  cases k with
  | use => simpa [Mark.through, declares] using admits
  | jump j pos reach =>
    cases reach with
    | free =>
      obtain ⟨placed, iff⟩ := admits
      refine ⟨placed, ?_⟩
      by_cases outer : n.isBoundary = true
      · simpa [outer, boundary outer] using iff
      · by_cases caught : n.catches j = true
        · simpa [outer, caught, catches j caught] using iff
        · simpa [outer, caught] using iff
    | caught => exact admits
    | lost => exact admits
  | label name near =>
    cases near with
    | true =>
      simp only [Mark.through]
      split
      · exact (absurd · Bool.false_ne_true)
      · split
        · next same =>
          obtain ⟨l, mem, known⟩ := label name same
          exact admits rfl l mem known
        · exact admits
    | false => exact (absurd · Bool.false_ne_true)
  | clash => exact admits
  | misdeclared => exact admits
  | body => exact admits

/-- A label that a jump could not end at is not missed. -/
theorem tail (admits : log.Admits s (l :: labels) start stop k)
    (other : ∀ j pos, k = .jump j pos .free → l.accepts j.isBreak j.target = false) :
    log.Admits s labels start stop k := by
  cases k with
  | use => exact admits
  | jump j pos reach =>
    cases reach with
    | free =>
      refine ⟨admits.1, admits.2.trans ?_⟩
      simp [other j pos rfl]
    | caught => exact admits
    | lost => exact admits
  | label name near => exact fun near l mem => admits near l (.tail _ mem)
  | clash => exact admits
  | misdeclared => exact admits
  | body => exact admits

end Log.Admits

/-! ### Nodes around -/

/-- The nodes read become one that has no marks of its own. -/
theorem Trace.around (h : Trace s p q b ns log) (silent : n.isSilent = true)
    (children : ∀ c ∈ n.children, c.Covered ns) (boundary : n.isBoundary = true → q.labels = [])
    (catches : ∀ j, n.catches j = true → q.labels.any (·.accepts j.isBreak j.target) = true) :
    Trace s p q b [n] log :=
  { h with
    marks := by
      have declares (name : String) : n.declares name = false := by
        cases n <;> first | rfl | cases silent
      have label : n.label? = none := by
        cases n with
        | statement s => cases s <;> first | rfl | cases silent
        | _ => rfl
      rw [List.forall_mem_singleton]
      intro k has
      obtain ⟨c, child, k, inner, rfl⟩ := has.of_isSilent silent
      obtain ⟨m, mem, inner⟩ := children c child k inner
      exact (h.marks m mem k inner).through declares boundary catches (by simp [label]) }

/-- The label that was pushed last goes away, and no jump in the nodes needs it. -/
theorem Trace.popped {outer : List Label} (h : Trace s { p with labels } q b ns log)
    (known : q.labels = l :: outer)
    (other : ∀ n ∈ ns, ∀ j pos, n.Has (.jump j pos .free) → l.accepts j.isBreak j.target = false) :
    Trace s p { q with labels := outer } b ns log where
  ready := ⟨h.ready.plain, h.ready.ordered, h.ready.enclosed, fun l mem => h.ready.labels l (known ▸ .tail _ mem)⟩
  token_le := h.token_le
  tokens := h.tokens
  behind moved l mem := h.behind moved l (known ▸ .tail _ mem)
  names := h.names
  placed := h.placed
  unchecked := h.unchecked
  read := h.read
  jumped := h.jumped
  marks n mem k has := (known ▸ h.marks n mem k has).tail fun j pos same => other n mem j pos (same ▸ has)

/-- The labels around a function come back, and no mark in the nodes meets them. -/
theorem Trace.restored (h : Trace s { p with labels } q b ns log) (ready : Steady s p)
    (calm : ∀ n ∈ ns, ∀ k, n.Has k → k.isCalm = true) :
    Trace s p { q with labels := p.labels } false ns log where
  ready := ⟨h.ready.plain, h.ready.ordered, h.ready.enclosed, fun l mem n start =>
    Nat.le_trans (ready.labels l mem n start) h.token_le⟩
  token_le := h.token_le
  tokens := h.tokens
  behind := nofun
  names := h.names
  placed := h.placed
  unchecked := h.unchecked
  read := h.read
  jumped := h.jumped
  marks n mem k has := (h.marks n mem k has).of_isCalm (calm n mem k has)

/-- The token at `p` was moved past. -/
structure Past (s : Setting) (p q : Parser) (log : Log) : Prop where
  since : Since s p true [] q log
  forward : p.lexer.token.start < q.lexer.token.start
  left : s.currentToken p.lexer.toCursor ∈ q.lexer.tokens
  empty : log = {}

section Rules

variable {P : Parser → Log → Prop} {Q : β → Parser → Log → Prop} {m₀ m₁ : ParseM α}
  {f₀ f₁ : α → ParseM β}

namespace Tracks

/-- The parser is changed in the same way in both readings. -/
theorem modifies {f : Parser → Parser} (same : ∀ q, (f q).bare = f q.bare)
    (depth : ∀ q, (f q).depth = q.depth) :
    Tracks s P (modify f) (modify f) fun _ q log => ∃ r, P r log ∧ q = f r := by
  intro p log before
  refine ⟨{}, depth p, ⟨p, by simpa using before, rfl⟩, ?_⟩
  change Outcome p {} _ _ (EStateM.Result.ok PUnit.unit (f p.bare))
  rw [← same]
  exact .passes Log.clean_empty

/-- A known state is changed to another one. -/
theorem change {f : Parser → Parser} {g₀ g₁ : PUnit → ParseM β} (same : ∀ q, (f q).bare = f q.bare)
    (depth : ∀ q, (f q).depth = q.depth) (next : Tracks s (At (f p)) (g₀ ⟨⟩) (g₁ ⟨⟩) Q) :
    Tracks s (At p) (modify f >>= g₀) (modify f >>= g₁) Q :=
  (modifies same depth).bind fun _ => next.strengthen fun _ _ ⟨_, ⟨at_p, empty⟩, changed⟩ =>
    ⟨by rw [changed, at_p], empty⟩

/-- The strict reading looks at a known state. -/
theorem lookLeft {m : ParseM α} {n₁ : ParseM β} (h : Looks s m)
    (next : ∀ a, Runs s m p a p → Tracks s (At p) (f₀ a) n₁ Q) : Tracks s (At p) (m >>= f₀) n₁ Q := by
  obtain ⟨f, same⟩ := h
  rintro q _ ⟨rfl, rfl⟩
  have next := next (f q) (same q).1 q {} ⟨rfl, rfl⟩
  simpa only [Bind.bind, ReaderT.bind, EStateM.bind, (same q.bare).1, show f q.bare = f q from (same q).2 _] using next

/-- The lenient reading looks at a known state. -/
theorem lookRight {m : ParseM α} {n₀ : ParseM β} (h : Looks s m)
    (next : ∀ a, Runs s m p a p → Tracks s (At p) n₀ (f₁ a) Q) : Tracks s (At p) n₀ (m >>= f₁) Q := by
  obtain ⟨f, same⟩ := h
  rintro q _ ⟨rfl, rfl⟩
  have next := next (f q) (same q).1 q {} ⟨rfl, rfl⟩
  simpa only [Bind.bind, ReaderT.bind, EStateM.bind, (same q).1] using next

/-- What a look at a known state gives. -/
theorem lookAt {m : ParseM α} (h : Looks s m) (next : ∀ a, Runs s m p a p → Tracks s (At p) (f₀ a) (f₁ a) Q) :
    Tracks s (At p) (m >>= f₀) (m >>= f₁) Q :=
  .lookLeft h fun a found => .lookRight h fun b again => by
    obtain ⟨rfl, -⟩ := (EStateM.Result.ok.injEq ..).mp (found.symm.trans again)
    exact next a found

/-- A look gives what it does in any state. -/
theorem lookFor {m : ParseM α} {V : α → Prop} (h : Looks s m) (value : ∀ q a, Runs s m q a q → V a)
    (next : ∀ a, V a → Tracks s P (f₀ a) (f₁ a) Q) : Tracks s P (m >>= f₀) (m >>= f₁) Q := by
  obtain ⟨f, same⟩ := h
  intro q log before
  have next := next (f q) (value q (f q) (same q).1) q log before
  simpa only [Bind.bind, ReaderT.bind, EStateM.bind, (same q).1, (same q.bare).1, show f q.bare =
    f q from (same q).2 _] using next

/-- What a look finds is known of the state. -/
theorem lookIn {m : ParseM α} (h : Looks s m)
    (next : ∀ a, Tracks s (fun q log => P q log ∧ Runs s m q a q) (f₀ a) (f₁ a) Q) :
    Tracks s P (m >>= f₀) (m >>= f₁) Q := by
  obtain ⟨f, same⟩ := h
  intro q log before
  have next := next (f q) q log ⟨before, (same q).1⟩
  simpa only [Bind.bind, ReaderT.bind, EStateM.bind, (same q).1, (same q.bare).1, show f q.bare =
    f q from (same q).2 _] using next

theorem map {R : β → Parser → Log → Prop} {g : α → β} (h : Tracks s P m₀ m₁ fun a => R (g a)) :
    Tracks s P (g <$> m₀) (g <$> m₁) R := by
  rw [map_eq_pure_bind, map_eq_pure_bind]
  exact h.bind fun _ => .pure fun _ _ => id

/-- What is known of the value of every run is known after it. -/
theorem having {V : α → Prop} {R : α → Parser → Log → Prop} (h : Tracks s P m₀ m₁ R)
    (value : ∀ p log, P p log → ∀ a q, Runs s m₁ p a q → V a) :
    Tracks s P m₀ m₁ fun a q log => V a ∧ R a q log := by
  intro p log before
  have h := h p log before
  split
  · next failed => simpa only [failed] using h
  · next a q run =>
    simp only [run] at h
    obtain ⟨new, depth, holds, outcome⟩ := h
    exact ⟨new, depth, ⟨value p log before a q run, holds⟩, outcome⟩

/-- The whole state is looked at. -/
theorem sees {g₀ g₁ : Parser → ParseM β}
    (next : ∀ q, Tracks s (fun r log => r = q ∧ P r log) (g₀ q.bare) (g₁ q) Q) :
    Tracks s P (get >>= g₀) (get >>= g₁) Q :=
  fun q log before => next q q log ⟨rfl, before⟩

/-- The whole state is looked at, and what is known of it stays known. -/
theorem peek {g₀ g₁ : Parser → ParseM β} (next : ∀ q, Tracks s P (g₀ q.bare) (g₁ q) Q) :
    Tracks s P (get >>= g₀) (get >>= g₁) Q :=
  fun q log before => next q q log before

theorem seesAt {g₀ g₁ : Parser → ParseM β} (next : Tracks s (At p) (g₀ p.bare) (g₁ p) Q) :
    Tracks s (At p) (get >>= g₀) (get >>= g₁) Q :=
  .sees fun q => by
    by_cases h : q = p
    · subst h
      exact next.strengthen fun _ _ before => before.2
    · exact fun _ _ before => absurd (before.1.symm.trans before.2.1) h

/-- A token that is not empty is moved past. -/
theorem nextAt (ready : Steady s p) (solid : p.lexer.kind.isSolid = true) :
    Tracks s (At p) ParseM.next ParseM.next fun _ => Past s p := by
  rintro q _ ⟨rfl, rfl⟩
  have quiet := Quiet.next q ready q {} ⟨rfl, rfl⟩
  cases run : ParseM.next s q with
  | error e r => simpa only [run] using quiet
  | ok u r =>
    have forward := Reads.next_nonempty run solid ready.plain ready.ordered
    have bare := Runs.next_bare run
    obtain ⟨l, step, rfl⟩ := Runs.ofLexer_iff.mp (Runs.afterWord_of_next run)
    obtain ⟨ordered, -, tokens, -⟩ := next_spec ready.plain ready.ordered step
    have token_le := Nat.le_of_lt forward
    have ready' : Steady s { q with lexer := l } := ⟨ready.plain, ordered, ready.enclosed,
      fun label mem n start => Nat.le_trans (ready.labels label mem n start) token_le⟩
    have trace := (Since.still ready' token_le (tokens ▸ List.suffix_cons ..) rfl rfl).2
    have behind : Parser.Behind { q with lexer := l } := fun label mem n start =>
      Nat.lt_of_le_of_lt (ready.labels label mem n start) forward
    have left : s.currentToken q.lexer.toCursor ∈ l.tokens := tokens ▸ List.mem_cons_self
    refine ⟨{}, rfl, ⟨⟨rfl, { trace with behind := fun _ => behind }⟩, forward, left, rfl⟩, ?_⟩
    change ParseM.next s q.bare = _ at bare
    rw [bare]
    exact .passes Log.clean_empty

/-- The current token may be of a kind, and is moved past then. -/
theorem eatAt (ready : Steady s p) {kind : TokenKind} (solid : kind.isSolid = true) :
    Tracks s (At p) (ParseM.eat kind) (ParseM.eat kind) fun here =>
      if here then Since s p true [] else At p := by
  refine .lookAt .isKind fun here same => .ite (fun yes => ?_) fun _ => .pure fun _ _ => id
  have solid : p.lexer.kind.isSolid = true := by
    simp [yes] at same
    rwa [same]
  exact (nextAt ready solid).bind fun _ => .pure fun _ _ after => after.since

/-- A function is read without the labels around it. -/
theorem withoutLabels {N : α → List Node} (ready : Steady s p)
    (inner : Tracks s (At { p with labels := [] }) m₀ m₁ fun a => Since s { p with labels := [] } b (N a))
    (calm : ∀ a, ∀ n ∈ N a, ∀ k, n.Has k → k.isCalm = true) :
    Tracks s (At p) (ParseM.withoutLabels m₀) (ParseM.withoutLabels m₁) fun a => Since s p false (N a) := by
  refine .seesAt ?_
  refine .change (fun _ => rfl) (fun _ => rfl) ?_
  refine inner.bind fun a => ?_
  have back := modifies (s := s) (P := Since s { p with labels := [] } b (N a))
    (f := fun q => { q with labels := p.labels }) (fun _ => rfl) fun _ => rfl
  refine back.bind fun _ => .pure ?_
  rintro _ log ⟨q, since, rfl⟩
  exact ⟨rfl, since.2.restored ready (calm a)⟩

end Tracks

theorem Adds.expect {kind : TokenKind} (solid : kind.isSolid = true) :
    Adds s true (ParseM.expect kind) (ParseM.expect kind) fun _ => [] := fun p ready => by
  refine (Tracks.eatAt ready solid).bind fun here => ?_
  cases here with
  | true => exact .pure fun _ _ => id
  | false => exact .fails (by grind) (by grind)

end Rules
end ScriptSyntax
