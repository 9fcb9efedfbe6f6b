import ScriptSyntax.Parser.Target
import ScriptSyntax.Parser.Lookahead
import ScriptSyntax.Proofs.Run

/-!
Runs of the steps that parsers are made of: looks at the state, failures, moves past one token, and
steps that may put faults off.
-/

namespace ScriptSyntax
namespace Runs

open ParseM

variable {α β : Type} {s : Setting} {p q : Parser}

@[simp ↓ high] theorem bind_unit_iff {m : ParseM PUnit} {f : PUnit → ParseM β} {b : β} :
    Runs s (m >>= f) p b q ↔ ∃ r, Runs s m p ⟨⟩ r ∧ Runs s (f ⟨⟩) r b q := by
  rw [bind_iff]
  exact ⟨fun ⟨_, r, h⟩ => ⟨r, h⟩, fun ⟨r, h⟩ => ⟨⟨⟩, r, h⟩⟩

/-- A step is taken first if a condition holds. -/
@[simp ↓ high] theorem when_iff {c : Prop} [Decidable c] {m : ParseM PUnit} {rest : ParseM β} {b : β} :
    Runs s (if c then m >>= fun _ => rest else rest) p b q ↔
      ∃ r, ((c ∧ Runs s m p ⟨⟩ r) ∨ (¬ c ∧ r = p)) ∧ Runs s rest r b q := by
  by_cases h : c <;> simp [h]

@[simp ↓ high] theorem unless_iff {c : Prop} [Decidable c] {m : ParseM PUnit} {rest : ParseM β} {b : β} :
    Runs s (if c then rest else m >>= fun _ => rest) p b q ↔
      ∃ r, ((c ∧ r = p) ∨ (¬ c ∧ Runs s m p ⟨⟩ r)) ∧ Runs s rest r b q := by
  by_cases h : c <;> simp [h]

/-! ### Looking -/

instance : Succeeds source (fun s _ => s.source) (fun _ p => p) := ⟨fun _ _ => rfl⟩

@[simp] theorem source_iff {x : Source} : Runs s source p x q ↔ x = s.source ∧ q = p := by
  rw [succeeds_iff]

instance : Succeeds edition (fun s _ => s.edition) (fun _ p => p) := ⟨fun _ _ => rfl⟩

instance {n : Nat} : Succeeds (since n) (fun s _ => decide (n ≤ s.edition)) (fun _ p => p) := ⟨fun _ _ => rfl⟩

@[simp] theorem since_iff {n : Nat} {b : Bool} :
    Runs s (since n) p b q ↔ b = decide (n ≤ s.edition) ∧ q = p := by
  rw [succeeds_iff]

instance : Succeeds options (fun s _ => s.options) (fun _ p => p) := ⟨fun _ _ => rfl⟩

@[simp] theorem options_iff {x : Options} : Runs s options p x q ↔ x = s.options ∧ q = p := by
  rw [succeeds_iff]

instance : Succeeds lexer (fun _ p => p.lexer) (fun _ p => p) := ⟨fun _ _ => rfl⟩

@[simp] theorem lexer_iff {x : Lexer} : Runs s lexer p x q ↔ x = p.lexer ∧ q = p := by
  rw [succeeds_iff]

instance : Succeeds kind (fun _ p => p.lexer.kind) (fun _ p => p) := ⟨fun _ _ => rfl⟩

@[simp] theorem kind_iff {k : TokenKind} : Runs s kind p k q ↔ k = p.lexer.kind ∧ q = p := by
  rw [succeeds_iff]

instance {k : TokenKind} : Succeeds (isKind k) (fun _ p => p.lexer.kind == k) (fun _ p => p) := ⟨fun _ _ => rfl⟩

@[simp] theorem isKind_iff {k : TokenKind} {b : Bool} :
    Runs s (isKind k) p b q ↔ b = (p.lexer.kind == k) ∧ q = p := by
  rw [succeeds_iff]

instance : Succeeds tokenStart (fun _ p => p.lexer.token.start) (fun _ p => p) := ⟨fun _ _ => rfl⟩

@[simp] theorem tokenStart_iff {n : Nat} :
    Runs s tokenStart p n q ↔ n = p.lexer.token.start ∧ q = p := by
  rw [succeeds_iff]

instance : Succeeds lastStop (fun _ p => p.lexer.last.stop) (fun _ p => p) := ⟨fun _ _ => rfl⟩

instance : Succeeds containsEscape (fun _ p => p.lexer.containsEscape) (fun _ p => p) := ⟨fun _ _ => rfl⟩

@[simp] theorem containsEscape_iff {b : Bool} :
    Runs s containsEscape p b q ↔ b = p.lexer.containsEscape ∧ q = p := by
  rw [succeeds_iff]

instance : Succeeds strict (fun _ p => p.lexer.strict) (fun _ p => p) := ⟨fun _ _ => rfl⟩

@[simp] theorem strict_iff {b : Bool} : Runs s strict p b q ↔ b = p.lexer.strict ∧ q = p := by
  rw [succeeds_iff]

instance : Succeeds scopes (fun _ p => p.scopes) (fun _ p => p) := ⟨fun _ _ => rfl⟩

@[simp] theorem scopes_iff {x : ScopeStack} : Runs s scopes p x q ↔ x = p.scopes ∧ q = p := by
  rw [succeeds_iff]

instance {word : String} : Succeeds (isContextual word)
    (fun _ p => p.lexer.kind == .name && !p.lexer.containsEscape && p.lexer.value == .name word) (fun _ p => p) :=
  ⟨fun _ _ => rfl⟩

@[simp] theorem isContextual_iff {word : String} {b : Bool} :
    Runs s (isContextual word) p b q ↔
      b = (p.lexer.kind == .name && !p.lexer.containsEscape && p.lexer.value == .name word) ∧
        q = p := by
  rw [succeeds_iff]

instance : Succeeds lineBreakBefore (fun s p => p.lexer.lineBreakBefore s.source) (fun _ p => p) := ⟨fun _ _ => rfl⟩

@[simp] theorem lineBreakBefore_iff {b : Bool} :
    Runs s lineBreakBefore p b q ↔ b = p.lexer.lineBreakBefore s.source ∧ q = p := by
  rw [succeeds_iff]

@[simp] theorem canOmitSemicolon_iff {b : Bool} :
    Runs s canOmitSemicolon p b q ↔
      b = (decide (p.lexer.kind = .eof ∨ p.lexer.kind = .braceR) ||
        p.lexer.lineBreakBefore s.source) ∧ q = p := by
  by_cases h : p.lexer.kind = .eof ∨ p.lexer.kind = .braceR
  · simp only [canOmitSemicolon, bind_iff, kind_iff, exists_look, ite_iff, h, pure_iff]
    simp
  · simp only [canOmitSemicolon, bind_iff, kind_iff, exists_look, ite_iff, h, lineBreakBefore_iff]
    simp

instance : Succeeds lookahead (fun s p => s.source.skipBlank p.lexer.pos) (fun _ p => p) := ⟨fun _ _ => rfl⟩

@[simp] theorem lookahead_iff {n : Nat} :
    Runs s lookahead p n q ↔ n = s.source.skipBlank p.lexer.pos ∧ q = p := by
  rw [succeeds_iff]

instance : Succeeds startNode (fun _ p => ⟨p.lexer.token.start, p.lexer.token.startPosition⟩) (fun _ p => p) :=
  ⟨fun _ _ => rfl⟩

@[simp] theorem startNode_iff {x : NodeStart} :
    Runs s startNode p x q ↔ x = ⟨p.lexer.token.start, p.lexer.token.startPosition⟩ ∧ q = p := by
  rw [succeeds_iff]

instance {start : NodeStart} {stop : Nat} {position : Position} : Succeeds (spanOf start stop position)
    (fun s _ => ⟨start.pos, stop, s.location start.position position, s.range start.pos stop⟩) (fun _ p => p) :=
  ⟨fun _ _ => rfl⟩

@[simp] theorem spanOf_iff {start : NodeStart} {stop : Nat} {position : Position} {x : Span} :
    Runs s (spanOf start stop position) p x q ↔
      x = ⟨start.pos, stop, s.location start.position position, s.range start.pos stop⟩ ∧ q = p := by
  rw [succeeds_iff]

/-- The span from a start to the end of the last token. -/
def spanTo (s : Setting) (start : NodeStart) (l : Lexer) : Span :=
  ⟨start.pos, l.last.stop, s.location start.position l.last.stopPosition,
    s.range start.pos l.last.stop⟩

instance {start : NodeStart} :
    Succeeds (finishSpan start) (fun s p => spanTo s start p.lexer) (fun _ p => p) := ⟨fun _ _ => rfl⟩

@[simp] theorem finishSpan_iff {start : NodeStart} {x : Span} :
    Runs s (finishSpan start) p x q ↔ x = spanTo s start p.lexer ∧ q = p := by
  rw [succeeds_iff]

@[simp] theorem spanTo_start (start : NodeStart) (l : Lexer) : (spanTo s start l).start = start.pos :=
  rfl

@[simp] theorem spanTo_stop (start : NodeStart) (l : Lexer) : (spanTo s start l).stop = l.last.stop :=
  rfl

@[simp] theorem targetRules_iff {binding : Bool} {x : TargetRules} :
    Runs s (targetRules binding) p x q ↔ x = ⟨s.edition, p.scopes.inAsync, binding⟩ ∧ q = p := by
  simp +contextual [targetRules]

/-! ### Failing -/

@[simp] theorem fail_iff {pos : Nat} {fault : Fault} {a : α} : ¬ Runs s (fail pos fault) p a q := by
  simp [fail]

@[simp] theorem failRecoverable_iff {pos : Nat} {fault : Fault} {a : α} :
    ¬ Runs s (failRecoverable pos fault) p a q := by
  simp [failRecoverable]

@[simp] theorem complain_iff {c : Complaint} {a : α} : ¬ Runs s (complain c) p a q := by
  simp [complain]

@[simp] theorem ofExcept_iff {x : Except Complaint α} {a : α} :
    Runs s (ParseM.ofExcept x) p a q ↔ x = .ok a ∧ q = p := by
  cases x <;> simp [ParseM.ofExcept, eq_comm]

@[simp] theorem check_iff {c : Option Complaint} {u : PUnit} :
    Runs s (check c) p u q ↔ c = none ∧ q = p := by
  cases c <;> simp [check]

@[simp] theorem unexpectedAt_iff {pos : Nat} {a : α} : ¬ Runs s (unexpectedAt pos) p a q := by
  simp [unexpectedAt]

@[simp] theorem unexpected_iff {a : α} : ¬ Runs s unexpected p a q := by
  simp [unexpected]

/-! ### Moving -/

@[simp] theorem ofLexer_iff {step : LexM α} {a : α} :
    Runs s (ofLexer step) p a q ↔ ∃ l, Runs s step p.lexer a l ∧ q = { p with lexer := l } := by
  simp only [Runs, ofLexer]
  cases h : step s p.lexer with
  | ok b l =>
    simp only [EStateM.Result.ok.injEq]
    constructor
    · rintro ⟨value, state⟩
      exact ⟨l, ⟨value, rfl⟩, state.symm⟩
    · rintro ⟨_, ⟨value, same⟩, state⟩
      exact ⟨value, by rw [state, same]⟩
  | error e l => simp

instance {b : Bool} : Succeeds (setStrict b) (fun _ _ => ⟨⟩)
    (fun _ p => { p with lexer := { p.lexer with strict := b } }) :=
  ⟨fun _ _ => rfl⟩

@[simp] theorem setStrict_iff {b : Bool} {u : PUnit} :
    Runs s (setStrict b) p u q ↔ q = { p with lexer := { p.lexer with strict := b } } :=
  succeeds_iff.trans (and_iff_right rfl)

/-- Keywords with an escape aside, both ways to move on are one. -/
theorem afterWord_of_next {u : PUnit} (h : Runs s next p u q) : Runs s nextAfterWord p u q := by
  simp only [next, bind_iff, lexer_iff, exists_look, ite_iff] at h
  rcases h with ⟨-, h⟩ | ⟨-, h⟩
  · cases k : p.lexer.kind.keyword? with
    | some keyword => simp [k] at h
    | none =>
      simp only [k] at h
      exact h
  · exact h

@[simp] theorem eat_iff {k : TokenKind} {b : Bool} :
    Runs s (eat k) p b q ↔
      (b = true ∧ p.lexer.kind = k ∧ Runs s next p ⟨⟩ q) ∨
        (b = false ∧ p.lexer.kind ≠ k ∧ q = p) := by
  by_cases h : p.lexer.kind = k <;> simp [eat, h, and_comm]

@[simp high] theorem pure_eat_iff {c : Bool} {k : TokenKind} {b : Bool} :
    Runs s (pure c <&&> eat k : ParseM Bool) p b q ↔
      (b = true ∧ (c = true ∧ p.lexer.kind = k) ∧ Runs s next p ⟨⟩ q) ∨
        (b = false ∧ (c = true → p.lexer.kind ≠ k) ∧ q = p) := by
  cases c <;> simp [and_comm]

@[simp high] theorem since_eat_iff {n : Nat} {k : TokenKind} {b : Bool} :
    Runs s (since n <&&> eat k) p b q ↔
      (b = true ∧ (n ≤ s.edition ∧ p.lexer.kind = k) ∧ Runs s next p ⟨⟩ q) ∨
        (b = false ∧ (n ≤ s.edition → p.lexer.kind ≠ k) ∧ q = p) := by
  by_cases h : n ≤ s.edition <;> simp [h, and_comm]

@[simp high] theorem pure_isKind_iff {c : Bool} {k : TokenKind} {b : Bool} :
    Runs s (pure c <&&> isKind k : ParseM Bool) p b q ↔ b = (c && p.lexer.kind == k) ∧ q = p := by
  cases c <;> simp [and_comm]

@[simp] theorem expect_iff {k : TokenKind} {u : PUnit} :
    Runs s (expect k) p u q ↔ p.lexer.kind = k ∧ Runs s next p ⟨⟩ q := by
  simp [expect]

@[simp] theorem eatContextual_iff {word : String} {b : Bool} :
    Runs s (eatContextual word) p b q ↔
      (b = true ∧ (p.lexer.kind = .name ∧ p.lexer.containsEscape = false ∧
        p.lexer.value = .name word) ∧ Runs s next p ⟨⟩ q) ∨
      (b = false ∧ ¬ (p.lexer.kind = .name ∧ p.lexer.containsEscape = false ∧
        p.lexer.value = .name word) ∧ q = p) := by
  by_cases h : p.lexer.kind = .name ∧ p.lexer.containsEscape = false ∧ p.lexer.value = .name word
  · simp [eatContextual, h, and_comm]
  · have absent : (p.lexer.kind == .name && !p.lexer.containsEscape &&
        p.lexer.value == .name word) = false := by
      simpa [← Bool.not_eq_true, and_assoc] using h
    simp [eatContextual, absent, h, and_comm]

@[simp] theorem expectContextual_iff {word : String} {u : PUnit} :
    Runs s (expectContextual word) p u q ↔
      (p.lexer.kind = .name ∧ p.lexer.containsEscape = false ∧ p.lexer.value = .name word) ∧
        Runs s next p ⟨⟩ q := by
  simp [expectContextual]

@[simp] theorem semicolon_iff {u : PUnit} :
    Runs s semicolon p u q ↔
      (p.lexer.kind = .semi ∧ Runs s next p ⟨⟩ q) ∨
      (p.lexer.kind ≠ .semi ∧ (decide (p.lexer.kind = .eof ∨ p.lexer.kind = .braceR) ||
        p.lexer.lineBreakBefore s.source) = true ∧ q = p) := by
  by_cases h : p.lexer.kind = .semi
  · simp [semicolon, h]
  · simp only [semicolon, bind_iff, eat_iff, h, false_and, and_false, false_or]
    simp [and_assoc, and_comm]

/-! ### Scopes and labels -/

instance {flags : ScopeFlags} :
    Succeeds (enterScope flags) (fun _ _ => ⟨⟩) (fun _ p => { p with scopes := p.scopes.enter flags }) :=
  ⟨fun _ _ => rfl⟩

@[simp] theorem enterScope_iff {flags : ScopeFlags} {u : PUnit} :
    Runs s (enterScope flags) p u q ↔ q = { p with scopes := p.scopes.enter flags } :=
  succeeds_iff.trans (and_iff_right rfl)

instance : Succeeds exitScope (fun _ _ => ⟨⟩) (fun _ p => { p with scopes := p.scopes.exit }) := ⟨fun _ _ => rfl⟩

@[simp] theorem exitScope_iff {u : PUnit} :
    Runs s exitScope p u q ↔ q = { p with scopes := p.scopes.exit } :=
  succeeds_iff.trans (and_iff_right rfl)

instance {label : Label} :
    Succeeds (pushLabel label) (fun _ _ => ⟨⟩) (fun _ p => { p with labels := label :: p.labels }) :=
  ⟨fun _ _ => rfl⟩

instance : Succeeds popLabel (fun _ _ => ⟨⟩) (fun _ p => { p with labels := p.labels.tail }) := ⟨fun _ _ => rfl⟩

@[simp] theorem popLabel_iff {u : PUnit} :
    Runs s popLabel p u q ↔ q = { p with labels := p.labels.tail } :=
  succeeds_iff.trans (and_iff_right rfl)

@[simp] theorem withoutLabels_iff {step : ParseM α} {a : α} :
    Runs s (withoutLabels step) p a q ↔
      ∃ r, Runs s step { p with labels := [] } a r ∧ q = { r with labels := p.labels } := by
  simp only [withoutLabels, bind_iff, get_iff, exists_look, modify_iff, exists_unit, pure_iff,
    exists_eq_left]
  constructor
  · rintro ⟨_, r, run, value, state⟩
    exact ⟨r, value ▸ run, state⟩
  · rintro ⟨r, run, state⟩
    exact ⟨a, r, run, rfl, state⟩

/-! ### Nesting -/

@[simp] theorem tooDeep_iff {a : α} : ¬ Runs s tooDeep p a q := by
  simp [tooDeep]

theorem nested_iff {step : ParseM α} {a : α} : Runs s (nested step) p a q ↔ p.nesting < maxDepth ∧
    ∃ r, Runs s step { p with nesting := p.nesting + 1 } a r ∧ q = { r with nesting := r.nesting - 1 } := by
  by_cases deep : maxDepth ≤ p.nesting
  · have fails : ¬ Runs s (tooDeep : ParseM α) p a q := tooDeep_iff
    simp only [Runs, nested, deep, if_true, Nat.not_lt_of_le deep, false_and, iff_false]
    exact fails
  · have shallow : p.nesting < maxDepth := Nat.lt_of_not_le deep
    simp only [Runs, nested, deep, if_false, shallow, true_and]
    cases step s { p with nesting := p.nesting + 1 } <;> simp [eq_comm]

/-! ### Repeating -/

section Repeating

variable {pass : α → ParseM (Pass α β)} {a : α} {b : β}

/-- What every pass preserves holds at the last one, which gives the result. -/
theorem of_loop (Inv : α → Parser → Prop) {fuel : Nat} (start : Inv a p)
    (again : ∀ {a b p q}, Inv a p → Runs s (pass a) p (.again b) q → Inv b q)
    (run : Runs s (loop pass fuel a) p b q) :
    ∃ last r, Inv last r ∧ Runs s (pass last) r (.done b) q := by
  induction fuel generalizing a p with
  | zero => simp [loop] at run
  | succ fuel ih =>
    simp only [loop, bind_iff] at run
    obtain ⟨step, r, first, rest⟩ := run
    cases step with
    | again next => exact ih (again start first) rest
    | done result =>
      obtain ⟨rfl, rfl⟩ := pure_iff.mp rest
      exact ⟨a, p, start, first⟩

theorem of_repeatPast (Inv : α → Parser → Prop) (start : Inv a p)
    (again : ∀ {a b p q}, Inv a p → Runs s (pass a) p (.again b) q → Inv b q)
    (run : Runs s (repeatPast a pass) p b q) :
    ∃ last r, Inv last r ∧ Runs s (pass last) r (.done b) q := by
  simp only [repeatPast, bind_iff] at run
  obtain ⟨_, r, look, run⟩ := run
  obtain ⟨-, rfl⟩ := source_iff.mp look
  exact of_loop Inv start again run

end Repeating

end Runs

/-! ### Faults put off -/

/-- The step succeeds from `p` and the faults `d` put off before it, gives `a`, and leaves `q` and the
faults `d'` behind. -/
def CoverRuns {α : Type} (s : Setting) (m : CoverM α) (p : Parser) (d : Option Deferred) (a : α)
    (q : Parser) (d' : Option Deferred) : Prop :=
  Runs s (m.run d) p (a, d') q

namespace CoverRuns

variable {α β : Type} {s : Setting} {p q : Parser} {d d' : Option Deferred}

@[simp] theorem exists_last_look {x : α} {P : α → Prop} :
    (∃ a, (a = x ∧ q = p ∧ d' = d) ∧ P a) ↔ P x ∧ q = p ∧ d' = d :=
  ⟨fun ⟨_, ⟨rfl, same⟩, h⟩ => ⟨h, same⟩, fun ⟨h, same⟩ => ⟨x, ⟨rfl, same⟩, h⟩⟩

@[simp] theorem pure_iff {a b : α} :
    CoverRuns s (pure a) p d b q d' ↔ b = a ∧ q = p ∧ d' = d := by
  simp only [CoverRuns, StateT.run_pure, Runs.pure_iff, Prod.mk.injEq, and_assoc]
  rw [and_comm (a := d' = d)]

@[simp ↓] theorem bind_iff {m : CoverM α} {f : α → CoverM β} {b : β} :
    CoverRuns s (m >>= f) p d b q d' ↔
      ∃ a r e, CoverRuns s m p d a r e ∧ CoverRuns s (f a) r e b q d' := by
  simp only [CoverRuns, StateT.run_bind, Runs.bind_iff, Prod.exists]
  constructor
  · rintro ⟨a, e, r, h⟩
    exact ⟨a, r, e, h⟩
  · rintro ⟨a, r, e, h⟩
    exact ⟨a, e, r, h⟩

@[simp ↓ high] theorem bind_unit_iff {m : CoverM PUnit} {f : PUnit → CoverM β} {b : β} :
    CoverRuns s (m >>= f) p d b q d' ↔
      ∃ r e, CoverRuns s m p d ⟨⟩ r e ∧ CoverRuns s (f ⟨⟩) r e b q d' := by
  rw [bind_iff, Runs.exists_unit]

/-- A step that succeeds from every state is taken at once. -/
@[simp ↓ 20000] theorem succeeds_bind_iff {m : ParseM α} {value : Setting → Parser → α}
    {after : Setting → Parser → Parser} [Succeeds m value after] {f : α → CoverM β} {b : β} :
    CoverRuns s (liftM m >>= f) p d b q d' ↔ CoverRuns s (f (value s p)) (after s p) d b q d' := by
  have unfolded : (liftM m : CoverM α).run d = m >>= fun a => pure (a, d) := rfl
  simp only [CoverRuns, StateT.run_bind, unfolded, bind_assoc, pure_bind, ↓Runs.succeeds_bind_iff]

theorem nested_iff {m : CoverM α} {a : α} :
    CoverRuns s (fun d => ParseM.nested (m d)) p d a q d' ↔ p.nesting < ParseM.maxDepth ∧
      ∃ r, CoverRuns s m { p with nesting := p.nesting + 1 } d a r d' ∧ q = { r with nesting := r.nesting - 1 } :=
  Runs.nested_iff

@[simp] theorem map_iff {m : CoverM α} {f : α → β} {b : β} :
    CoverRuns s (f <$> m) p d b q d' ↔ ∃ a, CoverRuns s m p d a q d' ∧ b = f a := by
  rw [map_eq_pure_bind]
  simp only [bind_iff, pure_iff]
  constructor
  · rintro ⟨a, r, e, run, rfl, rfl, rfl⟩
    exact ⟨a, run, rfl⟩
  · rintro ⟨a, run, rfl⟩
    exact ⟨a, q, d', run, rfl, rfl, rfl⟩

@[simp] theorem liftM_iff {m : ParseM α} {a : α} :
    CoverRuns s (liftM m : CoverM α) p d a q d' ↔ Runs s m p a q ∧ d' = d := by
  have unfolded : (liftM m : CoverM α).run d = m >>= fun a => pure (a, d) := rfl
  simp only [CoverRuns, unfolded, Runs.bind_iff, Runs.pure_iff, Prod.mk.injEq]
  constructor
  · rintro ⟨b, r, run, ⟨rfl, rfl⟩, rfl⟩
    exact ⟨run, rfl⟩
  · rintro ⟨run, rfl⟩
    exact ⟨a, q, run, ⟨rfl, rfl⟩, rfl⟩

@[simp high] theorem pure_eat_iff {c : Bool} {k : TokenKind} {b : Bool} :
    CoverRuns s (pure c <&&> liftM (ParseM.eat k) : CoverM Bool) p d b q d' ↔
      ((b = true ∧ (c = true ∧ p.lexer.kind = k) ∧ Runs s ParseM.next p ⟨⟩ q) ∨
        (b = false ∧ (c = true → p.lexer.kind ≠ k) ∧ q = p)) ∧ d' = d := by
  cases c
  · simp [andM, toBool, and_assoc]
  · simp [andM, toBool, and_comm]

@[simp] theorem get_iff {x : Option Deferred} :
    CoverRuns s get p d x q d' ↔ x = d ∧ q = p ∧ d' = d := by
  have unfolded : (get : CoverM (Option Deferred)).run d = pure (d, d) := rfl
  simp only [CoverRuns, unfolded, Runs.pure_iff, Prod.mk.injEq, and_assoc]
  rw [and_comm (a := d' = d)]

@[simp] theorem set_iff {x : Option Deferred} {u : PUnit} :
    CoverRuns s (set x) p d u q d' ↔ q = p ∧ d' = x := by
  have unfolded : (set x : CoverM PUnit).run d = pure (⟨⟩, x) := rfl
  simp only [CoverRuns, unfolded, Runs.pure_iff, Prod.mk.injEq, true_and]
  rw [and_comm]

@[simp] theorem getThe_iff {x : Parser} :
    CoverRuns s (getThe Parser) p d x q d' ↔ x = p ∧ q = p ∧ d' = d := by
  have lifted : (getThe Parser : CoverM Parser) = liftM (get : ParseM Parser) := rfl
  rw [lifted, liftM_iff, Runs.get_iff, and_assoc]

@[simp] theorem modifyThe_iff {f : Parser → Parser} {u : PUnit} :
    CoverRuns s (modifyThe Parser f) p d u q d' ↔ q = f p ∧ d' = d := by
  have lifted : (modifyThe Parser f : CoverM PUnit) = liftM (modify f : ParseM PUnit) := rfl
  rw [lifted, liftM_iff, Runs.modify_iff]

@[simp] theorem amend_iff {f : Deferred → Deferred} {u : PUnit} :
    CoverRuns s (CoverM.amend f) p d u q d' ↔ q = p ∧ d' = d.map f := by
  have unfolded : (CoverM.amend f).run d = pure (⟨⟩, d.map f) := rfl
  simp only [CoverRuns, unfolded, Runs.pure_iff, Prod.mk.injEq, true_and]
  rw [and_comm]

/-- A step is taken first if a condition holds. -/
@[simp ↓ high] theorem when_iff {c : Prop} [Decidable c] {m : CoverM PUnit} {rest : CoverM β} {b : β} :
    CoverRuns s (if c then m >>= fun _ => rest else rest) p d b q d' ↔
      ∃ r e, ((c ∧ CoverRuns s m p d ⟨⟩ r e) ∨ (¬ c ∧ r = p ∧ e = d)) ∧ CoverRuns s rest r e b q d' := by
  by_cases h : c <;> simp [h]

@[simp ↓ high] theorem unless_iff {c : Prop} [Decidable c] {m : CoverM PUnit} {rest : CoverM β} {b : β} :
    CoverRuns s (if c then rest else m >>= fun _ => rest) p d b q d' ↔
      ∃ r e, ((c ∧ r = p ∧ e = d) ∨ (¬ c ∧ CoverRuns s m p d ⟨⟩ r e)) ∧ CoverRuns s rest r e b q d' := by
  by_cases h : c <;> simp [h]

@[simp ↓] theorem ite_iff {c : Prop} [Decidable c] {m n : CoverM α} {a : α} :
    CoverRuns s (if c then m else n) p d a q d' ↔
      c ∧ CoverRuns s m p d a q d' ∨ ¬ c ∧ CoverRuns s n p d a q d' := by
  by_cases h : c <;> simp [h]

@[simp] theorem mustBePattern_iff {b : Bool} :
    CoverRuns s CoverM.mustBePattern p d b q d' ↔ b = d.any (·.mustBePattern) ∧ q = p ∧ d' = d := by
  simp [CoverM.mustBePattern]

@[simp] theorem checkExpression_iff {u : PUnit} :
    CoverRuns s CoverM.checkExpression p d u q d' ↔
      (∀ x, d = some x → x.mustBePattern = false) ∧ q = p ∧ d' = d := by
  cases d <;> simp [CoverM.checkExpression, and_assoc, Deferred.expressionComplaint?_eq_none_iff]

@[simp] theorem alone_iff {m : CoverM α} {a : α} :
    Runs s m.alone p a q ↔ ∃ e, CoverRuns s m p none a q e := by
  simp [CoverM.alone, CoverRuns]

@[simp] theorem deferring_iff {x : Deferred} {m : CoverM α} {y : α × Deferred} :
    Runs s (CoverM.deferring x m) p y q ↔
      ∃ e, CoverRuns s m p (some x) y.1 q e ∧ y.2 = e.getD {} := by
  obtain ⟨a, z⟩ := y
  simp only [CoverM.deferring, CoverRuns, Runs.bind_iff, Prod.exists, Runs.pure_iff, Prod.mk.injEq]
  constructor
  · rintro ⟨b, e, r, run, ⟨rfl, rfl⟩, rfl⟩
    exact ⟨e, run, rfl⟩
  · rintro ⟨e, run, rfl⟩
    exact ⟨a, e, q, run, ⟨rfl, rfl⟩, rfl⟩

/-! ### Repeating -/

section Repeating

variable {pass : α → CoverM (Pass α β)} {a : α} {b : β}

theorem of_loop (Inv : α → Parser → Option Deferred → Prop) {fuel : Nat} (start : Inv a p d)
    (again : ∀ {a b p q d d'}, Inv a p d → CoverRuns s (pass a) p d (.again b) q d' → Inv b q d')
    (run : CoverRuns s (ParseM.loop pass fuel a) p d b q d') :
    ∃ last r e, Inv last r e ∧ CoverRuns s (pass last) r e (.done b) q d' := by
  induction fuel generalizing a p d with
  | zero =>
    simp only [ParseM.loop] at run
    exact (Runs.unexpected_iff (liftM_iff.mp run).1).elim
  | succ fuel ih =>
    simp only [ParseM.loop, bind_iff] at run
    obtain ⟨step, r, e, first, rest⟩ := run
    cases step with
    | again next => exact ih (again start first) rest
    | done result =>
      obtain ⟨rfl, rfl, rfl⟩ := pure_iff.mp rest
      exact ⟨a, p, d, start, first⟩

theorem of_repeatPast (Inv : α → Parser → Option Deferred → Prop) (start : Inv a p d)
    (again : ∀ {a b p q d d'}, Inv a p d → CoverRuns s (pass a) p d (.again b) q d' → Inv b q d')
    (run : CoverRuns s (ParseM.repeatPast a pass) p d b q d') :
    ∃ last r e, Inv last r e ∧ CoverRuns s (pass last) r e (.done b) q d' := by
  simp only [ParseM.repeatPast, bind_iff] at run
  obtain ⟨_, r, e, look, run⟩ := run
  obtain ⟨seen, rfl⟩ := liftM_iff.mp look
  obtain ⟨-, rfl⟩ := Runs.source_iff.mp seen
  exact of_loop Inv start again run

end Repeating

end CoverRuns
end ScriptSyntax
