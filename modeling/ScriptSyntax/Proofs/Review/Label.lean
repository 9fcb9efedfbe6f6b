import ScriptSyntax.Proofs.Review.Statement

/-!
Labels in front of a statement: they are told what it is when it begins, and go away when it ends.
-/

namespace ScriptSyntax

open Node ParseM Grammar

variable {s : Setting} {p q : Parser} {b : Bool} {ns : List Node} {log new : Log} {a body : Statement}
  {label : Identifier} {labels outer : List Label} {l : Label}

/-! ### The label of a statement -/

theorem Label.accepts_of_catches {span : Span} {j : Jump} (name : l.name = some label.name)
    (kind : l.kind = body.labelKind?) (caught : (Statement.labeledStatement span label body).catches j = true) :
    l.accepts j.isBreak j.target = true := by
  obtain ⟨isBreak, target⟩ := j
  cases target with
  | none => simp [Statement.catches, Statement.isLoop, Statement.isSwitch] at caught
  | some target =>
    obtain ⟨rfl, ends⟩ : label.name = target ∧ (isBreak = true ∨ body.unlabeled.isLoop = true) := by
      simpa [Statement.catches] using caught
    rcases ends with rfl | loop
    · simp [accepts, name]
    · simp [accepts, name, kind, Statement.labelKind?, loop]

/-- A label does not accept a jump that comes out of its statement. -/
theorem Label.not_accepts {span : Span} {j : Jump} {pos : Nat} (name : l.name = some label.name)
    (kind : l.kind = body.labelKind?) (has : (Node.statement body).Has (.jump j pos .free))
    (missed : (Statement.labeledStatement span label body).catches j = false) :
    l.accepts j.isBreak j.target = false := by
  cases target : j.target with
  | none => exact target ▸ accepts_unnamed kind has target
  | some t =>
    have other (same : label.name = t) : j.isBreak = false ∧ body.unlabeled.isLoop = false := by
      simpa [Statement.catches, target, same] using missed
    by_cases same : label.name = t
    · obtain ⟨goes, noLoop⟩ := other same
      have noKind : l.kind ≠ some .loop := by
        rw [kind, Statement.labelKind?, if_neg (by simp [noLoop])]
        split <;> simp
      simp [accepts, goes, noKind]
    · simp [accepts, name, same]

/-- The label goes away with its statement, if no label around has its name. -/
theorem Trace.labeled {span : Span} (h : Trace s { p with labels } q b [.statement body] log)
    (known : q.labels = l :: outer) (name : l.name = some label.name) (kind : l.kind = body.labelKind?)
    (fresh : ∀ l ∈ outer, l.name ≠ some label.name) :
    Trace s p { q with labels := outer } b [.statement (.labeledStatement span label body)] log :=
  { (h.weaken (fun h => h) (List.forall_mem_nil _)).popped known (by simp) with
    marks := by
      rw [List.forall_mem_singleton]
      intro k has
      cases has with
      | jump is => cases is
      | label => exact fun _ => fresh
      | @inside c _ k child has =>
        simp only [children, Statement.children, List.mem_cons, List.not_mem_nil, or_false] at child
        rcases child with rfl | rfl
        · obtain ⟨c, child, -⟩ := has.of_isPlain rfl
          cases child
        · have admits := known ▸ h.marks _ (.head _) k has
          refine (admits.through (n := .statement (.labeledStatement span label body)) (fun _ => rfl)
            (fun boundary => by cases boundary) (fun j caught => ?_) fun t same => ?_).tail fun j pos same => ?_
          · simp [Label.accepts_of_catches name kind caught]
          · exact ⟨l, .head _, name.trans same⟩
          · obtain ⟨rfl, -, missed⟩ := Mark.free_of_through same
            exact Label.not_accepts name kind has missed }

/-! ### What a statement is -/

/-- The labels in front of a statement of a known kind are not changed. -/
theorem Since.labeled (h : Since s p b [.statement a] q log) (front : p.Front)
    (kind : a.labelKind? = LabelKind.ofToken? p.lexer.kind) : Labeled s p a q log where
  labels := ⟨p.lexer.token.start, by rw [h.1, relabel_same fun l mem here => kind ▸ front l mem here]⟩
  trace := h.2.weaken (by simp) fun _ mem => .of_mem mem

/-- The step gives statements that are known as `kind` to the labels in front of them. -/
def ReturnsKind (s : Setting) (kind : Option LabelKind) (m : ParseM Statement) : Prop :=
  Returns s m fun a => a.labelKind? = kind

namespace ReturnsKind

variable {α : Type} {kind : Option LabelKind} {g : Grammar} {start : NodeStart}

theorem after {m : ParseM α} {f : α → ParseM Statement} (next : ∀ a, ReturnsKind s kind (f a)) :
    ReturnsKind s kind (m >>= f) := Returns.after next

protected theorem pure (h : a.labelKind? = kind) : ReturnsKind s kind (pure a) := Returns.pure h

theorem ite {c : Prop} [Decidable c] {m n : ParseM Statement} (yes : ReturnsKind s kind m) (no : ReturnsKind s kind n) :
    ReturnsKind s kind (if c then m else n) := Returns.ite yes no

/-- The last step before the statement gives where it lies. -/
theorem finish {f : Span → Statement} (h : ∀ span, (f span).labelKind? = kind) :
    ReturnsKind s kind (do return f (← finishSpan start)) := after fun span => .pure (h span)

theorem debuggerStatement : ReturnsKind s none (debuggerStatement start) :=
  after fun _ => after fun _ => finish fun _ => rfl

theorem expressionStatement {e : Expression} : ReturnsKind s none (expressionStatement start e) :=
  after fun _ => finish fun _ => rfl

theorem declaration {kind : VariableKind} : ReturnsKind s none (g.declaration start kind) :=
  after fun _ => after fun _ => after fun _ => finish fun _ => rfl

theorem variableStatement {kind : VariableKind} {context : Option StatementContext} :
    ReturnsKind s none (g.variableStatement start kind context) := ite (after fun _ => declaration) declaration

theorem functionStatement {isAsync hanging : Bool} :
    ReturnsKind s none (g.functionStatement start isAsync hanging) :=
  after fun _ => after fun _ => .pure rfl

theorem doWhileStatement : ReturnsKind s (some .loop) (g.doWhileStatement start) :=
  after fun _ => after fun _ => after fun _ => after fun _ => after fun _ =>
    ite (after fun _ => finish fun _ => rfl) (after fun _ => finish fun _ => rfl)

theorem whileStatement : ReturnsKind s (some .loop) (g.whileStatement start) :=
  after fun _ => after fun _ => after fun _ => finish fun _ => rfl

theorem withStatement : ReturnsKind s none (g.withStatement start) :=
  after fun _ => ite (after fun _ => after fun _ => after fun _ => after fun _ => after fun _ => finish fun _ => rfl)
    (after fun _ => after fun _ => after fun _ => finish fun _ => rfl)

theorem ifStatement : ReturnsKind s none (g.ifStatement start) :=
  after fun _ => after fun _ => after fun _ => after fun _ =>
    ite (after fun _ => finish fun _ => rfl) (after fun _ => finish fun _ => rfl)

theorem returnStatement : ReturnsKind s none (g.returnStatement start) := by
  have rest : ReturnsKind s none (do
      next
      if ← eat .semi <||> canOmitSemicolon then return .returnStatement (← finishSpan start) none
      else
        let argument ← g.plainExpression .plain
        semicolon
        return .returnStatement (← finishSpan start) (some argument)) :=
    after fun _ => after fun _ => ite (finish fun _ => rfl) (after fun _ => after fun _ => finish fun _ => rfl)
  exact after fun _ => after fun _ => ite rest (after fun _ => after fun _ => rest)

theorem throwStatement : ReturnsKind s none (g.throwStatement start) := by
  have rest : ReturnsKind s none (do
      let argument ← g.plainExpression .plain
      semicolon
      return .throwStatement (← finishSpan start) argument) := after fun _ => after fun _ => finish fun _ => rfl
  exact after fun _ => after fun _ => ite (after fun _ => after fun _ => rest) rest

theorem switchStatement : ReturnsKind s (some .switch) (g.switchStatement start) :=
  after fun _ => after fun _ => after fun _ => after fun _ => after fun _ => after fun _ => after fun _ =>
    after fun _ => finish fun _ => rfl

theorem tryStatement : ReturnsKind s none (g.tryStatement start) := by
  have ends (block : Block) (handler : Option CatchClause) (finalizer : Option Block) : ReturnsKind s none (do
      if handler.isNone && finalizer.isNone then fail start.pos .missingCatch
      return .tryStatement (← finishSpan start) block handler finalizer) :=
    ite (after fun _ => finish fun _ => rfl) (finish fun _ => rfl)
  have rest (block : Block) (handler : Option CatchClause) : ReturnsKind s none (do
      let finalizer ← if ← eat .kwFinally then some <$> g.block else pure none
      if handler.isNone && finalizer.isNone then fail start.pos .missingCatch
      return .tryStatement (← finishSpan start) block handler finalizer) :=
    after fun _ => ite (after fun _ => ends _ _ _) (after fun _ => ends _ _ _)
  exact after fun _ => after fun _ => after fun _ => ite (after fun _ => rest _ _) (after fun _ => rest _ _)

end ReturnsKind

theorem Tracks.labeled {P : Parser → Log → Prop} {m₀ m₁ : ParseM Statement}
    (h : Tracks s P m₀ m₁ fun a => Since s p b [.statement a]) (front : p.Front)
    (kind : ReturnsKind s (LabelKind.ofToken? p.lexer.kind) m₁) : Tracks s P m₀ m₁ (Labeled s p) :=
  (h.having fun q _ _ => kind q).weaken fun _ _ _ after => after.2.labeled front after.1

/-- A token that labels may stand before is moved past if it is there. -/
theorem Tracks.eatPast {kind : TokenKind} (solid : kind.isSolid = true) :
    Tracks s (Since s p false ns) (eat kind) (eat kind) fun here => Since s p here ns :=
  .resume fun q log before => (eatAt before.2.ready solid).weaken fun here r new after => by
    cases here with
    | true => simpa using before.trans after
    | false =>
      obtain ⟨rfl, rfl⟩ := after
      simpa using before

namespace Grammar.Reviewed

variable {g₀ g₁ : Grammar} (hg : g₀.Reviewed s g₁)
include hg

/-! ### Statements with labels -/

theorem labeledStatement {start : NodeStart} {context : Option StatementContext} (ready : Steady s q)
    (behind : q.Behind) :
    Tracks s (At q) (g₀.labeledStatement start label context) (g₁.labeledStatement start label context)
      fun a r log => (∃ inner, r.labels = relabel start.pos inner a.labelKind? q.labels) ∧
        Trace s q r false [.statement a] log := by
  refine .seesAt (.ite (fun _ => .fails (.bind .fail) (.bind .fail)) fun fresh => .lookAt .kind fun kind same =>
    .lookAt .tokenStart fun inner here => .change (fun _ => rfl) (fun _ => rfl) ?_)
  obtain rfl : kind = q.lexer.kind := by simpa [eq_comm] using same
  obtain rfl : inner = q.lexer.token.start := by simpa [eq_comm] using here
  have outer : ∀ l ∈ relabel start.pos q.lexer.token.start (LabelKind.ofToken? q.lexer.kind) q.labels,
      ∀ n ∈ l.statementStart, n < q.lexer.token.start ∨
        n = q.lexer.token.start ∧ l.kind = LabelKind.ofToken? q.lexer.kind := by
    intro l mem n begins
    obtain ⟨l', mem, -, rfl | ⟨start, kind⟩⟩ := mem_relabel mem
    · exact .inl (behind l mem n begins)
    · exact .inr ⟨Option.some.inj (begins.symm.trans start), kind⟩
  refine Tracks.bind (R := Labeled s _) (hg.statement _ false _ ⟨ready.plain, ready.ordered, ready.enclosed, ?_⟩ ?_)
    fun body => ?_
  · rintro l (_ | ⟨_, mem⟩) n begins
    · exact Nat.le_of_eq (Option.some.inj begins).symm
    · rcases outer l mem n begins with before | ⟨rfl, -⟩
      · exact Nat.le_of_lt before
      · exact Nat.le_refl _
  · rintro l (_ | ⟨_, mem⟩) begins
    · rfl
    · rcases outer l mem _ begins with before | ⟨-, kind⟩
      · exact absurd before (Nat.lt_irrefl _)
      · exact kind
  · refine (Tracks.modifies (f := fun p => { p with labels := p.labels.tail }) (fun _ => rfl) fun _ => rfl).bind
      fun _ => .look .finishSpan fun span => .pure ?_
    rintro _ log ⟨r, ⟨⟨inner, labels⟩, trace⟩, rfl⟩
    have popped : r.labels.tail = relabel start.pos inner body.labelKind? q.labels := by
      simp only [labels, relabel, if_true, List.tail_cons]
      exact relabel_relabel behind
    refine ⟨⟨inner, popped⟩, ?_⟩
    rw [popped]
    refine trace.labeled (l := ⟨some label.name, body.labelKind?, some inner⟩) ?_ rfl rfl fun l mem same => ?_
    · simp only [labels, relabel, if_true]
      rw [relabel_relabel behind]
    · obtain ⟨l', mem, name, -⟩ := mem_relabel mem
      exact fresh (List.any_eq_true.mpr ⟨l', mem, by simp [← name, same]⟩)

theorem expressionOrLabel {start : NodeStart} {context : Option StatementContext} (ready : Steady s p)
    (front : p.Front) (here : start.pos = p.lexer.token.start) (word : LabelKind.ofToken? p.lexer.kind = none) :
    Tracks s (At p) (g₀.expressionOrLabel start context) (g₁.expressionOrLabel start context) (Labeled s p) := by
  have ends (e : Expression) : Tracks s (Since s p false [.expression e]) (expressionStatement start e)
      (expressionStatement start e) (Labeled s p) :=
    .labeled expressionStatement_tracks front (word ▸ .expressionStatement)
  refine .start ready (.look .isKind fun atName => .adds hg.plainExpression fun e => ?_)
  split
  · next label =>
    have colon : Tracks s (Since s p false [.expression (.identifier label)])
        (Pure.pure atName <&&> eat .colon) (Pure.pure atName <&&> eat .colon)
        fun here => Since s p here [.expression (.identifier label)] := by
      cases atName with
      | true => exact .given (.eatPast rfl)
      | false => exact .given (.pure fun _ _ => id)
    refine colon.bind fun here => .ite (fun yes => ?_) fun no => ?_
    · subst yes
      refine .resume fun q log before => (hg.labeledStatement before.2.ready (before.2.behind rfl)).weaken ?_
      rintro a r new ⟨⟨inner, labels⟩, trace⟩
      refine ⟨⟨inner, by rw [labels, here, before.1]⟩, ?_⟩
      have unmarked : Trace s p q false [] log := before.2.weaken (by simp) (by simp)
      exact unmarked.trans trace (by simp)
    · simp only [Bool.not_eq_true] at no
      subst no
      exact ends _
  · exact ends _

theorem wordStatement {start : NodeStart} {context : Option StatementContext} (ready : Steady s p)
    (front : p.Front) (here : start.pos = p.lexer.token.start) (word : LabelKind.ofToken? p.lexer.kind = none) :
    Tracks s (At p) (g₀.wordStatement start context) (g₁.wordStatement start context) (Labeled s p) := by
  have plain {b : Bool} {m₀ m₁ : ParseM Statement}
      (h : Tracks s (Since s p false []) m₀ m₁ fun a => Since s p b [.statement a])
      (kind : ReturnsKind s none m₁) : Tracks s (At p) m₀ m₁ (Labeled s p) :=
    .start ready (.labeled h front (word ▸ kind))
  refine .look .atAsyncFunction fun _ => .ite (fun _ => plain (b := false) ?_ ?_) fun _ => .look .atAwaitUsing fun _ =>
    .ite (fun _ => plain (b := false) ?_ ?_) fun _ => .look .atUsing fun _ =>
      .ite (fun _ => plain (b := false) ?_ ?_) fun _ =>
      hg.expressionOrLabel ready front here word
  · exact .when (.of_fails .unexpected) <| .quiet .next fun _ => hg.functionStatement.since
  · exact .ite (.after fun _ => .after fun _ => .functionStatement) (.after fun _ => .functionStatement)
  · exact .quiet .checkUsing fun _ => .quiet .awaitBeforeUsing fun _ => hg.declaration.since
  · exact .after fun _ => .after fun _ => .declaration
  · exact .quiet .checkUsing fun _ => hg.declaration.since
  · exact .after fun _ => .declaration

end Grammar.Reviewed
end ScriptSyntax
