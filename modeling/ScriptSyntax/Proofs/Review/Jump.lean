import ScriptSyntax.Parser.Statement
import ScriptSyntax.Proofs.Review.Operator

/-!
Labels and jumps.  The labels of the parser stand for the statements around a place: a label accepts a
jump just when its statement catches it.  A jump that no label accepts makes the strict reading stop.
-/

namespace ScriptSyntax

open Node ParseM Grammar

variable {s : Setting} {p q : Parser} {b : Bool} {ns : List Node} {n : Node} {log : Log} {l : Label} {j : Jump}
  {pos : Nat}

/-! ### Free jumps -/

namespace Node

theorem Mark.free_of_through {k : Mark} (same : k.through n = .jump j pos .free) :
    k = .jump j pos .free ∧ n.isBoundary = false ∧ n.catches j = false := by
  cases k with
  | jump j' pos' reach =>
    cases reach with
    | free =>
      simp only [Mark.through, Mark.jump.injEq] at same
      obtain ⟨rfl, rfl, same⟩ := same
      split at same
      · cases same
      · next inner =>
        split at same
        · cases same
        · next free => exact ⟨rfl, by simpa using inner, by simpa using free⟩
    | _ => cases same
  | label name near =>
    cases near with
    | true =>
      simp only [Mark.through] at same
      split at same
      · cases same
      · split at same <;> cases same
    | false => cases same
  | _ => cases same

/-- A jump that comes out of a node that is none itself comes out of one of its children, and the node
does not catch it. -/
theorem Has.free_of_child (has : n.Has (.jump j pos .free)) (other : n.jump? = none) :
    ∃ c ∈ n.children, c.Has (.jump j pos .free) ∧ n.catches j = false := by
  obtain ⟨k, same⟩ : ∃ k, k = Mark.jump j pos .free := ⟨_, rfl⟩
  rw [← same] at has
  cases has with
  | jump is => simp [Node.jump?, is] at other
  | @inside c n k child has =>
    obtain ⟨rfl, -, free⟩ := Mark.free_of_through same
    exact ⟨c, child, has, free⟩
  | _ => cases same

/-- Jumps without a label do not come out of what labels in front of a statement take it for. -/
theorem Has.unnamed_jump : ∀ {a : Statement}, (statement a).Has (.jump j pos .free) → j.target = none →
    a.labelKind? ≠ some .loop ∧ (a.labelKind? = some .switch → j.isBreak = false)
  | .labeledStatement .., has, unnamed => by
    obtain ⟨c, child, has, -⟩ := has.free_of_child rfl
    simp only [children, Statement.children, List.mem_cons, List.not_mem_nil, or_false] at child
    rcases child with rfl | rfl
    · obtain ⟨c, child, -⟩ := has.free_of_child rfl
      cases child
    · exact has.unnamed_jump unnamed
  | .whileStatement .., has, unnamed | .doWhileStatement .., has, unnamed | .forStatement .., has, unnamed
  | .forInStatement .., has, unnamed | .forOfStatement .., has, unnamed => by
    obtain ⟨c, -, -, free⟩ := has.free_of_child rfl
    simp [catches, Statement.catches, unnamed, Statement.isLoop] at free
  | .switchStatement .., has, unnamed => by
    obtain ⟨c, -, -, free⟩ := has.free_of_child rfl
    refine ⟨by simp [Statement.labelKind?, Statement.unlabeled, Statement.isLoop, Statement.isSwitch], fun _ => ?_⟩
    simpa [catches, Statement.catches, unnamed, Statement.isLoop, Statement.isSwitch] using free
  | .expressionStatement .., _, _ | .block .., _, _ | .emptyStatement .., _, _ | .debuggerStatement .., _, _
  | .withStatement .., _, _ | .returnStatement .., _, _ | .breakStatement .., _, _ | .continueStatement .., _, _
  | .ifStatement .., _, _ | .throwStatement .., _, _ | .tryStatement .., _, _ | .functionDeclaration .., _, _
  | .variableDeclaration .., _, _ | .classDeclaration .., _, _ | .importDeclaration .., _, _
  | .exportNamed .., _, _ | .exportDefault .., _, _ | .exportAll .., _, _ => by
    simp [Statement.labelKind?, Statement.unlabeled, Statement.isLoop, Statement.isSwitch]

end Node

/-- A label does not accept a jump without a label that comes out of its statement. -/
theorem Label.accepts_unnamed {a : Statement} (kind : l.kind = a.labelKind?)
    (has : (Node.statement a).Has (.jump j pos .free)) (unnamed : j.target = none) :
    l.accepts j.isBreak j.target = false := by
  obtain ⟨noLoop, noBreak⟩ := has.unnamed_jump unnamed
  simp only [accepts, unnamed, kind]
  cases h : a.labelKind? with
  | none => rfl
  | some k =>
    cases k with
    | loop => exact absurd h noLoop
    | switch => simp [noBreak h]

/-! ### Relabeling -/

section Relabeling

variable {labels : List Label} {start inner inner' : Nat} {kind kind' : Option LabelKind}

theorem relabel_relabel (before : ∀ l ∈ labels, ∀ n ∈ l.statementStart, n < inner) :
    relabel inner inner' kind' (relabel start inner kind labels) = relabel start inner' kind' labels := by
  induction labels with
  | nil => rfl
  | cons l outer ih =>
    by_cases here : l.statementStart = some start
    · simp [relabel, here, ih fun l mem => before l (.tail _ mem)]
    · have other : l.statementStart ≠ some inner := fun same =>
        absurd (before l (.head _) inner same) (Nat.lt_irrefl _)
      simp [relabel, here, other]

/-- Labels that know what their statement is are not changed. -/
theorem relabel_same (known : ∀ l ∈ labels, l.statementStart = some start → l.kind = kind) :
    relabel start start kind labels = labels := by
  induction labels with
  | nil => rfl
  | cons l outer ih =>
    by_cases here : l.statementStart = some start
    · have same : { l with statementStart := some start, kind := kind } = l := by
        obtain ⟨name, k, n⟩ := l
        simp [← known _ (.head _) here, ← here]
      simp [relabel, here, same, ih fun l mem => known l (.tail _ mem)]
    · simp [relabel, here]

theorem mem_relabel {l : Label} (mem : l ∈ relabel start inner kind labels) :
    ∃ l' ∈ labels, l.name = l'.name ∧ (l = l' ∨ l.statementStart = some inner ∧ l.kind = kind) := by
  induction labels with
  | nil => cases mem
  | cons first outer ih =>
    by_cases here : first.statementStart = some start
    · simp only [relabel, here, if_true] at mem
      rcases List.mem_cons.mp mem with rfl | mem
      · exact ⟨first, .head _, rfl, .inr ⟨rfl, rfl⟩⟩
      · obtain ⟨l', mem, same⟩ := ih mem
        exact ⟨l', .tail _ mem, same⟩
    · simp only [relabel, here, if_false] at mem
      exact ⟨l, mem, rfl, .inl rfl⟩

end Relabeling

/-! ### Loops and switches -/

/-- Are jumps without a label that meet a loop accepted by the labels at `p`? -/
def Parser.InLoop (p : Parser) : Prop := ∃ outer, p.labels = .anonymous .loop :: outer

theorem Parser.InLoop.accepts (h : p.InLoop) (unnamed : j.target.isNone = true) :
    p.labels.any (·.accepts j.isBreak j.target) = true := by
  obtain ⟨outer, same⟩ := h
  simp [same, Label.accepts, Label.anonymous, unnamed]

/-- A loop with all that was read in it. -/
theorem Since.loop {a : Statement} (h : Since s p b ns q log) (inLoop : p.InLoop) (loop : a.isLoop = true)
    (children : ∀ c ∈ a.children, c.Covered ns) : Since s p b [.statement a] q log := by
  obtain ⟨boundary, catches, -, silent⟩ := inner_of_isLoop loop
  refine ⟨h.1, h.2.around silent children (fun outer => by simp [boundary] at outer) fun j caught => ?_⟩
  rw [h.1]
  exact inLoop.accepts (catches j ▸ caught)

/-- A label without a name is taken away when its statement is read. -/
theorem AddsBehind.withAnonymous {kind : LabelKind} {α : Type} {m₀ m₁ : ParseM α} {N : α → Statement}
    (h : ∀ p outer, Steady s p → p.Behind → p.labels = .anonymous kind :: outer →
      Tracks s (At p) m₀ m₁ fun a q log => (N a).labelKind? = some kind ∧ Since s p b [.statement (N a)] q log) :
    AddsBehind s b
      (do
        pushLabel (.anonymous kind)
        let a ← m₀
        popLabel
        return a)
      (do
        pushLabel (.anonymous kind)
        let a ← m₁
        popLabel
        return a) fun a => [.statement (N a)] := by
  intro p ready behind
  have nowhere : ∀ l ∈ Label.anonymous kind :: p.labels, ∀ n ∈ l.statementStart, n < p.lexer.token.start := by
    rintro l (_ | ⟨_, mem⟩) n start
    · cases start
    · exact behind l mem n start
  have ready' : Steady s { p with labels := .anonymous kind :: p.labels } :=
    ⟨ready.plain, ready.ordered, ready.enclosed, fun l mem n start => Nat.le_of_lt (nowhere l mem n start)⟩
  refine .change (fun _ => rfl) (fun _ => rfl) ((h _ _ ready' nowhere rfl).bind fun a => ?_)
  refine (Tracks.modifies (f := fun p => { p with labels := p.labels.tail }) (fun _ => rfl) fun _ => rfl).bind
    fun _ => .pure ?_
  rintro _ log ⟨q, ⟨known, since⟩, rfl⟩
  have labels : q.labels.tail = p.labels := by simp [since.1]
  refine ⟨labels, ?_⟩
  rw [labels]
  refine since.2.popped since.1 fun n mem j pos has => ?_
  obtain rfl := List.mem_singleton.mp mem
  cases target : j.target with
  | none => exact target ▸ Label.accepts_unnamed known.symm has target
  | some name => simp [Label.accepts, Label.anonymous]

/-- The nodes of the cases of a switch so far. -/
def Grammar.SwitchProgress.nodes (progress : SwitchProgress) : List Node :=
  progress.cases.map .switchCase ++
    progress.current.toList.flatMap fun c => c.test.toList.map .expression ++ c.body.map .statement

namespace Grammar.Reviewed

variable {g₀ g₁ : Grammar} (hg : g₀.Reviewed s g₁)
include hg

theorem body_behind {context : StatementContext} :
    AddsBehind s false (g₀.body context) (g₁.body context) fun a => [.statement a] := hg.statement_behind

/-- The body of a loop shows the marks of a loop. -/
theorem loopBody :
    AddsBehind s true g₀.loopBody g₁.loopBody fun a => [.statement (.whileStatement a.span (.this a.span) a)] := by
  refine .withAnonymous fun p outer ready behind labels => ?_
  refine .startBehind ready behind (hg.body_behind.since.weaken fun a q log after => ⟨rfl, ?_⟩)
  refine after.loop ⟨outer, labels⟩ rfl fun c child => ?_
  simp only [Statement.children, List.mem_cons, List.not_mem_nil, or_false] at child
  rcases child with rfl | rfl
  · exact .childless rfl rfl
  · exact .of_mem (.head _)

/-! ### `switch` -/

omit hg in
theorem closeCase {progress : SwitchProgress} :
    Tracks s (Since s p b progress.nodes) (closeCase progress) (closeCase progress)
      fun cases => Since s p b (cases.map .switchCase) := by
  unfold Grammar.closeCase
  split
  · next none => exact .done (fun h => h) fun n mem => .of_mem (by simpa [SwitchProgress.nodes, none] using mem)
  · next c current =>
    refine .look .finishSpan fun span => .done (fun h => h)
      (List.forall_mem_cons.mpr ⟨.of_isPlain rfl fun n child => ?_,
      fun n mem => ?_⟩)
    · exact .of_mem (by simp_all [SwitchProgress.nodes, children])
    · exact .of_mem (by simp_all [SwitchProgress.nodes])

theorem caseHead {isDefault : Bool} {progress : SwitchProgress} :
    Tracks s (Since s p b progress.nodes) (g₀.caseHead isDefault progress) (g₁.caseHead isDefault progress)
      fun progress => Since s p b progress.nodes := by
  have rest {cases : List SwitchCase} {start : NodeStart} {hasDefault : Bool} {b : Bool} (test : Option Expression) :
      Tracks s (Since s p b (cases.map .switchCase ++ test.toList.map .expression))
        (do
          expect .colon
          return (⟨cases, some { start, test }, hasDefault⟩ : SwitchProgress))
        (do
          expect .colon
          return (⟨cases, some { start, test }, hasDefault⟩ : SwitchProgress))
        fun progress => Since s p b progress.nodes :=
    .quiet .expect fun _ => .done (fun h => h) fun n mem => .of_mem (by simpa [SwitchProgress.nodes] using mem)
  refine closeCase.bind fun cases => .look .startNode fun _ => .quiet .next fun _ => .ite (fun _ => ?_) fun _ => ?_
  · refine .ite (fun _ => .fails (.after fun _ => .bind .failRecoverable) (.after fun _ => .bind .failRecoverable))
      fun _ => .given ?_
    exact .strengthen (rest none) fun _ _ before => before.weaken (fun h => h) fun _ mem => .of_mem (by simpa using mem)
  · exact .bind (.map (R := fun test => Since s p b (cases.map .switchCase ++ test.toList.map .expression))
      (hg.plainExpression.since.weaken fun _ _ _ after => after.weaken (by simp) fun _ mem => .of_mem mem)) rest

/-- In a switch nothing stands directly behind a label. -/
theorem casePass {progress : SwitchProgress} :
    Tracks s (Since s p true progress.nodes) (g₀.casePass progress) (g₁.casePass progress) (Pass.Ends
      (fun progress => Since s p true progress.nodes) fun cases => Since s p true (cases.map .switchCase)) := by
  refine .look .kind fun _ => ?_
  split
  · refine .quiet .exitScope fun _ => closeCase.bind fun cases => .pure fun _ _ before => ?_
    exact before.weaken (fun h => h) fun n mem => .of_mem (by simpa using mem)
  · exact hg.caseHead.bind fun _ => .pure fun _ _ => id
  · exact hg.caseHead.bind fun _ => .pure fun _ _ => id
  · split
    · exact .fails .unexpected .unexpected
    · next c current =>
      refine .behind hg.statement_behind fun a => .pure fun _ _ before =>
        before.weaken (fun h => h) fun n mem => .of_mem ?_
      simp_all [SwitchProgress.nodes]
      grind

theorem switchCases :
    let step (g : Grammar) : ParseM (List SwitchCase) := do
      pushLabel (.anonymous .switch)
      enterScope { switch := true }
      let cases ← repeatPast ({} : SwitchProgress) g.casePass
      next
      popLabel
      return cases
    AddsBehind s true (step g₀) (step g₁) fun cases =>
      [.statement (.switchStatement default (.this default) cases)] := by
  intro step
  have inner (p : Parser) (outer : List Label) (ready : Steady s p) (behind : p.Behind)
      (labels : p.labels = .anonymous .switch :: outer) : Tracks s (At p)
        (do
          enterScope { switch := true }
          let cases ← repeatPast ({} : SwitchProgress) g₀.casePass
          next
          return cases)
        (do
          enterScope { switch := true }
          let cases ← repeatPast ({} : SwitchProgress) g₁.casePass
          next
          return cases)
        fun cases q log => (Statement.switchStatement default (.this default) cases).labelKind? = some .switch ∧
          Since s p true [.statement (.switchStatement default (.this default) cases)] q log := by
    refine .startBehind ready behind (.quiet .enterScope fun _ => .bind (.repeatPast (a := {})
      (I := fun (progress : SwitchProgress) => Since s p true progress.nodes)
      (Q := fun cases => Since s p true (cases.map .switchCase)) fun _ => hg.casePass) fun cases => ?_)
    refine .quiet .next fun _ => .pure fun q log before =>
      ⟨rfl, before.1, before.2.around rfl (fun c child => ?_) nofun ?_⟩
    · simp only [children, Statement.children, List.mem_cons] at child
      rcases child with rfl | mem
      · exact .childless rfl rfl
      · exact .of_mem mem
    · intro j caught
      rw [before.1, labels]
      cases target : j.target with
      | none =>
        have leaves : j.isBreak = true := by
          simpa [catches, Statement.catches, target, Statement.isLoop, Statement.isSwitch] using caught
        simp [Label.accepts, Label.anonymous, leaves]
      | some name => simp [catches, Statement.catches, target] at caught
  simpa only [bind_assoc, pure_bind] using
    AddsBehind.withAnonymous (N := fun cases => .switchStatement default (.this default) cases) inner

theorem switchStatement {start : NodeStart} :
    Adds s true (g₀.switchStatement start) (g₁.switchStatement start) fun a => [.statement a] := by
  have rest {p : Parser} {discriminant : Expression} : Tracks s (Since s p true [.expression discriminant])
      (do
        pushLabel (.anonymous .switch)
        enterScope { switch := true }
        let cases ← repeatPast ({} : SwitchProgress) g₀.casePass
        next
        popLabel
        return .switchStatement (← finishSpan start) discriminant cases)
      (do
        pushLabel (.anonymous .switch)
        enterScope { switch := true }
        let cases ← repeatPast ({} : SwitchProgress) g₁.casePass
        next
        popLabel
        return .switchStatement (← finishSpan start) discriminant cases)
      fun a => Since s p true [.statement a] := by
    have covered {span : Span} {cases : List SwitchCase} :
        ∀ n ∈ [Node.statement (.switchStatement span discriminant cases)], n.Covered
          ([.expression discriminant] ++ [.statement (.switchStatement default (.this default) cases)]) :=
      List.forall_mem_singleton.mpr (.of_switch (.tail _ (.head _)) (.of_mem (.head _)))
    have whole : Tracks s (Since s p true [.expression discriminant]) _ _ fun a => Since s p true [.statement a] :=
      .behind hg.switchCases fun cases => .look (m := finishSpan start) .finishSpan fun span =>
        .done (a := .switchStatement span discriminant cases) (fun h => h) covered
    simpa only [bind_assoc, pure_bind] using whole
  refine .of fun p => .quiet .next fun _ => .adds hg.parenthesized fun _ => .quiet .expect fun _ => ?_
  exact rest

end Grammar.Reviewed

/-! ### Jumps -/

@[grind ←] theorem Quiet.jumpLabel : Quiet s jumpLabel := by grind [Grammar.jumpLabel]

/-- A jump, wherever it may lead. -/
def Grammar.anyJump (start : NodeStart) (isBreak : Bool) : ParseM Statement := do
  next
  let label ← jumpLabel
  let span ← finishSpan start
  return if isBreak then .breakStatement span label else .continueStatement span label

/-- A token was read since `p`, and no jump in the log lies at it. -/
structure Ahead (s : Setting) (p q : Parser) (log : Log) : Prop where
  since : Since s p true [] q log
  forward : p.lexer.token.start < q.lexer.token.start
  left : s.currentToken p.lexer.toCursor ∈ q.lexer.tokens
  ahead : p.lexer.token.start ∉ log.jumps

theorem Tracks.aheadQuiet {α : Type} {m : ParseM α} (h : Quiet s m) :
    Tracks s (Ahead s p) m m fun _ => Ahead s p := .resume fun q _ before =>
  (h q before.since.2.ready).weaken fun _ _ _ after => by
    have forward := Nat.lt_of_lt_of_le before.forward after.2.token_le
    refine ⟨before.since.trans after, forward, after.2.tokens.mem before.left, fun mem => ?_⟩
    rcases List.mem_append.mp mem with mem | mem
    · exact before.ahead mem
    · exact absurd (after.2.placed.jumps _ mem).1 (Nat.not_le.mpr before.forward)

/-- A jump shows no mark but its own. -/
theorem Node.Has.of_jump {a : Statement} {k : Mark} (has : (Node.statement a).Has k) (is : a.jump? = some j) :
    k = .jump j a.span.start .free := by
  cases has with
  | jump is' => rw [Option.some.inj (is'.symm.trans is)]
  | label => cases is
  | @inside c _ _ child has =>
    have name : ∃ id, c = .identifier id := by
      cases a with
      | breakStatement | continueStatement =>
        obtain ⟨id, -, rfl⟩ := List.mem_map.mp child
        exact ⟨id, rfl⟩
      | _ => cases is
    obtain ⟨id, rfl⟩ := name
    cases has with
    | inside child => cases child

/-- A jump is read; it is in the log unless a label accepts it. -/
theorem Ahead.jump {a : Statement} (h : Ahead s p q log) (is : a.jump? = some j)
    (word : p.lexer.kind = .kwBreak ∨ p.lexer.kind = .kwContinue) (here : a.span.start = p.lexer.token.start)
    (missed : List Nat) (placed : ∀ pos ∈ missed, pos = p.lexer.token.start)
    (known : p.lexer.token.start ∈ missed ↔ q.labels.any (·.accepts j.isBreak j.target) = false) :
    Since s p true [.statement a] q (log ++ { jumps := missed }) where
  left := h.since.1
  right :=
    { h.since.2 with
      names := by simp [h.since.2.names]
      placed :=
        { uses := by simpa using h.since.2.placed.uses
          jumps := fun pos mem => by
            rcases List.mem_append.mp mem with mem | mem
            · exact h.since.2.placed.jumps pos mem
            · rw [placed pos mem]
              exact ⟨Nat.le_refl _, h.forward⟩
          sorted := by simpa using h.since.2.placed.sorted }
      unchecked := by simpa using h.since.2.unchecked
      read := by simpa using h.since.2.read
      jumped := fun pos mem => by
        rcases List.mem_append.mp mem with mem | mem
        · exact h.since.2.jumped pos mem
        · exact ⟨_, h.left, word, (placed pos mem).symm⟩
      marks := by
        rw [List.forall_mem_singleton]
        intro k has
        rw [has.of_jump is, here]
        refine ⟨⟨Nat.le_refl _, h.forward⟩, ?_⟩
        simp only [Log.jumps_append, List.mem_append, h.ahead, false_or]
        exact known }

/-- What is left of a jump once it is read: the strict reading stops unless a label accepts it. -/
theorem Tracks.jumpEnd {start : NodeStart} {isBreak : Bool} {label : Option Identifier}
    (word : p.lexer.kind = .kwBreak ∨ p.lexer.kind = .kwContinue) (here : start.pos = p.lexer.token.start) :
    let done : ParseM Statement := do
      let span ← finishSpan start
      return if isBreak then .breakStatement span label else .continueStatement span label
    let checked : ParseM Statement := do
      unless (← get).labels.any (·.accepts isBreak (label.map (·.name))) do
        fail start.pos (if isBreak then .unsyntacticBreak else .unsyntacticContinue)
      done
    Tracks s (Ahead s p) checked done fun a => Since s p true [.statement a] := by
  intro done checked q log ahead
  obtain ⟨a, is, begins, run, runBare⟩ : ∃ a, a.jump? = some ⟨isBreak, label.map (·.name)⟩ ∧
      a.span.start = start.pos ∧ done s q = .ok a q ∧ done s q.bare = .ok a q.bare :=
    ⟨_, by cases isBreak <;> rfl, by cases isBreak <;> rfl, rfl, rfl⟩
  have begins := begins.trans here
  have strict {accepted : Bool} (same : q.labels.any (·.accepts isBreak (label.map (·.name))) = accepted) :
      checked s q.bare = bif accepted then done s q.bare
        else .error (s.fatal start.pos (if isBreak then .unsyntacticBreak else .unsyntacticContinue)) q.bare := by
    show (if q.labels.any (·.accepts isBreak (label.map (·.name))) = true then done else _ >>= fun _ => done)
      s q.bare = _
    rw [same]
    cases accepted <;> rfl
  simp only [run]
  cases accepted : q.labels.any (·.accepts isBreak (label.map (·.name))) with
  | true =>
    refine ⟨{}, trivial, ahead.jump is word begins [] (by simp) (by simpa using accepted), ?_⟩
    rw [strict accepted, cond_true, runBare]
    exact .passes Log.clean_empty
  | false =>
    refine ⟨{ jumps := [p.lexer.token.start] }, trivial,
      ahead.jump is word begins _ (by simp) (by simpa using accepted), ?_⟩
    rw [strict accepted, cond_false]
    refine .stops (.jump ?_ (congrArg some here.symm))
    cases isBreak
    · exact .inr rfl
    · exact .inl rfl

theorem Grammar.jump_tracks {start : NodeStart} {isBreak : Bool} (ready : Steady s p)
    (word : p.lexer.kind = .kwBreak ∨ p.lexer.kind = .kwContinue) (here : start.pos = p.lexer.token.start) :
    Tracks s (At p) (Grammar.jump start isBreak) (anyJump start isBreak)
      fun a => Since s p true [.statement a] := by
  have solid : p.lexer.kind.isSolid = true := by rcases word with is | is <;> rw [is] <;> rfl
  refine (Tracks.nextAt ready solid).bind fun _ => .strengthen (P := Ahead s p) ?_ ?_
  · exact (Tracks.aheadQuiet .jumpLabel).bind fun label => .jumpEnd word here
  · rintro q log ⟨since, forward, left, rfl⟩
    exact ⟨since, forward, left, List.not_mem_nil⟩

end ScriptSyntax
