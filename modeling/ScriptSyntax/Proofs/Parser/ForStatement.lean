import ScriptSyntax.Parser.ForStatement
import ScriptSyntax.Proofs.Parser.Statement

/-!
Runs that read the three loops that begin with `for`.
-/

namespace ScriptSyntax

open Runs

variable {s : Setting} {p q r : Parser} {g : Grammar} {start : NodeStart} {a : Statement} {l : Lexer}
  {awaitAt : Option Nat}

namespace Grammar.Faithful

variable (hg : g.Faithful s)
include hg

/-- The parenthesis after a head and the body of the loop. -/
theorem forBody {body : Statement} {ns : List Node} (before : Reads s none l p.lexer true ns)
    (closes : p.lexer.kind = .parenR) (moved : Runs s ParseM.next p ⟨⟩ r)
    (run : Runs s (g.body .nested) r body q) : Reads s none l q.lexer true (ns ++ [.statement body]) := by
  simpa using (before.trans (.next moved closes rfl)).trans (hg.body run)

theorem forLoop {init : Option ForInit} (before : Reads s none l p.lexer true (init.toList.map (·.node)))
    (here : start.pos = l.token.start) (run : Runs s (g.forLoop start init) p a q) :
    Reads s none l q.lexer true [.statement a] := by
  have loop {test update : Option Expression} {body : Statement}
      (read : Reads s none l q.lexer true (init.toList.map (·.node) ++ test.toList.map .expression ++
        update.toList.map .expression ++ [.statement body])) :
      Reads s none l q.lexer true
        [.statement (.forStatement (spanTo s start q.lexer) init test update body)] :=
    read.node rfl here rfl trivial
  simp [Grammar.forLoop] at run
  obtain ⟨p₁, ⟨first, moved⟩, ⟨-, p₂, ⟨second, moved'⟩, h⟩ |
    ⟨-, test, p₂, testRun, p₃, ⟨second, moved'⟩, h⟩⟩ := run
  · have read := (before.trans (.next moved first rfl)).trans (.next moved' second rfl)
    rcases h with ⟨-, p₃, ⟨closes, last⟩, body, bodyRun, rfl⟩ |
      ⟨-, update, p₃, updateRun, p₄, ⟨closes, last⟩, body, bodyRun, rfl⟩
    · exact loop (by simpa using hg.forBody read closes last bodyRun)
    · have read := read.trans (hg.plainExpression updateRun)
      exact loop (by simpa using hg.forBody read closes last bodyRun)
  · have read := (before.trans (.next moved first rfl)).trans (hg.plainExpression testRun)
    have read := read.trans (.next moved' second rfl)
    rcases h with ⟨-, p₄, ⟨closes, last⟩, body, bodyRun, rfl⟩ |
      ⟨-, update, p₄, updateRun, p₅, ⟨closes, last⟩, body, bodyRun, rfl⟩
    · exact loop (by simpa using hg.forBody read closes last bodyRun)
    · have read := read.trans (hg.plainExpression updateRun)
      exact loop (by simpa using hg.forBody read closes last bodyRun)

theorem forEach {target : ForTarget} {isAwait : Bool} (before : Reads s none l p.lexer true [target.node])
    (here : start.pos = l.token.start) (word : p.lexer.kind.isTracked = false)
    (run : Runs s (g.forEach start target isAwait) p a q) :
    Reads s none l q.lexer true [.statement a] := by
  have rest {p₁ : Parser} (moved : Runs s ParseM.next p ⟨⟩ p₁)
      (h : (p.lexer.kind = .kwIn ∧ ∃ collection p₂, Runs s (g.plainExpression .plain) p₁ collection p₂ ∧
          ∃ p₃, (p₂.lexer.kind = .parenR ∧ Runs s ParseM.next p₂ ⟨⟩ p₃) ∧
            ∃ body, Runs s (g.body .nested) p₃ body q ∧
              a = .forInStatement (spanTo s start q.lexer) target collection body) ∨
        (¬ p.lexer.kind = .kwIn ∧ ∃ collection p₂, Runs s (g.plainAssignment .plain) p₁ collection p₂ ∧
          ∃ p₃, (p₂.lexer.kind = .parenR ∧ Runs s ParseM.next p₂ ⟨⟩ p₃) ∧
            ∃ body, Runs s (g.body .nested) p₃ body q ∧
              a = .forOfStatement (spanTo s start q.lexer) isAwait target collection body)) :
      Reads s none l q.lexer true [.statement a] := by
    have read := before.trans (.next moved rfl word)
    rcases h with ⟨-, collection, p₂, value, p₃, ⟨closes, last⟩, body, bodyRun, rfl⟩ |
      ⟨-, collection, p₂, value, p₃, ⟨closes, last⟩, body, bodyRun, rfl⟩
    · exact (hg.forBody (read.trans (hg.plainExpression value)) closes last bodyRun).node rfl here rfl trivial
    · exact (hg.forBody (read.trans (hg.plainAssignment value)) closes last bodyRun).node rfl here rfl trivial
  cases target with
  | declaration d =>
    simp +contextual [Grammar.forEach] at run
    obtain ⟨p₁, moved, -, h⟩ := run
    exact rest moved h
  | pattern _ =>
    simp +contextual [Grammar.forEach] at run
    obtain ⟨p₁, moved, h⟩ := run
    exact rest moved h

theorem forAfterDeclaration {d : VariableDeclaration}
    (before : Reads s none l p.lexer true [.statement (.variableDeclaration d)])
    (here : start.pos = l.token.start) (run : Runs s (g.forAfterDeclaration start d awaitAt) p a q) :
    Reads s none l q.lexer true [.statement a] := by
  have loop {r : Parser} {b : Bool} (look : Runs s atLoopWord p b r)
      (rest : Runs s (g.forLoop start (some (.declaration d))) r a q) :
      Reads s none l q.lexer true [.statement a] := by
    obtain ⟨rfl, -⟩ := Reads.atLoopWord_spec look
    exact hg.forLoop before here rest
  have each {r : Parser} {isAwait : Bool} (look : Runs s atLoopWord p true r)
      (rest : Runs s (g.forEach start (.declaration d) isAwait) r a q) :
      Reads s none l q.lexer true [.statement a] := by
    obtain ⟨rfl, word⟩ := Reads.atLoopWord_spec look
    exact hg.forEach before here (word rfl) rest
  cases awaitAt <;> simp [Grammar.forAfterDeclaration] at run
  · obtain ⟨p₁, look, run⟩ | ⟨p₁, look, ⟨-, run⟩ | ⟨-, run⟩⟩ := run
    · exact loop look run
    · exact each look run
    · exact loop look run
  · obtain ⟨p₁, look, -, -, run⟩ := run
    exact each look run

omit hg in
theorem checkOfTarget_same {e : Expression} {pos : Nat} {escaped startsWithLet isAwait : Bool} {u : Unit}
    (run : Runs s (checkOfTarget e pos escaped startsWithLet isAwait) p u q) : q = p := by
  simp [checkOfTarget] at run
  exact run.1.2

omit hg in
theorem headPattern {e : Expression} {y : Deferred} {d : Option Deferred} {target : Pattern}
    (read : Stretch s (some y) l p.lexer true [.expression e]) (notSpread : e.isSpread = false)
    (noted : e.Noted (some y)) (run : CoverRuns s (Grammar.assignedPattern e) p (some y) target q d) :
    q = p ∧ Reads s none l p.lexer true [.pattern target] := by
  obtain ⟨rfl, -, writes, closed⟩ := assignedPattern notSpread noted run
  exact ⟨rfl, Reads.target (fun _ _ => read) writes closed⟩

/-- An expression that is no target puts off no faults. -/
theorem headExpression {e : Expression} {x : Deferred} {d : Option Deferred} {init : InitMode}
    (ready : Ready s p (some x)) (run : CoverRuns s (g.expression init) p (some x) e q d)
    (settled : (d.getD {}).expressionComplaint? = none) :
    Stretch s none p.lexer q.lexer true [.expression e] := by
  rcases hg.expression ready run with offered | ⟨span, items, rfl, start, stop, passage⟩
  · obtain ⟨y, rfl, -⟩ := offered.passage.exists_some
    exact offered.passage.reads.settled (y.expressionComplaint?_eq_none_iff.mp settled)
  · obtain ⟨y, rfl, -⟩ := passage.exists_some
    have items := passage.reads.settled (y.expressionComplaint?_eq_none_iff.mp settled)
    exact Reads.node (fun _ _ => items) rfl start stop trivial ready.plain ready.ordered

theorem forAfterExpression (before : Reads s none l p.lexer true []) (here : start.pos = l.token.start)
    (run : Runs s (g.forAfterExpression start awaitAt) p a q) :
    Reads s none l q.lexer true [.statement a] := by
  intro plain ordered
  have ready : Ready s p (some {}) := .fresh plain (before plain ordered).ordered
  have each {e : Expression} {d d' : Option Deferred} {r p₁ p₂ p₃ p₄ : Parser} {target : Pattern}
      {isAwait : Bool} (offered : Offered s p (some {}) e r d) (look : Runs s atLoopWord r true p₁)
      (same : p₂ = p₁) (assigned : CoverRuns s (Grammar.assignedPattern e) p₂ (some (d.getD {})) target p₃ d')
      (checked : Runs s (ParseM.checkPattern .none target) p₃ ⟨⟩ p₄)
      (rest : Runs s (g.forEach start (.pattern target) isAwait) p₄ a q) :
      Reads s none l q.lexer true [.statement a] := by
    obtain ⟨passage, noted, notSpread⟩ := offered
    obtain ⟨y, rfl, -⟩ := passage.exists_some
    obtain ⟨rfl, word⟩ := Reads.atLoopWord_spec look
    obtain rfl := same
    obtain ⟨rfl, read⟩ := headPattern passage.reads notSpread noted assigned
    have same := checkPattern_lexer checked
    rw [← same] at read word
    exact hg.forEach (before.trans read) here (word rfl) rest
  cases awaitAt with
  | none =>
    simp [Grammar.forAfterExpression] at run
    obtain ⟨e, r, d, expression, ⟨p₁, look, settled, rest⟩ |
      ⟨p₁, look, p₂, checked, target, p₃, ⟨d', assigned⟩, p₄, checked', rest⟩⟩ := run
    · obtain ⟨rfl, -⟩ := Reads.atLoopWord_spec look
      have read := hg.headExpression ready expression settled
      exact hg.forLoop (before.trans fun _ _ => read) here rest plain ordered
    · have same : p₂ = p₁ := by
        rcases checked with ⟨-, same⟩ | ⟨-, checked⟩
        · exact same
        · exact checkOfTarget_same checked
      rcases hg.expression ready expression with offered | ⟨span, items, rfl, -⟩
      · exact each offered look same assigned checked' rest plain ordered
      · simp [Grammar.assignedPattern, Expression.toPattern, Expression.toTarget] at assigned
  | some pos =>
    simp [Grammar.forAfterExpression] at run
    obtain ⟨e, r, d, expression, p₁, look, -, p₂, checked, target, p₃, ⟨d', assigned⟩, p₄, checked', rest⟩ := run
    have offered := hg.subscripted ready expression
    exact each offered look (checkOfTarget_same checked) assigned checked' rest plain ordered

/-- The rest of a loop is read after the words that begin a declaration in its head. -/
theorem forDeclarationAfter {m : Lexer} {declarationStart : NodeStart} {kind : VariableKind}
    {vs : List Declarator} (before : Reads s none l m true []) (here : start.pos = l.token.start)
    (words : Reads s none m p.lexer true []) (declaredHere : declarationStart.pos = m.token.start)
    (found : Runs s (g.declarators true kind) p vs r)
    (rest : Runs s (g.forAfterDeclaration start ⟨spanTo s declarationStart r.lexer, kind, vs⟩ awaitAt) r a q) :
    Reads s none l q.lexer true [.statement a] := by
  have read := (words.trans (hg.declarators found).1).node
    (n := .statement (.variableDeclaration ⟨spanTo s declarationStart r.lexer, kind, vs⟩))
    (by simp [Node.children, Statement.children]) declaredHere rfl trivial
  exact hg.forAfterDeclaration (before.trans read) here rest

theorem forDeclaration {declarationStart : NodeStart} {kind : VariableKind}
    (before : Reads s none l p.lexer true []) (here : start.pos = l.token.start)
    (word : p.lexer.kind.isTracked = false) (declaredHere : declarationStart.pos = p.lexer.token.start)
    (run : Runs s (g.forDeclaration start declarationStart kind awaitAt) p a q) :
    Reads s none l q.lexer true [.statement a] := by
  simp [Grammar.forDeclaration] at run
  obtain ⟨p₁, moved, vs, p₂, found, rest⟩ := run
  exact hg.forDeclarationAfter before here (.next moved rfl word) declaredHere found rest

omit hg in
theorem variableKind?_spec {kind : Option VariableKind} (run : Runs s variableKind? p kind q) :
    q = p ∧ (kind.isSome = true → p.lexer.kind.isTracked = false) := by
  simp [variableKind?] at run
  rcases run with ⟨r, look, run⟩ | ⟨look, rfl⟩
  · obtain ⟨rfl, -⟩ := Reads.atLet_spec look
    split at run <;> simp at run <;> obtain ⟨rfl, rfl⟩ := run
    · next word => exact ⟨rfl, fun _ => by simp [word, TokenKind.isTracked]⟩
    · next word => exact ⟨rfl, fun _ => by simp [word, TokenKind.isTracked]⟩
    · exact ⟨rfl, by simp⟩
  · obtain ⟨rfl, word⟩ := Reads.atLet_spec look
    exact ⟨rfl, fun _ => by simp [word rfl, TokenKind.isTracked]⟩

theorem forHead (before : Reads s none l p.lexer true []) (here : start.pos = l.token.start)
    (run : Runs s (g.forHead start awaitAt) p a q) :
    Reads s none l q.lexer true [.statement a] := by
  simp only [Grammar.forHead, bind_iff, expect_iff, isKind_iff, exists_look, ite_iff, startNode_iff] at run
  obtain ⟨_, p₁, ⟨opens, moved⟩, ⟨-, run⟩ | ⟨-, kind, p₂, look, run⟩⟩ := run
  · have before := before.trans (.next moved opens rfl)
    cases awaitAt with
    | none => exact hg.forLoop before here run
    | some pos => simp at run
  · have before := before.trans (.next moved opens rfl)
    obtain ⟨rfl, word⟩ := variableKind?_spec look
    cases kind with
    | some kind => exact hg.forDeclaration before here (word rfl) rfl run
    | none =>
      simp at run
      rcases run with ⟨p₁, notUsing, ⟨p₃, notAwait, run⟩ | ⟨p₃, await, p₄, moved', -, run⟩⟩ | ⟨p₁, resource, run⟩
      · obtain ⟨rfl, -⟩ := Reads.atUsing_spec notUsing
        obtain ⟨rfl, -⟩ := Reads.atAwaitUsing_spec notAwait
        exact hg.forAfterExpression before here run
      · obtain ⟨rfl, -⟩ := Reads.atUsing_spec notUsing
        obtain ⟨rfl, ahead⟩ := Reads.atAwaitUsing_spec await
        obtain ⟨name, letter⟩ := ahead rfl
        simp [Grammar.forDeclaration] at run
        obtain ⟨p₅, moved'', vs, p₆, found, rest⟩ := run
        have words := Reads.wordAhead moved' name letter (by decide) moved'' ((hg.declarators found).2 rfl)
        exact hg.forDeclarationAfter before here words rfl found rest
      · obtain ⟨rfl, name⟩ := Reads.atUsing_spec resource
        exact hg.forDeclaration before here (by simp [name rfl, TokenKind.isTracked]) rfl run

theorem forStatement (word : p.lexer.kind.isTracked = false) (here : start.pos = p.lexer.token.start)
    (run : Runs s (g.forStatement start) p a q) :
    Reads s none p.lexer q.lexer true [.statement a] := by
  simp [Grammar.forStatement] at run
  have rest {m : Parser} {awaitAt : Option Nat} {labels : List Label} {scopes : ScopeStack}
      (before : Reads s none p.lexer m.lexer true [])
      (h : ∃ r, Runs s (g.forHead start awaitAt) { m with labels, scopes } a r ∧ q.lexer = r.lexer) :
      Reads s none p.lexer q.lexer true [.statement a] := by
    obtain ⟨r, head, same⟩ := h
    have read := hg.forHead (p := { m with labels, scopes }) before here head
    exact same ▸ read
  obtain ⟨p₁, moved, ⟨p₂, h, r, head, rfl⟩ | ⟨p₂, ⟨-, ⟨await, -⟩, moved'⟩, r, head, rfl⟩⟩ := run
  · obtain rfl : p₂ = p₁ := by rcases h with ⟨-, -, same⟩ | ⟨-, same⟩ <;> exact same
    exact rest (.next moved rfl word) ⟨r, head, rfl⟩
  · exact rest ((Reads.next moved rfl word).trans (.next moved' await rfl)) ⟨r, head, rfl⟩

end Grammar.Faithful
end ScriptSyntax
