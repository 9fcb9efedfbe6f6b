import ScriptSyntax.Parser.Operator
import ScriptSyntax.Proofs.Parser.Atom

/-!
Runs that read operators with their operands, conditions and assignments.
-/

namespace ScriptSyntax

open Runs

variable {s : Setting} {p q r : Parser} {g : Grammar} {d d' d₁ : Option Deferred}
  {e base left right : Expression} {start : NodeStart} {init : InitMode}

/-! ### Operator tokens -/

theorem TokenKind.untracked_of_precedence {kind : TokenKind} {n : Nat} (h : kind.precedence? = some n) :
    kind.isTracked = false := by
  cases kind <;> first | rfl | cases h

theorem UpdateOperator.untracked_of_token {kind : TokenKind} {operator : UpdateOperator}
    (h : ofToken? kind = some operator) : kind.isTracked = false := by
  cases kind <;> first | rfl | cases h

theorem UnaryOperator.untracked_of_token {kind : TokenKind} {operator : UnaryOperator}
    (h : ofToken? kind = some operator) : kind.isTracked = false := by
  cases kind <;> first | rfl | cases h

theorem AssignmentOperator.untracked_of_token {kind : TokenKind} {operator : AssignmentOperator}
    (h : ofToken? kind = some operator) : kind.isTracked = false := by
  cases kind <;> first | rfl | cases h

/-! ### What follows an operand -/

/-- After the operand `base`, which begins at `start`, more is read from `p` to `q`, and the whole is
`e`. -/
structure Joined (s : Setting) (start : NodeStart) (base : Expression) (p : Parser) (e : Expression)
    (q : Parser) : Prop where
  reads : ∀ {l : Lexer}, start.pos = l.token.start →
    Reads s none l p.lexer true [.expression base] → Reads s none l q.lexer true [.expression e]
  after : ∃ ms, Reads s none p.lexer q.lexer false ms
  link : e = base ∨ e.parts = []

namespace Joined

theorem refl : Joined s start base p base p := ⟨fun _ => id, ⟨[], .refl⟩, .inl rfl⟩

theorem trans (first : Joined s start base p left r) (second : Joined s start left r e q) :
    Joined s start base p e q where
  reads here read := second.reads here (first.reads here read)
  after := by
    obtain ⟨ms, before⟩ := first.after
    obtain ⟨ms', after⟩ := second.after
    exact ⟨ms ++ ms', before.trans after⟩
  link := by
    rcases second.link with rfl | none
    · exact first.link
    · exact .inr none

/-- The operand becomes the first of the nodes in another one. -/
theorem node {b : Bool} {ms : List Node} (after : Reads s none p.lexer q.lexer b ms)
    (children : (Node.expression e).children = .expression base :: ms)
    (span : e.span = spanTo s start q.lexer) (parts : e.parts = [])
    (regular : (Node.expression e).Regular s.edition none) : Joined s start base p e q where
  reads here read :=
    (read.trans after).node children ((congrArg Span.start span).trans here) (congrArg Span.stop span) regular
  after := ⟨ms, after.weaken⟩
  link := .inr parts

end Joined

theorem Expression.notSpread_of_parts (none : e.parts = []) : e.isSpread = false := by
  cases e <;> first | rfl | cases none

/-- What follows an operand in which no faults are put off. -/
theorem Offered.join (ready : Ready s p d) (offered : Offered s p d base r d')
    (settled : d'.any (·.mustBePattern) = false) (here : start.pos = p.lexer.token.start)
    (joined : Joined s start base r e q) : Offered s p d e q d' := by
  obtain ⟨ready', grows, read⟩ := offered.passage
  obtain ⟨ms, after⟩ := joined.after
  have after := after ready.plain ready'.ordered
  have whole := joined.reads here (fun _ _ => read.settled settled) ready.plain ready.ordered
  have passage : Passage s p d true [.expression e] q d' :=
    ⟨⟨ready.plain, after.ordered, fun x mem => (ready'.before x mem).mono after.token_le⟩, grows, whole.of_none⟩
  rcases joined.link with rfl | none
  · exact ⟨passage, offered.noted, offered.notSpread⟩
  · exact ⟨passage, Expression.noted_of_parts none, Expression.notSpread_of_parts none⟩

namespace Grammar.Faithful

variable (hg : g.Faithful s)
include hg

/-! ### Unary operators -/

omit hg in
/-- Two operands are joined where the right one ends. -/
theorem join {operator : TokenKind} {b : Bool} (run : Runs s (Grammar.join start operator left right) p e q)
    (after : Reads s none r.lexer p.lexer b [.expression right]) : Joined s start left r e q := by
  unfold Grammar.join at run
  split at run <;> dsimp only at run <;> split at run <;> simp at run <;> obtain ⟨rfl, rfl⟩ := run
  · exact .node after rfl rfl rfl trivial
  · exact .node after rfl rfl rfl trivial

omit hg in
/-- A simple target is a name or a member. -/
theorem simpleTarget {a : Pattern} (run : Runs s (ParseM.simpleTarget e) p a q) :
    q.lexer = p.lexer ∧ e.Writes s.edition a ∧ e.parts = [] := by
  unfold ParseM.simpleTarget at run
  split at run <;> simp at run
  · obtain ⟨checked, rfl⟩ := run
    exact ⟨checkTargetName_lexer checked, Expression.writes_of_toPattern (r := ⟨0, false, false⟩) rfl, rfl⟩
  · obtain ⟨rfl, rfl⟩ := run
    exact ⟨rfl, .of_member _, rfl⟩

theorem awaitExpression (run : Runs s (g.awaitExpression init) p e q) (here : p.lexer.kind = .name) :
    Reads s none p.lexer q.lexer true [.expression e] ∧ e.parts = [] := by
  simp [Grammar.awaitExpression] at run
  obtain ⟨p₁, moved, argument, operand, rfl⟩ := run
  have word := Reads.next moved here rfl
  exact ⟨(word.trans (hg.plainUnary operand)).node rfl rfl rfl trivial, rfl⟩

theorem prefixUpdate {operator : UpdateOperator} (run : CoverRuns s (g.prefixUpdate operator init) p d e q d')
    (untracked : p.lexer.kind.isTracked = false) :
    (Reads s none p.lexer q.lexer true [.expression e] ∧ e.parts = []) ∧ d' = d := by
  simp [Grammar.prefixUpdate] at run
  obtain ⟨p₁, moved, argument, p₂, operand, -, ⟨_, target⟩, same, rfl⟩ := run
  have read := (Reads.next moved rfl untracked).trans (hg.plainUnary operand)
  rw [← (simpleTarget target).1] at read
  exact ⟨⟨read.node rfl rfl rfl trivial, rfl⟩, same⟩

omit hg in
theorem checkDelete_same {pos : Nat} {u : Unit} (run : Runs s (Grammar.checkDelete pos e) p u q) : q = p := by
  cases e <;> simp [Grammar.checkDelete] at run <;> simp [run]

theorem unaryExpression {operator : UnaryOperator} (run : CoverRuns s (g.unaryExpression operator init) p d e q d')
    (untracked : p.lexer.kind.isTracked = false) :
    (Reads s none p.lexer q.lexer true [.expression e] ∧ e.parts = []) ∧ d' = d := by
  simp [Grammar.unaryExpression] at run
  obtain ⟨p₁, moved, argument, p₂, operand, -, checked, rfl⟩ := run
  have read := (Reads.next moved rfl untracked).trans (hg.plainUnary operand)
  rcases checked with ⟨-, checked, same⟩ | ⟨-, rfl, same⟩
  · obtain rfl := checkDelete_same checked
    exact ⟨⟨read.node rfl rfl rfl trivial, rfl⟩, same⟩
  · exact ⟨⟨read.node rfl rfl rfl trivial, rfl⟩, same⟩

omit hg in
theorem privateOperand (run : Runs s (Grammar.privateOperand init) p e q) :
    Reads s none p.lexer q.lexer true [.expression e] ∧ e.parts = [] := by
  simp [Grammar.privateOperand] at run
  obtain ⟨-, id, run, -, rfl⟩ := run
  exact ⟨.privateIdentifier run, rfl⟩

omit hg in
theorem postfixUpdates (run : Runs s (Grammar.postfixUpdates start base) p e q) :
    Joined s start base p e q := by
  obtain ⟨f, r, joined, last⟩ := Runs.of_repeatPast (fun f r => Joined s start base p f r) .refl (by
    intro f next r r' joined pass
    simp only [bind_iff, kind_iff, canOmitSemicolon_iff, exists_look] at pass
    split at pass <;> simp at pass
    rename_i token _
    obtain ⟨_, r₁, target, moved, rfl⟩ := pass
    obtain ⟨same, -⟩ := simpleTarget target
    have update := Reads.next moved rfl (same ▸ UpdateOperator.untracked_of_token token)
    rw [same] at update
    exact joined.trans (.node update rfl rfl rfl trivial)) run
  simp only [bind_iff, kind_iff, canOmitSemicolon_iff, exists_look] at last
  split at last <;> simp at last
  obtain ⟨rfl, rfl⟩ := last
  exact joined

theorem power {afterUnary inUpdate : Bool} (run : Runs s (g.power start base afterUnary inUpdate init) p e q) :
    Joined s start base p e q := by
  simp [Grammar.power] at run
  rcases run with ⟨⟨-, here⟩, -, p₁, moved, right, p₂, operand, run⟩ | ⟨-, rfl, rfl⟩
  · exact join run ((Reads.next moved here rfl).trans (hg.plainUnary operand))
  · exact .refl

/-- An operand with operators around it in which no faults are put off. -/
theorem offeredPower {afterUnary inUpdate : Bool} (ready : Ready s p d)
    (operand : Reads s none p.lexer r.lexer true [.expression base] ∧ base.parts = [])
    (here : start.pos = p.lexer.token.start)
    (run : Runs s (g.power start base afterUnary inUpdate init) r e q) : Offered s p d e q d := by
  have joined := hg.power run
  refine offered_of_reads ready ⟨joined.reads here operand.1, ?_⟩
  rcases joined.link with rfl | none
  · exact operand.2
  · exact none

/-- An operand was read, with the operators before and after it. -/
theorem unaryLevel {afterUnary inUpdate : Bool} (ready : Ready s p d)
    (run : CoverRuns s (g.unaryLevel afterUnary inUpdate init) p d e q d') : Offered s p d e q d' := by
  simp only [Grammar.unaryLevel, CoverRuns.bind_iff, CoverRuns.liftM_iff, startNode_iff, kind_iff,
    isContextual_iff, scopes_iff, and_assoc, exists_and_left, exists_eq_left, CoverRuns.ite_iff] at run
  rcases run with ⟨await, a, p₁, operand, run, rfl⟩ | ⟨-, run⟩
  · simp only [Bool.and_eq_true, beq_iff_eq] at await
    exact hg.offeredPower ready (hg.awaitExpression operand await.1.1.1) rfl run
  · split at run <;> simp at run
    case h_1 token =>
      obtain ⟨a, p₁, operand, run⟩ := run
      obtain ⟨read, rfl⟩ := hg.prefixUpdate operand (UpdateOperator.untracked_of_token token)
      exact hg.offeredPower ready read rfl run
    case h_2 token =>
      obtain ⟨a, p₁, operand, run⟩ := run
      obtain ⟨read, rfl⟩ := hg.unaryExpression operand (UnaryOperator.untracked_of_token token)
      exact hg.offeredPower ready read rfl run
    case h_3 =>
      rcases run with ⟨-, a, p₁, ⟨operand, rfl⟩, run⟩ | ⟨-, a, p₁, d₁, operand, h⟩
      · exact hg.offeredPower ready (privateOperand operand) rfl run
      · have offered := hg.subscripted ready operand
        rcases h with ⟨-, rfl, rfl, rfl⟩ | ⟨settled, f, p₂, ⟨updates, rfl⟩, run⟩
        · exact offered
        · exact offered.join ready settled rfl ((postfixUpdates updates).trans (hg.power run))

/-! ### Binary operators -/

omit hg in
theorem tighterOperator_spec {loosest : Nat} {x : Option (TokenKind × Nat)}
    (run : Runs s (tighterOperator? loosest init) p x q) :
    q = p ∧ (x.isSome = true → p.lexer.kind.isTracked = false) := by
  simp only [tighterOperator?, bind_iff, kind_iff, exists_look] at run
  split at run
  · rename_i precedence
    refine ⟨?_, fun _ => TokenKind.untracked_of_precedence precedence⟩
    simp at run
    rcases run with ⟨-, -, rfl⟩ | ⟨-, -, rfl⟩ <;> rfl
  · simp at run
    obtain ⟨rfl, rfl⟩ := run
    exact ⟨rfl, by simp⟩

/-- Operators that bind tighter and tighter are joined to an operand. -/
theorem binary {height loosest : Nat} (run : Runs s (g.binary init height loosest start left) p e q) :
    Joined s start left p e q := by
  induction height generalizing loosest start left p e q with
  | zero =>
    simp [Grammar.binary] at run
    obtain ⟨rfl, rfl⟩ := run
    exact .refl
  | succ height ih =>
    simp only [Grammar.binary] at run
    obtain ⟨f, r, joined, last⟩ := Runs.of_repeatPast (fun f r => Joined s start left p f r) .refl (by
      intro f next r r' joined pass
      simp at pass
      obtain ⟨x, r₁, looked, pass⟩ := pass
      obtain ⟨rfl, untracked⟩ := tighterOperator_spec looked
      cases x with
      | none => simp at pass
      | some x =>
        simp at pass
        obtain ⟨r₂, moved, operand, r₃, operandRun, right, r₄, inner, joinRun, -⟩ := pass
        have operand := hg.plainUnary operandRun
        have right := (ih inner).reads rfl operand
        exact joined.trans (join joinRun ((Reads.next moved rfl (untracked rfl)).trans right))) run
    simp at last
    obtain ⟨x, r₁, looked, last⟩ := last
    obtain ⟨rfl, -⟩ := tighterOperator_spec looked
    cases x with
    | none =>
      simp at last
      obtain ⟨rfl, rfl⟩ := last
      exact joined
    | some x => simp at last

/-- Operands were read with binary operators between them. -/
theorem operators (ready : Ready s p d) (run : CoverRuns s (g.operators init) p d e q d') :
    Offered s p d e q d' := by
  simp only [Grammar.operators, CoverRuns.bind_iff, CoverRuns.liftM_iff, startNode_iff, and_assoc,
    exists_and_left, exists_eq_left] at run
  obtain ⟨a, p₁, d₁, operand, run⟩ := run
  have offered := hg.unary ready operand
  simp at run
  rcases run with ⟨-, rfl, rfl, rfl⟩ | ⟨⟨-, settled⟩, run, rfl⟩
  · exact offered
  · exact offered.join ready settled rfl (hg.binary run)

/-! ### Conditions, `yield` and assignments -/

theorem conditional (ready : Ready s p d) (run : CoverRuns s (g.conditional init) p d e q d') :
    Offered s p d e q d' := by
  simp [Grammar.conditional] at run
  obtain ⟨test, p₁, d₁, testRun, h⟩ := run
  have offered := hg.operators ready testRun
  rcases h with ⟨-, rfl, rfl, rfl⟩ | ⟨settled, ⟨-, rfl, rfl, rfl⟩ |
    ⟨p₂, ⟨question, moved⟩, consequent, p₃, first, p₄, ⟨colon, moved'⟩, alternate, second, rfl, rfl⟩⟩
  · exact offered
  · exact offered
  · have chosen := (Reads.next moved question rfl).trans (hg.plainAssignment first)
    have other := (Reads.next moved' colon rfl).trans (hg.plainAssignment second)
    exact offered.join ready settled rfl (.node (chosen.trans other) rfl rfl rfl trivial)

theorem yieldExpression (run : Runs s (g.yieldExpression init) p e q) (here : p.lexer.kind = .name) :
    Reads s none p.lexer q.lexer true [.expression e] ∧ e.parts = [] := by
  simp [Grammar.yieldExpression] at run
  obtain ⟨p₁, moved, h⟩ := run
  have word := Reads.next moved here rfl
  rcases h with ⟨-, rfl, rfl⟩ | ⟨-, ⟨-, argument, run, rfl⟩ | ⟨p₂, ⟨star, moved'⟩, argument, run, rfl⟩⟩
  · exact ⟨word.node rfl rfl rfl trivial, rfl⟩
  · exact ⟨(word.trans (hg.plainAssignment run)).node rfl rfl rfl trivial, rfl⟩
  · have delegate := (word.trans (.next moved' star rfl)).trans (hg.plainAssignment run)
    exact ⟨delegate.node rfl rfl rfl trivial, rfl⟩

omit hg in
/-- The left side of `=` is read as a pattern once the faults put off in it are settled. -/
theorem assignedPattern {y : Deferred} {a : Pattern} (notSpread : left.isSpread = false)
    (noted : left.Noted (some y)) (run : CoverRuns s (Grammar.assignedPattern left) p (some y) a q d') :
    q = p ∧ d' = some y ∧ left.Writes s.edition a ∧ ¬ left.Open := by
  simp [Grammar.assignedPattern, -Deferred.patternComplaint?_eq_none_iff] at run
  have writes {a : Pattern} {r : TargetRules} (target : left.toPattern r = .ok a) : left.Writes s.edition a :=
    Expression.writes_of_toPattern target
  rcases run with ⟨-, ⟨⟨settled, rfl⟩, rfl⟩, target⟩ | ⟨keeps, ⟨target, rfl⟩, rfl⟩
  · exact ⟨rfl, rfl, writes target, noted y rfl false settled⟩
  · exact ⟨rfl, rfl, writes target, Expression.not_open_of_toPattern target notSpread (by simp [keeps])⟩

theorem assignmentValue {operator : AssignmentOperator} {a : Pattern} {value : Expression} {l : Lexer}
    (target : Reads s none l p.lexer true [.pattern a]) (here : start.pos = l.token.start)
    (untracked : p.lexer.kind.isTracked = false) (moved : Runs s ParseM.next p ⟨⟩ r)
    (run : Runs s (g.plainAssignment init) r value q) :
    Reads s none l q.lexer true [.expression (.assignment (spanTo s start q.lexer) operator a value)] ∧
      Reads s none p.lexer q.lexer true [.expression value] := by
  have right : Reads s none p.lexer q.lexer true [.expression value] :=
    (Reads.next moved rfl untracked).trans (hg.plainAssignment run)
  exact ⟨(target.trans right).node rfl here rfl trivial, right⟩

/-- The faults that are still put off after an assignment to `left`. -/
def afterAssignment (old : Deferred) (left : Expression) (y : Deferred) : Deferred :=
  { y.forgetTarget with
    shorthandDefault := y.shorthandDefault.filter (· < left.span.start)
    secondProto := old.secondProto.or y.forgetTarget.secondProto }

/-- The left side of an assignment turns into a pattern, and no fault in it is left. -/
theorem assignmentTo {operator : AssignmentOperator} {old y : Deferred} {l : Lexer}
    (read : Reads s (some y) l p.lexer true [.expression left]) (notSpread : left.isSpread = false)
    (noted : left.Noted (some y)) (here : start.pos = l.token.start)
    (untracked : p.lexer.kind.isTracked = false)
    (run : CoverRuns s (g.assignmentTo start operator left old init) p (some y) e q d') :
    Reads s none l q.lexer true [.expression e] ∧ (∃ ms, Reads s none p.lexer q.lexer true ms) ∧
      e.isAssignment = true ∧ d' = some (afterAssignment old left y) := by
  by_cases assign : operator = .assign
  · subst assign
    simp [Grammar.assignmentTo] at run
    obtain ⟨a, p₁, d₁, target, p₂, checked, p₃, moved, value, valueRun, rfl, rfl⟩ := run
    obtain ⟨rfl, rfl, writes, closed⟩ := assignedPattern notSpread noted target
    have same := checkPattern_lexer checked
    rw [← same] at read untracked ⊢
    obtain ⟨whole, right⟩ := hg.assignmentValue (read.target writes closed) here untracked moved valueRun
    exact ⟨whole, ⟨_, right⟩, rfl, rfl⟩
  · simp [Grammar.assignmentTo, assign] at run
    obtain ⟨a, p₁, target, p₂, moved, value, valueRun, rfl, rfl⟩ := run
    obtain ⟨same, writes, none⟩ := simpleTarget target
    rw [← same] at read untracked ⊢
    have pattern := read.target writes fun inner => inner.ne_nil none
    obtain ⟨whole, right⟩ := hg.assignmentValue pattern here untracked moved valueRun
    exact ⟨whole, ⟨_, right⟩, rfl, rfl⟩

/-- The faults put off inside an assignment, where those of targets are its own. -/
def inAssignment (old : Deferred) : Deferred := { old with parenthesizedTarget := none, commaAfterRest := none }

omit hg in
theorem inAssignment_ready (ready : Ready s p d) : Ready s p (some (inAssignment (d.getD {}))) := by
  refine ⟨ready.plain, ready.ordered, fun x mem => ?_⟩
  obtain rfl := Option.mem_some.mp mem
  cases d with
  | none => exact Deferred.before_empty
  | some old => exact ⟨(ready.before old rfl).shorthandDefault, (ready.before old rfl).parenthesized⟩

omit hg in
/-- Faults from before an assignment are still put off after it. -/
theorem afterAssignment_grows {old y : Deferred} (grows : (inAssignment old).Grows y)
    (before : ∀ pos, old.shorthandDefault = some pos → pos < left.span.start) :
    old.Grows (afterAssignment old left y) where
  shorthandDefault pos here := Option.filter_eq_some_iff.mpr
    ⟨grows.shorthandDefault pos here, by simpa using before pos here⟩
  parenthesized := grows.parenthesized
  secondProto here := by simp [afterAssignment, here]

omit hg in
/-- An assignment makes the faults of targets before it forgotten. -/
theorem itemOfAssignment {old y : Deferred} (ready : Ready s p (some old))
    (offered : Offered s p (some (inAssignment old)) left r (some y)) (assigns : e.isAssignment = true)
    (read : Reads s none p.lexer q.lexer true [.expression e])
    (after : ∃ ms, Reads s none r.lexer q.lexer true ms) :
    Item s p (some old) true (some e) [.expression e] q (some (afterAssignment old left y)) := by
  obtain ⟨_, after⟩ := after
  have grown : (inAssignment old).Grows y := by
    obtain ⟨x, same, grown⟩ := offered.passage.exists_some
    exact Option.some.inj same ▸ grown
  have placed := (offered.passage.reads.placed _ (.head _)).1
  have whole := read ready.plain ready.ordered
  have le := (after ready.plain offered.passage.ready.ordered).token_le
  have before := (offered.passage.ready.before y rfl).mono le
  have grows : old.Grows (afterAssignment old left y) := afterAssignment_grows grown fun pos here =>
    Nat.lt_of_lt_of_le ((ready.before old rfl).shorthandDefault pos here) placed
  refine
    { passage := ⟨⟨ready.plain, whole.ordered, fun x mem => ?_⟩, .some grows, whole.of_none⟩
      noted := fun f same => Option.some.inj same ▸ Expression.noted_of_parts ?_
      recalls := fun remembered => ?_
      comma := fun _ _ _ _ _ span argument same => ?_ }
  · obtain rfl := Option.mem_some.mp mem
    refine ⟨fun pos here => ?_, before.parenthesized⟩
    exact before.shorthandDefault pos (Option.filter_eq_some_iff.mp here).1
  all_goals cases e <;> cases assigns
  · rfl
  · cases remembered _ rfl
  · cases same

/-- Faults of targets from before an expression that is no assignment come back after it. -/
def afterTighter (old y : Deferred) : Deferred :=
  { y with
    parenthesizedTarget := old.parenthesizedTarget.or y.parenthesizedTarget
    commaAfterRest := old.commaAfterRest.or y.commaAfterRest }

omit hg in
theorem settled_of_afterTighter {old y : Deferred} {b : Bool} (grown : (inAssignment old).Grows y)
    (settled : (afterTighter old y).patternComplaint? b = none) :
    old.patternComplaint? b = none ∧ y.patternComplaint? b = none := by
  simp [afterTighter] at settled
  obtain ⟨⟨comma, comma'⟩, binding, assigning⟩ := settled
  have earlier (isBinding : b = true) : old.parenthesized = none := by
    cases here : old.parenthesized with
    | none => rfl
    | some pos => simpa [binding isBinding] using grown.parenthesized pos here
  simp only [Deferred.patternComplaint?_eq_none_iff]
  exact ⟨⟨comma, earlier, fun h => (assigning h).1⟩, comma', binding, fun h => (assigning h).2⟩

omit hg in
theorem itemOfTighter {old y : Deferred} (offered : Offered s p (some (inAssignment old)) e q (some y)) :
    Item s p (some old) true (some e) [.expression e] q (some (afterTighter old y)) := by
  obtain ⟨⟨ready, grows, read⟩, noted, notSpread⟩ := offered
  have grown : (inAssignment old).Grows y := by
    cases grows with
    | some grown => exact grown
  have before := ready.before y rfl
  refine
    { passage := ⟨⟨ready.plain, ready.ordered, fun x mem => ?_⟩, .some ?_, read.mono id⟩
      noted := fun f same x mem b settled => ?_
      recalls := fun _ x mem z mem' b settled => ?_
      comma := fun _ _ _ _ _ span argument same => ?_ }
  · exact Option.mem_some.mp mem ▸ ⟨before.shorthandDefault, before.parenthesized⟩
  · exact ⟨grown.shorthandDefault, grown.parenthesized, grown.secondProto⟩
  · obtain rfl := Option.mem_some.mp mem
    exact Option.some.inj same ▸ noted y rfl b (settled_of_afterTighter grown settled).2
  · obtain rfl := Option.mem_some.mp mem
    obtain rfl := Option.mem_some.mp mem'
    exact (settled_of_afterTighter grown settled).1
  · cases same
    cases notSpread

omit hg in
/-- Where nobody around it settles faults, an assignment is an item like any other. -/
theorem itemAlone (ready : Ready s p none) (read : Reads s none p.lexer q.lexer true [.expression e]) :
    Item s p none true (some e) [.expression e] q none where
  passage := .of_reads ready read
  noted _ _ := nofun
  recalls _ := nofun
  comma _ := nofun

/-- An assignment was read or anything that binds tighter. -/
theorem assignmentOrTighter (ready : Ready s p d) (run : CoverRuns s (g.assignmentOrTighter init) p d e q d') :
    Item s p d true (some e) [.expression e] q d' ∧ e.isSpread = false := by
  simp only [Grammar.assignmentOrTighter, CoverRuns.bind_iff, CoverRuns.get_iff, CoverRuns.set_iff, exists_unit,
    CoverRuns.liftM_iff, startNode_iff, kind_iff, isKind_iff, CoverRuns.when_iff, CoverRuns.modifyThe_iff, and_assoc,
    exists_and_left, exists_eq_left] at run
  obtain ⟨p₁, d₁, noted, left, p₂, d₂, test, run⟩ := run
  obtain ⟨same, rfl⟩ : p₁.lexer = p.lexer ∧ d₁ = some (inAssignment (d.getD {})) := by
    rcases noted with ⟨-, rfl, rfl⟩ | ⟨-, rfl, rfl⟩ <;> exact ⟨rfl, rfl⟩
  have ready' : Ready s p₁ (some (inAssignment (d.getD {}))) := by
    obtain ⟨plain, ordered, before⟩ := inAssignment_ready ready
    exact ⟨plain, same ▸ ordered, same ▸ before⟩
  obtain ⟨⟨ready₂, grows, read⟩, kept, notSpread⟩ := hg.conditional ready' test
  rw [same] at read
  have offered : Offered s p (some (inAssignment (d.getD {}))) left p₂ d₂ :=
    ⟨⟨ready₂, grows, read⟩, kept, notSpread⟩
  obtain ⟨y, rfl, -⟩ := offered.passage.exists_some
  split at run
  · rename_i operator token
    simp at run
    obtain ⟨p₃, d₃, assigned, settles⟩ := run
    obtain ⟨whole, after, assigns, rfl⟩ := hg.assignmentTo (fun _ _ => read) notSpread kept rfl
      (AssignmentOperator.untracked_of_token token) assigned
    have plain : e.isSpread = false := by cases e <;> first | rfl | cases assigns
    rcases settles with ⟨rfl, rfl, rfl⟩ | ⟨owned, rfl, rfl⟩
    · exact ⟨itemAlone ready whole, plain⟩
    · obtain ⟨old, rfl⟩ := Option.ne_none_iff_exists'.mp owned
      exact ⟨itemOfAssignment ready offered assigns whole after, plain⟩
  · cases d with
    | none =>
      simp at run
      obtain ⟨settled, rfl, rfl, rfl⟩ := run
      exact ⟨itemAlone ready fun _ _ => read.settled (by simpa using settled), notSpread⟩
    | some old =>
      simp at run
      obtain ⟨rfl, rfl, rfl⟩ := run
      exact ⟨itemOfTighter offered, notSpread⟩

omit hg in
/-- What is moved past before an assignment gives no node. -/
theorem itemAfter {b : Bool} {x : Option Expression} {ns : List Node} (before : Passage s p d b [] r d)
    (item : Item s r d true x ns q d') : Item s p d true x ns q d' where
  passage := by simpa using before.trans item.passage
  noted := item.noted
  recalls := item.recalls
  comma := item.comma

theorem assignmentLevel (ready : Ready s p d) (run : CoverRuns s (g.assignmentLevel init) p d e q d') :
    Item s p d true (some e) [.expression e] q d' ∧ e.isSpread = false := by
  simp only [Grammar.assignmentLevel, CoverRuns.bind_iff, CoverRuns.liftM_iff, isContextual_iff, scopes_iff,
    CoverRuns.ite_iff, exists_unit, CoverRuns.modifyThe_iff, and_assoc, exists_and_left, exists_eq_left] at run
  rcases run with ⟨word, ⟨-, run, rfl⟩ | ⟨-, run⟩⟩ | ⟨-, run⟩
  · simp only [Bool.and_eq_true, beq_iff_eq] at word
    obtain ⟨read, parts⟩ := hg.yieldExpression run word.1.1
    exact ⟨.of_reads ready parts read, Expression.notSpread_of_parts parts⟩
  · have before := Passage.of_reads (q := { p with lexer := _ }) ready
      (.of_sameToken ((Cursor.SameToken.refl p.lexer.toCursor).allow false))
    obtain ⟨item, notSpread⟩ := hg.assignmentOrTighter before.ready run
    exact ⟨itemAfter before item, notSpread⟩
  · exact hg.assignmentOrTighter ready run

end Grammar.Faithful
end ScriptSyntax
