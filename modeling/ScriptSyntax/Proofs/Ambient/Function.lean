import ScriptSyntax.Parser.Binding
import ScriptSyntax.Proofs.Ambient.Step

/-!
A grammar whose productions restore the ambient state, and what follows for lists, for patterns of names, for blocks and
for functions.  Scopes, labels and strictness that begin with a block or function end with it, and what suspends in the
head of a function is a fault.
-/

namespace ScriptSyntax

def Expression.isSuper : Expression → Bool
  | .super _ => true
  | _ => false

namespace Ambient

open Node ParseM

/-- The operand `e` was read since `p`.  If it is `super`, a member follows, or a call where that is legal. -/
structure Linked (p : Parser) (e : Expression) (q : Parser) : Prop where
  since : Since p [(none, .expression e)] q
  next : e.isSuper = true → q.lexer.kind = .dot ∨ q.lexer.kind = .bracketL ∨
    (q.lexer.kind = .parenL ∧ p.around.construct = true)

/-- The operand `e` was read since `p`, and it is not `super`. -/
structure Operand (p : Parser) (e : Expression) (q : Parser) : Prop where
  since : Since p [(none, .expression e)] q
  notSuper : e.isSuper = false

/-- The productions restore the ambient state, and what they give stands where it is legal. -/
structure Settled (s : Setting) (g : Grammar) : Prop where
  statement : ∀ context topLevel, Adds s (g.statement context topLevel) fun a => [(none, .statement a)]
  assigns : ∀ init p, CoverLeads s (· = p) (g.assignment init) (Operand p)
  operates : ∀ afterUnary inUpdate init p, CoverLeads s (· = p) (g.unary afterUnary inUpdate init) (Operand p)
  begins : ∀ init forNew p, CoverLeads s (· = p) (g.atom init forNew) (Linked p)
  bindingAtom : Adds s g.bindingAtom fun a => [(none, .pattern a)]

variable {s : Setting} {α β : Type} {p q : Parser} {ns : List Part} {Q : β → Parser → Prop}

theorem Operand.linked {e : Expression} (h : Operand p e q) : Linked p e q := ⟨h.since, by simp [h.notSuper]⟩

/-- What was read before is not needed any more. -/
theorem Since.before {e : Expression} (first : Since p ns q) {r : Parser} (h : Operand q e r) : Operand p e r :=
  ⟨(first.trans h.since).weaken fun _ mem => .of_mem (List.mem_append_right _ mem), h.notSuper⟩

theorem Leads.before {P : Parser → Prop} {m : ParseM Expression} (first : Since p ns q) (h : Leads s P m (Operand q)) :
    Leads s P m (Operand p) := h.weaken fun _ _ => first.before

/-- An operand is the same after something else. -/
theorem Leads.afresh {m : ParseM Expression} (h : ∀ q, Leads s (· = q) m (Operand q)) :
    Leads s (Since p ns) m (Operand p) := .each fun q first => .before first (h q)

theorem CoverLeads.afresh {m : CoverM Expression} (h : ∀ q, CoverLeads s (· = q) m (Operand q)) :
    CoverLeads s (Since p ns) m (Operand p) :=
  fun d => .each fun q first => (h q d).weaken fun _ _ => first.before

theorem Leads.operand {e : Expression} (notSuper : e.isSuper = false)
    (covered : ∀ x ∈ [((none : Option Frame), Node.expression e)], Covered ns x) :
    Leads s (Since p ns) (Pure.pure e) (Operand p) := .pure fun _ before => ⟨before.weaken covered, notSuper⟩

theorem CoverLeads.operand {e : Expression} (notSuper : e.isSuper = false)
    (covered : ∀ x ∈ [((none : Option Frame), Node.expression e)], Covered ns x) :
    CoverLeads s (Since p ns) (Pure.pure e) (Operand p) := .pure fun _ before => ⟨before.weaken covered, notSuper⟩

theorem Leads.ofOperand {e : Expression} {m : ParseM β}
    (h : e.isSuper = false → Leads s (Since p [(none, .expression e)]) m Q) : Leads s (Operand p e) m Q :=
  fun plain p a q before => h before.notSuper plain p a q before.since

theorem CoverLeads.ofOperand {e : Expression} {m : CoverM β}
    (h : e.isSuper = false → CoverLeads s (Since p [(none, .expression e)]) m Q) : CoverLeads s (Operand p e) m Q :=
  fun d => .ofOperand fun notSuper => h notSuper d

namespace Quiet

@[grind ←] theorem checkNoComma : Quiet s Grammar.checkNoComma := by grind [Grammar.checkNoComma]

end Quiet

theorem shorthandTarget_adds {start : NodeStart} {id : Identifier} :
    Adds s (Grammar.shorthandTarget start id) fun a => [(none, .pattern a)] :=
  .of fun _ => .quiet .checkName fun _ => .quiet .noteAwaitName fun _ => .done (.leaf rfl rfl)

namespace Settled

variable {g : Grammar} (hg : Settled s g)
include hg

theorem assignment (init : InitMode) : CoverAdds s (g.assignment init) fun e => [(none, .expression e)] :=
  fun d p => (hg.assigns init p d).weaken fun _ _ after => after.since

theorem unary (afterUnary inUpdate : Bool) (init : InitMode) :
    CoverAdds s (g.unary afterUnary inUpdate init) fun e => [(none, .expression e)] :=
  fun d p => (hg.operates afterUnary inUpdate init p d).weaken fun _ _ after => after.since

theorem plainAssignment {init : InitMode} : Adds s (g.plainAssignment init) fun e => [(none, .expression e)] :=
  (hg.assignment init).alone

theorem sequences {init : InitMode} {p : Parser} : CoverLeads s (· = p) (g.expression init) (Operand p) := by
  refine .look .startNode fun _ => .bind (hg.assigns init p) fun first => .ofOperand fun plain => .look .isKind fun _ =>
    .ite (fun _ => ?_) fun _ => .operand plain fun _ mem => .of_mem mem
  refine .bind (.repeatPast (a := [first])
    (I := fun found => Since p (found.flatMap fun e => [(none, Node.expression e)]))
    (Q := fun items => Since p (items.flatMap fun e => [(none, Node.expression e)])) fun found => ?_) fun items => ?_
  · exact .quiet .eat fun _ => .ite (fun _ => .adds (hg.assignment init) fun _ => .pure fun _ => Since.cons)
      fun _ => .pure fun _ => Since.reverse
  · refine .look .finishSpan fun _ => .operand rfl (.node rfl ?_)
    simp [parts, children, Expression.children, ← List.map_eq_flatMap, Function.comp_def]

theorem expression {init : InitMode} : CoverAdds s (g.expression init) fun e => [(none, .expression e)] :=
  fun d _ => (hg.sequences d).weaken fun _ _ after => after.since

theorem plainExpression {init : InitMode} : Adds s (g.plainExpression init) fun e => [(none, .expression e)] :=
  hg.expression.alone

theorem parenthesizes {p : Parser} : Leads s (Since p ns) g.parenthesized (Operand p) :=
  .quiet .expect fun _ => .bind (.afresh fun _ => hg.sequences.alone) fun _ => .ofOperand fun plain =>
    .quiet .expect fun _ => .operand plain fun _ mem => .of_mem mem

theorem parenthesized : Adds s g.parenthesized fun e => [(none, .expression e)] :=
  .of fun _ => hg.parenthesizes.weaken fun _ _ after => after.since

theorem propertyName : Adds s g.propertyName fun x => [(none, .expression x.1)] := by
  refine .of fun _ => .quiet (.andM (.of_looks .since) .eat) fun _ => .ite (fun _ => ?_) fun _ =>
    .quiet (.of_looks .kind) fun _ => ?_
  · exact .adds hg.plainAssignment fun _ => .quiet .expect fun _ => .done fun _ mem => .of_mem mem
  · split <;> exact .quiet (by grind) fun _ => .done (.leaf rfl rfl)

theorem withDefault {start : NodeStart} {target : Pattern} (covered : Covered ns (none, .pattern target)) :
    Leads s (Since p ns) (g.withDefault start target) fun a => Since p [(none, .pattern a)] := by
  refine .quiet (.andM (.of_looks .since) .eat) fun _ => .ite (fun _ => ?_) fun _ => .done (by simpa using covered)
  refine .adds hg.plainAssignment fun value => .look .finishSpan fun _ => .done ?_
  exact .nodeOf rfl (by simpa [parts, children, Pattern.children] using ⟨covered.mono (by simp), .of_mem (by simp)⟩)

theorem bindingElement : Adds s g.bindingElement fun a => [(none, .pattern a)] :=
  .of fun _ => .look .startNode fun _ => .adds hg.bindingAtom fun _ => hg.withDefault (.of_mem (by simp))

theorem restBinding : Adds s g.restBinding fun a => [(none, .pattern a)] :=
  .of fun _ => .look .startNode fun _ => .quiet .next fun _ => .look .edition fun _ => .look .kind fun _ =>
    .when (.of_fails .unexpected) <| .adds hg.bindingAtom fun _ => .look .finishSpan fun _ =>
      .done (.node rfl (by simp [parts, children, Pattern.children]))

theorem bindingList {close : TokenKind} {holes trailing : Bool} :
    Adds s (g.bindingList close holes trailing) fun as => as.flatMap fun a => a.toList.map fun a =>
      (none, .pattern a) := by
  refine .of fun p => .repeatPast (a := []) (I := fun (found : List (Option Pattern)) =>
    Since p (found.flatMap fun a => a.toList.map fun a => (none, .pattern a))) fun found => ?_
  refine .quiet .eat fun _ => .ite (fun _ => .pure fun _ => Since.reverse) fun _ => .unless .expect ?_
  refine .quiet (by grind) fun _ => .ite (fun _ => ?_) fun _ => .quiet (by grind) fun _ =>
    .ite (fun _ => .pure fun _ => Since.reverse) fun _ => .look .isKind fun _ => .ite (fun _ => ?_) fun _ => ?_
  · exact .pure fun _ before => by simpa using before
  · refine .adds hg.restBinding fun rest => .quiet .checkNoComma fun _ => .quiet .expect fun _ => ?_
    exact .pure fun _ before => Since.reverse (Since.cons before)
  · exact .adds hg.bindingElement fun a => .pure fun _ before => Since.cons before

theorem parameters : Adds s g.parameters fun params => params.map fun a => (none, .pattern a) :=
  .of fun _ => .look .since fun _ => .adds hg.bindingList fun _ => .done fun n mem => .of_mem <| by
    simpa using mem

theorem patternMember : Adds s g.patternMember fun m => [(none, .patternMember m)] := by
  refine .of fun _ => .look .startNode fun _ => .quiet (.andM (.of_looks .since) .eat) fun _ =>
    .ite (fun _ => ?_) fun _ => ?_
  · refine .quiet .identifier fun _ => .quiet .checkNoComma fun _ => .look .finishSpan fun _ => ?_
    exact .done (.nodeOf rfl (by simpa [parts, children,
      PatternMember.children] using .of_parts rfl (by simp [parts, children, Pattern.children])))
  · refine .adds hg.propertyName fun x => ?_
    obtain ⟨key, computed⟩ := x
    refine .quiet .eat fun _ => .ite (fun _ => ?_) fun _ => ?_
    · refine .adds hg.bindingElement fun value => .look .finishSpan fun _ => .done (.node rfl ?_)
      simp [parts, children, PatternMember.children]
    · split
      · refine .adds shorthandTarget_adds fun _ => (hg.withDefault (.of_mem (by simp))).bind fun value => ?_
        refine .look .finishSpan fun _ => .done (.nodeOf rfl ?_)
        simpa [parts, children, PatternMember.children]
          using ⟨.of_parts rfl (by simp [parts, children, Expression.children]), .of_mem (by simp)⟩
      · exact .fails .unexpected

theorem objectPattern : Adds s g.objectPattern fun a => [(none, .pattern a)] :=
  .of fun _ => .look .startNode fun _ => .quiet .next fun _ => .adds (.commaSeparated hg.patternMember) fun _ =>
    .look .finishSpan fun _ =>
      .done (.node rfl (by simp [parts, children, Pattern.children, ← List.map_eq_flatMap, Function.comp_def]))

theorem arrayPattern : Adds s g.arrayPattern fun a => [(none, .pattern a)] :=
  .of fun _ => .look .startNode fun _ => .quiet .next fun _ => .adds hg.bindingList fun _ =>
    .look .finishSpan fun _ => .done (.node rfl fun n mem => by simpa [parts, children, Pattern.children] using mem)

theorem bindingLevel : Adds s g.bindingLevel fun a => [(none, .pattern a)] := by
  refine .of fun _ => .look .since fun _ => .quiet (.of_looks .isKind) fun _ =>
    .ite (fun _ => hg.arrayPattern.since) fun _ => ?_
  refine .look .since fun _ => .quiet (.of_looks .isKind) fun _ => .ite (fun _ => hg.objectPattern.since) fun _ => ?_
  exact .quiet .identifier fun _ => .done (.leaf rfl rfl)

end Settled

variable {ms : List Part} {m : ParseM α} {f : PUnit → ParseM β}

/-! ### Rules for what begins and ends -/

namespace Leads

theorem enterScope {flags : ScopeFlags}
    (next : ∀ q, Since p ns q → Leads s (Since (q.entered flags) []) (f ⟨⟩) Q) :
    Leads s (Since p ns) (ParseM.enterScope flags >>= f) Q := .each fun q before => .change (.start (next q before))

theorem exitScope {flags : ScopeFlags} (block : flags.isBody = false) (before : Since p ns q)
    (next : Leads s (Since p (ns ++ ms)) (f ⟨⟩) Q) :
    Leads s (Since (q.entered flags) ms) (ParseM.exitScope >>= f) Q :=
  (changes fun _ after => before.trans (after.left block)).bind fun _ => next

theorem pushLabel {label : Label}
    (next : ∀ q, Since p ns q → Leads s (Since { q with labels := label :: q.labels } []) (f ⟨⟩) Q) :
    Leads s (Since p ns) (ParseM.pushLabel label >>= f) Q := .each fun q before => .change (.start (next q before))

theorem popLabel {label : Label} (before : Since p ns q) (next : Leads s (Since p (ns ++ ms)) (f ⟨⟩) Q) :
    Leads s (Since { q with labels := label :: q.labels } ms) (ParseM.popLabel >>= f) Q := by
  refine (changes (g := fun r => { r with labels := r.labels.tail }) fun r after => ?_).bind fun _ => next
  refine before.trans (after.shift rfl ⟨after.kept.strict, after.kept.scopes, ?_, after.kept.classes,
    after.kept.nesting⟩ after.noted id)
  simpa using congrArg List.tail after.kept.labels

theorem withoutLabels {R : α → Parser → Prop} (h : Leads s (· = { p with labels := [] }) m R) :
    Leads s (· = p) (ParseM.withoutLabels m) fun a q => ∃ r, R a r ∧ q = { r with labels := p.labels } :=
  .seesAt <| .change <| h.bind fun _ => (changes fun r after => ⟨r, after, rfl⟩).bind fun _ => .pure fun _ => id

theorem ofExcept {γ : Type} {x : Except Complaint γ} {P : Parser → Prop} {g : γ → ParseM β}
    (next : ∀ a, x = .ok a → Leads s P (g a) Q) : Leads s P (ParseM.ofExcept x >>= g) Q := by
  cases x with
  | ok a => simpa only [ParseM.ofExcept, pure_bind] using next a rfl
  | error => exact .failing .complain

/-- Nothing read since the border of a function suspends. -/
theorem checkParameterAwait (next : (∀ x ∈ ns, ¬ x.Suspends) → Leads s (Since p ns) (f ⟨⟩) Q) :
    Leads s (Since p ns) (ParseM.checkParameterAwait >>= f) Q := by
  refine .each fun q before => .bind (R := fun _ r => q.noted = false ∧ r = q) (.seesAt ?_) fun _ => ?_
  · split
    · split <;> exact .fails .fail
    · exact .fails .fail
    · exact .fails .fail
    · next yields awaits => exact .pure fun _ at_q => ⟨by simp [Parser.noted, yields, awaits], at_q⟩
  · refine .known fun silent => (next fun x mem suspends => ?_).strengthen ?_
    · simp [before.suspends x mem suspends] at silent
    · rintro _ rfl
      exact before

end Leads

/-! ### Borders of functions -/

/-- The head and the body of a function were read behind its border, which is at `p`, and its scope is
left. -/
structure Inside (p : Parser) (heads : List Node) (body : Node) (q : Parser) : Prop where
  since : ∃ r, Since p ((heads ++ [body]).map (none, ·)) r ∧ q = r.left
  calm : ∀ n ∈ heads, ¬ n.Suspends

theorem Inside.of {heads : List Node} {body : Node} (since : Since p (ns ++ [(none, body)]) q)
    (covered : ∀ n ∈ heads, Covered ns (none, n)) (calm : ∀ x ∈ ns, ¬ x.Suspends) : Inside p heads body q.left where
  since := by
    refine ⟨q, since.weaken fun x mem => ?_, rfl⟩
    obtain ⟨n, inside, rfl⟩ := List.mem_map.mp mem
    rcases List.mem_append.mp inside with head | same
    · exact (covered n head).mono (List.subset_append_left ..)
    · exact .of_mem (by simp [List.mem_singleton.mp same])
  calm n mem suspends := by
    obtain ⟨y, inside, suspends⟩ := (covered n mem).suspends ⟨rfl, suspends⟩
    exact calm y inside suspends

/-- A function is read with a record of its own of what suspends. -/
theorem Leads.framed {flags : ScopeFlags} (frame : Bool → Frame) (V : α → Prop) (heads : α → List Node)
    (body : α → Node) (encloses : ∀ inBody, Encloses flags (frame inBody))
    (known : ∀ inBody, (frame inBody).inBody = inBody)
    (h : Leads s (· = p.within flags) m fun a q => V a ∧ Inside (p.within flags) (heads a) (body a) q) :
    Leads s (· = p) (withOwnAwait do ParseM.enterScope flags; m) fun a q =>
      V a ∧ Since p ((heads a).map (some (frame false), ·) ++ [(some (frame true), body a)]) q := by
  refine .seesAt <| .change <| .bind (.change h) fun a => .known fun value => ?_
  refine (changes (g := p.noting) ?_).bind fun _ => .pure fun _ after => ⟨value, after⟩
  rintro _ ⟨⟨r, since, rfl⟩, calm⟩
  exact since.outside encloses known calm

/-! ### Blocks -/

/-- What is in braces was read since `p` and the closing one was passed; the code after it is strict or not
as `strictAfter` says, if it says so. -/
structure Closed (p : Parser) (strictAfter : Option Bool) (ns : List Part) (q : Parser) : Prop where
  since : Since p ns (q.withStrict p.lexer.strict)
  strict : q.lexer.strict = strictAfter.getD p.lexer.strict

theorem Since.closed (h : Since p ns q) : Closed p none ns q where
  since := by
    rw [← h.kept.strict]
    exact h
  strict := h.kept.strict

theorem Closed.same {strictAfter : Option Bool} (h : Closed p strictAfter ns q)
    (same : strictAfter.getD p.lexer.strict = p.lexer.strict) : Since p ns q := by
  have since := h.since
  rw [← h.strict.trans same] at since
  exact since

theorem Closed.weaken {strictAfter : Option Bool} (h : Closed p strictAfter ns q)
    (covered : ∀ x ∈ ms, Covered ns x) : Closed p strictAfter ms q := ⟨h.since.weaken covered, h.strict⟩

namespace Quiet

@[grind ←] theorem functionBinding {special : Bool} : Quiet s (Grammar.functionBinding special) := by
  grind [Grammar.functionBinding]

@[grind ←] theorem functionName {place : FunctionPlace} {special : Bool} :
    Quiet s (Grammar.functionName place special) := by grind [Grammar.functionName]

@[grind ←] theorem generatorStar {place : FunctionPlace} {isAsync : Bool} :
    Quiet s (Grammar.generatorStar place isAsync) := by grind [Grammar.generatorStar]

end Quiet

/-- A statement that is marked as a directive reads the same. -/
theorem covered_asDirective? {source : Source} {a b : Statement} (directive : a.asDirective? source = some b) :
    Covered [(none, .statement a)] (none, .statement b) := by
  unfold Statement.asDirective? at directive
  split at directive
  · cases directive
    exact .of_parts rfl fun x part => .of_part (n := .statement (.expressionStatement ..)) part
  · cases directive

theorem covered_markDirectives {source : Source} (body : List Statement) :
    ∀ a ∈ markDirectives source body, Covered (body.map fun a => (none, .statement a)) (none, .statement a) := by
  induction body with
  | nil => simp [markDirectives]
  | cons a rest ih =>
    intro b mem
    simp only [markDirectives] at mem
    split at mem
    · next directive =>
      rcases List.mem_cons.mp mem with rfl | mem
      · exact (covered_asDirective? directive).mono (by simp)
      · exact (ih b mem).mono (by simp)
    · exact .of_mem (List.mem_map_of_mem mem)

theorem withDirectives_covered {body : List Statement} {P : Parser → Prop} :
    Leads s P (withDirectives body) fun found q =>
      (∀ x ∈ found.map fun a => ((none : Option Frame), Node.statement a),
        Covered (body.map fun a => (none, .statement a)) x) ∧ P q := by
  refine .look .since fun _ => .ite (fun _ => .look .source fun _ => .pure fun _ before => ⟨fun x mem => ?_, before⟩)
    fun _ => .pure fun _ before => ⟨fun x mem => .of_mem mem, before⟩
  obtain ⟨a, marked, rfl⟩ := List.mem_map.mp mem
  exact covered_markDirectives body a marked

/-! ### Functions -/

/-- Where nothing suspends, what was read before is legal in the head of an arrow function. -/
theorem Covered.arrowHead {n : Node} {isAsync : Bool} (covered : Covered ns (none, n)) (operand : n.isOperand = true)
    (calm : ∀ x ∈ ns, ¬ x.Suspends) : Covered ns (some (.function .arrow isAsync false false), n) := by
  have still : ¬ n.Suspends := fun suspends => by
    obtain ⟨y, mem, suspends⟩ := covered.suspends ⟨rfl, suspends⟩
    exact calm y mem suspends
  exact ⟨fun c all => ⟨(covered.lawful c all).1.reframed still operand rfl rfl rfl, fun _ => still⟩,
    fun suspends => (still suspends.2).elim⟩

namespace Settled

variable {g : Grammar} (hg : Settled s g)
include hg

theorem statementsInBraces {strictAfter : Option Bool} :
    Leads s (Since p []) (g.statementsInBraces strictAfter) fun body =>
      Closed p strictAfter (body.map fun a => (none, .statement a)) := by
  refine .quiet .expect fun _ => .adds (.collectUntil (hg.statement none false)) fun body => ?_
  have covered : ∀ x ∈ body.map fun a => ((none : Option Frame), Node.statement a),
      Covered (body.flatMap fun a => [(none, .statement a)]) x := fun x mem =>
    .of_mem (by simpa [List.map_eq_flatMap] using mem)
  cases strictAfter with
  | none => exact .quiet .next fun _ => .pure fun _ after => (Since.closed after).weaken covered
  | some strict =>
    refine .each fun q before => .change (.start (.quiet .next fun _ => .pure fun r after => ⟨?_, after.kept.strict⟩))
    refine (before.trans (after.shift (q := r.withStrict p.lexer.strict) rfl ?_ after.noted id)).weaken
      fun x mem => (covered x mem).mono (by simp)
    exact ⟨before.kept.strict.symm, after.kept.scopes, after.kept.labels, after.kept.classes, after.kept.nesting⟩

theorem scopelessBlock {strictAfter : Option Bool} :
    Leads s (Since p []) (g.scopelessBlock strictAfter) fun b => Closed p strictAfter [(none, .statement (.block b))] :=
  .look .startNode fun _ => hg.statementsInBraces.bind fun body => .look .finishSpan fun _ => .pure fun _ after =>
    after.weaken (.node rfl (by simp [parts, children, Statement.children, Function.comp_def]))

theorem block : Adds s g.block fun b => [(none, .statement (.block b))] := by
  refine .of fun _ => .look .startNode fun _ => .quiet .expect fun _ => .enterScope fun q before => ?_
  refine .adds (.collectUntil (hg.statement none false)) fun body => .quiet .next fun _ => .exitScope rfl before ?_
  refine .look .finishSpan fun _ => .done (.node rfl ?_)
  simp [parts, children, Statement.children, ← List.map_eq_flatMap, Function.comp_def]

/-- A block with its directives marked. -/
theorem directedBlock {strictAfter : Option Bool} :
    Leads s (Since p [])
      (do
        let block ← g.scopelessBlock strictAfter
        return { block with body := ← withDirectives block.body })
      fun b => Closed p strictAfter [(none, .statement (.block b))] := by
  refine hg.scopelessBlock.bind fun block => withDirectives_covered.bind fun body => .known fun covered => ?_
  refine .pure fun _ after => after.weaken (.nodeOf rfl fun x part => ?_)
  refine (covered x ?_).trans fun y mem => .of_part (n := .statement (.block block)) ?_
  · simpa [parts, children, Statement.children] using part
  · simpa [parts, children, Statement.children] using mem

/-- A block with its directives marked, after a look at the parameters before it. -/
theorem bodyBlock {params : List Pattern} {id : Option Identifier} {strictAfter : Option Bool} {unique : Bool} :
    Leads s (Since p [])
      (do
        checkParams params unique
        if let some id := id then
          if ← strict then checkBinding .outside id
        let block ← g.scopelessBlock strictAfter
        return { block with body := ← withDirectives block.body })
      fun b => Closed p strictAfter [(none, .statement (.block b))] := by
  refine .quiet .checkParams fun _ => ?_
  cases id with
  | some => exact .look .strict fun _ => .when .checkBinding hg.directedBlock
  | none => exact hg.directedBlock

/-- After the body of a function, which is strict if it begins with a directive, the code is strict or not as
before. -/
theorem functionBody {params : List Pattern} {id : Option Identifier} {start : Nat} {unique : Bool} :
    Leads s (Since p ns) (g.functionBody params id start unique) fun b q =>
      ∃ r, Since p (ns ++ [(none, .statement (.block b))]) r ∧ q = r.left := by
  refine .each fun p' before => ?_
  refine .lookFor .strict (V := (· = p'.lexer.strict)) (by simp +contextual) ?_
  rintro _ rfl
  refine .look .since fun _ => .look .source fun source => .look .edition fun _ => .look .lexer fun l => ?_
  refine .ite (fun _ => .failing .failRecoverable) fun unstructured => ?_
  refine (Leads.withoutLabels (R := fun b r => Since { p' with labels := [] }
    [(none, .statement (.block b))] r) ?_).bind
    fun b => ?_
  · refine .ite (fun directive => .change (.weaken hg.bodyBlock.start fun b r closed => ?_)) fun plain =>
      .weaken hg.bodyBlock.start fun b r closed => ?_
    · -- Strict code with such a directive would be at fault already.
      have sloppy : p'.lexer.strict = false :=
        (by decide : ∀ a b c : Bool, ((!a || b) && c) = true → ¬ ((!a || b) && c && b) = true → a = false) _ _ _
          directive unstructured
      have same : r.lexer.strict = p'.lexer.strict := by
        refine closed.strict.trans ?_
        rw [if_pos (Bool.and_eq_true_iff.mpr ⟨directive, by simp [sloppy]⟩), sloppy]
        rfl
      have kept := closed.since.kept
      exact closed.since.shift rfl ⟨same, kept.scopes, kept.labels, kept.classes,
        kept.nesting⟩ closed.since.noted fun h => h
    · exact closed.same (by simp [plain])
  · refine (Leads.changes (g := Parser.left) (R := fun _ q => ∃ r, Since p (ns ++ [(none, .statement (.block b))]) r ∧
      q = r.left) ?_).bind
      fun _ => .pure fun _ => (fun h => h)
    rintro _ ⟨r, after, rfl⟩
    refine ⟨{ r with labels := p'.labels }, before.trans ?_, rfl⟩
    exact after.shift rfl ⟨after.kept.strict, after.kept.scopes, rfl, after.kept.classes,
      after.kept.nesting⟩ after.noted fun h => h

theorem method {isGenerator isAsync directSuper : Bool} :
    Adds s (g.method isGenerator isAsync directSuper)
      fun f => f.parts (if directSuper then .derivedConstructor else .method) := by
  refine fun p => .look .startNode fun start => .look .since fun six => .look .since fun eight => ?_
  refine (Leads.framed
    (.function (if directSuper then .derivedConstructor else .method) (isAsync && eight) (isGenerator && six))
    (fun _ => True) (fun x : List Pattern × Block => x.1.map .pattern) (fun x => .statement (.block x.2))
    ?_ (fun _ => rfl) ?_).bind fun (params, body) => .known fun _ => .look .finishSpan fun span =>
      .pure fun q after => ?_
  · cases directSuper with
    | true => exact .constructor _ _
    | false => exact .method _ _
  · refine .start <| .quiet .expect fun _ => .adds hg.parameters fun params => .checkParameterAwait fun calm => ?_
    refine hg.functionBody.bind fun body => .pure ?_
    rintro _ ⟨r, since, rfl⟩
    exact ⟨trivial, .of since (fun n mem => .of_mem (by simpa using mem)) (by simpa using calm)⟩
  · simpa [Callable.parts] using after

theorem function {start : NodeStart} {place : FunctionPlace} {isAsync : Bool} :
    Adds s (g.function start place isAsync) fun f => f.parts .plain := by
  refine .of fun p => .quiet .generatorStar fun isGenerator => .look .since fun eight =>
    .quiet (by grind) fun declared => ?_
  refine .each fun q before => ?_
  refine (Leads.framed (.function .plain (isAsync && eight) isGenerator) (fun _ => True)
    (fun x : Option Identifier × List Pattern × Block => x.1.toList.map .identifier ++ x.2.1.map .pattern)
    (fun x => .statement (.block x.2.2))
    (fun _ => .function ..) (fun _ => rfl) ?_).bind fun (id, params, body) => .known fun _ =>
      .look .finishSpan fun span =>
      .pure fun r after => ?_
  · refine .start <| .look .kind fun _ => .choose (fun _ => .ofQuiet (by grind)) (fun _ => .ofQuiet .pure) fun own => ?_
    refine .quiet .expect fun _ => .adds hg.parameters fun params => .checkParameterAwait fun calm => ?_
    refine hg.functionBody.bind fun body => .pure ?_
    rintro _ ⟨r, since, rfl⟩
    refine ⟨trivial, .of since (fun n mem => ?_) (by simpa using calm)⟩
    rcases List.mem_append.mp mem with name | param
    · obtain ⟨id, -, rfl⟩ := List.mem_map.mp name
      exact .of_parts rfl (by simp [parts, children])
    · exact .of_mem (by simpa using param)
  · exact (before.trans after).weaken fun x mem => .of_mem (by simpa [Callable.parts] using mem)

/-- The parameters of an arrow function were read before. -/
theorem arrow {start : NodeStart} {params : List (Option Expression)} {rest : Option Pattern} {isAsync : Bool}
    {init : InitMode} (covered : ∀ e ∈ params.filterMap id, Covered ns (none, .expression e))
    (rests : ∀ a ∈ rest, Covered ns (none, .pattern a)) (calm : ∀ x ∈ ns, ¬ x.Suspends)
    (edition : isAsync = true → 8 ≤ s.edition) :
    Leads s (Since p ns) (g.arrow start params rest isAsync init) (Operand p) := by
  refine .each fun q before => ?_
  refine (Leads.framed (.function .arrow isAsync false)
    (fun x : List Pattern × ArrowBody => ∀ a ∈ x.1, Covered ns (none, .pattern a)) (fun _ => []) (fun x => x.2.node)
    (fun _ => .arrow ..) (fun _ => rfl) ?_).bind fun (params, body) => .known fun known => ?_
  · refine .start <| .look .targetRules fun rules => .ofExcept fun targets read => .look .isKind fun _ => ?_
    have known : ∀ a ∈ targets.filterMap id ++ rest.toList, Covered ns (none, .pattern a) := fun a mem => by
      rcases List.mem_append.mp mem with mem | mem
      · refine (covering.of_slotTargets read _ (List.mem_map_of_mem mem)).trans fun x mem => ?_
        obtain ⟨_, item, rfl⟩ := List.mem_map.mp mem
        obtain ⟨e, known, rfl⟩ := List.mem_map.mp item
        exact covered e known
      · exact rests a (by simpa using mem)
    refine .ite (fun _ => ?_) fun _ => ?_
    · refine hg.functionBody.bind fun body => .pure ?_
      rintro _ ⟨r, since, rfl⟩
      exact ⟨known, .of since (by simp) (by simp)⟩
    · refine .adds hg.plainAssignment fun body => .quiet .checkParams fun _ => ?_
      refine (Leads.changes (g := Parser.left) (R := fun _ => Inside _ [] (.expression body)) fun r since => ?_).bind
        fun _ => .pure fun _ inside => ⟨known, inside⟩
      exact .of since (by simp) (by simp)
  · refine .look .finishSpan fun _ => .lookFor .since (V := (· = decide (8 ≤ s.edition))) (by simp +contextual) ?_
    rintro _ rfl
    have same : (isAsync && decide (8 ≤ s.edition)) = isAsync := by
      cases isAsync with
      | true => simp [edition rfl]
      | false => rfl
    rw [same]
    refine .pure fun r after => ⟨(before.trans after).weaken (.nodeOf rfl fun x part => ?_), rfl⟩
    rcases List.mem_append.mp part with part | part
    · obtain ⟨a, mem, rfl⟩ := List.mem_map.mp part
      exact ((known a mem).arrowHead rfl calm).mono (List.subset_append_left ..)
    · exact .of_mem (by simp_all)

end Settled
end Ambient
end ScriptSyntax
