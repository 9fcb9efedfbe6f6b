import ScriptSyntax.Proofs.Ambient.Function

/-!
Templates, lists and chains.  A chain that begins with `super` goes on with a member, or with a call
where that is legal.
-/

namespace ScriptSyntax.Ambient

open Node ParseM Grammar

variable {s : Setting} {p : Parser} {ns : List Part}

namespace Quiet

@[grind ←] theorem templateElement {tagged : Bool} : Quiet s (templateElement tagged) := by
  refine bind (of_looks .startNode) fun _ => bind (of_looks .lexer) fun _ => bind (of_looks .source) fun _ => ?_
  split
  · grind
  · grind
  · exact of_fails (by grind)

end Quiet

@[grind ←] theorem CoverQuiet.noteCommaAfterSpread : CoverQuiet s noteCommaAfterSpread := by
  grind [Grammar.noteCommaAfterSpread]

/-- A token of a kind is moved past, or what is known stays known. -/
theorem Leads.eatOr {P : Parser → Prop} {kind : TokenKind} (since : ∀ q, P q → Since p ns q) :
    Leads s P (eat kind) fun here q => if here then Since p ns q else P q ∧ q.lexer.kind ≠ kind := by
  refine .each fun q before => .lookFor .isKind (V := (· = (q.lexer.kind == kind))) (by simp +contextual) ?_
  rintro _ rfl
  refine .ite (fun yes => ?_) fun no => .pure ?_
  · exact .strengthen (P := Since p ns) (.quiet .next fun _ => .pure fun _ => id) fun r at_q => at_q ▸ since q before
  · rintro _ rfl
    exact ⟨before, by simpa using no⟩

/-- No `?.` follows `super`. -/
theorem Leads.eatOptional {base : Expression} :
    Leads s (Linked p base) (eat .questionDot) fun _ => Linked p base := by
  refine .each fun q linked => .lookFor .isKind (V := (· = (q.lexer.kind == .questionDot))) (by simp +contextual) ?_
  rintro _ rfl
  refine .ite (fun yes => ?_) fun _ => .pure fun _ at_q => at_q ▸ linked
  have plain : base.isSuper = false := by
    cases known : base.isSuper with
    | false => rfl
    | true =>
      have next := linked.next known
      simp_all
  refine .strengthen (P := Since p [(none, .expression base)])
    (.quiet .next fun _ => .pure fun _ after => ?_) fun _ at_q =>
    at_q ▸ linked.since
  exact ⟨after, by simp [plain]⟩

theorem Leads.beginsAsyncArrow {base : Expression} {P : Parser → Prop} :
    Leads s P (Grammar.beginsAsyncArrow base) fun arrow q => (arrow = true → 8 ≤ s.edition) ∧ P q := by
  refine .each fun q before => .seesAt ?_
  split
  · refine .lookFor .since (V := (· = decide (8 ≤ s.edition))) (by simp +contextual) ?_
    rintro _ rfl
    refine .look .canOmitSemicolon fun _ => .pure ?_
    rintro _ rfl
    exact ⟨by simp +contextual, before⟩
  · refine .pure ?_
    rintro _ rfl
    exact ⟨nofun, before⟩

/-- A member of the base, or the base where none follows. -/
def Grown (p : Parser) (base : Expression) : Option Expression → Parser → Prop
  | some e, q => Operand p e q
  | none, q => Since p [(none, .expression base)] q ∧
    (base.isSuper = true → q.lexer.kind = .parenL ∧ p.around.construct = true)

namespace Settled

variable {g : Grammar} (hg : Settled s g)
include hg

theorem substitution {tagged : Bool} : Adds s (g.substitution tagged) fun x => [(none, .expression x.1)] :=
  .of fun _ => .look .isKind fun _ => .ite (fun _ => .fails (.after fun _ => .bind .fail)) fun _ =>
    .quiet .expect fun _ =>
    .adds hg.plainExpression fun _ => .quiet .expect fun _ => .quiet .templateElement fun _ =>
      .done fun _ mem => .of_mem mem

theorem template {tagged : Bool} : Adds s (g.template tagged) fun t => [(none, .expression (.template t))] := by
  refine .of fun p => .look .startNode fun _ => .quiet .next fun _ => .quiet .templateElement fun first => ?_
  refine .bind (.repeatPast (a := ([], first, []))
    (I := fun (x : List Expression × TemplateElement × List TemplateElement) =>
      Since p (x.1.map fun e => (none, .expression e)))
    (Q := fun (x : List Expression × List TemplateElement) => Since p (x.1.map fun e => (none, .expression e)))
    fun (es, last, chunks) => ?_) fun (es, chunks) => ?_
  · refine .ite (fun _ => .pure fun _ before => ?_) fun _ => .adds hg.substitution fun _ => .pure fun _ before => ?_
    · exact before.weaken fun _ mem => .of_mem (by simpa using mem)
    · exact before.weaken fun _ mem => .of_mem (by simpa [or_comm] using mem)
  · refine .quiet .next fun _ => .look .finishSpan fun _ => .done (.nodeOf rfl fun x part => ?_)
    obtain ⟨c, child, rfl⟩ := List.mem_map.mp part
    rcases mem_interleave child with ⟨_, rfl⟩ | ⟨e, mem, rfl⟩
    · exact .of_parts rfl (by simp [parts, children])
    · exact .of_mem (by simpa using mem)

theorem spread : CoverAdds s g.spread fun e => [(none, .expression e)] :=
  .of fun _ => .look .startNode fun _ => .quiet .next fun _ => .adds (hg.assignment .plain) fun _ =>
    .look .finishSpan fun _ => .done (.node rfl (by simp [parts, children, Expression.children]))

theorem listElement {holes : Bool} :
    CoverAdds s (g.listElement holes) fun e => e.toList.map fun e => (none, .expression e) := by
  refine .of fun _ => .look .isKind fun _ => .ite (fun _ => .done (by simp)) fun _ => .look .isKind fun _ =>
    .ite (fun _ => ?_) fun _ => ?_
  · exact .adds hg.spread fun _ => .coverQuiet .noteCommaAfterSpread fun _ => .done fun _ mem =>
      .of_mem (by simpa using mem)
  · exact .adds (hg.assignment .plain) fun _ => .done fun _ mem => .of_mem (by simpa using mem)

theorem expressionList {close : TokenKind} {trailing holes : Bool} :
    CoverAdds s (g.expressionList close trailing holes)
      fun es => es.flatMap fun e => e.toList.map fun e => (none, .expression e) := .commaSeparated hg.listElement

omit hg in
theorem memberName {object : Expression} : Adds s (memberName object) fun e => [(none, .expression e)] := by
  refine .of fun _ => .look .isKind fun _ => .ite (fun _ => ?_) fun _ => ?_
  · exact .quiet .privateIdentifier fun _ => .done (.leaf rfl rfl)
  · exact .quiet .propertyWord fun _ => .done (.leaf rfl rfl)

theorem memberAccess? {base : Expression} {start : NodeStart} {optional : Bool} :
    Leads s (Linked p base) (g.memberAccess? base start optional) (Grown p base) := by
  refine (Leads.eatOr fun _ linked => linked.since).bind fun brackets => .ite (fun yes => ?_) fun no => ?_
  · subst yes
    refine .adds hg.plainExpression fun _ => .quiet .expect fun _ => .look .finishSpan fun _ => .pure fun _ before =>
      ⟨before.weaken ?_, rfl⟩
    exact .node rfl (by simp [parts, children, Expression.children, Member.children])
  · simp only [if_neg no]
    refine .look .isKind fun _ => .look .isKind fun _ => .bind (R := fun here q =>
      if here then Since p [(none, .expression base)] q else Grown p base none q) (.orElse (fun yes => ?_) fun _ => ?_)
      fun here => .ite (fun yes => ?_) fun no => ?_
    · exact .pure fun _ before => before.1.since
    · refine (Leads.eatOr fun _ before => before.1.since).weaken fun here q after => ?_
      cases here with
      | true => exact after
      | false =>
        obtain ⟨⟨linked, noBracket⟩, noDot⟩ := after
        exact ⟨linked.since, fun super => ((linked.next super).resolve_left noDot).resolve_left noBracket⟩
    · subst yes
      refine .adds memberName fun _ => .look .finishSpan fun _ => .pure fun _ before => ⟨before.weaken ?_, rfl⟩
      exact .node rfl (by simp [parts, children, Expression.children, Member.children])
    · exact .pure fun _ before => by simpa [no] using before

/-- What may be a call is read with a record of its own of what suspends, which is added to the outer one, or
dropped if it turns out to be the head of an arrow function. -/
theorem call {base : Expression} {start : NodeStart} {optional asyncArrow : Bool} {init : InitMode}
    (super : base.isSuper = true → p.around.construct = true) (edition : asyncArrow = true → 8 ≤ s.edition) :
    Leads s (Since p [(none, .expression base)]) (g.call base start optional asyncArrow init)
      (Leads.Ends (Operand p) (Operand p)) := by
  refine .each fun q before => .seesAt <| .change <| .start (p := q.unnoted) <| .look .since fun _ =>
    .adds hg.expressionList.deferring fun (arguments, deferred) => .look .canOmitSemicolon fun _ => ?_
  simp only [List.nil_append]
  generalize args : (arguments.flatMap fun e => e.toList.map fun e => ((none : Option Frame), Node.expression e)) = ns
  refine .bind (R := fun here r => (here = true → asyncArrow = true) ∧ Since q.unnoted ns r)
    (.andThen (fun yes => (Leads.ofQuiet .eat).weaken fun _ _ after => ⟨fun _ => by simp_all, after⟩)
      fun _ => .pure fun _ after => ⟨nofun, after⟩) fun here => .known fun async => .ite (fun yes => ?_) fun _ => ?_
  · refine .quiet .check fun _ => .checkParameterAwait fun calm => .each fun r after => .seesAt ?_
    split
    · exact .fails (by grind)
    · have kept := after.kept
      have same : Since q ns (q.noting r) :=
        after.aside calm rfl ⟨kept.strict, kept.scopes, kept.labels, kept.classes, kept.nesting⟩ id
      refine .change (.bind (R := fun e => Operand q e)
        (.strengthen (P := Since q ns) (hg.arrow ?_ (by simp) calm ?_) ?_)
        fun e => .pure fun _ operand => before.before operand)
      · intro e mem
        exact .of_mem (by simpa [← args] using mem)
      · exact fun _ => edition (async yes)
      · rintro _ rfl
        exact same
  · refine .quiet .check fun _ => .each fun r after =>
      .change (.strengthen (P := Since q ns) (.look .finishSpan fun span =>
      .pure fun r' after => ⟨(before.trans after).node ⟨nofun, nofun, nofun, ?_⟩ nofun fun x part => ?_, rfl⟩) ?_)
    · intro calls
      refine super ?_
      cases base <;> first | rfl | cases calls
    · refine .of_mem ?_
      simpa [parts, children, Expression.children, ← args] using part
    · rintro _ rfl
      have kept := after.kept
      exact after.shift rfl ⟨kept.strict, kept.scopes, kept.labels, kept.classes, kept.nesting⟩
        (by simp [Parser.noted, Option.isSome_or]; tauto)
        (by simp [Parser.noted, Option.isSome_or]; tauto)

/-- A chain grows by a link, or it is done. -/
theorem chainPass {start : NodeStart} {callee asyncArrow : Bool} {init : InitMode} {chain : Chain}
    (edition : asyncArrow = true → 8 ≤ s.edition) :
    Leads s (Linked p chain.base) (g.chainPass start callee asyncArrow init chain)
      (Leads.Ends (fun next => Linked p next.base) fun result q =>
        Since p [(none, .expression result.1)] q ∧ (callee = false → result.1.isSuper = false)) := by
  refine .bind (R := fun _ => Linked p chain.base) (.sinceAnd .eatOptional (.pure fun _ => id)) fun optional => ?_
  refine .ite (fun _ => .fails (.after fun _ => .bind .fail)) fun _ => hg.memberAccess?.bind fun e => ?_
  cases e with
  | some e => exact .pure fun _ operand => operand.linked
  | none =>
    refine .strengthen (.known (V := chain.base.isSuper = true → p.around.construct = true) fun super => ?_)
      fun q before => ⟨fun super => (before.2 super).2, before⟩
    refine .bind (R := fun here q => (here = false → callee = false → chain.base.isSuper = false) ∧
      Since p [(none, .expression chain.base)] q) (.andThen (fun inChain => ?_) fun outside => ?_) fun here =>
        .known fun plain =>
        .ite (fun _ => (hg.call super edition).bind fun x => ?_) fun no => .look .isKind fun _ =>
          .ite (fun _ => ?_) fun _ => ?_
    · refine (Leads.eatOr fun _ before => before.1).weaken fun here q after => ?_
      cases here with
      | true => exact ⟨nofun, after⟩
      | false =>
        refine ⟨fun _ _ => ?_, after.1.1⟩
        cases known : chain.base.isSuper with
        | false => rfl
        | true => exact (after.2 (after.1.2 known).1).elim
    · exact .pure fun _ before => ⟨fun _ callee => by simp [callee] at outside, before.1⟩
    · cases x with
      | again => exact .pure fun _ operand => operand.linked
      | done => exact .pure fun _ operand => ⟨operand.since, fun _ => operand.notSuper⟩
    · refine .ite (fun _ => .fails (.after fun _ => .bind .fail)) fun _ => .adds hg.template fun _ =>
        .look .finishSpan fun _ =>
        .pure fun _ before => Operand.linked ⟨before.weaken (.node rfl ?_), rfl⟩
      simp [parts, children, Expression.children]
    · exact .pure fun _ before => ⟨before, plain (by simpa using no)⟩

theorem subscripts {base : Expression} {start : NodeStart} {callee : Bool} {init : InitMode} :
    Leads s (Linked p base) (g.subscripts base start callee init) fun e q =>
      Since p [(none, .expression e)] q ∧ (callee = false → e.isSuper = false) := by
  refine Leads.beginsAsyncArrow.bind fun asyncArrow => .known fun edition => ?_
  refine .bind (.repeatPast (a := ⟨base, false⟩) (I := fun (chain : Chain) => Linked p chain.base)
    (Q := fun (x : Expression × Bool) q => Since p [(none, .expression x.1)] q ∧ (callee = false → x.1.isSuper = false))
    fun _ => hg.chainPass edition) fun (e, isOptional) => ?_
  refine .ite (fun _ => .look .finishSpan fun _ => .pure fun _ before => ⟨before.1.weaken (.node rfl ?_), fun _ => rfl⟩)
    fun _ => .pure fun _ => id
  simp [parts, children, Expression.children]

theorem subscripted {init : InitMode} {p : Parser} : CoverLeads s (· = p) (g.subscripted init) (Operand p) := by
  refine .look .startNode fun _ => .bind (hg.begins init false p) fun base => ?_
  refine .look .afterParenthesis fun _ => .ite (fun arrow => .pure fun _ linked => ⟨linked.since, ?_⟩) fun _ => ?_
  · cases base <;> first | rfl | cases arrow
  · refine .bind (.lift (hg.subscripts.weaken fun e q after => Operand.mk after.1 (after.2 rfl))) fun e => ?_
    refine .ofOperand fun notSuper => ?_
    cases e
    case member => exact .coverQuiet .amend fun _ => .operand notSuper fun _ mem => .of_mem mem
    all_goals exact .operand notSuper fun _ mem => .of_mem mem

theorem leftHandSide {init : InitMode} : CoverAdds s (g.subscripted init) fun e => [(none, .expression e)] :=
  fun d _ => (hg.subscripted d).weaken fun _ _ after => after.since

end Settled
end ScriptSyntax.Ambient
