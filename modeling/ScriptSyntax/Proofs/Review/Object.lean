import ScriptSyntax.Parser.Object
import ScriptSyntax.Proofs.Review.Function

/-!
Templates, lists, chains and object literals in the strict and in the lenient reading.
-/

namespace ScriptSyntax

open Node ParseM Grammar

variable {s : Setting} {p : Parser} {b : Bool} {ns : List Node}

namespace Quiet

@[grind ←] theorem templateElement {tagged : Bool} : Quiet s (templateElement tagged) := by
  refine bind (of_looks .startNode) fun _ => bind (of_looks .lexer) fun _ => bind (of_looks .source) fun _ => ?_
  split
  · grind
  · grind
  · exact of_fails (by grind)

@[grind ←] theorem beginsAsyncArrow {base : Expression} : Quiet s (beginsAsyncArrow base) := by
  refine sees (fun _ => rfl) fun _ => ?_
  cases base <;> grind

end Quiet

@[grind ←] theorem CoverQuiet.noteCommaAfterSpread : CoverQuiet s noteCommaAfterSpread := by
  grind [Grammar.noteCommaAfterSpread]

namespace Grammar.Reviewed

variable {g₀ g₁ : Grammar} (hg : g₀.Reviewed s g₁)
include hg

theorem substitution {tagged : Bool} :
    Adds s false (g₀.substitution tagged) (g₁.substitution tagged) fun x => [.expression x.1] :=
  .of fun _ => .look .isKind fun _ => .ite (fun _ => .fails (.after fun _ => .bind .fail) (.after fun _ => .bind .fail))
    fun _ => .quiet .expect fun _ =>
    .adds hg.plainExpression fun _ => .quiet .expect fun _ => .quiet .templateElement fun _ =>
      .done id fun _ mem => .of_mem mem

theorem template {tagged : Bool} :
    Adds s false (g₀.template tagged) (g₁.template tagged) fun t => [.expression (.template t)] := by
  refine .of fun p => .look .startNode fun _ => .quiet .next fun _ => .quiet .templateElement fun first => ?_
  refine .bind (.repeatPast (a := ([], first, []))
    (I := fun (x : List Expression × TemplateElement × List TemplateElement) =>
      Since s p false (x.1.map .expression))
    (Q := fun (x : List Expression × List TemplateElement) =>
      Since s p false (x.1.map .expression)) fun (es, last, chunks) => ?_) fun (es, chunks) => ?_
  · refine .ite (fun _ => .pure fun _ _ before => ?_) fun _ => .adds hg.substitution fun _ => .pure fun _ _ before => ?_
    · exact before.weaken id fun _ mem => .of_mem (by simpa using mem)
    · exact before.weaken (by simp) fun _ mem => .of_mem (by simpa [or_comm] using mem)
  · refine .quiet .next fun _ => .look .finishSpan fun _ => .done id (.nodeOf rfl fun c child => ?_)
    rcases mem_interleave child with ⟨_, rfl⟩ | ⟨x, mem, rfl⟩
    · exact .ofChunk
    · exact .of_mem (List.mem_map_of_mem mem)

theorem spread : CoverAdds s false g₀.spread g₁.spread fun e => [.expression e] :=
  .of fun _ => .look .startNode fun _ => .quiet .next fun _ => .adds (hg.assignment .plain) fun _ =>
    .look .finishSpan fun _ => .done id (.node rfl (by simp [children, Expression.children]))

theorem listElement {holes : Bool} :
    CoverAdds s false (g₀.listElement holes) (g₁.listElement holes) fun e => e.toList.map .expression := by
  refine .of fun _ => .look .isKind fun _ => .ite (fun _ => .done id (by simp)) fun _ => .look .isKind fun _ =>
    .ite (fun _ => ?_) fun _ => ?_
  · exact .adds hg.spread fun _ => .coverQuiet .noteCommaAfterSpread fun _ => .done id fun _ mem =>
      .of_mem (by simpa using mem)
  · exact .adds (hg.assignment .plain) fun _ => .done id fun _ mem => .of_mem (by simpa using mem)

theorem expressionList {close : TokenKind} {trailing holes : Bool} :
    CoverAdds s false (g₀.expressionList close trailing holes) (g₁.expressionList close trailing holes)
      fun es => es.flatMap fun e => e.toList.map .expression := .commaSeparated hg.listElement

omit hg in
theorem memberName {object : Expression} :
    Adds s false (memberName object) (memberName object) fun e => [.expression e] := by
  refine .of fun _ => .look .isKind fun _ => .ite (fun _ => ?_) fun _ => ?_
  · exact .adds .privateIdentifier fun _ => .done (by simp) fun _ mem => .of_mem mem
  · exact .quiet .propertyWord fun _ => .done id (.leaf rfl rfl)

/-- A member of the base, or the base where none follows. -/
theorem memberAccess? {base : Expression} {start : NodeStart} {optional : Bool} :
    Tracks s (Since s p b [.expression base]) (g₀.memberAccess? base start optional)
      (g₁.memberAccess? base start optional) fun e => Since s p b [.expression (e.getD base)] := by
  refine .quiet .eat fun _ => .ite (fun _ => ?_) fun _ => ?_
  · refine .adds hg.plainExpression fun _ => .quiet .expect fun _ => .look .finishSpan fun _ => .done (by simp) ?_
    exact .node rfl (by simp [children, Expression.children, Member.children])
  · refine .look .isKind fun _ => .look .isKind fun _ => .quiet (by grind) fun _ => .ite (fun _ => ?_) fun _ => ?_
    · refine .adds memberName fun _ => .look .finishSpan fun _ => .done (by simp) ?_
      exact .node rfl (by simp [children, Expression.children, Member.children])
    · exact .pure fun _ _ => id

theorem call {base : Expression} {start : NodeStart} {optional asyncArrow : Bool} {init : InitMode} :
    Tracks s (Since s p b [.expression base]) (g₀.call base start optional asyncArrow init)
      (g₁.call base start optional asyncArrow init) (Pass.Ends
        (fun e => Since s p b [.expression e]) fun e => Since s p b [.expression e]) := by
  refine .peek fun outer => .quiet (.modify (fun _ => rfl) (fun _ => rfl) (fun _ => rfl) fun _ => .refl) fun _ => ?_
  refine .look .since fun _ => .adds hg.expressionList.deferring fun (arguments, deferred) =>
    .look .canOmitSemicolon fun _ =>
    .quiet (by grind) fun _ => .ite (fun _ => ?_) fun _ => ?_
  · refine .quiet .check fun _ => .quiet .checkParameterAwait fun _ => .peek fun q => ?_
    rw [show q.bare.awaitNameAt = q.awaitNameAt from rfl]
    split
    · exact .fails (by grind) (by grind)
    · refine .quiet (.modify (fun _ => rfl) (fun _ => rfl) (fun _ => rfl) fun _ => .refl) fun _ => ?_
      refine (hg.arrow (fun e mem => .of_mem ?_) (by simp)).bind fun _ => .pure fun _ _ before =>
        before.weaken (by simp) fun _ mem => .of_mem mem
      simpa using .inr (by simpa using mem)
  · refine .quiet .check fun _ => .quiet (.modify (fun _ => rfl) (fun _ => rfl) (fun _ => rfl) fun _ =>
      .refl) fun _ => ?_
    refine .look .finishSpan fun _ => .pure fun _ _ before => before.weaken (by simp) (.node rfl ?_)
    intro n mem
    simpa [children, Expression.children] using mem

/-- A chain grows by a link, or it is done. -/
theorem chainPass {start : NodeStart} {callee asyncArrow : Bool} {init : InitMode} {chain : Chain} :
    Tracks s (Since s p b [.expression chain.base]) (g₀.chainPass start callee asyncArrow init chain)
      (g₁.chainPass start callee asyncArrow init chain) (Pass.Ends
        (fun next => Since s p b [.expression next.base]) fun result => Since s p b [.expression result.1]) := by
  refine .quiet (.andM (.of_looks .since) .eat) fun _ =>
    .ite (fun _ => .fails (.after fun _ => .bind .fail) (.after fun _ => .bind .fail)) fun _ => ?_
  refine hg.memberAccess?.bind fun e => ?_
  cases e with
  | some e => exact .pure fun _ _ => id
  | none =>
    refine .quiet (.andM .pure .eat) fun _ => .ite (fun _ => hg.call.bind fun x => ?_) fun _ => .look .isKind fun _ =>
      .ite (fun _ => ?_) fun _ => .pure fun _ _ => id
    · cases x <;> exact .pure fun _ _ => id
    · refine .ite (fun _ => .fails (.after fun _ => .bind .fail) (.after fun _ => .bind .fail)) fun _ =>
        .adds hg.template fun _ => ?_
      refine .look .finishSpan fun _ => .pure fun _ _ before => before.weaken (by simp) (.node rfl ?_)
      simp [children, Expression.children]

theorem subscripts (base : Expression) {start : NodeStart} {callee : Bool} {init : InitMode} :
    Tracks s (Since s p b [.expression base]) (g₀.subscripts base start callee init)
      (g₁.subscripts base start callee init) fun e => Since s p b [.expression e] := by
  refine .quiet .beginsAsyncArrow fun _ => .bind (.repeatPast (a := ⟨base, false⟩)
    (I := fun (chain : Chain) => Since s p b [.expression chain.base])
    (Q := fun (x : Expression × Bool) => Since s p b [.expression x.1]) fun _ => hg.chainPass) fun (e, isOptional) => ?_
  refine .ite (fun _ => .look .finishSpan fun _ => .done id (.node rfl ?_)) fun _ => .done id fun _ mem => .of_mem mem
  simp [children, Expression.children]

theorem subscripted {init : InitMode} :
    CoverAdds s false (g₀.subscripted init) (g₁.subscripted init) fun e => [.expression e] := by
  refine .of fun p => .look .startNode fun _ => .adds (hg.atom init false) fun base => ?_
  refine .look .afterParenthesis fun _ => .ite (fun _ => .done id fun _ mem => .of_mem mem) fun _ => ?_
  refine .bind (.lift (hg.subscripts _)) fun e => ?_
  cases e
  case member => exact .coverQuiet .amend fun _ => .done id fun _ mem => .of_mem mem
  all_goals exact .done id fun _ mem => .of_mem mem

end Grammar.Reviewed

/-! ### Object literals -/

namespace Quiet

@[grind ←] theorem checkAccessor {isGetter : Bool} {f : Callable} : Quiet s (checkAccessor isGetter f) := by
  unfold ParseM.checkAccessor
  split <;> grind

@[grind ←] theorem checkNames {names : PropertyNames} {form : PropertyForm} {key : Expression} :
    Quiet s (checkNames names form key) := by grind [Grammar.checkNames]

end Quiet

namespace CoverQuiet

@[grind ←] theorem checkProto {names : PropertyNames} {form : PropertyForm} {computed : Bool} {key : Expression} :
    CoverQuiet s (checkProto names form computed key) := by
  unfold Grammar.checkProto
  split <;> grind

@[grind ←] theorem checkMember {names : PropertyNames} {m : ObjectMember} :
    CoverQuiet s (checkMember names m) := by
  cases m <;> grind [Grammar.checkMember]

end CoverQuiet

namespace Grammar.Reviewed

variable {g₀ g₁ : Grammar} (hg : g₀.Reviewed s g₁)
include hg

theorem shorthandValue {start : NodeStart} {id : Identifier} :
    CoverAdds s false (g₀.shorthandValue start id) (g₁.shorthandValue start id) fun e => [.expression e] := by
  refine .of fun _ => .liftAdds shorthandTarget_adds fun _ => .coverQuiet (by grind) fun _ => .look .isKind fun _ =>
    .ite (fun _ => ?_) fun _ => .done (fun h => h) (.leaf rfl rfl)
  refine .look .tokenStart fun _ => .coverQuiet (by grind) fun _ => .quiet .next fun _ => ?_
  refine .liftAdds hg.plainAssignment fun _ => .look .finishSpan fun _ => .done (by simp) (.nodeOf rfl ?_)
  simp [children, Expression.children]

/-- The key of a property was read before. -/
theorem propertyValue {start : NodeStart} {key : Expression} {computed escaped isGenerator isAsync : Bool} :
    CoverTracks s (Since s p b [.expression key])
      (g₀.propertyValue start key computed escaped isGenerator isAsync)
      (g₁.propertyValue start key computed escaped isGenerator isAsync) fun m => Since s p b [.objectMember m] := by
  refine .look .isKind fun _ => .ite (fun _ => .failing .unexpected .unexpected) fun _ => .quiet .eat fun _ =>
    .ite (fun _ => ?_) fun _ => .look .since fun _ => .look .isKind fun _ => .ite (fun _ => ?_) fun _ =>
      .look .accessorForm? fun form => ?_
  · refine .adds (hg.assignment .plain) fun _ => .look .finishSpan fun _ => .done (by simp) (.node rfl ?_)
    simp [children, ObjectMember.children]
  · refine .liftAdds hg.method fun _ => .look .finishSpan fun _ => .done (by simp) (.node rfl ?_)
    simp [children, ObjectMember.children]
  · cases form with
    | some form =>
      refine .ite (fun _ => .failing .unexpected .unexpected) fun _ => .liftAdds hg.propertyName fun x => ?_
      obtain ⟨key, computed⟩ := x
      refine .liftAdds hg.method fun _ => .quiet .checkAccessor fun _ => .look .finishSpan fun _ =>
        .done (by simp) (.node rfl ?_)
      simp [children, ObjectMember.children]
    | none =>
      refine .look .since fun _ => ?_
      split
      · refine .ite (fun _ => .failing .unexpected .unexpected) fun _ => .adds hg.shorthandValue fun _ =>
          .look .finishSpan fun _ => .done (by simp) (.node rfl ?_)
        simp [children, ObjectMember.children]
      · exact .fails .unexpected .unexpected

theorem objectMember : CoverAdds s false g₀.objectMember g₁.objectMember fun m => [.objectMember m] := by
  refine .of fun _ => .look .startNode fun _ => .quiet (.andM (.of_looks .since) .eat) fun _ =>
    .ite (fun _ => ?_) fun _ => ?_
  · refine .adds (hg.assignment .plain) fun _ => .coverQuiet .noteCommaAfterSpread fun _ =>
      .look .finishSpan fun _ => ?_
    exact .done id (.node rfl (by simp [children, ObjectMember.children]))
  · refine .quiet (.andM (.of_looks .since) .eat) fun _ => .look .containsEscape fun _ =>
      .liftAdds hg.propertyName fun x => ?_
    obtain ⟨key, computed⟩ := x
    refine .look .since fun _ => .look .isAsyncMethod fun _ => .ite (fun _ => ?_) fun _ => hg.propertyValue
    refine .quiet (.andM (.of_looks .since) .eat) fun _ => .liftAdds hg.propertyName fun x => ?_
    obtain ⟨key, computed⟩ := x
    refine .strengthen hg.propertyValue ?_
    exact fun _ _ before => before.weaken id fun _ mem => .of_mem (by simp_all)

theorem object : CoverAdds s false g₀.object g₁.object fun e => [.expression e] := by
  refine .of fun p => .look .startNode fun _ => .quiet .next fun _ => .look .since fun _ => ?_
  refine .bind (.repeatPast (a := ([], {}))
    (I := fun (x : List ObjectMember × PropertyNames) => Since s p false (x.1.flatMap fun m => [Node.objectMember m]))
    (Q := fun members => Since s p false (members.flatMap fun m => [Node.objectMember m])) fun (members, names) => ?_)
    fun members => .look .finishSpan fun _ => .done id (.node rfl ?_)
  · refine .quiet .eat fun _ => .ite (fun _ => .pure fun _ _ => .reverse) fun _ => .unless (by grind) ?_
    refine .quiet (by grind) fun _ => .ite (fun _ => .pure fun _ _ => .reverse) fun _ => ?_
    exact .adds hg.objectMember fun m => .coverQuiet .checkMember fun _ => .pure fun _ _ before => before.cons (by simp)
  · simp [children, Expression.children, List.map_eq_flatMap]

end Grammar.Reviewed
end ScriptSyntax
