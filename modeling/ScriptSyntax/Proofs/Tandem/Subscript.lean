import ScriptSyntax.Proofs.Tandem.Function

/-!
Templates, lists and chains, in two parsers side by side.  A chain notes whether it can stop early, and is
marked if so.
-/

namespace ScriptSyntax

open ParseM

namespace Tandem

open Node Grammar

variable {t : Twins}

theorem fits_interleave {elements : List TemplateElement} {expressions : List Expression}
    (chunks : ∀ e ∈ elements, Fits t (.templateElement e))
    (fits : ∀ x ∈ expressions, Fits t (.expression x)) : ∀ n ∈ interleave elements expressions, Fits t n := by
  fun_induction interleave elements expressions with
  | case1 e elements x expressions ih =>
    obtain ⟨chunk, chunks⟩ := List.forall_mem_cons.mp chunks
    obtain ⟨fit, fits⟩ := List.forall_mem_cons.mp fits
    exact fits_cons chunk (fits_cons fit (ih chunks fits))
  | case2 elements => exact fits_map chunks
  | case3 expressions => exact fits_map fits

/-! ### Parts of templates, lists and chains -/

theorem Gives.templateElement {tagged : Bool} :
    Gives t (templateElement tagged) (templateElement tagged) fun e => Fits t (.templateElement e) := by
  refine .start fun _ _ same => .lexer fun l k h _ => .source ?_
  rw [h.kind, h.value, h.start, h.stop, t.texts.agree.chars h.sited.start.le _ h.sited.stop.le]
  have rest (cooked : Option String) {raw : String} :
      Gives t (do next; let isTail ← isKind .backQuote; return ⟨← finishSpan _, raw, cooked, isTail⟩)
        (do next; let isTail ← isKind .backQuote; return ⟨← finishSpan _, raw, cooked, isTail⟩) fun e =>
          Fits t (.templateElement e) :=
    .quiet .next fun _ => .quiet .isKind fun _ => .finish same fun span spans =>
      .done (Fits.leaf (n := .templateElement ⟨span, _, _, _⟩) spans rfl rfl)
  split
  · exact .ite (fun _ => .known (rest none)) fun _ => .stops (.failRecoverable h.sited.start nofun)
  · exact .known (rest _)
  · exact .stops .unexpected

theorem CoverQuiet.noteCommaAfterSpread : CoverQuiet t noteCommaAfterSpread := by
  refine .liftQuiet .isKind fun _ => .ite (fun _ => .liftStep .tokenStart fun pos placed => ?_) fun _ => .done trivial
  exact .amend fun d put => { put with commaAfterRest := forall_mem_or put.commaAfterRest (forall_mem_some placed) }

theorem Gives.memberName {object : Expression} :
    Gives t (memberName object) (memberName object) (ExpressionFits t) := by
  refine .quiet .isKind fun _ => .ite (fun _ => .step .privateIdentifier fun id spans => .done ?_) fun _ => ?_
  · exact Fits.leaf (n := .expression (.privateIdentifier id)) spans rfl rfl
  · exact .step .propertyWord fun id spans => .done (name_fits spans).2.1

theorem Quiet.beginsAsyncArrow {base : Expression} : Quiet t (beginsAsyncArrow base) := by
  refine Yields.get fun p q state => ?_
  cases base with
  | identifier id =>
    rw [state.lexers.lastStop, show q.potentialArrowAt = p.potentialArrowAt by rw [state.rest]]
    exact .quiet .since fun _ => .quiet .canOmitSemicolon fun _ => .done trivial
  | _ => exact .done trivial

theorem Quiet.afterParenthesis : Quiet t afterParenthesis := by
  refine Yields.lexer fun l k h _ => .source ?_
  rw [h.lastStart, h.lastStop, t.texts.agree.chars h.sited.lastStart.le _ h.sited.lastStop.le]
  exact .done trivial

end Tandem

namespace Grammar.Paired

open Tandem Node

variable {t : Twins} {g : Grammar} (hg : g.Paired t)
include hg

/-! ### Templates -/

theorem substitution {tagged : Bool} : Gives t (g.substitution tagged) (g.substitution tagged) fun x =>
    ExpressionFits t x.1 ∧ Fits t (.templateElement x.2) := by
  refine .quiet .isKind fun _ => .ite (fun _ => .lexer fun l k h _ => ?_) fun _ => .quiet .expect fun _ => ?_
  · rw [h.pos]
    exact .stops (.fail h.sited.pos nofun)
  · refine .step hg.plainExpression fun e fits => .quiet .expect fun _ =>
      .step .templateElement fun chunk fitChunk => ?_
    exact .done ⟨fits, fitChunk⟩

theorem template {tagged : Bool} :
    Gives t (g.template tagged) (g.template tagged) fun x => ExpressionFits t (.template x) := by
  refine .start fun _ _ same => .quiet .next fun _ => .step .templateElement fun first fitFirst => ?_
  refine .step (.repeatPast (x := ([], first, []))
    (I := fun x => (∀ e ∈ x.1, ExpressionFits t e) ∧ Fits t (.templateElement x.2.1) ∧
      ∀ e ∈ x.2.2, Fits t (.templateElement e))
    (W := fun x => (∀ e ∈ x.1, ExpressionFits t e) ∧ ∀ e ∈ x.2, Fits t (.templateElement e)) ⟨nofun,
      fitFirst, nofun⟩ ?_) ?_
  · rintro ⟨expressions, last, elements⟩ ⟨fits, fitLast, chunks⟩
    refine .ite (fun _ => .done ?_) fun _ => .step hg.substitution fun x ⟨fit, chunk⟩ => ?_
    · have all : ∀ e ∈ last :: elements, Fits t (.templateElement e) := List.forall_mem_cons.mpr ⟨fitLast, chunks⟩
      exact ⟨fun e mem => fits e (List.mem_reverse.mp mem), fun e mem => all e (List.mem_reverse.mp mem)⟩
    · exact .done ⟨List.forall_mem_cons.mpr ⟨fit, fits⟩, chunk, List.forall_mem_cons.mpr ⟨fitLast, chunks⟩⟩
  · rintro ⟨expressions, elements⟩ ⟨fits, chunks⟩
    refine .quiet .next fun _ => .finish same fun span spans => .done ?_
    exact Fits.node (n := .expression (.template ⟨span, expressions, elements⟩)) spans (fits_interleave chunks fits) rfl

/-! ### Lists -/

theorem spread : CoverGives t g.spread g.spread (ExpressionFits t) := by
  refine .start fun _ _ same => .liftQuiet .next fun _ => .step (hg.assignment .plain) fun e fits =>
    .finish same fun span spans => .done ?_
  exact Fits.node (n := .expression (.spread span e)) spans (fits_one fits) rfl

theorem listElement {holes : Bool} :
    CoverGives t (g.listElement holes) (g.listElement holes) fun e => ∀ x ∈ e, ExpressionFits t x := by
  refine .liftQuiet .isKind fun _ => .ite (fun _ => .done nofun) fun _ => .liftQuiet .isKind fun _ =>
    .ite (fun _ => ?_) fun _ => ?_
  · exact .step hg.spread fun e fits => .quiet .noteCommaAfterSpread fun _ => .done (forall_mem_some fits)
  · exact .step (hg.assignment .plain) fun e fits => .done (forall_mem_some fits)

theorem expressionList {close : TokenKind} {trailing holes : Bool} :
    CoverGives t (g.expressionList close trailing holes) (g.expressionList close trailing holes) fun es =>
      ∀ e ∈ es, ∀ x ∈ e, ExpressionFits t x := .commaSeparated hg.listElement

/-! ### Chains -/

variable {base : Expression} {isOpen : Bool} (h : Chained t isOpen base)
include h

theorem memberAccess? {x y : NodeStart} {optional : Bool} (same : SameStart t x y) :
    Gives t (g.memberAccess? base x optional) (g.memberAccess? base y optional) fun e =>
      ∀ x ∈ e, Chained t (isOpen || optional) x := by
  refine .quiet .eat fun _ => .ite (fun _ => ?_) fun _ => .quiet .isKind fun _ => .quiet .isKind fun _ => ?_
  · refine .step hg.plainExpression fun property fits => .quiet .expect fun _ => .finish same fun span spans => .done ?_
    exact forall_mem_some (h.member spans fits)
  · refine .quiet (.orM .pure .eat) fun _ => .ite (fun _ => ?_) fun _ => .done nofun
    refine .step .memberName fun property fits => .finish same fun span spans => .done ?_
    exact forall_mem_some (h.member spans fits)

/-- The chain goes on with a call, or the whole is an arrow function. -/
theorem call {x y : NodeStart} {optional asyncArrow : Bool} {init : InitMode} (same : SameStart t x y) :
    Gives t (g.call base x optional asyncArrow init) (g.call base y optional asyncArrow init)
      (Turned (Chained t (isOpen || optional)) (ExpressionFits t)) := by
  refine .get fun p q state => ?_
  rw [show q.yieldAt = p.yieldAt by rw [state.rest], show q.awaitAt = p.awaitAt by rw [state.rest],
    show q.awaitNameAt = p.awaitNameAt by rw [state.rest]]
  have outer := state.noted
  refine .quiet (.modify (fun _ => rfl) (fun _ _ => rfl) fun _ h => ?_) fun _ => .quiet .since fun _ => ?_
  · exact { h with yieldAt := by simp, awaitAt := by simp, awaitNameAt := by simp }
  refine .step (hg.expressionList.deferring .empty) fun x known => .quiet .canOmitSemicolon fun _ => ?_
  obtain ⟨arguments, deferred⟩ := x
  obtain ⟨fits, put⟩ := known
  refine .quiet (.andM .pure .eat) fun _ => .ite (fun _ => ?_) fun _ =>
    .quiet (.check put.expressionComplaint) fun _ => ?_
  · refine .quiet (.check put.patternComplaint) fun _ => .quiet .checkParameterAwait fun _ =>
      .get fun p' q' state' => ?_
    rw [show q'.awaitNameAt = p'.awaitNameAt by rw [state'.rest]]
    split
    · next pos here => exact .stops (.fail (state'.noted.awaitNameAt pos here) (by simp))
    · refine .quiet (.modify (fun _ => rfl) (fun _ _ => rfl) fun _ h => ?_) fun _ => ?_
      · exact { h with yieldAt := outer.yieldAt, awaitAt := outer.awaitAt, awaitNameAt := outer.awaitNameAt }
      · exact .step (hg.arrow same fits (by simp)) fun e fits => .done fits
  · refine .quiet (.modify (fun _ => rfl) (fun _ _ => rfl) fun _ h => ?_) fun _ =>
      .finish same fun span spans => .done ?_
    · exact { h with
        yieldAt := forall_mem_or outer.yieldAt h.yieldAt
        awaitAt := forall_mem_or outer.awaitAt h.awaitAt
        awaitNameAt := forall_mem_or outer.awaitNameAt h.awaitNameAt }
    · refine h.call spans fun e mem => ?_
      obtain ⟨x, here, some⟩ := List.mem_filterMap.mp mem
      exact fits x here e some

omit h in
/-- A chain goes on, and whether it can stop early is known. -/
theorem chainPass {x y : NodeStart} {callee asyncArrow : Bool} {init : InitMode} {chain : Chain}
    (same : SameStart t x y) (h : Chained t chain.isOptional chain.base) :
    Gives t (g.chainPass x callee asyncArrow init chain) (g.chainPass y callee asyncArrow init chain)
      (Turned (fun chain => Chained t chain.isOptional chain.base) fun e => Chained t e.2 e.1) := by
  refine .quiet (.andM .since .eat) fun optional => .ite (fun _ => .lexer fun l k h _ => ?_) fun _ => ?_
  · rw [h.lastStart]
    exact .stops (.fail h.sited.lastStart nofun)
  refine .step (hg.memberAccess? h same) fun e chained => ?_
  cases e with
  | some e => exact .done (chained e rfl)
  | none =>
    refine .quiet (.andM .pure .eat) fun _ => .ite (fun _ => .step (hg.call h same) fun r after => ?_) fun _ =>
      .quiet .isKind fun _ => ?_
    · cases r with
      | again e => exact .done after
      | done e => exact .done (.of_fits after)
    · refine .ite (fun _ => ?_) fun _ => .done h
      refine .ite (fun _ => .step .tokenStart fun _ placed => .stops (.fail placed nofun)) fun plain => ?_
      refine .step hg.template fun x fits => .finish same fun span spans => .done ?_
      have closed : chain.isOptional = false := by
        have plain : (optional || chain.isOptional) = false := by simpa using plain
        exact (Bool.or_eq_false_iff.mp plain).2
      have tag : ExpressionFits t chain.base := Chained.fits (closed ▸ h)
      show Chained t chain.isOptional (.taggedTemplate span chain.base x)
      rw [closed]
      exact .of_fits (Fits.node (n := .expression (.taggedTemplate span chain.base x)) spans (fits_two tag fits) rfl)

omit h in
theorem subscripts {x y : NodeStart} {callee : Bool} {init : InitMode} (same : SameStart t x y)
    (fits : ExpressionFits t base) :
    Gives t (g.subscripts base x callee init) (g.subscripts base y callee init) (ExpressionFits t) := by
  refine .quiet .beginsAsyncArrow fun asyncArrow => .step (.repeatPast (x := (⟨base, false⟩ : Chain)) (.of_fits fits)
    fun chain h => hg.chainPass same h) fun e h => ?_
  obtain ⟨e, isOptional⟩ := e
  cases isOptional with
  | true => exact .finish same fun span spans => .done (h.chain spans)
  | false => exact .done h.fits

omit h in
theorem subscripted {init : InitMode} : CoverGives t (g.subscripted init) (g.subscripted init) (ExpressionFits t) := by
  refine .start fun _ _ same => .step (hg.atom init false) fun base fits => .liftQuiet .afterParenthesis fun _ => ?_
  refine .ite (fun _ => .done fits) fun _ => .liftStep (hg.subscripts same fits) fun e fits => ?_
  cases e with
  | member m => exact .quiet (.amend fun d put => put.excuseMember) fun _ => .done fits
  | _ => exact .done fits

end Grammar.Paired
end ScriptSyntax
