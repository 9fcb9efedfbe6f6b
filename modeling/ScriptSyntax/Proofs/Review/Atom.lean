import ScriptSyntax.Proofs.Parser.Atom
import ScriptSyntax.Proofs.Review.Class

/-!
Operands by themselves in the strict and in the lenient reading.
-/

namespace ScriptSyntax

open Node ParseM Grammar

variable {s : Setting} {p : Parser} {b : Bool} {ns : List Node}

namespace Quiet

@[grind ←] theorem asyncParameterFollows : Quiet s asyncParameterFollows :=
  .sees (fun _ => rfl) fun _ => by grind

@[grind ←] theorem metaWord {start : NodeStart} {expected : String} {wrong escaped : Fault} :
    Quiet s (metaWord start expected wrong escaped) := by grind [Grammar.metaWord]

@[grind ←] theorem importEnd : Quiet s importEnd := by grind [Grammar.importEnd]

@[grind ←] theorem rereadSlash : Quiet s rereadSlash := by
  refine bind (of_looks .isKind) fun _ => bind (of_looks .isKind) fun _ =>
    ite (.ofLexer fun plain ordered run => ?_) pure
  have read := Reads.regExpAgain run plain ordered
  exact read.onward

end Quiet

namespace Grammar

theorem newTarget_adds {start : NodeStart} :
    Adds s false (newTarget start) (newTarget start) fun e => [.expression e] :=
  .of fun _ => .look .finishSpan fun _ => .quiet .metaWord fun _ => .look .scopes fun _ =>
    .unless (.of_fails .failRecoverable) <|
    .look .finishSpan fun _ => .done (fun h => h) (.nodeOf rfl (by simp [children, Expression.children]))

theorem importMeta_adds {start : NodeStart} :
    Adds s false (importMeta start) (importMeta start) fun e => [.expression e] :=
  .of fun _ => .look .finishSpan fun _ => .quiet .metaWord fun _ => .look .options fun _ =>
    .unless (.of_fails .failRecoverable) <|
    .look .finishSpan fun _ => .done (fun h => h) (.nodeOf rfl (by simp [children, Expression.children]))

theorem super_adds {start : NodeStart} : Adds s false (super start) (super start) fun e => [.expression e] := by
  refine .of fun _ => .look .scopes fun _ => .unless (.of_fails .fail) <| .quiet .next fun _ => .look .isKind fun _ =>
    .look .scopes fun _ => .when (.of_fails .fail) <| .look .isKind fun _ => .look .isKind fun _ =>
      .look .isKind fun _ =>
      .unless (.of_fails .unexpected) ?_
  exact .look .finishSpan fun _ => .done (fun h => h) (.leaf rfl rfl)

theorem keywordLiteral_adds {start : NodeStart} {value : LiteralValue} :
    Adds s false (keywordLiteral start value) (keywordLiteral start value) fun e => [.expression e] :=
  .of fun _ => .look .kind fun _ => .quiet .next fun _ => .look .finishSpan fun _ =>
    .done (fun h => h) (.leaf rfl rfl)

end Grammar

namespace CoverTracks

variable {β : Type} {Q : β → Parser → Log → Prop}

theorem peek {P : Parser → Log → Prop} {g₀ g₁ : Parser → CoverM β}
    (next : ∀ q, CoverTracks s P (g₀ q.bare) (g₁ q) Q) :
    CoverTracks s P (getThe Parser >>= g₀) (getThe Parser >>= g₁) Q :=
  fun d q log before => next q d q log before

end CoverTracks

theorem CoverQuiet.modifyThe {f : Parser → Parser} (h : Quiet s (modify f)) : CoverQuiet s (modifyThe Parser f) :=
  CoverQuiet.lift h

/-- The nodes of what stands in parentheses. -/
def Grammar.ParenContents.nodes (c : ParenContents) : List Node :=
  c.items.map .expression ++ c.rest.toList.map (.pattern ·.1)

namespace Grammar.Reviewed

variable {g₀ g₁ : Grammar} (hg : g₀.Reviewed s g₁)
include hg

theorem arrowOfName {start : NodeStart} {id : Identifier} {isAsync : Bool} {init : InitMode} :
    Tracks s (Since s p b ns) (g₀.arrowOfName start id isAsync init) (g₁.arrowOfName start id isAsync init)
      fun e => Since s p b [.expression e] := hg.arrow (by simp) (by simp)

theorem nameAtom {start : NodeStart} {canBeArrow : Bool} {init : InitMode} :
    Adds s false (g₀.nameAtom start canBeArrow init) (g₁.nameAtom start canBeArrow init)
      fun e => [.expression e] := by
  refine .of fun _ => .look .containsEscape fun _ => .quiet .identifier fun id => .look .canOmitSemicolon fun _ =>
    .look .since fun _ => .quiet (by grind) fun _ => .ite (fun _ => ?_) fun _ => .ite (fun _ => ?_) fun _ => ?_
  · refine .quiet (.modify (fun _ => rfl) (fun _ => rfl) (fun _ => rfl) fun _ => ?_) fun _ => ?_
    · exact .of_sameToken (Cursor.sameToken_overrideContext ..)
    · exact .adds hg.function fun _ => .done (by simp) fun _ mem => .of_mem mem
  · exact .done (fun h => h) (by simp)
  · refine .quiet .eat fun _ => .ite (fun _ => hg.arrowOfName) fun _ => .quiet .asyncParameterFollows fun _ =>
      .ite (fun _ => ?_) fun _ => .done (fun h => h) (by simp)
    exact .quiet .identifier fun _ => .look .canOmitSemicolon fun _ =>
      .quiet (by grind) fun _ => .when (.of_fails .unexpected) hg.arrowOfName

/-! ### Parentheses -/

theorem parenPass {trailing : Bool} {contents : ParenContents} :
    Tracks s (Since s p b contents.nodes) (g₀.parenPass trailing contents) (g₁.parenPass trailing contents)
      (Pass.Ends (fun c => Since s p b c.nodes) fun c => Since s p b c.nodes) := by
  refine .look .isKind fun _ => .ite (fun _ => .pure fun _ _ => id) fun _ => .unless .expect ?_
  refine .look .isKind fun _ => .ite (fun _ => .pure fun _ _ => id) fun _ => .look .isKind fun _ =>
    .ite (fun _ => ?_) fun _ => ?_
  · refine .look .tokenStart fun _ => .adds hg.restBinding fun _ => .quiet (by grind [Grammar.checkNoComma]) fun _ => ?_
    exact .pure fun _ _ before => before.weaken (by simp) fun _ mem =>
      .of_mem (by simp_all [ParenContents.nodes]; grind)
  · refine .adds (hg.assignment .plain).deferring fun x => ?_
    obtain ⟨item, deferred⟩ := x
    exact .pure fun _ _ before => before.weaken (by simp) fun _ mem =>
      .of_mem (by simp_all [ParenContents.nodes]; grind)

theorem paren {canBeArrow : Bool} {init : InitMode} :
    Adds s false (g₀.paren canBeArrow init) (g₁.paren canBeArrow init) fun e => [.expression e] := by
  have still {change : Parser → Parser} (same : ∀ q, (change q).bare = change q.bare)
      (labels : ∀ q, (change q).labels = q.labels) (names : ∀ q, (change q).privateNames = q.privateNames)
      (lexer : ∀ q, (change q).lexer = q.lexer) : Quiet s (modify change) :=
    .modify same labels names fun q => lexer q ▸ .refl
  refine .of fun p => .look .startNode fun _ => .look .edition fun _ =>
    .ite (fun _ => hg.parenthesized.since.weaken fun _ _ _ after => after.weaken (by simp) fun _ mem => .of_mem mem)
      fun _ => ?_
  refine .quiet .next fun _ => .look .startNode fun _ => .peek fun outer =>
    .quiet (still (fun _ => rfl) (fun _ => rfl) (fun _ => rfl) fun _ => rfl) fun _ => .look .since fun _ => ?_
  refine .bind (.repeatPast (a := {}) (I := fun (c : ParenContents) => Since s p false c.nodes)
    (Q := fun c => Since s p false c.nodes) fun _ => hg.parenPass) fun contents => ?_
  refine .look .lexer fun _ => .quiet .expect fun _ => .look .canOmitSemicolon fun _ => .quiet (by grind) fun _ =>
    .ite (fun _ => ?_) fun _ => ?_
  · refine .quiet .check fun _ => .quiet .checkParameterAwait fun _ =>
      .quiet (still (fun _ => rfl) (fun _ => rfl) (fun _ => rfl) fun _ => rfl) fun _ => ?_
    refine hg.arrow (fun e mem => .of_mem ?_) fun a mem => .of_mem ?_
    · simp_all [ParenContents.nodes]
    · simp_all [ParenContents.nodes]
  · refine .ite (fun _ => .fails (.after fun _ => .bind .unexpectedAt)
      (.after fun _ => .bind .unexpectedAt)) fun _ => ?_
    cases rest : contents.rest with
    | some x => exact .fails (by grind) (by grind)
    | none =>
      refine .quiet .check fun _ =>
        .quiet (still (fun _ => rfl) (fun _ => rfl) (fun _ => rfl) fun _ => rfl) fun _ => ?_
      split
      · next e single =>
        have mem : e ∈ contents.items := by
          rw [← List.mem_reverse, single]
          exact .head _
        exact .done (fun h => h) fun _ here => .of_mem (by simp_all [ParenContents.nodes])
      · exact .look .spanOf fun _ => .done (fun h => h)
          (.node rfl (by simp [children, Expression.children, ParenContents.nodes]))

theorem parenAtom {canBeArrow : Bool} {init : InitMode} :
    CoverAdds s false (g₀.parenAtom canBeArrow init) (g₁.parenAtom canBeArrow init) fun e => [.expression e] :=
  .of fun _ => .look .tokenStart fun _ => .liftAdds hg.paren fun _ => .coverQuiet (by grind) fun _ =>
    .done (fun h => h) fun _ mem => .of_mem mem

/-! ### `new` and `import` -/

theorem new : Adds s false g₀.new g₁.new fun e => [.expression e] := by
  refine .of fun _ => .look .startNode fun start => .quiet .next fun _ => .look .since fun _ => .look .isKind fun _ =>
    .ite (fun _ => ?_) fun _ => ?_
  · exact newTarget_adds.since
  · refine .look .startNode fun _ => .adds (hg.atom .plain true).alone fun atom =>
      (hg.subscripts atom).bind fun callee => ?_
    refine .quiet .eat fun _ => .ite (fun _ => ?_) fun _ => .given ?_
    · refine .look .since fun _ => .adds hg.expressionList.alone fun arguments => .look .finishSpan fun _ =>
        .done (by simp) (.node rfl fun n mem => ?_)
      simpa [children, Expression.children] using mem
    · exact .look .finishSpan fun _ => .done (fun h => h) (.node rfl (by simp [children, Expression.children]))

theorem importOptions : Adds s false g₀.importOptions g₁.importOptions fun e => e.toList.map .expression := by
  refine .of fun _ => .quiet .eat fun _ => .ite (fun _ => .done (fun h => h) (by simp)) fun _ =>
    .quiet .expect fun _ => .quiet .eat fun _ => .ite (fun _ => .done (fun h => h) (by simp)) fun _ =>
      .adds hg.plainAssignment fun _ => .quiet .eat fun _ => .ite (fun _ => ?_) fun _ => ?_
  · exact .done (by simp) fun _ mem => .of_mem (by simpa using mem)
  · exact .quiet .expect fun _ => .quiet .expect fun _ => .done (by simp) fun _ mem => .of_mem (by simpa using mem)

theorem dynamicImport {start : NodeStart} :
    Adds s false (g₀.dynamicImport start) (g₁.dynamicImport start) fun e => [.expression e] := by
  refine .of fun _ => .quiet .next fun _ => .adds hg.plainAssignment fun specifier => .look .since fun _ =>
    .ite (fun _ => .adds hg.importOptions fun options => .look .finishSpan fun _ =>
      .done (by simp) (.node rfl ?_)) fun _ =>
      .quiet .importEnd fun _ => .given (.look .finishSpan fun _ => .done (by simp) (.node rfl ?_))
  all_goals simp [children, Expression.children]

theorem importAtom {forNew : Bool} :
    Adds s false (g₀.importAtom forNew) (g₁.importAtom forNew) fun e => [.expression e] :=
  .of fun _ => .look .startNode fun _ => .quiet .next fun _ => .look .isKind fun _ =>
    .ite (fun _ => hg.dynamicImport.since) fun _ => .look .isKind fun _ =>
      .ite (fun _ => importMeta_adds.since) fun _ =>
      .fails .unexpected .unexpected

/-! ### Atoms -/

theorem array {start : NodeStart} :
    CoverAdds s false (g₀.array start) (g₁.array start) fun e => [.expression e] := by
  refine .of fun _ => .quiet .next fun _ => .adds hg.expressionList fun _ => .look .finishSpan fun _ =>
    .done (by simp) (.node rfl fun n mem => ?_)
  simpa [children, Expression.children] using mem

theorem coreAtom {init : InitMode} {forNew : Bool} :
    CoverAdds s false (g₀.coreAtom init forNew) (g₁.coreAtom init forNew) fun e => [.expression e] := by
  refine .of fun p => .quiet .rereadSlash fun _ => .peek fun q => .look .tokenStart fun _ => .look .startNode fun _ =>
    .look .kind fun kind => ?_
  rw [show q.bare.potentialArrowAt = q.potentialArrowAt from rfl]
  have lifted {l₀ l₁ : ParseM Expression} (h : Adds s false l₀ l₁ fun e => [.expression e]) :
      CoverTracks s (Since s p false []) (liftM l₀) (liftM l₁) fun e => Since s p false [.expression e] := .lift h.since
  split
  · exact lifted super_adds
  · exact .quiet .next fun _ => .look .finishSpan fun _ => .done (fun h => h) (.leaf rfl rfl)
  · exact lifted hg.nameAtom
  iterate 3 exact .quiet .literal fun _ => .done (fun h => h) (.leaf rfl rfl)
  iterate 3 exact lifted keywordLiteral_adds
  · exact hg.parenAtom.since
  · exact hg.array.since
  · refine .coverQuiet (.modifyThe (.modify (fun _ => rfl) (fun _ => rfl) (fun _ => rfl) fun _ => ?_)) fun _ =>
      hg.object.since
    exact .of_sameToken (Cursor.sameToken_overrideContext ..)
  · exact .quiet .next fun _ => .liftAdds hg.function fun _ => .done (by simp) fun _ mem => .of_mem mem
  · exact .liftAdds hg.classDefinition fun _ => .done (fun h => h) fun _ mem => .of_mem mem
  · exact lifted hg.new
  · exact .liftAdds hg.template fun _ => .done (fun h => h) fun _ mem => .of_mem mem
  · exact .look .since fun _ => .ite (fun _ => lifted hg.importAtom) fun _ => .fails .unexpected .unexpected
  · exact .fails .unexpected .unexpected

theorem atomLevel {init : InitMode} {forNew : Bool} :
    CoverAdds s false (g₀.atomLevel (pure none) init forNew) (g₁.atomLevel (pure none) init forNew)
      fun e => [.expression e] := by
  simpa only [Grammar.atomLevel, liftM_pure, pure_bind] using hg.coreAtom

end Grammar.Reviewed
end ScriptSyntax
