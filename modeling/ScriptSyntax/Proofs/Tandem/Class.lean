import ScriptSyntax.Proofs.Tandem.Subscript

/-!
Object literals and classes, in two parsers side by side.  The parameters of a method are distinct, and uses of private
names move out of a class body with their offsets.
-/

namespace ScriptSyntax

open ParseM

namespace Tandem

open Node Grammar

variable {t : Twins}

/-! ### Names and forms of properties -/

theorem placed_of_propertyName? {key : Expression} {name : String} {pos : Nat} (h : ExpressionFits t key)
    (named : key.propertyName? = some (name, pos)) : t.Placed pos := by
  have start : key.span.start = pos := by
    unfold Expression.propertyName? at named
    split at named <;> cases named <;> rfl
  exact start ▸ h.span.start

namespace Quiet

theorem checkAccessor {isGetter : Bool} {f : Callable} (h : ExpressionFits t (.function f)) :
    Quiet t (checkAccessor isGetter f) := by
  have start : t.Placed f.span.start := h.span.start
  unfold ParseM.checkAccessor
  split
  · exact pure
  · exact .of_fails (.failRecoverable start (by simp))
  · next span rest known =>
    have fits : PatternFits t (.rest span rest) :=
      h.child rfl (by simp [children, Expression.children, Callable.children, known])
    exact .of_fails (.failRecoverable fits.span.start (by simp))
  · exact pure
  · exact .of_fails (.failRecoverable start (by simp))

theorem isAsyncMethod {key : Expression} {computed : Bool} : Quiet t (isAsyncMethod key computed) := by
  unfold Grammar.isAsyncMethod
  split
  · exact .bind .since fun _ => .bind .kind fun _ => .bind .lineBreakBefore fun _ => .pure
  · exact .pure

theorem accessorForm? {key : Expression} {computed escaped : Bool} : Quiet t (accessorForm? key computed escaped) := by
  refine .bind .kind fun _ => .bind .edition fun _ => .ite .pure ?_
  split <;> exact .pure

theorem checkNames {names : PropertyNames} {form : PropertyForm} {key : Expression} (h : ExpressionFits t key) :
    Quiet t (checkNames names form key) := by
  unfold Grammar.checkNames
  split
  · exact .pure
  · next name pos named =>
    refine .bind .strict fun strict => ?_
    generalize names.add strict name form = x
    exact Yields.guard (fun _ => .failRecoverable (placed_of_propertyName? h named) nofun) fun _ => .done trivial

end Quiet

namespace CoverQuiet

theorem checkProto {names : PropertyNames} {form : PropertyForm} {computed : Bool} {key : Expression}
    (h : ExpressionFits t key) :
    CoverQuiet t (checkProto names form computed key) := by
  unfold Grammar.checkProto
  split
  · next pos named =>
    have placed := placed_of_propertyName? h named
    refine .ite (fun _ => .get fun d _ => .ite (fun _ => .quiet (.amend fun d put => ?_) fun _ =>
      .done trivial) fun _ => ?_) fun _ => .done trivial
    · exact { put with secondProto := forall_mem_or put.secondProto (forall_mem_some placed) }
    · exact .stops (.lift (.failRecoverable placed nofun))
  · exact .done trivial

theorem checkMember {names : PropertyNames} {m : ObjectMember} (h : Fits t (.objectMember m)) :
    CoverQuiet t (checkMember names m) := by
  cases m with
  | spread => exact .done trivial
  | property span form computed key value =>
    have fits : ExpressionFits t key := h.child rfl (.head _)
    exact .liftQuiet .since fun _ => .ite (fun _ => checkProto fits) fun _ => .lift (Quiet.checkNames fits)

end CoverQuiet
end Tandem

namespace Grammar.Paired

open Tandem Node

variable {t : Twins} {g : Grammar} (hg : g.Paired t) {x y : NodeStart} (same : SameStart t x y)
include hg

/-! ### Members -/

section Values

include same

theorem shorthandValue {id : Identifier} (spans : Spans t id.span) :
    CoverGives t (g.shorthandValue x id) (g.shorthandValue y id) (ExpressionFits t) := by
  refine .liftStep (.shorthandTarget same spans) fun _ _ => .get fun d _ => .liftQuiet .isKind fun _ =>
    .ite (fun _ => ?_) fun _ => ?_
  · refine .liftStep .tokenStart fun pos placed => .quiet (.amend fun d put => ?_) fun _ => .liftQuiet .next fun _ => ?_
    · exact { put with shorthandDefault := forall_mem_or put.shorthandDefault (forall_mem_some placed) }
    · refine .liftStep hg.plainAssignment fun value fits => .finish same fun span whole => .done ?_
      exact Fits.node (n := .expression (.assignment span .assign (.identifier id) value)) whole
        (fits_two (name_fits spans).2.2 fits) rfl
  · exact .done (name_fits spans).2.1

theorem propertyValue {key : Expression} {computed escaped isGenerator isAsync : Bool} (fitKey : ExpressionFits t key) :
    CoverGives t (g.propertyValue x key computed escaped isGenerator isAsync)
      (g.propertyValue y key computed escaped isGenerator isAsync)
      fun m => Fits t (.objectMember m) := by
  refine .liftQuiet .isKind fun _ => .guard (fun _ => .lift .unexpected) fun _ => .liftQuiet .eat fun _ =>
    .ite (fun _ => ?_) fun _ => ?_
  · exact .step (hg.assignment .plain) fun value fits => .finish same fun span spans =>
      .done (Fits.property spans fitKey fits nofun)
  refine .liftQuiet .since fun _ => .liftQuiet .isKind fun _ => .ite (fun _ => ?_) fun _ =>
    .liftQuiet .accessorForm? fun form => ?_
  · refine .liftStep hg.method fun f ⟨fits, distinct⟩ => .finish same fun span spans =>
      .done (Fits.property spans fitKey fits ?_)
    rintro _ _ ⟨⟩
    exact distinct
  cases form with
  | some form =>
    refine .guard (fun _ => .lift .unexpected) fun _ => .liftStep hg.propertyName fun x fitKey => ?_
    obtain ⟨key, computed⟩ := x
    refine .liftStep hg.method fun f ⟨fits, distinct⟩ => .liftQuiet (.checkAccessor fits) fun _ => ?_
    refine .finish same fun span spans => .done (Fits.property spans fitKey fits ?_)
    rintro _ _ ⟨⟩
    exact distinct
  | none =>
    refine .liftQuiet .since fun _ => ?_
    split
    · refine .guard (fun _ => .lift .unexpected) fun _ =>
        .step (hg.shorthandValue same fitKey.span) fun value fits => ?_
      exact .finish same fun span spans => .done (Fits.property spans fitKey fits nofun)
    · exact .lift .unexpected

end Values

theorem objectMember : CoverGives t g.objectMember g.objectMember fun m => Fits t (.objectMember m) := by
  refine .start fun _ _ same => .liftQuiet (.andM .since .eat) fun _ => .ite (fun _ => ?_) fun _ => ?_
  · refine .step (hg.assignment .plain) fun e fits => .quiet .noteCommaAfterSpread fun _ =>
      .finish same fun span spans => .done ?_
    exact Fits.node (n := .objectMember (.spread span e)) spans (fits_one fits) rfl
  · refine .liftQuiet (.andM .since .eat) fun _ => .liftQuiet .containsEscape fun _ =>
      .liftStep hg.propertyName fun x fitKey => ?_
    obtain ⟨key, computed⟩ := x
    refine .liftQuiet .since fun _ => .liftQuiet .isAsyncMethod fun _ => .ite (fun _ => ?_) fun _ =>
      hg.propertyValue same fitKey
    refine .liftQuiet (.andM .since .eat) fun _ => .liftStep hg.propertyName fun x fitKey => ?_
    obtain ⟨key, computed⟩ := x
    exact hg.propertyValue same fitKey

theorem object : CoverGives t g.object g.object (ExpressionFits t) := by
  refine .start fun _ _ same => .liftQuiet .next fun _ => .liftQuiet .since fun _ => ?_
  refine .step (.repeatPast (x := (([] : List ObjectMember), ({} : PropertyNames)))
    (I := fun x => ∀ m ∈ x.1, Fits t (.objectMember m)) (W := fun ms => ∀ m ∈ ms, Fits t (.objectMember m))
    (fun _ => nofun) ?_) fun members fits => .finish same fun span spans => .done ?_
  · rintro ⟨members, names⟩ before
    have ends : ∀ m ∈ members.reverse, Fits t (.objectMember m) := fun m mem => before m (List.mem_reverse.mp mem)
    refine .liftQuiet .eat fun _ => .ite (fun _ => .done ends) fun _ => .unless (fun _ => .lift Tandem.Quiet.expect) ?_
    refine .liftQuiet (.andM .pure .eat) fun _ => .ite (fun _ => .done ends) fun _ =>
      .step hg.objectMember fun m fits => ?_
    exact .quiet (.checkMember fits) fun _ => .done (List.forall_mem_cons.mpr ⟨fits, before⟩)
  · exact Fits.node (n := .expression (.object span members)) spans (fits_map fits) rfl

end Grammar.Paired

namespace Tandem

open Node Grammar

variable {t : Twins}

/-! ### Private names -/

namespace UsesPlaced

variable {names : PrivateNames} (h : UsesPlaced t names)
include h

theorem declare {name : String} {kind : PrivateKind} : UsesPlaced t (names.declare name kind).2 := by
  obtain ⟨_ | ⟨body, outer⟩⟩ := names
  · exact h
  · obtain ⟨here, below⟩ := List.forall_mem_cons.mp h
    unfold PrivateNames.declare
    dsimp only
    split
    · exact List.forall_mem_cons.mpr ⟨here, below⟩
    · split
      · exact List.forall_mem_cons.mpr ⟨here, below⟩
      · exact h

/-- What a class body leaves open, it leaves to the one around it. -/
theorem exit : (∀ u ∈ names.exit.1, t.Placed u.2) ∧ UsesPlaced t names.exit.2 := by
  obtain ⟨_ | ⟨body, _ | ⟨parent, outer⟩⟩⟩ := names
  · exact ⟨nofun, h⟩
  · refine ⟨fun u mem => h body (.head _) u ?_, nofun⟩
    exact List.mem_of_mem_filter (List.mem_of_head? mem)
  · obtain ⟨here, below⟩ := List.forall_mem_cons.mp h
    obtain ⟨around, beyond⟩ := List.forall_mem_cons.mp below
    refine ⟨nofun, List.forall_mem_cons.mpr ⟨List.forall_mem_append.mpr ⟨around, fun u mem => ?_⟩, beyond⟩⟩
    exact here u (List.mem_of_mem_filter mem)

end UsesPlaced

namespace Quiet

theorem declarePrivate {e : ClassElement} (h : Fits t (.classElement e)) : Quiet t (declarePrivate e) := by
  unfold ParseM.declarePrivate
  split
  · next id kind named =>
    have placed : t.Placed id.span.start := by
      have key : ExpressionFits t (.privateIdentifier id) := by
        unfold ClassElement.privateName? at named
        split at named <;> cases named <;> exact h.child rfl (.head _)
      exact key.span.start
    refine Yields.get fun p q state => ?_
    rw [show q.privateNames = p.privateNames by rw [state.rest]]
    have uses : UsesPlaced t (p.privateNames.declare id.name kind).2 := UsesPlaced.declare state.noted.uses
    generalize p.privateNames.declare id.name kind = x at uses ⊢
    refine .quiet (.modify (fun _ => rfl) (fun _ _ => rfl) fun _ h => { h with uses }) fun _ => ?_
    exact .ite (fun _ => .failRecoverable placed nofun) fun _ => .done trivial
  · exact pure

theorem enterClassBody : Quiet t enterClassBody :=
  .modify (fun _ => rfl) (fun _ _ => rfl) fun _ h => { h with uses := List.forall_mem_cons.mpr ⟨nofun, h.uses⟩ }

theorem exitClassBody : Quiet t exitClassBody := by
  refine Yields.get fun p q state => ?_
  rw [show q.privateNames = p.privateNames by rw [state.rest]]
  obtain ⟨placed, uses⟩ := UsesPlaced.exit (t := t) state.noted.uses
  generalize p.privateNames.exit = x at placed uses ⊢
  obtain ⟨unresolved, names⟩ := x
  refine .quiet (.modify (fun _ => rfl) (fun _ _ => rfl) fun _ h => { h with uses }) fun _ => ?_
  cases unresolved with
  | none => exact .done trivial
  | some u => exact .quiet .options fun _ => .ite (fun _ =>
      .failRecoverable (placed u rfl) nofun) fun _ => .done trivial

/-! ### Modifiers -/

theorem atElementName : Quiet t atElementName := by
  refine .bind .kind fun _ => ?_
  split <;> exact .pure

theorem asyncModifier {m : Modifiers} : Quiet t (asyncModifier m) := by
  refine .bind (.andM (.andM .pure .since) .eatContextual) fun _ => .ite (.bind .atElementName fun _ => ?_) .pure
  exact .bind .isKind fun _ => .bind .canOmitSemicolon fun _ => .ite .pure .pure

theorem generatorModifier {m : Modifiers} : Quiet t (generatorModifier m) :=
  .bind .since fun _ => .bind (.andM .pure .eat) fun _ => .ite .pure .pure

theorem accessorModifier {m : Modifiers} : Quiet t (accessorModifier m) := by
  have accessor {m₀ m₁ : Modifiers} : Quiet t (do if ← ParseM.atElementName then return m₀ else return m₁) :=
    .bind .atElementName fun _ => .ite .pure .pure
  exact .ite .pure (.bind .eatContextual fun _ => .ite accessor (.bind .eatContextual fun _ => .ite accessor .pure))

theorem modifiersAfter {m : Modifiers} : Quiet t (modifiersAfter m) :=
  .bind .asyncModifier fun _ => .bind .generatorModifier fun _ => .accessorModifier

end Quiet

namespace Gives

theorem modifierName {word : String} : Gives t (modifierName word) (modifierName word) fun id => Spans t id.span := by
  refine .lexer fun l k h _ => .finish ⟨h.lastStart, h.sited.lastStart, fun located => ?_⟩ fun span spans => .done spans
  rw [h.located located]

theorem className {place : ClassPlace} :
    Gives t (className place) (className place) fun id => ∀ x ∈ id, Spans t x.span := by
  refine .quiet .isKind fun _ => .ite (fun _ => .step .identifier fun id spans => ?_) fun _ =>
    .ite (fun _ => .unexpected) fun _ => .done nofun
  exact .unless (fun _ => .checkBinding spans) (.done (forall_mem_some spans))

end Gives

/-- A class as an expression and as a declaration. -/
theorem Fits.classDeclaration {c : Class} (h : ExpressionFits t (.classExpression c)) :
    StatementFits t (.classDeclaration c) :=
  Fits.node (n := .statement (.classDeclaration c)) h.span (fun _ child => h.child rfl child) rfl

end Tandem

namespace Grammar.Paired

open Tandem Node

variable {t : Twins} {g : Grammar} (hg : g.Paired t) {x y : NodeStart}
include hg

/-! ### Elements -/

theorem elementName : Gives t g.elementName g.elementName fun x => ExpressionFits t x.1 := by
  refine .quiet .isKind fun _ => .ite (fun _ => .lexer fun l k h _ => ?_) fun _ => hg.propertyName
  rw [h.text]
  refine .ite (fun _ => .step .tokenStart fun _ placed => .stops (.fail placed nofun)) fun _ => ?_
  exact .step .privateIdentifier fun id spans =>
    .done (Fits.leaf (n := .expression (.privateIdentifier id)) spans rfl rfl)

section Heads

variable (same : SameStart t x y) {isStatic computed : Bool} {key : Expression} (fitKey : ExpressionFits t key)
include same fitKey

theorem classMethod {m : Modifiers} {derived : Bool} :
    Gives t (g.classMethod ⟨x, isStatic, key, computed⟩ m derived)
      (g.classMethod ⟨y, isStatic, key, computed⟩ m derived) fun e =>
      Fits t (.classElement e) := by
  have rest {kind : MethodKind} :
      Gives t
        (do
          let value ← g.method m.isGenerator m.isAsync
            (ElementHead.isConstructor ⟨x, isStatic, key, computed⟩ && derived)
          if kind = .getter ∨ kind = .setter then checkAccessor (kind == .getter) value
          return ClassElement.method (← finishSpan x) isStatic computed key kind value)
        (do
          let value ← g.method m.isGenerator m.isAsync
            (ElementHead.isConstructor ⟨x, isStatic, key, computed⟩ && derived)
          if kind = .getter ∨ kind = .setter then checkAccessor (kind == .getter) value
          return ClassElement.method (← finishSpan y) isStatic computed key kind value)
        fun e => Fits t (.classElement e) := by
    refine .step hg.method fun f ⟨fits, distinct⟩ =>
      .when (fun _ => .checkAccessor fits) (.finish same fun span spans => .done ?_)
    exact Fits.method spans fitKey fits distinct
  have pos : t.Placed key.span.start := fitKey.span.start
  refine .ite (fun _ => ?_) fun _ => .guard (fun _ => .fail pos nofun) fun _ => rest
  exact .guard (fun _ => .fail pos nofun) fun _ => .guard (fun _ => .fail pos nofun) fun _ =>
    .guard (fun _ => .fail pos nofun) fun _ => rest

theorem classField : Gives t (g.classField ⟨x, isStatic, key, computed⟩)
    (g.classField ⟨y, isStatic, key, computed⟩) fun e =>
    Fits t (.classElement e) := by
  have pos : t.Placed key.span.start := fitKey.span.start
  have named (name : String) : ElementHead.isNamed name ⟨y, isStatic, key, computed⟩ =
    ElementHead.isNamed name ⟨x, isStatic, key, computed⟩ := rfl
  unfold Grammar.classField
  rw [named, named]
  refine .guard (fun _ => .fail pos nofun) fun _ => ?_
  refine .guard (fun _ => .fail pos nofun) fun _ => .quiet .eat fun _ => ?_
  have rest (value : Option Expression) (fits : ∀ e ∈ value, ExpressionFits t e) :
      Gives t (do semicolon; return ClassElement.field (← finishSpan x) isStatic computed key value)
        (do semicolon; return ClassElement.field (← finishSpan y) isStatic computed key value) fun e =>
          Fits t (.classElement e) := by
    refine .quiet .semicolon fun _ => .finish same fun span spans => .done ?_
    exact Fits.node (n := .classElement (.field span isStatic computed key value)) spans
      (fits_cons fitKey (fits_option fits)) rfl
  refine .ite (fun _ => .quiet .enterScope fun _ => .step hg.plainAssignment fun value fits => ?_) fun _ =>
    .known (rest none nofun)
  exact .quiet .exitScope fun _ => .known (rest _ (forall_mem_some fits))

end Heads

section Elements

variable (same : SameStart t x y)
include same

theorem staticBlock : Gives t (g.staticBlock x) (g.staticBlock y) fun e => Fits t (.classElement e) := by
  refine .quiet .next fun _ => .step (V := fun body => ∀ s ∈ body, StatementFits t s)
    (.withoutLabels ?_) fun body fits => ?_
  · refine .quiet .enterScope fun _ => .step (.collectUntil (hg.statement none false)) fun body fits => ?_
    exact .quiet .next fun _ => .quiet .exitScope fun _ => .done fits
  · refine .finish same fun span spans => .done ?_
    exact Fits.node (n := .classElement (.staticBlock span body)) spans (fits_map fits) rfl

theorem elementAfter {m : Modifiers} {derived : Bool} :
    Gives t (g.elementAfter x derived m) (g.elementAfter y derived m) fun e => Fits t (.classElement e) := by
  refine .quiet .modifiersAfter fun m => ?_
  have rest {key : Expression} {computed : Bool} (fitKey : ExpressionFits t key) :
      Gives t
        (do
          if (← edition) < 13 || (← isKind .parenL) || m.kind != .method || m.isGenerator || m.isAsync then
            g.classMethod ⟨x, m.isStatic, key, computed⟩ m derived
          else g.classField ⟨x, m.isStatic, key, computed⟩)
        (do
          if (← edition) < 13 || (← isKind .parenL) || m.kind != .method || m.isGenerator || m.isAsync then
            g.classMethod ⟨y, m.isStatic, key, computed⟩ m derived
          else g.classField ⟨y, m.isStatic, key, computed⟩)
        fun e => Fits t (.classElement e) :=
    .quiet .edition fun _ => .quiet .isKind fun _ => .ite (fun _ => hg.classMethod same fitKey) fun _ =>
      hg.classField same fitKey
  cases m.word with
  | some word => exact .step .modifierName fun id spans => .known (rest (name_fits spans).2.1)
  | none => exact .step hg.elementName fun _ fitKey => rest fitKey

end Elements

theorem classElement {derived : Bool} :
    Gives t (g.classElement derived) (g.classElement derived) fun e => Fits t (.classElement e) := by
  refine .start fun _ _ same => .quiet .eatContextual fun _ => .ite (fun _ => ?_) fun _ => hg.elementAfter same
  refine .quiet .since fun _ => .quiet .isKind fun _ => .ite (fun _ => hg.staticBlock same) fun _ => ?_
  exact .quiet .atElementName fun _ => .quiet .isKind fun _ => .ite (fun _ => hg.elementAfter same) fun _ =>
    hg.elementAfter same

/-! ### Classes -/

omit hg in
theorem addElement {progress : ClassProgress} {e : ClassElement}
    (before : ∀ e ∈ progress.elements, Fits t (.classElement e))
    (fits : Fits t (.classElement e)) : Gives t (addElement progress e) (addElement progress e) fun progress =>
      ∀ e ∈ progress.elements, Fits t (.classElement e) := by
  have after : ∀ x ∈ e :: progress.elements, Fits t (.classElement x) := List.forall_mem_cons.mpr ⟨fits, before⟩
  unfold Grammar.addElement
  split
  · exact .guard (fun _ => .failRecoverable fits.span.start nofun) fun _ => .done after
  · exact .quiet (.declarePrivate fits) fun _ => .done after

theorem classElements {derived : Bool} : Gives t (g.classElements derived) (g.classElements derived) fun es =>
    ∀ e ∈ es, Fits t (.classElement e) := by
  refine .repeatPast (x := ({} : ClassProgress)) (I := fun progress =>
    ∀ e ∈ progress.elements, Fits t (.classElement e)) nofun
    fun progress before => ?_
  refine .quiet .isKind fun _ => .ite (fun _ => .done fun e mem => before e (List.mem_reverse.mp mem)) fun _ => ?_
  refine .quiet .eat fun _ => .ite (fun _ => .done before) fun _ => ?_
  exact .step hg.classElement fun e fits => .step (addElement before fits) fun _ after => .done after

theorem classDefinition {place : ClassPlace} :
    Gives t (g.classDefinition place) (g.classDefinition place) fun c => ExpressionFits t (.classExpression c) := by
  refine .start fun _ _ same => .quiet .next fun _ => .step .strict fun outerStrict isStrict =>
    .quiet (.setStrict fun _ => rfl) fun _ => ?_
  refine .step .className fun id fitId => .quiet .eat fun _ => ?_
  refine .choose (fun _ => Gives.present hg.subscripted.alone) (fun _ => .done nofun) fun heritage fitHeritage =>
    .quiet .enterClassBody fun _ => ?_
  refine .start fun _ _ sameBody => .quiet .expect fun _ => .step hg.classElements fun elements fitElements => ?_
  refine .quiet (.setStrict isStrict) fun _ => .quiet .next fun _ => .finish sameBody fun bodySpan bodySpans => ?_
  refine .quiet .exitClassBody fun _ => .finish same fun span spans => .done ?_
  have body : Fits t (.classBody bodySpan elements) := Fits.node bodySpans (fits_map fitElements) rfl
  refine Fits.node (n := .expression (.classExpression ⟨span, id, heritage, bodySpan, elements⟩)) spans ?_ rfl
  exact fits_append (fits_append (fits_option fun x mem => (name_fits (fitId x mem)).1) (fits_option fitHeritage))
    (fits_one body)

end Grammar.Paired
end ScriptSyntax
