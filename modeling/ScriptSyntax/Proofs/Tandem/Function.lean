import ScriptSyntax.Parser.Lookahead
import ScriptSyntax.Parser.Operator
import ScriptSyntax.Proofs.Tandem.Target

/-!
Lists, property names, patterns of names, blocks and functions, in two parsers side by side.  The parameters of a
function are checked before the body is read, or after it if the body is an expression.
-/

namespace ScriptSyntax

open ParseM

namespace Tandem

/-- The expression fits. -/
abbrev ExpressionFits (t : Twins) (e : Expression) : Prop := Fits t (.expression e)

/-- The statement fits. -/
abbrev StatementFits (t : Twins) (s : Statement) : Prop := Fits t (.statement s)

end Tandem

/-- What the productions give, they give in both runs, and it fits. -/
structure Grammar.Paired (t : Tandem.Twins) (g : Grammar) : Prop where
  statement : ∀ context topLevel,
    Tandem.Gives t (g.statement context topLevel) (g.statement context topLevel) (Tandem.StatementFits t)
  assignment : ∀ init, Tandem.CoverGives t (g.assignment init) (g.assignment init) (Tandem.ExpressionFits t)
  unary : ∀ afterUnary inUpdate init,
    Tandem.CoverGives t (g.unary afterUnary inUpdate init) (g.unary afterUnary inUpdate init) (Tandem.ExpressionFits t)
  atom : ∀ init forNew, Tandem.CoverGives t (g.atom init forNew) (g.atom init forNew) (Tandem.ExpressionFits t)
  bindingAtom : Tandem.Gives t g.bindingAtom g.bindingAtom (Tandem.PatternFits t)

namespace Tandem

open Node Grammar

variable {t : Twins}

theorem Quiet.checkNoComma : Quiet t checkNoComma :=
  .quiet .isKind fun _ => .ite (fun _ => .step .tokenStart fun _ placed =>
    .failRecoverable placed nofun) fun _ => .done trivial

/-- A name as an expression and as a pattern. -/
theorem name_fits {id : Identifier} (spans : Spans t id.span) :
    Fits t (.identifier id) ∧ ExpressionFits t (.identifier id) ∧ PatternFits t (.identifier id) :=
  ⟨Fits.leaf (n := .identifier id) spans rfl rfl, Fits.leaf (n := .expression (.identifier id)) spans rfl rfl,
    Fits.leaf (n := .pattern (.identifier id)) spans rfl rfl⟩

theorem Gives.shorthandTarget {x y : NodeStart} {id : Identifier} (same : SameStart t x y) (spans : Spans t id.span) :
    Gives t (shorthandTarget x id) (shorthandTarget y id) (PatternFits t) := by
  refine .quiet (.checkName spans) fun _ => ?_
  rw [same.pos]
  exact .quiet (.noteAwaitName same.placed) fun _ => .done (name_fits spans).2.2

end Tandem

namespace Grammar.Paired

open Tandem Node

variable {t : Twins} {g : Grammar} (hg : g.Paired t)
include hg

theorem plainAssignment {init : InitMode} :
    Gives t (g.plainAssignment init) (g.plainAssignment init) (ExpressionFits t) :=
  (hg.assignment init).alone

theorem expression {init : InitMode} : CoverGives t (g.expression init) (g.expression init) (ExpressionFits t) := by
  refine .start fun _ _ same => .step (hg.assignment init) fun first fits => .liftQuiet .isKind fun _ =>
    .ite (fun _ => ?_) fun _ => .done fits
  refine .step (.repeatPast (I := fun items => ∀ e ∈ items, ExpressionFits t e)
    (W := fun items => ∀ e ∈ items, ExpressionFits t e)
    (List.forall_mem_singleton.mpr fits) fun items before => ?_) fun items found => ?_
  · refine .liftQuiet .eat fun _ => .ite (fun _ => ?_) fun _ => .done fun e mem => before e (List.mem_reverse.mp mem)
    exact .step (hg.assignment init) fun e fits => .done (List.forall_mem_cons.mpr ⟨fits, before⟩)
  · exact .finish same fun span spans =>
      .done (Fits.node (n := .expression (.sequence span items)) spans (fits_map found) rfl)

theorem plainExpression {init : InitMode} :
    Gives t (g.plainExpression init) (g.plainExpression init) (ExpressionFits t) := hg.expression.alone

theorem parenthesized : Gives t g.parenthesized g.parenthesized (ExpressionFits t) :=
  .quiet .expect fun _ => .step hg.plainExpression fun _ fits => .quiet .expect fun _ => .done fits

theorem propertyName : Gives t g.propertyName g.propertyName fun x => ExpressionFits t x.1 := by
  refine .quiet (.andM .since .eat) fun _ => .ite (fun _ => ?_) fun _ => .ofKind fun p => ?_
  · exact .step hg.plainAssignment fun _ fits => .quiet .expect fun _ => .done fits
  · split
    · next kind => exact Yields.literal (.inl kind) fun l fits => .done fits.2
    · next kind => exact Yields.literal (.inr (.inl kind)) fun l fits => .done fits.2
    · exact Yields.at' <| Yields.step Gives.propertyWord fun id spans => .done (name_fits spans).2.1

theorem withDefault {x y : NodeStart} {target : Pattern} (same : SameStart t x y) (fits : PatternFits t target) :
    Gives t (g.withDefault x target) (g.withDefault y target) (PatternFits t) := by
  refine .quiet (.andM .since .eat) fun _ => .ite (fun _ => ?_) fun _ => .done fits
  refine .step hg.plainAssignment fun value fitValue => .finish same fun span spans => .done ?_
  exact Fits.node (n := .pattern (.assignment span target value)) spans (fits_two fits fitValue) rfl

theorem bindingElement : Gives t g.bindingElement g.bindingElement (PatternFits t) :=
  .start fun _ _ same => .step hg.bindingAtom fun _ fits => hg.withDefault same fits

theorem restBinding : Gives t g.restBinding g.restBinding (PatternFits t) := by
  refine .start fun _ _ same => .quiet .next fun _ => .quiet .edition fun _ => .quiet .kind fun _ =>
    .guard (fun _ => .unexpected) fun _ => ?_
  refine .step hg.bindingAtom fun target fits => .finish same fun span spans => .done ?_
  exact Fits.node (n := .pattern (.rest span target)) spans (fits_one fits) rfl

theorem bindingList {close : TokenKind} {holes trailing : Bool} :
    Gives t (g.bindingList close holes trailing) (g.bindingList close holes trailing) fun ps =>
      ∀ p ∈ ps, ∀ q ∈ p, PatternFits t q := by
  have more {found : List (Option Pattern)} (before : ∀ p ∈ found, ∀ q ∈ p, PatternFits t q) {p : Pattern}
      (fits : PatternFits t p) :
      ∀ x ∈ some p :: found, ∀ q ∈ x, PatternFits t q :=
        List.forall_mem_cons.mpr ⟨fun _ same => Option.some.inj same ▸ fits, before⟩
  have ends {found : List (Option Pattern)} (before : ∀ p ∈ found, ∀ q ∈ p, PatternFits t q) : ∀ p ∈ found.reverse,
    ∀ q ∈ p, PatternFits t q :=
    fun p mem => before p (List.mem_reverse.mp mem)
  refine .repeatPast (I := fun found => ∀ p ∈ found, ∀ q ∈ p, PatternFits t q)
    (List.forall_mem_nil _) fun found before => ?_
  refine .quiet .eat fun _ => .ite (fun _ => .done (ends before)) fun _ => .unless (fun _ => .expect) ?_
  refine .quiet (.andM .pure .isKind) fun _ =>
    .ite (fun _ => .done (List.forall_mem_cons.mpr ⟨by simp, before⟩)) fun _ => ?_
  refine .quiet (.andM .pure .eat) fun _ => .ite (fun _ => .done (ends before)) fun _ => .quiet .isKind fun _ =>
    .ite (fun _ => ?_) fun _ => ?_
  · refine .step hg.restBinding fun rest fits => .quiet .checkNoComma fun _ => .quiet .expect fun _ => ?_
    exact .done (ends (more before fits))
  · exact .step hg.bindingElement fun p fits => .done (more before fits)

theorem parameters : Gives t g.parameters g.parameters fun ps => ∀ p ∈ ps, PatternFits t p := by
  refine .quiet .since fun _ => .step hg.bindingList fun found fits => .done fun p mem => ?_
  obtain ⟨x, here, same⟩ := List.mem_filterMap.mp mem
  exact fits x here p same

theorem patternMember : Gives t g.patternMember g.patternMember fun m => Fits t (.patternMember m) := by
  refine .start fun _ _ same => .quiet (.andM .since .eat) fun _ => .ite (fun _ => ?_) fun _ => ?_
  · refine .step .identifier fun id spans => .quiet .checkNoComma fun _ => .finish same fun span whole => .done ?_
    exact Fits.node (n := .patternMember (.rest span (.identifier id))) whole (fits_one (name_fits spans).2.2) rfl
  · refine .step hg.propertyName fun x fitKey => ?_
    obtain ⟨key, computed⟩ := x
    refine .quiet .eat fun _ => .ite (fun _ => ?_) fun _ => ?_
    · refine .step hg.bindingElement fun value fits => .finish same fun span spans => .done ?_
      exact Fits.node (n := .patternMember (.property span false computed key value)) spans (fits_two fitKey fits) rfl
    · split
      · next id =>
        refine .step (.shorthandTarget same fitKey.span) fun _ fits =>
          .step (hg.withDefault same fits) fun value fits => ?_
        refine .finish same fun span spans => .done ?_
        exact Fits.node (n := .patternMember (.property span true false _ value)) spans (fits_two fitKey fits) rfl
      · exact .unexpected

theorem objectPattern : Gives t g.objectPattern g.objectPattern (PatternFits t) := by
  refine .start fun _ _ same => .quiet .next fun _ => .step (.commaSeparated hg.patternMember) fun members fits =>
    .finish same fun span spans => ?_
  exact .done (Fits.node (n := .pattern (.object span members)) spans (fits_map fits) rfl)

theorem arrayPattern : Gives t g.arrayPattern g.arrayPattern (PatternFits t) := by
  refine .start fun _ _ same => .quiet .next fun _ => .step hg.bindingList fun elements fits =>
    .finish same fun span spans => ?_
  exact .done (Fits.node (n := .pattern (.array span elements)) spans (fits_slots fits) rfl)

theorem bindingLevel : Gives t g.bindingLevel g.bindingLevel (PatternFits t) := by
  refine .quiet .since fun _ => .quiet .isKind fun _ => .ite (fun _ => hg.arrayPattern) fun _ => ?_
  refine .quiet .since fun _ => .quiet .isKind fun _ => .ite (fun _ => hg.objectPattern) fun _ => ?_
  exact .step .identifier fun id spans => .done (name_fits spans).2.2

end Grammar.Paired

namespace Tandem

open Node Grammar

variable {t : Twins} {α : Type}

/-! ### Directives -/

section Directives

variable {s : Statement} {body : List Statement}

theorem directiveText_same (h : StatementFits t s) : s.directiveText? t.second = s.directiveText? t.first := by
  unfold Statement.directiveText?
  split
  · next span _ _ =>
    have spans : Spans t span := h.span
    rw [t.texts.agree.has spans.start.le, t.texts.agree.has spans.start.le]
  · rfl

theorem asDirective_same (h : StatementFits t s) : s.asDirective? t.second = s.asDirective? t.first := by
  unfold Statement.asDirective?
  rw [directiveText_same h]

theorem asDirective_fits (h : StatementFits t s) : ∀ d ∈ s.asDirective? t.first, StatementFits t d := by
  intro d mem
  unfold Statement.asDirective? at mem
  split at mem
  · obtain rfl := Option.some.inj mem
    exact Fits.node h.span (fits_one (h.child rfl (.head _))) rfl
  · cases mem

theorem markDirectives_same (h : ∀ s ∈ body, StatementFits t s) :
    markDirectives t.second body = markDirectives t.first body := by
  induction body with
  | nil => rfl
  | cons s rest ih =>
    obtain ⟨here, below⟩ := List.forall_mem_cons.mp h
    rw [markDirectives, asDirective_same here, ih below, markDirectives]

theorem markDirectives_fits (h : ∀ s ∈ body, StatementFits t s) :
    ∀ s ∈ markDirectives t.first body, StatementFits t s := by
  induction body with
  | nil => exact nofun
  | cons s rest ih =>
    obtain ⟨here, below⟩ := List.forall_mem_cons.mp h
    rw [markDirectives]
    split
    · next d directive => exact List.forall_mem_cons.mpr ⟨asDirective_fits here d directive, ih below⟩
    · exact h

theorem Gives.withDirectives (h : ∀ s ∈ body, StatementFits t s) :
    Gives t (withDirectives body) (withDirectives body) fun body => ∀ s ∈ body, StatementFits t s := by
  refine .quiet .since fun _ => .ite (fun _ => .source ?_) fun _ => .done h
  rw [markDirectives_same h]
  exact .done (markDirectives_fits h)

end Directives

/-! ### Noted words -/

theorem Yields.withOwnAwait {m₀ m₁ : ParseM α} {R : α → α → Prop} (h : Yields t m₀ m₁ R) :
    Yields t (withOwnAwait m₀) (withOwnAwait m₁) R := by
  refine .get fun p q state => .quiet (.modify (fun _ => rfl) (fun _ _ => rfl) fun _ h => ?_) fun _ =>
    h.bind fun x y related => ?_
  · exact { h with yieldAt := nofun, awaitAt := nofun, awaitNameAt := nofun }
  · rw [show q.yieldAt = p.yieldAt by rw [state.rest], show q.awaitAt = p.awaitAt by rw [state.rest],
      show q.awaitNameAt = p.awaitNameAt by rw [state.rest]]
    refine .quiet (.modify (fun _ => rfl) (fun _ _ => rfl) fun _ h => ?_) fun _ => .pure related
    exact { h with
      yieldAt := state.noted.yieldAt
      awaitAt := state.noted.awaitAt
      awaitNameAt := state.noted.awaitNameAt }

theorem Quiet.checkParameterAwait : Quiet t checkParameterAwait := by
  refine Yields.get fun p q state => ?_
  rw [show q.yieldAt = p.yieldAt by rw [state.rest], show q.awaitAt = p.awaitAt by rw [state.rest]]
  split
  · next y a forYield forAwait =>
    exact .ite (fun _ => .fail (state.noted.yieldAt y forYield) nofun) fun _ =>
      .fail (state.noted.awaitAt a forAwait) nofun
  · next y forYield _ => exact .fail (state.noted.yieldAt y forYield) nofun
  · next a _ forAwait => exact .fail (state.noted.awaitAt a forAwait) nofun
  · exact .done trivial

/-- The code of a module is strict. -/
theorem Gives.strict : Gives t strict strict fun b => t.options.isModule = true → b = true := by
  refine .get fun p q state => .pure ⟨?_, state.current.strict⟩
  rw [state.lexers.lines]
  rfl

namespace Quiet

theorem functionBinding {special : Bool} : Quiet t (functionBinding special) := by
  refine .bind .strict fun _ => .ite (.bind .scopes fun _ => .pure) .pure

theorem generatorStar {place : FunctionPlace} {isAsync : Bool} : Quiet t (generatorStar place isAsync) := by
  refine .bind .since fun _ => .bind .since fun _ => .ite (.bind .isKind fun _ => ?_) .pure
  exact Yields.guard (fun _ => .unexpected) fun _ => eat

theorem targetRules {binding : Bool} : Quiet t (targetRules binding) :=
  .bind .edition fun _ => .bind .scopes fun _ => .pure

end Quiet

theorem Gives.functionName {place : FunctionPlace} {special : Bool} :
    Gives t (functionName place special) (functionName place special) fun id => ∀ x ∈ id, Spans t x.span := by
  refine .quiet .kind fun _ => .ite (fun _ => .done nofun) fun _ => .step .identifier fun id spans => ?_
  refine .ite (fun _ => .done (forall_mem_some spans)) fun _ => .quiet .functionBinding fun _ =>
    .quiet (.checkBinding spans) fun _ => ?_
  exact .done (forall_mem_some spans)

end Tandem

namespace Grammar.Paired

open Tandem Node

variable {t : Twins} {g : Grammar} (hg : g.Paired t)
include hg

/-! ### Blocks -/

theorem statementsInBraces {strictAfter : Option Bool}
    (inModule : ∀ b ∈ strictAfter, t.options.isModule = true → b = true) :
    Gives t (g.statementsInBraces strictAfter) (g.statementsInBraces strictAfter) fun body =>
      ∀ s ∈ body, StatementFits t s := by
  refine .quiet .expect fun _ => .step (.collectUntil (hg.statement none false)) fun body fits => ?_
  cases strictAfter with
  | none => exact .quiet .next fun _ => .done fits
  | some b => exact .quiet (.setStrict (inModule b rfl)) fun _ => .quiet .next fun _ => .done fits

theorem block : Gives t g.block g.block fun b => StatementFits t (.block b) := by
  refine .start fun _ _ same => .quiet .expect fun _ => .quiet .enterScope fun _ =>
    .step (.collectUntil (hg.statement none false)) fun body fits => ?_
  refine .quiet .next fun _ => .quiet .exitScope fun _ => .finish same fun span spans => .done ?_
  exact Fits.node (n := .statement (.block ⟨span, body⟩)) spans (fits_map fits) rfl

theorem scopelessBlock {strictAfter : Option Bool}
    (inModule : ∀ b ∈ strictAfter, t.options.isModule = true → b = true) :
    Gives t (g.scopelessBlock strictAfter) (g.scopelessBlock strictAfter) fun b => StatementFits t (.block b) := by
  refine .start fun _ _ same => .step (hg.statementsInBraces inModule) fun body fits =>
    .finish same fun span spans => .done ?_
  exact Fits.node (n := .statement (.block ⟨span, body⟩)) spans (fits_map fits) rfl

/-! ### Functions -/

/-- The body fits, and the parameters are distinct where they have to be. -/
theorem functionBody {params : List Pattern} {id : Option Identifier} {start : Nat} {unique : Bool}
    (fitParams : ∀ p ∈ params, PatternFits t p) (fitId : ∀ x ∈ id, Spans t x.span) (placed : t.Placed start) :
    Gives t (g.functionBody params id start unique) (g.functionBody params id start unique) fun b =>
      StatementFits t (.block b) ∧
        (unique = true ∨ t.options.isModule = true ∨ params.any (!·.isIdentifier) = true → DistinctNames params) := by
  refine .step .strict fun outerStrict isStrict => .quiet .since fun _ =>
    .source (.quiet .edition fun _ => .lexer fun l k h _ => ?_)
  rw [h.stop, t.texts.agree.opensStrict h.sited.stop]
  refine .guard (fun _ => .failRecoverable placed nofun) fun _ => ?_
  refine .step (Yields.withoutLabels ?_) fun b related => .quiet .exitScope fun _ => .done related
  refine .when (fun _ => .setStrict fun _ => rfl) (.step (.checkParams fitParams) fun _ distinct => ?_)
  have rest {strictAfter : Option Bool} (inModule : ∀ b ∈ strictAfter, t.options.isModule = true → b = true) :
      Gives t (do let block ← g.scopelessBlock strictAfter; return { block with body := ← withDirectives block.body })
        (do let block ← g.scopelessBlock strictAfter; return { block with body := ← withDirectives block.body })
        fun b => StatementFits t (.block b) ∧
          (unique = true ∨ t.options.isModule = true ∨ params.any (!·.isIdentifier) = true → DistinctNames params) := by
    refine .step (hg.scopelessBlock inModule) fun block fits => ?_
    refine .step (.withDirectives fun s mem => fits.child rfl (List.mem_map_of_mem mem)) fun body fitBody =>
      .done ⟨?_, fun required => ?_⟩
    · exact Fits.node (n := .statement (.block ⟨block.span, body⟩)) fits.span (fits_map fitBody) rfl
    · refine distinct ?_
      rcases required with required | required | required
      · simp [required]
      · simp [isStrict required]
      · have structured : (!params.all (·.isIdentifier)) = true := by simpa using required
        rw [structured, Bool.or_true]
  cases id with
  | none => exact rest (by split <;> grind)
  | some id => exact .quiet .strict fun _ => .when (fun _ => .checkBinding (fitId id rfl)) (rest (by split <;> grind))

theorem method {isGenerator isAsync directSuper : Bool} :
    Gives t (g.method isGenerator isAsync directSuper) (g.method isGenerator isAsync directSuper) fun f =>
      ExpressionFits t (.function f) ∧ DistinctNames f.params := by
  refine .start fun _ _ same => .quiet .since fun _ => .quiet .since fun _ => ?_
  refine .step (V := fun x => (∀ p ∈ x.1, PatternFits t p) ∧ StatementFits t (.block x.2) ∧ DistinctNames x.1)
    (.withOwnAwait ?_) fun x fits => ?_
  · refine .quiet .enterScope fun _ => .quiet .expect fun _ => .step hg.parameters fun params fits =>
      .quiet .checkParameterAwait fun _ => ?_
    rw [same.pos]
    exact .step (hg.functionBody fits nofun same.placed) fun body ⟨fitBody, distinct⟩ =>
      .done ⟨fits, fitBody, distinct (.inl rfl)⟩
  · obtain ⟨params, body⟩ := x
    obtain ⟨fitParams, fitBody, distinct⟩ := fits
    refine .finish same fun span spans => .done ⟨Fits.function spans ?_ fun _ => distinct, distinct⟩
    exact fits_append (fits_map fitParams) (fits_one fitBody)

theorem function {x y : NodeStart} {place : FunctionPlace} {isAsync : Bool} (same : SameStart t x y) :
    Gives t (g.function x place isAsync) (g.function y place isAsync) fun f => ExpressionFits t (.function f) := by
  refine .quiet .generatorStar fun isGenerator => .quiet .since fun _ =>
    .step .functionName fun declared fitDeclared => ?_
  refine .step (V := fun x => (∀ id ∈ x.1, Spans t id.span) ∧ (∀ p ∈ x.2.1, PatternFits t p) ∧
    StatementFits t (.block x.2.2) ∧
    (t.options.isModule = true ∨ x.2.1.any (!·.isIdentifier) = true → DistinctNames x.2.1))
      (.withOwnAwait ?_) fun x fits => ?_
  · refine .quiet .enterScope fun _ => .quiet .kind fun _ => ?_
    refine .choose (fun _ => Gives.present Gives.identifier) (fun _ => .done nofun) fun own fitOwn => ?_
    have fitId : ∀ x ∈ declared.or own, Spans t x.span := forall_mem_or fitDeclared fitOwn
    refine .quiet .expect fun _ => .step hg.parameters fun params fits => .quiet .checkParameterAwait fun _ => ?_
    rw [same.pos]
    refine .step (hg.functionBody fits fitId same.placed) fun body ⟨fitBody, distinct⟩ =>
      .done ⟨fitId, fits, fitBody, ?_⟩
    exact fun required => distinct (.inr required)
  · obtain ⟨id, params, body⟩ := x
    obtain ⟨fitId, fitParams, fitBody, distinct⟩ := fits
    refine .finish same fun span spans => .done (Fits.function spans ?_ distinct)
    refine fits_append (fits_append (fits_option fun x mem => ?_) (fits_map fitParams)) (fits_one fitBody)
    exact (name_fits (fitId x mem)).1

/-- The parameters of an arrow function were read before. -/
theorem arrow {x y : NodeStart} {params : List (Option Expression)} {rest : Option Pattern}
    {isAsync : Bool} {init : InitMode}
    (same : SameStart t x y) (fitParams : ∀ e ∈ params, ∀ x ∈ e, ExpressionFits t x)
    (fitRest : ∀ p ∈ rest, PatternFits t p) :
    Gives t (g.arrow x params rest isAsync init) (g.arrow y params rest isAsync init) (ExpressionFits t) := by
  refine .step (V := fun x => (∀ p ∈ x.1, PatternFits t p) ∧ Fits t x.2.node ∧ DistinctNames x.1)
    (.withOwnAwait ?_) fun x fits => ?_
  · refine .quiet .enterScope fun _ => .quiet .targetRules fun rules => ?_
    refine .step (.ofExcept (slotTargets_settles fitParams)) fun targets fitTargets => .quiet .isKind fun _ => ?_
    have fits : ∀ p ∈ targets.filterMap id ++ rest.toList, PatternFits t p := by
      refine List.forall_mem_append.mpr ⟨fun p mem => ?_, fun p mem => fitRest p (Option.mem_toList.mp mem)⟩
      obtain ⟨x, here, some⟩ := List.mem_filterMap.mp mem
      exact fitTargets x here p some
    refine .ite (fun _ => ?_) fun _ => ?_
    · rw [same.pos]
      exact .step (hg.functionBody fits nofun same.placed) fun body ⟨fitBody, distinct⟩ =>
        .done ⟨fits, fitBody, distinct (.inl rfl)⟩
    · refine .step hg.plainAssignment fun body fitBody => .step (.checkParams fits) fun _ distinct =>
        .quiet .exitScope fun _ => ?_
      exact .done ⟨fits, fitBody, distinct rfl⟩
  · obtain ⟨params, body⟩ := x
    obtain ⟨fitParams, fitBody, distinct⟩ := fits
    exact .finish same fun span spans => .quiet .since fun _ => .done (Fits.arrow spans fitParams fitBody distinct)

end Grammar.Paired
end ScriptSyntax
