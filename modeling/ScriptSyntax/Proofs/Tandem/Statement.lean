import ScriptSyntax.Parser.Statement
import ScriptSyntax.Proofs.Tandem.Operator
import ScriptSyntax.Parser.ForStatement

/-!
Statements, in two parsers side by side.  The words that are looked at ahead stand in the text that both read.
-/

namespace ScriptSyntax

open ParseM

namespace Tandem

open Node Grammar

variable {t : Twins} {x y : NodeStart}

/-! ### Words ahead -/

theorem Gives.lookahead : Gives t lookahead lookahead t.Placed := by
  refine .source (.lexer fun l k h _ => ?_)
  rw [h.pos, t.texts.agree.skipBlank h.sited.pos.le]
  exact .done h.sited.pos.skipBlank

namespace Quiet

theorem atLet {context : Option StatementContext} : Quiet t (atLet context) := by
  refine .quiet .since fun _ => .quiet .isContextual fun _ =>
    .ite (fun _ => .source (.step .lookahead fun next placed => ?_)) fun _ => .done trivial
  rw [t.texts.agree.has placed.le, t.texts.agree.has placed.le, t.texts.agree.has placed.le,
    t.texts.agree.beginsName placed.le]
  exact .ite (fun _ => .done trivial) fun _ => .done trivial

theorem ahead {f : Source → Nat → Bool} (same : ∀ i, t.start ≤ i → f t.second i = f t.first i) :
    Quiet t (do let s ← source; return (s.sameLine? (← lexer).pos).any (f s)) := by
  refine .source (.lexer fun l k h _ => ?_)
  rw [h.pos, t.texts.agree.any_sameLine? h.sited.pos.le same]
  exact .done trivial

theorem atAsyncFunction : Quiet t atAsyncFunction := by
  refine .quiet .since fun _ => .quiet .isContextual fun _ => .ite (fun _ => ?_) fun _ => .done trivial
  exact ahead (f := fun s => s.hasWord "function") fun i le => t.texts.agree.hasWord le _

theorem atUsing {inHead : Bool} : Quiet t (atUsing inHead) := by
  refine .quiet .since fun _ => .quiet .isContextual fun _ => .ite (fun _ => ?_) fun _ => .done trivial
  exact ahead (f := fun s => s.beginsName (operatorWords inHead)) fun i le => t.texts.agree.beginsName le _

theorem atAwaitUsing {inHead : Bool} : Quiet t (atAwaitUsing inHead) := by
  refine .quiet .since fun _ => .quiet .isContextual fun _ => .ite (fun _ => ?_) fun _ => .done trivial
  refine ahead (f := fun s next => s.hasWord "using" next &&
    (s.sameLine? (next + "using".utf8ByteSize)).any (s.beginsName (operatorWords inHead))) fun i le => ?_
  simp only [t.texts.agree.hasWord le, t.texts.agree.any_sameLine? (Nat.le_add_right_of_le le) fun j le =>
    t.texts.agree.beginsName le _]

/-! ### Steps on single tokens -/

theorem atLoopWord : Quiet t atLoopWord :=
  .bind .isKind fun _ => .bind .since fun _ => .bind .isContextual fun _ => .pure

theorem checkNoValue {inHead : Bool} {kind : VariableKind} {target : Pattern} :
    Quiet t (checkNoValue inHead kind target) := by
  refine .quiet .atLoopWord fun _ => .step .lastStop fun pos placed => .guard (fun _ => .unexpected) fun _ => ?_
  exact .guard (fun _ => .fail placed nofun) fun _ => .ite (fun _ => .fail placed nofun) fun _ => .done trivial

theorem checkUsing : Quiet t checkUsing :=
  .quiet .scopes fun _ => .ite (fun _ => .done trivial) fun _ => .step .tokenStart fun _ placed => .fail placed nofun

theorem awaitBeforeUsing : Quiet t awaitBeforeUsing := by
  refine .quiet .scopes fun _ => .ite (fun _ => next) fun _ => .step .tokenStart fun _ placed =>
    .stops (.fail placed nofun)

end Quiet

theorem Gives.jumpLabel : Gives t jumpLabel jumpLabel fun id => ∀ x ∈ id, Spans t x.span := by
  refine .quiet (.orM .eat .canOmitSemicolon) fun _ => .ite (fun _ => .done nofun) fun _ => .quiet .kind fun _ =>
    .ite (fun _ => .unexpected) fun _ => ?_
  exact .step .identifier fun id spans => .quiet .semicolon fun _ => .done (forall_mem_some spans)

section Starts

variable (same : SameStart t x y)
include same

theorem Gives.jump {isBreak : Bool} : Gives t (jump x isBreak) (jump y isBreak) (StatementFits t) := by
  refine .quiet .next fun _ => .step .jumpLabel fun label spans => .get fun p q state => ?_
  rw [show q.labels = p.labels by rw [state.rest], same.pos]
  refine .require (fun _ => .fail same.placed (by split <;> nofun)) fun _ => .finish same fun span whole => .done ?_
  have below : ∀ n ∈ label.toList.map Node.identifier, Fits t n := fits_option fun x mem => (name_fits (spans x mem)).1
  split
  · exact Fits.node (n := .statement (.breakStatement span label)) whole below rfl
  · exact Fits.node (n := .statement (.continueStatement span label)) whole below rfl

theorem Gives.debuggerStatement : Gives t (debuggerStatement x) (debuggerStatement y) (StatementFits t) :=
  .quiet .next fun _ => .quiet .semicolon fun _ => .finish same fun span spans => .done
    (Fits.leaf (n := .statement (.debuggerStatement span)) spans rfl rfl)

theorem Gives.expressionStatement {e : Expression} (fits : ExpressionFits t e) :
    Gives t (expressionStatement x e) (expressionStatement y e) (StatementFits t) :=
  .quiet .semicolon fun _ => .finish same fun span spans => .done
    (Fits.node (n := .statement (.expressionStatement span e none)) spans (fits_one fits) rfl)

end Starts

/-! ### Cases -/

/-- The cases being read begin at one place in both runs, and what they hold fits. -/
inductive SameCase (t : Twins) : Option OpenCase → Option OpenCase → Prop
  | none : SameCase t none none
  | some {x y : NodeStart} {test : Option Expression} {body : List Statement} (same : SameStart t x y)
    (fitTest : ∀ e ∈ test, ExpressionFits t e) (fitBody : ∀ s ∈ body, StatementFits t s) :
    SameCase t (some ⟨x, test, body⟩) (some ⟨y, test, body⟩)

/-- The cases read so far are the same in both runs. -/
inductive SameProgress (t : Twins) : SwitchProgress → SwitchProgress → Prop
  | mk {cases : List SwitchCase} {x y : Option OpenCase} {hasDefault : Bool}
      (fits : ∀ c ∈ cases, Fits t (.switchCase c))
    (current : SameCase t x y) : SameProgress t ⟨cases, x, hasDefault⟩ ⟨cases, y, hasDefault⟩

theorem SameProgress.close {a b : SwitchProgress} (h : SameProgress t a b) :
    Gives t (closeCase a) (closeCase b) fun cases => ∀ c ∈ cases, Fits t (.switchCase c) := by
  obtain ⟨fits, current⟩ := h
  cases current with
  | none => exact .done fits
  | @some x y test body same fitTest fitBody =>
    refine .finish same fun span spans => .done (List.forall_mem_cons.mpr ⟨?_, fits⟩)
    refine Fits.node (n := .switchCase ⟨span, test, body.reverse⟩) spans
      (fits_append (fits_option fitTest) (fits_map fun s mem => ?_)) rfl
    exact fitBody s (List.mem_reverse.mp mem)

end Tandem

namespace Grammar.Paired

open Tandem Node

variable {t : Twins} {g : Grammar} (hg : g.Paired t) {x y : NodeStart}
include hg

/-! ### Declarations -/

theorem declarator {inHead : Bool} {kind : VariableKind} :
    Gives t (g.declarator inHead kind) (g.declarator inHead kind) fun d => Fits t (.declarator d) := by
  have name : Gives t (Pattern.identifier <$> identifier) (Pattern.identifier <$> identifier) (PatternFits t) := by
    rw [map_eq_pure_bind]
    exact .step .identifier fun id spans => .done (name_fits spans).2.2
  refine .start fun _ _ same => .choose (fun _ => name) (fun _ => hg.bindingAtom) fun target fits =>
    .quiet (.checkPattern fits) fun _ => ?_
  refine .quiet .eat fun _ => .ite (fun _ => .step hg.plainAssignment fun value fitValue => ?_) fun _ =>
    .quiet .checkNoValue fun _ => ?_
  · exact .finish same fun span spans =>
      .done (Fits.node (n := .declarator ⟨span, target, some value⟩) spans (fits_two fits fitValue) rfl)
  · exact .finish same fun span spans =>
      .done (Fits.node (n := .declarator ⟨span, target, none⟩) spans (fits_one fits) rfl)

theorem declarators {inHead : Bool} {kind : VariableKind} :
    Gives t (g.declarators inHead kind) (g.declarators inHead kind) fun ds => ∀ d ∈ ds, Fits t (.declarator d) := by
  refine .step hg.declarator fun first fits => Gives.repeatPast (I := fun found => ∀ d ∈ found, Fits t (.declarator d))
    (List.forall_mem_singleton.mpr fits) fun found before => .quiet .eat fun _ => .ite (fun _ => ?_) fun _ => ?_
  · exact .step hg.declarator fun d fits => .done (List.forall_mem_cons.mpr ⟨fits, before⟩)
  · exact .done fun d mem => before d (List.mem_reverse.mp mem)

section Starts

variable (same : SameStart t x y)
include same

theorem declaration {kind : VariableKind} : Gives t (g.declaration x kind) (g.declaration y kind) (StatementFits t) :=
  .quiet .next fun _ => .step hg.declarators fun found fits => .quiet .semicolon fun _ =>
    .finish same fun span spans => .done
    (Fits.node (n := .statement (.variableDeclaration ⟨span, kind, found⟩)) spans (fits_map fits) rfl)

theorem variableStatement {kind : VariableKind} {context : Option StatementContext} :
    Gives t (g.variableStatement x kind context) (g.variableStatement y kind context) (StatementFits t) :=
  .ite (fun _ => .stops .unexpected) fun _ => hg.declaration same

theorem functionStatement {isAsync hanging : Bool} :
    Gives t (g.functionStatement x isAsync hanging) (g.functionStatement y isAsync hanging) (StatementFits t) :=
  .quiet .next fun _ => .step (hg.function same) fun _ fits => .done (Fits.functionDeclaration fits)

end Starts

/-! ### Control flow -/

theorem body {context : StatementContext} :
    Gives t (g.body context) (g.body context) (StatementFits t) := hg.statement _ _

theorem loopBody : Gives t g.loopBody g.loopBody (StatementFits t) :=
  .quiet .pushLabel fun _ => .step hg.body fun _ fits => .quiet .popLabel fun _ => .done fits

section Starts

variable (same : SameStart t x y)
include same

theorem doWhileStatement : Gives t (g.doWhileStatement x) (g.doWhileStatement y) (StatementFits t) := by
  refine .quiet .next fun _ => .step hg.loopBody fun body fits => .quiet .expect fun _ =>
    .step hg.parenthesized fun test fitTest => ?_
  have whole : Gives t (do return .doWhileStatement (← finishSpan x) body test)
      (do return .doWhileStatement (← finishSpan y) body test)
      (StatementFits t) :=
    .finish same fun span spans => .done (Fits.node (n := .statement (.doWhileStatement span body test)) spans
      (fits_two fits fitTest) rfl)
  exact .quiet .since fun _ => .ite (fun _ => .quiet .eat fun _ => whole) fun _ => .quiet .semicolon fun _ => whole

theorem whileStatement : Gives t (g.whileStatement x) (g.whileStatement y) (StatementFits t) :=
  .quiet .next fun _ => .step hg.parenthesized fun test fits => .step hg.loopBody fun body fitBody =>
    .finish same fun span spans => .done
    (Fits.node (n := .statement (.whileStatement span test body)) spans (fits_two fits fitBody) rfl)

theorem withStatement : Gives t (g.withStatement x) (g.withStatement y) (StatementFits t) := by
  refine .quiet .strict fun _ => .ite (fun _ => .step .tokenStart fun _ placed => .stops (.fail placed nofun)) fun _ =>
    .quiet .next fun _ => ?_
  refine .step hg.parenthesized fun object fits => .step hg.body fun body fitBody =>
    .finish same fun span spans => .done ?_
  exact Fits.node (n := .statement (.withStatement span object body)) spans (fits_two fits fitBody) rfl

theorem ifStatement : Gives t (g.ifStatement x) (g.ifStatement y) (StatementFits t) := by
  refine .quiet .next fun _ => .step hg.parenthesized fun test fits => .step hg.body fun consequent fitYes =>
    .quiet .eat fun _ => ?_
  refine .choose (fun _ => Gives.present hg.body) (fun _ => .done nofun) fun alternate fitNo =>
    .finish same fun span spans => .done ?_
  exact Fits.node (n := .statement (.ifStatement span test consequent alternate)) spans
    (fits_append (fits_two fits fitYes) (fits_option fitNo)) rfl

theorem returnStatement : Gives t (g.returnStatement x) (g.returnStatement y) (StatementFits t) := by
  have rest : Gives t
      (do
        next
        if ← eat .semi <||> canOmitSemicolon then return .returnStatement (← finishSpan x) none
        else
          let argument ← g.plainExpression .plain
          semicolon
          return .returnStatement (← finishSpan x) (some argument))
      (do
        next
        if ← eat .semi <||> canOmitSemicolon then return .returnStatement (← finishSpan y) none
        else
          let argument ← g.plainExpression .plain
          semicolon
          return .returnStatement (← finishSpan y) (some argument))
      (StatementFits t) := by
    refine .quiet .next fun _ => .quiet (.orM .eat .canOmitSemicolon) fun _ => .ite (fun _ => ?_) fun _ => ?_
    · exact .finish same fun span spans =>
        .done (Fits.leaf (n := .statement (.returnStatement span none)) spans rfl rfl)
    · refine .step hg.plainExpression fun e fits => .quiet .semicolon fun _ => .finish same fun span spans => .done ?_
      exact Fits.node (n := .statement (.returnStatement span (some e))) spans (fits_one fits) rfl
  exact .quiet .scopes fun _ => .quiet .options fun _ => .ite (fun _ => rest) fun _ => .step .tokenStart fun _ placed =>
    .stops (.fail placed nofun)

theorem throwStatement : Gives t (g.throwStatement x) (g.throwStatement y) (StatementFits t) := by
  refine .quiet .next fun _ => .quiet .lineBreakBefore fun _ =>
    .ite (fun _ => .step .lastStop fun _ placed => .stops (.fail placed nofun)) fun _ => ?_
  refine .step hg.plainExpression fun e fits => .quiet .semicolon fun _ => .finish same fun span spans => .done ?_
  exact Fits.node (n := .statement (.throwStatement span e)) spans (fits_one fits) rfl

end Starts

/-! ### `switch` -/

theorem caseHead {isDefault : Bool} {a b : SwitchProgress} (h : SameProgress t a b) :
    Yields t (g.caseHead isDefault a) (g.caseHead isDefault b) (SameProgress t) := by
  have rest {x y : NodeStart} {cases : List SwitchCase} {test : Option Expression} {hasDefault : Bool}
      (same : SameStart t x y)
      (fits : ∀ c ∈ cases, Fits t (.switchCase c)) (fitTest : ∀ e ∈ test, ExpressionFits t e) :
      Yields t (do expect .colon; return (⟨cases, some { start := x, test }, hasDefault⟩ : SwitchProgress))
        (do expect .colon; return (⟨cases, some { start := y, test }, hasDefault⟩ : SwitchProgress)) (SameProgress t) :=
    .quiet .expect fun _ => .pure ⟨fits, .some same fitTest nofun⟩
  have flag : b.hasDefault = a.hasDefault := by
    cases h
    rfl
  refine .step h.close fun cases fits => .start fun x y same => .quiet .next fun _ => .ite (fun _ => ?_) fun _ => ?_
  · rw [flag]
    refine .ite (fun _ => .lexer fun l k h _ => ?_) fun _ => .known (rest same fits nofun)
    rw [h.lastStart]
    exact .stops (.failRecoverable h.sited.lastStart nofun)
  · rw [flag]
    exact .step (.present hg.plainExpression) fun test fitTest => rest same fits fitTest

theorem casePass {a b : SwitchProgress} (h : SameProgress t a b) :
    Yields t (g.casePass a) (g.casePass b) (Yields.Turns (SameProgress t) fun x y => y = x ∧
      ∀ c ∈ x, Fits t (.switchCase c)) := by
  refine .quiet .kind fun kind => ?_
  split
  · refine .quiet .exitScope fun _ => .step h.close fun cases fits => .pure ⟨rfl, fun c mem => ?_⟩
    exact fits c (List.mem_reverse.mp mem)
  · exact (hg.caseHead h).bind fun _ _ after => .pure after
  · exact (hg.caseHead h).bind fun _ _ after => .pure after
  · obtain ⟨fits, current⟩ := h
    cases current with
    | none => exact .unexpected
    | some same fitTest fitBody =>
      refine .step (hg.statement none false) fun s fit => .pure ⟨fits, .some same fitTest ?_⟩
      exact List.forall_mem_cons.mpr ⟨fit, fitBody⟩

theorem switchStatement (same : SameStart t x y) :
    Gives t (g.switchStatement x) (g.switchStatement y) (StatementFits t) := by
  refine .quiet .next fun _ => .step hg.parenthesized fun discriminant fits => .quiet .expect fun _ =>
    .quiet .pushLabel fun _ => ?_
  refine .quiet .enterScope fun _ => .step (V := fun cases => ∀ c ∈ cases, Fits t (.switchCase c))
    (Yields.repeatPast (x := ({} : SwitchProgress)) ⟨nofun, .none⟩ fun a b h => hg.casePass h) fun cases fitCases => ?_
  refine .quiet .next fun _ => .quiet .popLabel fun _ => .finish same fun span spans => .done ?_
  exact Fits.node (n := .statement (.switchStatement span discriminant cases)) spans
    (fits_cons fits (fits_map fitCases)) rfl

/-! ### `try` -/

theorem catchParam : Gives t g.catchParam g.catchParam fun p => ∀ x ∈ p, PatternFits t x := by
  refine .quiet .eat fun _ => .ite (fun _ => .step hg.bindingAtom fun param fits => ?_) fun _ =>
    .quiet .edition fun _ => ?_
  · refine .ite (fun _ => ?_) fun _ => ?_
    all_goals
      exact .quiet .enterScope fun _ => .quiet (.checkPattern fits) fun _ => .quiet .expect fun _ =>
        .done (forall_mem_some fits)
  · exact .guard (fun _ => .unexpected) fun _ => .quiet .enterScope fun _ => .done (by simp)

theorem catchClause : Gives t g.catchClause g.catchClause fun c => Fits t (.catchClause c) := by
  refine .start fun _ _ same => .quiet .next fun _ => .step hg.catchParam fun param fitParam =>
    .step (hg.scopelessBlock nofun) fun body fits => ?_
  refine .quiet .exitScope fun _ => .finish same fun span spans => .done ?_
  exact Fits.node (n := .catchClause ⟨span, param, body⟩) spans (fits_append (fits_option fitParam) (fits_one fits)) rfl

theorem tryStatement (same : SameStart t x y) : Gives t (g.tryStatement x) (g.tryStatement y) (StatementFits t) := by
  refine .quiet .next fun _ => .step hg.block fun block fits => .quiet .isKind fun _ => ?_
  refine .choose (fun _ => Gives.present hg.catchClause) (fun _ => .done nofun) fun handler fitHandler =>
    .quiet .eat fun _ => ?_
  refine .choose (fun _ => Gives.present hg.block) (fun _ => .done nofun) fun finalizer fitFinalizer => ?_
  rw [same.pos]
  refine .guard (fun _ => .fail same.placed nofun) fun _ => .finish same fun span spans => .done ?_
  refine Fits.node (n := .statement (.tryStatement span block handler finalizer)) spans (fits_cons fits ?_) rfl
  exact fits_append (fits_option fitHandler) (fits_option fitFinalizer)

/-! ### Labels and expressions -/

section Starts

variable (same : SameStart t x y)
include same

theorem labeledStatement {label : Identifier} {context : Option StatementContext} (spans : Spans t label.span) :
    Gives t (g.labeledStatement x label context) (g.labeledStatement y label context) (StatementFits t) := by
  refine .get fun p q state => ?_
  rw [show q.labels = p.labels by rw [state.rest], same.pos]
  refine .guard (fun _ => .fail spans.start nofun) fun _ => .quiet .kind fun _ => .step .tokenStart fun _ _ => ?_
  refine .quiet (.modify (fun _ => rfl) (fun _ _ => rfl) fun _ h => { h with }) fun _ =>
    .step hg.body fun body fits => ?_
  refine .quiet .popLabel fun _ => .finish same fun span whole => .done ?_
  exact Fits.node (n := .statement (.labeledStatement span label body)) whole (fits_two (name_fits spans).1 fits) rfl

theorem expressionOrLabel {context : Option StatementContext} :
    Gives t (g.expressionOrLabel x context) (g.expressionOrLabel y context) (StatementFits t) := by
  refine .quiet .isKind fun _ => .step hg.plainExpression fun e fits => ?_
  split
  · refine .quiet (.andM .pure .eat) fun _ => .ite (fun _ => hg.labeledStatement same fits.span) fun _ => ?_
    exact Gives.expressionStatement same fits
  · exact Gives.expressionStatement same fits

theorem wordStatement {context : Option StatementContext} :
    Gives t (g.wordStatement x context) (g.wordStatement y context) (StatementFits t) := by
  refine .quiet .atAsyncFunction fun _ => .ite (fun _ => ?_) fun _ => .quiet .atAwaitUsing fun _ =>
    .ite (fun _ => ?_) fun _ => ?_
  · exact .guard (fun _ => .unexpected) fun _ => .quiet .next fun _ => hg.functionStatement same
  · exact .quiet .checkUsing fun _ => .quiet .awaitBeforeUsing fun _ => hg.declaration same
  · refine .quiet .atUsing fun _ => .ite (fun _ => ?_) fun _ => hg.expressionOrLabel same
    exact .quiet .checkUsing fun _ => hg.declaration same

end Starts

end Grammar.Paired

/-! ### Loops with a head -/

namespace Tandem

open Node Grammar

variable {t : Twins}

theorem Quiet.checkOfTarget {e : Expression} {pos : Nat} {escaped startsWithLet isAwait : Bool}
    (fits : ExpressionFits t e) :
    Quiet t (checkOfTarget e pos escaped startsWithLet isAwait) := by
  refine .quiet .since fun _ => .guard (fun _ => .unexpected) fun _ => ?_
  exact .ite (fun _ => .fail fits.span.start nofun) fun _ => .done trivial

theorem Quiet.variableKind? : Quiet t variableKind? := by
  refine .bind .atLet fun _ => .ite .pure (.bind .kind fun _ => ?_)
  split <;> exact .pure

end Tandem

namespace Grammar.Paired

open Tandem Node

variable {t : Twins} {g : Grammar} (hg : g.Paired t) {x y : NodeStart} (same : SameStart t x y)
include hg same

theorem forLoop {init : Option ForInit} (fitInit : ∀ i ∈ init, Fits t i.node) :
    Gives t (g.forLoop x init) (g.forLoop y init) (StatementFits t) := by
  refine .quiet .expect fun _ => .quiet .isKind fun _ => ?_
  refine .choose (fun _ => .done nofun) (fun _ => Gives.present hg.plainExpression) fun test fitTest => ?_
  refine .quiet .expect fun _ => .quiet .isKind fun _ => ?_
  refine .choose (fun _ => .done nofun) (fun _ => Gives.present hg.plainExpression) fun update fitUpdate => ?_
  refine .quiet .expect fun _ => .step hg.body fun body fits => .finish same fun span spans => .done ?_
  refine Fits.node (n := .statement (.forStatement span init test update body)) spans ?_ rfl
  exact fits_append (fits_append (fits_append (fits_option fitInit) (fits_option fitTest)) (fits_option fitUpdate))
    (fits_one fits)

theorem forEach {target : ForTarget} {isAwait : Bool} (fitTarget : Fits t target.node) :
    Gives t (g.forEach x target isAwait) (g.forEach y target isAwait) (StatementFits t) := by
  refine .quiet .isKind fun isIn => .quiet .next fun _ => ?_
  have rest : Gives t
      (do
        let collection ← if isIn then g.plainExpression .plain else g.plainAssignment .plain
        expect .parenR
        let body ← g.body .nested
        let span ← finishSpan x
        return if isIn then .forInStatement span target collection body
          else .forOfStatement span isAwait target collection body)
      (do
        let collection ← if isIn then g.plainExpression .plain else g.plainAssignment .plain
        expect .parenR
        let body ← g.body .nested
        let span ← finishSpan y
        return if isIn then .forInStatement span target collection body
          else .forOfStatement span isAwait target collection body)
      (StatementFits t) := by
    refine .choose (fun _ => hg.plainExpression) (fun _ => hg.plainAssignment) fun collection fits =>
      .quiet .expect fun _ => ?_
    refine .step hg.body fun body fitBody => .finish same fun span spans => .done ?_
    split
    · exact Fits.node (n := .statement (.forInStatement span target collection body)) spans
        (fits_three fitTarget fits fitBody) rfl
    · exact Fits.node (n := .statement (.forOfStatement span isAwait target collection body)) spans
        (fits_three fitTarget fits fitBody) rfl
  cases target with
  | pattern => exact rest
  | declaration d => exact .quiet .strict fun _ => .quiet .edition fun _ => .require (fun _ =>
      .fail fitTarget.span.start (by split <;> nofun)) fun _ => rest

section Heads

variable {awaitAt : Option Nat} (placed : ∀ i ∈ awaitAt, t.Placed i)
include placed

theorem forAfterDeclaration {d : VariableDeclaration} (fits : StatementFits t (.variableDeclaration d)) :
    Gives t (g.forAfterDeclaration x d awaitAt) (g.forAfterDeclaration y d awaitAt) (StatementFits t) := by
  refine .quiet .isKind fun isIn => .quiet .atLoopWord fun _ => .ite (fun _ => ?_) fun _ => ?_
  · refine .ite (fun _ => ?_) fun _ => hg.forEach same fits
    cases awaitAt with
    | none => exact hg.forEach same fits
    | some pos => exact .stops (.unexpectedAt (placed pos rfl))
  · cases awaitAt with
    | none => exact hg.forLoop same (forall_mem_some fits)
    | some pos => exact .stops (.unexpectedAt (placed pos rfl))

theorem forDeclaration {x' y' : NodeStart} {kind : VariableKind} (sameHead : SameStart t x' y') :
    Gives t (g.forDeclaration x x' kind awaitAt) (g.forDeclaration y y' kind awaitAt) (StatementFits t) := by
  refine .quiet .next fun _ => .step hg.declarators fun found fits => .finish sameHead fun span spans => ?_
  exact hg.forAfterDeclaration same placed (Fits.node (n := .statement (.variableDeclaration ⟨span, kind, found⟩)) spans
    (fits_map fits) rfl)

theorem forAfterExpression :
    Gives t (g.forAfterExpression x awaitAt) (g.forAfterExpression y awaitAt) (StatementFits t) := by
  refine .quiet .isContextual fun _ => .quiet .containsEscape fun _ => .step .tokenStart fun pos _ => ?_
  have item : CoverGives t (if awaitAt.isSome then g.subscripted .forAwaitHead else g.expression .forHead)
      (if awaitAt.isSome then g.subscripted .forAwaitHead else g.expression .forHead) (ExpressionFits t) :=
    .ite (fun _ => hg.subscripted) fun _ => hg.expression
  refine .step (item.deferring .empty) fun r known => .quiet .atLoopWord fun _ =>
    .ite (fun _ => .quiet .isKind fun _ => ?_) fun _ => ?_
  · have target := (CoverGives.assignedPattern known.1).deferring known.2
    refine .ite (fun _ => ?_) fun _ => .quiet (.checkOfTarget known.1) fun _ => ?_
    · cases awaitAt with
      | none => exact .step target fun _ known => .quiet (.checkPattern known.1) fun _ => hg.forEach same known.1
      | some pos => exact .stops (.unexpectedAt (placed pos rfl))
    · exact .step target fun _ known => .quiet (.checkPattern known.1) fun _ => hg.forEach same known.1
  · refine .quiet (.check known.2.expressionComplaint) fun _ => ?_
    cases awaitAt with
    | none => exact hg.forLoop same (forall_mem_some known.1)
    | some pos => exact .stops (.unexpectedAt (placed pos rfl))

theorem forHead : Gives t (g.forHead x awaitAt) (g.forHead y awaitAt) (StatementFits t) := by
  refine .quiet .expect fun _ => .quiet .isKind fun _ => .ite (fun _ => ?_) fun _ => .start fun _ _ sameHead =>
    .quiet .variableKind? fun kind => ?_
  · cases awaitAt with
    | none => exact hg.forLoop same nofun
    | some pos => exact .stops (.unexpectedAt (placed pos rfl))
  · cases kind with
    | some kind => exact hg.forDeclaration same placed sameHead
    | none =>
      refine .quiet .atUsing fun _ => .ite (fun _ => hg.forDeclaration same placed sameHead) fun _ =>
        .quiet .atAwaitUsing fun _ => .ite (fun _ => ?_) fun _ => ?_
      · refine .quiet .next fun _ => .quiet .scopes fun _ =>
          .ite (fun _ => hg.forDeclaration same placed sameHead) fun _ => ?_
        exact .step .tokenStart fun _ placed => .stops (.fail placed nofun)
      · exact hg.forAfterExpression same placed

end Heads

theorem forStatement : Gives t (g.forStatement x) (g.forStatement y) (StatementFits t) := by
  refine .quiet .next fun _ => .quiet .since fun _ => .quiet .scopes fun _ =>
    .quiet (.andM .pure .eatContextual) fun isAwait => ?_
  refine .lexer fun l k h _ => .quiet .pushLabel fun _ => .quiet .enterScope fun _ => ?_
  rw [h.lastStart]
  have placed : ∀ i ∈ (if isAwait then some l.last.start else none), t.Placed i := by
    split
    · exact forall_mem_some h.sited.lastStart
    · exact nofun
  exact .step (hg.forHead same placed) fun s fits => .quiet .exitScope fun _ => .quiet .popLabel fun _ => .done fits

end Grammar.Paired
end ScriptSyntax
