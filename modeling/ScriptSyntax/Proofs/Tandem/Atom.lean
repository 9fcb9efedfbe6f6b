import ScriptSyntax.Parser.Atom
import ScriptSyntax.Proofs.Tandem.Class

/-!
Operands by themselves, in two parsers side by side.  What a literal says is known from the token that it is
read from.
-/

namespace ScriptSyntax

open ParseM

namespace Tandem

open Node Grammar

variable {t : Twins} {β : Type} {p : Parser} {x y : NodeStart}

/-! ### Slashes and contexts -/

theorem regExpAgain_agrees {l : Lexer} (slash : t.first.charAt l.token.start = some '/') :
    (lexers t.start t.first t.second t.options).Agrees (· = l)
      (do LexM.moveTo ((← get).token.start + 1); LexM.readRegExp)
        (do LexM.moveTo ((← get).token.start + 1); LexM.readRegExp)
      (Equal fun _ _ => True) := by
  refine .get fun k h => ?_
  rw [h.start]
  exact .moveTo (.succ h.sited.start.le slash rfl) readRegExp_agrees

theorem Current.regExpAgain {l l' : Lexer} {u : Unit} (h : Current t l) (slash : l.kind = .slash ∨ l.kind = .slashEq)
    (sited : Sited t.start t.first l')
    (run : Runs (setting t.first t.options) (do LexM.moveTo ((← get).token.start + 1); LexM.readRegExp) l u l') :
    Current t l' := by
  obtain ⟨here, whole⟩ := h.slash slash
  have ordered := (Reads.regExpAgain run rfl h.ordered).ordered
  have reached := h.reached.regExp slash (.passes run)
  simp at run
  have kind := readRegExp_kind rfl run
  exact { ordered
          strict := fun inModule => (Detached.readRegExp.strict rfl run).trans (h.strict inModule)
          slash := by simp [kind]
          alone := fun _ => readRegExp_alone run here whole h.strict sited.stop.boundary
          keyword := by simp [kind, TokenKind.keyword?]
          reached }

theorem Quiet.rereadSlash : Quiet t rereadSlash := by
  refine Yields.of fun p => .look (x := p.lexer.kind == .slash) ?_
    (.look (x := p.lexer.kind == .slashEq) ?_ (.ite (fun slash => ?_) fun _ => ?_))
  · exact fun q state => ⟨rfl, by rw [← state.lexers.kind]; rfl⟩
  · exact fun q state => ⟨rfl, by rw [← state.lexers.kind]; rfl⟩
  · have slash : p.lexer.kind = .slash ∨ p.lexer.kind = .slashEq := by simpa using slash
    exact ofLexer_agrees (fun known => regExpAgain_agrees (known.slash slash).1) (fun known => known.regExpAgain slash)
      fun known run => ⟨_, known.reached.regExp slash run⟩
  · exact Yields.at' (.done trivial)

theorem overrideContext_relined (context : Context) (x y : Cursor) :
    (x.relined y).overrideContext context = (x.overrideContext context).relined y := by
  obtain ⟨_, _, _, _, _, _, _, contexts⟩ := x
  cases contexts <;> rfl

theorem overrideContext_quiet {context : Context} :
    Quiet t (modify fun p =>
      { p with lexer := { p.lexer with toCursor := p.lexer.toCursor.overrideContext context } }) :=
  Yields.modify fun _ _ h => h.ofContexts (c := Cursor.overrideContext context) (overrideContext_relined context)
    (Cursor.sameToken_overrideContext context)

/-! ### Looks at the current token -/

/-- What follows depends on the kind of the current token, where a node may begin. -/
theorem CoverYields.atToken {f₀ f₁ : NodeStart → TokenKind → CoverM β} {Q : β → β → Prop}
    (next : ∀ p x y d, SameStart t x y → x.pos = p.lexer.token.start → (∀ put ∈ d, Postponed t put) →
      t.parsers.Agrees (· = p) ((f₀ x p.lexer.kind).run d) ((f₁ y p.lexer.kind).run d)
        fun a b _ => Q a.1 b.1 ∧ b.2 = a.2 ∧ ∀ d ∈ a.2, Postponed t d) :
    CoverYields t (do let x ← startNode; let kind ← kind; f₀ x kind)
      (do let y ← startNode; let kind ← kind; f₁ y kind) Q := by
  refine ⟨fun d put p q state _ => ?_⟩
  have same : SameStart t ⟨p.lexer.token.start, p.lexer.token.startPosition⟩ ⟨q.lexer.token.start,
    q.lexer.token.startPosition⟩ :=
    ⟨state.lexers.start, state.lexers.sited.start, fun located => by rw [state.lexers.located located]⟩
  show t.parsers.Ends _ ((f₀ _ p.lexer.kind).run d _ p) ((f₁ _ q.lexer.kind).run d _ q)
  rw [state.lexers.kind]
  exact next p _ _ d same rfl put p q state rfl

/-! ### Literals -/

/-- A keyword with an escape in it is not moved past. -/
theorem unescaped_of_next {s : Setting} {q : Parser} {u : Unit} {word : String} (run : Runs s next p u q)
    (keyword : p.lexer.kind.keyword? = some word) :
    p.lexer.containsEscape = false := by
  cases escaped : p.lexer.containsEscape with
  | false => rfl
  | true => simp [ParseM.next, escaped, keyword] at run

/-- A keyword that is a literal. -/
theorem keywordLiteral_agrees {value : LiteralValue} (same : SameStart t x y) (here : x.pos = p.lexer.token.start)
    (word : p.lexer.kind.keyword? = some p.lexer.kind.label) (keyword : value.tokenKind? = none) :
    t.parsers.Agrees (· = p) (keywordLiteral x value) (keywordLiteral y value) fun a b _ => b = a ∧
      ExpressionFits t a := by
  have shared : Gives t (keywordLiteral x value) (keywordLiteral y value) fun e => Spans t e.span :=
    .quiet .kind fun _ => .quiet .next fun _ => .finish same fun _ spans => .done spans
  refine ((shared.strengthen (Q := (· = p)) fun _ _ => trivial).also (U := fun e => ∃ l, e = .literal l ∧
    l.Copies t.first t.options) ?_).weaken ?_
  · rintro p' e q current rfl run
    simp only [Grammar.keywordLiteral, Runs.bind_iff, Runs.kind_iff, Runs.exists_look, Runs.finishSpan_iff,
      Runs.pure_iff] at run
    obtain ⟨_, p₁, moved, rfl, rfl⟩ := run
    refine ⟨_, rfl, ?_, fun literal => absurd keyword literal⟩
    have stop : q.lexer.last.stop = p'.lexer.token.stop := by rw [last_of_next current moved]
    simpa [here, stop] using (current.keyword _ word (unescaped_of_next moved word)).symm
  · rintro _ _ _ ⟨⟨rfl, spans⟩, l, rfl, copies⟩
    exact ⟨rfl, (Fits.literal spans copies).2⟩

/-! ### Steps on single tokens -/

namespace Quiet

theorem asyncParameterFollows : Quiet t asyncParameterFollows := by
  refine Yields.get fun p q state => .quiet .since fun _ => ?_
  rw [state.lexers.kind, state.lexers.text, state.lexers.containsEscape, show q.arrowInForAwait =
    p.arrowInForAwait by rw [state.rest]]
  exact .done trivial

theorem importEnd : Quiet t importEnd := by
  refine .quiet .eat fun _ => .ite (fun _ => .done trivial) fun _ => .step .tokenStart fun pos placed =>
    .quiet (.andM .eat .eat) fun _ => ?_
  exact .guard (fun _ => .failRecoverable placed nofun) fun _ => .unexpectedAt placed

end Quiet

namespace Gives

variable (same : SameStart t x y)
include same

theorem metaWord {expected : String} {wrong escaped : Fault} (known : wrong ≠ .invalidCharacterPosition)
    (known' : escaped ≠ .invalidCharacterPosition) :
    Gives t (metaWord x expected wrong escaped) (metaWord y expected wrong escaped) fun id => Spans t id.span := by
  refine .quiet .next fun _ => .quiet .containsEscape fun _ => .step .anyWord fun id spans =>
    .guard (fun _ => .failRecoverable spans.start known) fun _ => ?_
  rw [same.pos]
  exact .guard (fun _ => .failRecoverable same.placed known') fun _ => .done spans

theorem newTarget : Gives t (newTarget x) (newTarget y) (ExpressionFits t) := by
  refine .finish same fun word spans => .step (.metaWord same nofun nofun) fun id fits => .quiet .scopes fun _ => ?_
  rw [same.pos]
  refine .require (fun _ => .failRecoverable same.placed nofun) fun _ => .finish same fun span whole => .done ?_
  have name : Fits t (.identifier ⟨word, "new"⟩) := Fits.leaf (n := .identifier _) spans rfl rfl
  exact Fits.node (n := .expression (.metaProperty span _ id)) whole (fits_two name (name_fits fits).1) rfl

theorem importMeta : Gives t (importMeta x) (importMeta y) (ExpressionFits t) := by
  refine .finish same fun word spans => .step (.metaWord same nofun nofun) fun id fits => .quiet .options fun _ => ?_
  rw [same.pos]
  refine .require (fun _ => .failRecoverable same.placed nofun) fun _ => .finish same fun span whole => .done ?_
  have name : Fits t (.identifier ⟨word, "import"⟩) := Fits.leaf (n := .identifier _) spans rfl rfl
  exact Fits.node (n := .expression (.metaProperty span _ id)) whole (fits_two name (name_fits fits).1) rfl

theorem super : Gives t (super x) (super y) (ExpressionFits t) := by
  refine .quiet .scopes fun _ => ?_
  rw [same.pos]
  refine .require (fun _ => .fail same.placed nofun) fun _ => .quiet .next fun _ => .quiet .isKind fun _ =>
    .quiet .scopes fun _ => ?_
  refine .guard (fun _ => .fail same.placed nofun) fun _ => .quiet .isKind fun _ => .quiet .isKind fun _ =>
    .quiet .isKind fun _ => ?_
  refine .require (fun _ => .unexpected) fun _ => .finish same fun span spans => .done ?_
  exact Fits.leaf (n := .expression (.super span)) spans rfl rfl

end Gives

/-- What is known of what stands in parentheses. -/
structure ParensFit (t : Twins) (c : ParenContents) : Prop where
  items : ∀ e ∈ c.items, ExpressionFits t e
  rest : ∀ r ∈ c.rest, PatternFits t r.1 ∧ t.Placed r.2
  deferred : Postponed t c.deferred

end Tandem

namespace Grammar.Paired

open Tandem Node

variable {t : Twins} {g : Grammar} (hg : g.Paired t) {x y : NodeStart}
include hg

/-! ### Names -/

theorem arrowOfName {id : Identifier} {isAsync : Bool} {init : InitMode} (same : SameStart t x y)
    (spans : Spans t id.span) :
    Gives t (g.arrowOfName x id isAsync init) (g.arrowOfName y id isAsync init) (ExpressionFits t) :=
  hg.arrow same (List.forall_mem_singleton.mpr (forall_mem_some (name_fits spans).2.1)) (by simp)

theorem nameAtom {canBeArrow : Bool} {init : InitMode} (same : SameStart t x y) :
    Gives t (g.nameAtom x canBeArrow init) (g.nameAtom y canBeArrow init) (ExpressionFits t) := by
  refine .quiet .containsEscape fun _ => .step .identifier fun id spans => .quiet .canOmitSemicolon fun _ =>
    .quiet .since fun _ => ?_
  refine .quiet (.andM .pure .eat) fun _ => .ite (fun _ => .quiet overrideContext_quiet fun _ => ?_) fun _ => ?_
  · exact .step (hg.function same) fun f fits => .done fits
  refine .ite (fun _ => .done (name_fits spans).2.1) fun _ => .quiet .eat fun _ =>
    .ite (fun _ => hg.arrowOfName same spans) fun _ => ?_
  refine .quiet .asyncParameterFollows fun _ => .ite (fun _ => ?_) fun _ => .done (name_fits spans).2.1
  refine .step .identifier fun param spans => .quiet .canOmitSemicolon fun _ =>
    .quiet (.orM .pure (.bind .eat fun _ => .pure)) fun _ => ?_
  exact .guard (fun _ => .unexpected) fun _ => hg.arrowOfName same spans

/-! ### Parentheses -/

theorem parenPass {trailing : Bool} {contents : ParenContents} (h : ParensFit t contents) :
    Gives t (g.parenPass trailing contents) (g.parenPass trailing contents) (Turned (ParensFit t) (ParensFit t)) := by
  refine .quiet .isKind fun _ => .ite (fun _ => .done h) fun _ =>
    .unless (fun _ => .expect) (.quiet .isKind fun _ => ?_)
  refine .ite (fun _ => .done { h with }) fun _ => .quiet .isKind fun _ => .ite (fun _ => ?_) fun _ => ?_
  · refine .step .tokenStart fun pos placed => .step hg.restBinding fun rest fits =>
      .quiet .checkNoComma fun _ => .done ?_
    exact { h with rest := forall_mem_some ⟨fits, placed⟩ }
  · refine .step ((hg.assignment .plain).deferring h.deferred) fun r ⟨fits, put⟩ => .done ?_
    exact { h with items := List.forall_mem_cons.mpr ⟨fits, h.items⟩, deferred := put }

theorem paren {canBeArrow : Bool} {init : InitMode} :
    Gives t (g.paren canBeArrow init) (g.paren canBeArrow init) (ExpressionFits t) := by
  refine .start fun _ _ same => .quiet .edition fun _ => .ite (fun _ => hg.parenthesized) fun _ =>
    .quiet .next fun _ => ?_
  refine .start fun _ _ sameInner => .get fun p q state => ?_
  rw [show q.yieldAt = p.yieldAt by rw [state.rest], show q.awaitAt = p.awaitAt by rw [state.rest]]
  have outer := state.noted
  refine .quiet (.modify (fun _ => rfl) (fun _ _ => rfl) fun _ h =>
    { h with yieldAt := nofun, awaitAt := nofun }) fun _ => .quiet .since fun _ => ?_
  refine .step (.repeatPast (x := ({} : ParenContents)) ⟨nofun, nofun, .empty⟩ fun contents h =>
    hg.parenPass h) fun contents fits => ?_
  refine .lexer fun l k h _ => .quiet .expect fun _ => .quiet .canOmitSemicolon fun _ =>
    .quiet (.andM .pure .eat) fun _ => .ite (fun _ => ?_) fun _ => ?_
  · refine .quiet (.check fits.deferred.patternComplaint) fun _ => .quiet .checkParameterAwait fun _ => ?_
    refine .quiet (.modify (fun _ => rfl) (fun _ _ => rfl) fun _ h =>
      { h with yieldAt := outer.yieldAt, awaitAt := outer.awaitAt }) fun _ => ?_
    refine hg.arrow same ?_ ?_
    · rintro e mem x rfl
      obtain ⟨y, here, some⟩ := List.mem_map.mp mem
      exact Option.some.inj some ▸ fits.items y (List.mem_reverse.mp here)
    · rintro r mem
      obtain ⟨x, here, rfl⟩ := Option.map_eq_some_iff.mp mem
      exact (fits.rest x here).1
  have whole {m₀ m₁ : ParseM Expression} (rest : Gives t m₀ m₁ (ExpressionFits t)) : Gives t
      (do
        if contents.items.reverse.isEmpty || contents.commaLast then unexpectedAt (← lexer).last.start
        m₀)
      (do
        if contents.items.reverse.isEmpty || contents.commaLast then unexpectedAt (← lexer).last.start
        m₁)
      (ExpressionFits t) := by
    refine .ite (fun _ => .lexer fun l k h _ => ?_) fun _ => rest
    rw [h.lastStart]
    exact .stops (.unexpectedAt h.sited.lastStart)
  refine whole ?_
  have fitItems : ∀ e ∈ contents.items.reverse, ExpressionFits t e :=
    fun e mem => fits.items e (List.mem_reverse.mp mem)
  generalize contents.items.reverse = items at fitItems ⊢
  cases rest : contents.rest with
  | some r => exact .stops (.unexpectedAt (fits.rest r rest).2)
  | none =>
    refine .quiet (.check fits.deferred.expressionComplaint) fun _ =>
      .quiet (.modify (fun _ => rfl) (fun _ _ => rfl) fun _ h => ?_) fun _ => ?_
    · exact { h with
        yieldAt := forall_mem_or outer.yieldAt h.yieldAt
        awaitAt := forall_mem_or outer.awaitAt h.awaitAt }
    split
    · exact .done (fitItems _ (.head _))
    · rw [h.lastStop]
      refine .step (.spanOf sameInner h.sited.lastStop fun located => by rw [h.located located])
        fun span spans => .done ?_
      exact Fits.node (n := .expression (.sequence span _)) spans (fits_map fitItems) rfl

theorem parenAtom {canBeArrow : Bool} {init : InitMode} :
    CoverGives t (g.parenAtom canBeArrow init) (g.parenAtom canBeArrow init) (ExpressionFits t) := by
  refine .liftStep .tokenStart fun pos placed => .liftStep hg.paren fun e fits =>
    .quiet (.amend fun d put => ?_) fun _ => .done fits
  have target : ∀ i ∈ (if e.isSimpleTarget then d.parenthesizedTarget else d.parenthesizedTarget.or (some pos)),
      t.Placed i := by
    split
    · exact put.parenthesizedTarget
    · exact forall_mem_or put.parenthesizedTarget (forall_mem_some placed)
  exact { put with
    parenthesizedTarget := target
    parenthesized := forall_mem_or put.parenthesized (forall_mem_some placed) }

/-! ### `new` and `import` -/

theorem new : Gives t g.new g.new (ExpressionFits t) := by
  refine .start fun _ _ same => .quiet .next fun _ => .quiet .since fun _ => .quiet .isKind fun _ =>
    .ite (fun _ => Gives.newTarget same) fun _ => ?_
  refine .start fun _ _ sameCallee => .step (hg.atom .plain true).alone fun atom fitAtom =>
    .step (hg.subscripts sameCallee fitAtom) fun callee fits => ?_
  have rest (arguments : List (Option Expression)) (fitArguments : ∀ e ∈ arguments, ∀ x ∈ e, ExpressionFits t x) :
      Gives t (do return .new (← finishSpan _) callee (arguments.filterMap id))
        (do return .new (← finishSpan _) callee (arguments.filterMap id))
        (ExpressionFits t) :=
    .finish same fun span spans => .done (Fits.node (n := .expression (.new span callee _)) spans
      (fits_cons fits (fits_slots fitArguments)) rfl)
  exact .quiet .eat fun _ => .ite (fun _ => .quiet .since fun _ => .step hg.expressionList.alone rest) fun _ =>
    .known (rest [] nofun)

theorem importOptions : Gives t g.importOptions g.importOptions fun e => ∀ x ∈ e, ExpressionFits t x := by
  refine .quiet .eat fun _ => .ite (fun _ => .done nofun) fun _ => .quiet .expect fun _ => .quiet .eat fun _ =>
    .ite (fun _ => .done nofun) fun _ => ?_
  refine .step hg.plainAssignment fun e fits => .quiet .eat fun _ =>
    .ite (fun _ => .done (forall_mem_some fits)) fun _ => ?_
  exact .quiet .expect fun _ => .quiet .expect fun _ => .done (forall_mem_some fits)

theorem dynamicImport (same : SameStart t x y) :
    Gives t (g.dynamicImport x) (g.dynamicImport y) (ExpressionFits t) := by
  refine .quiet .next fun _ => .step hg.plainAssignment fun specifier fits => .quiet .since fun _ => ?_
  have rest (options : Option Expression) (fitOptions : ∀ e ∈ options, ExpressionFits t e) :
      Gives t (do return .dynamicImport (← finishSpan x) specifier options)
        (do return .dynamicImport (← finishSpan y) specifier options)
        (ExpressionFits t) :=
    .finish same fun span spans => .done
      (Fits.node (n := .expression (.dynamicImport span specifier options)) spans
        (fits_cons fits (fits_option fitOptions)) rfl)
  exact .ite (fun _ => .step hg.importOptions rest) fun _ => .quiet .importEnd fun _ => .known (rest none nofun)

theorem importAtom {forNew : Bool} : Gives t (g.importAtom forNew) (g.importAtom forNew) (ExpressionFits t) := by
  refine .start fun _ _ same => .quiet .next fun _ => .quiet .isKind fun _ =>
    .ite (fun _ => hg.dynamicImport same) fun _ => ?_
  exact .quiet .isKind fun _ => .ite (fun _ => Gives.importMeta same) fun _ => .unexpected

/-! ### Atoms -/

theorem array (same : SameStart t x y) : CoverGives t (g.array x) (g.array y) (ExpressionFits t) := by
  refine .liftQuiet .next fun _ => .step hg.expressionList fun elements fits => .finish same fun span spans => .done ?_
  exact Fits.node (n := .expression (.array span elements)) spans (fits_slots fits) rfl

theorem coreAtom {init : InitMode} {forNew : Bool} :
    CoverGives t (g.coreAtom init forNew) (g.coreAtom init forNew) (ExpressionFits t) := by
  have arrowAt : Yields t MonadState.get MonadState.get fun p q => q.potentialArrowAt = p.potentialArrowAt :=
    fun p q state _ => .passes state (by rw [state.rest])
  refine .liftQuiet .rereadSlash fun _ => .lifted arrowAt fun p q same => ?_
  rw [same]
  refine .liftStep .tokenStart fun _ _ => .atToken fun p x y d same here put => ?_
  have covered {m₀ m₁ : CoverM Expression} (h : CoverGives t m₀ m₁ (ExpressionFits t)) :
      t.parsers.Agrees (· = p) (m₀.run d) (m₁.run d) fun a b _ => (b.1 = a.1 ∧ ExpressionFits t a.1) ∧ b.2 = a.2 ∧
        ∀ d ∈ a.2, Postponed t d :=
    (h.run d put).at'
  have lifted {m₀ m₁ : ParseM Expression} (h : t.parsers.Agrees (· = p) m₀ m₁ fun a b _ => b = a ∧ ExpressionFits t a) :
      t.parsers.Agrees (· = p) ((liftM m₀ : CoverM Expression).run d) ((liftM m₁ : CoverM Expression).run d)
        fun a b _ => (b.1 = a.1 ∧ ExpressionFits t a.1) ∧ b.2 = a.2 ∧ ∀ d ∈ a.2, Postponed t d :=
    h.bind fun a b p q state related => .passes state ⟨related, rfl, put⟩
  have literal (at' : AtLiteral p) :
      t.parsers.Agrees (· = p) ((do return .literal (← literal) : CoverM Expression).run d)
        ((do return .literal (← literal) : CoverM Expression).run d)
        fun a b _ => (b.1 = a.1 ∧ ExpressionFits t a.1) ∧ b.2 = a.2 ∧ ∀ d ∈ a.2, Postponed t d := by
    refine Bond.Agrees.bind (R := fun x y _ => y = x ∧ LiteralFits t x.1 ∧ x.2 = d)
      ((literal_agrees_at at').bind fun l l' p q state related => ?_) ?_
    · exact .passes state ⟨by rw [related.1], related.2, rfl⟩
    · rintro ⟨l, _⟩ _ p q state ⟨rfl, fits, rfl⟩
      exact .passes state ⟨⟨rfl, fits.2⟩, rfl, put⟩
  have keyword {value : LiteralValue} (word : p.lexer.kind.keyword? = some p.lexer.kind.label)
    (none : value.tokenKind? = none) :=
    lifted (keywordLiteral_agrees same here word none)
  generalize known : p.lexer.kind = kind at keyword ⊢
  cases kind with
  | num => exact literal (.inl known)
  | string => exact literal (.inr (.inl known))
  | regexp => exact literal (.inr (.inr known))
  | kwNull | kwTrue | kwFalse => exact keyword rfl rfl
  | kwSuper => exact covered (.lift (Gives.super same))
  | kwThis => exact covered (.liftQuiet .next fun _ => .finish same fun span spans =>
      .done (Fits.leaf (n := .expression (.this span)) spans rfl rfl))
  | name => exact covered (.lift (hg.nameAtom same))
  | parenL => exact covered hg.parenAtom
  | bracketL => exact covered (hg.array same)
  | braceL => exact covered (.liftQuiet overrideContext_quiet fun _ => hg.object)
  | kwFunction => exact covered (.liftQuiet .next fun _ => .liftStep (hg.function same) fun _ fits => .done fits)
  | kwClass => exact covered (.liftStep hg.classDefinition fun _ fits => .done fits)
  | kwNew => exact covered (.lift hg.new)
  | backQuote => exact covered (.liftStep hg.template fun _ fits => .done fits)
  | kwImport => exact covered (.liftQuiet .since fun _ => .ite (fun _ => .lift hg.importAtom) fun _ =>
      .lift .unexpected)
  | _ => exact covered (.lift .unexpected)

/-- No extension is asked first. -/
theorem atomLevel {init : InitMode} {forNew : Bool} :
    CoverGives t (g.atomLevel (pure none) init forNew) (g.atomLevel (pure none) init forNew) (ExpressionFits t) := by
  simpa only [Grammar.atomLevel, liftM_pure, pure_bind] using hg.coreAtom

end Grammar.Paired
end ScriptSyntax
