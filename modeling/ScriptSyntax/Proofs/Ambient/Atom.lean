import ScriptSyntax.Parser.Atom
import ScriptSyntax.Proofs.Ambient.Class

/-!
Operands by themselves.  What stands in parentheses is read before it is clear whether it is the head of
an arrow function; `super` stands where the scopes allow it.
-/

namespace ScriptSyntax.Ambient

open Node ParseM Grammar

variable {s : Setting} {p : Parser} {ns : List Part}

namespace Quiet

@[grind ←] theorem asyncParameterFollows : Quiet s asyncParameterFollows := sees fun _ => by grind

@[grind ←] theorem metaWord {start : NodeStart} {expected : String} {wrong escaped : Fault} :
    Quiet s (metaWord start expected wrong escaped) := by grind [Grammar.metaWord]

@[grind ←] theorem importEnd : Quiet s importEnd := by grind [Grammar.importEnd]

@[grind ←] theorem rereadSlash : Quiet s rereadSlash :=
  bind (of_looks .isKind) fun _ => bind (of_looks .isKind) fun _ =>
    ite (.ofLexer (.get (fun _ _ _ => rfl) fun _ => by grind)) pure

end Quiet

theorem edition_of_asyncParameterFollows {q : Parser} {b : Bool} (run : Runs s asyncParameterFollows p b q)
    (follows : b = true) : 8 ≤ s.edition := by
  simp [asyncParameterFollows] at run
  grind

theorem newTarget_leads {start : NodeStart} : Leads s (Since p ns) (newTarget start) (Operand p) :=
  .look .finishSpan fun _ => .quiet .metaWord fun _ => .look .scopes fun _ => .unless (.of_fails .failRecoverable) <|
    .look .finishSpan fun _ => .operand rfl (.nodeOf rfl (by simp [parts, children, Expression.children]))

theorem importMeta_leads {start : NodeStart} : Leads s (Since p ns) (importMeta start) (Operand p) :=
  .look .finishSpan fun _ => .quiet .metaWord fun _ => .look .options fun _ => .unless (.of_fails .failRecoverable) <|
    .look .finishSpan fun _ => .operand rfl (.nodeOf rfl (by simp [parts, children, Expression.children]))

theorem keywordLiteral_leads {start : NodeStart} {value : LiteralValue} :
    Leads s (Since p ns) (keywordLiteral start value) (Operand p) :=
  .look .kind fun _ => .quiet .next fun _ => .look .finishSpan fun _ => .operand rfl (.leaf rfl rfl)

/-- `super` is legal by the scopes, and so is what follows it. -/
theorem super_leads {start : NodeStart} : Leads s (Since p []) (super start) (Linked p) := by
  refine .each fun p' first => .lookFor .scopes (V := (· = p'.scopes)) (by simp +contextual) ?_
  rintro _ rfl
  refine .ite (fun legal => ?_) fun _ => .failing .fail
  refine .strengthen (P := Since p []) (.quiet .next fun _ => .each fun q before => ?_) fun _ at_q => at_q ▸ first
  have allowed : p.around.super = true ∨ p.around.superAnywhere = true := by
    rw [← first.kept.around]
    exact Bool.or_eq_true_iff.mp legal
  refine .lookFor .isKind (V := (· = (q.lexer.kind == .parenL))) (by simp +contextual) ?_
  rintro _ rfl
  refine .lookFor .scopes (V := (· = q.scopes)) (by simp +contextual) ?_
  rintro _ rfl
  refine .ite (fun _ => .failing .fail) fun construct => ?_
  refine .lookFor .isKind (V := (· = (q.lexer.kind == .dot))) (by simp +contextual) ?_
  rintro _ rfl
  refine .lookFor .isKind (V := (· = (q.lexer.kind == .bracketL))) (by simp +contextual) ?_
  rintro _ rfl
  refine .lookFor .isKind (V := (· = (q.lexer.kind == .parenL))) (by simp +contextual) ?_
  rintro _ rfl
  refine .ite (fun goes => .look .finishSpan fun _ => .pure fun q' at_q => ?_) fun _ => .failing .unexpected
  subst at_q
  have calls : q'.lexer.kind = .parenL → p.around.construct = true := by
    rw [← before.kept.around]
    simpa [Parser.around, ScopeStack.surroundings] using construct
  have next : q'.lexer.kind = .dot ∨ q'.lexer.kind = .bracketL ∨ q'.lexer.kind = .parenL := by
    simpa [or_assoc] using goes
  have fits (span : Span) : (Node.expression (.super span)).Fits p.around :=
    ⟨(absurd · Bool.false_ne_true), (absurd · Bool.false_ne_true), fun _ => allowed, (absurd · Bool.false_ne_true)⟩
  refine ⟨before.node (fits _) (absurd · Bool.false_ne_true)
    (by simp [parts, children, Expression.children]), fun _ => ?_⟩
  exact next.imp_right (Or.imp_right fun paren => ⟨paren, calls paren⟩)

/-- The parts of what stands in parentheses. -/
def parenParts (c : ParenContents) : List Part :=
  c.items.map (none, .expression ·) ++ c.rest.toList.map (none, .pattern ·.1)

namespace Settled

variable {g : Grammar} (hg : Settled s g)
include hg

/-! ### Names -/

theorem arrowOfName {start : NodeStart} {id : Identifier} {isAsync : Bool} {init : InitMode}
    (edition : isAsync = true → 8 ≤ s.edition) :
    Leads s (Since p []) (g.arrowOfName start id isAsync init) (Operand p) := by
  refine hg.arrow (fun e mem => ?_) (by simp) (by simp) edition
  obtain rfl : e = .identifier id := by simpa using mem
  exact .of_parts rfl (by simp [parts, children, Expression.children])

theorem nameAtom {start : NodeStart} {canBeArrow : Bool} {init : InitMode} :
    Leads s (Since p []) (g.nameAtom start canBeArrow init) (Operand p) := by
  refine .look .containsEscape fun _ => .quiet .identifier fun id => .look .canOmitSemicolon fun _ =>
    .look .since fun _ => .quiet (by grind) fun _ => .ite (fun _ => ?_) fun _ =>
      .ite (fun _ => .operand rfl (.leaf rfl rfl)) fun _ => ?_
  · refine .quiet (.modify fun _ => .still ⟨rfl, .refl _, rfl, rfl, rfl⟩ fun noted => noted) fun _ => ?_
    exact .adds hg.function fun _ => .operand rfl (.node rfl fun _ mem => mem)
  · refine .quiet .eat fun _ => .ite (fun _ => hg.arrowOfName nofun) fun _ => ?_
    refine .bind (.having (.ofQuiet .asyncParameterFollows) fun _ _ _ => edition_of_asyncParameterFollows) fun _ =>
      .known fun edition => .ite (fun follows => ?_) fun _ => .operand rfl (.leaf rfl rfl)
    exact .quiet .identifier fun _ => .look .canOmitSemicolon fun _ => .quiet (by grind) fun _ =>
      .when (.of_fails .unexpected) <|
      hg.arrowOfName fun _ => edition (Bool.and_eq_true_iff.mp follows).2

/-! ### Parentheses -/

/-- No item in the parentheses is `super`. -/
def Items (p : Parser) (c : ParenContents) (q : Parser) : Prop :=
  (∀ e ∈ c.items, e.isSuper = false) ∧ Since p (parenParts c) q

theorem parenPass {trailing : Bool} {contents : ParenContents} :
    Leads s (Items p contents) (g.parenPass trailing contents) (Leads.Ends (Items p) (Items p)) := by
  refine .known fun plain => ?_
  refine .look .isKind fun _ => .ite (fun _ => .pure fun _ before => ⟨plain, before⟩) fun _ => .unless .expect ?_
  refine .look .isKind fun _ => .ite (fun _ => .pure fun _ before => ⟨plain, before⟩) fun _ => .look .isKind fun _ =>
    .ite (fun _ => ?_) fun _ => ?_
  · refine .look .tokenStart fun _ => .adds hg.restBinding fun _ => .quiet .checkNoComma fun _ =>
      .pure fun _ before => ?_
    exact ⟨plain, before.weaken fun _ mem => .of_mem (by simp_all [parenParts]; grind)⟩
  · refine .each fun q before => (hg.assigns .plain q).deferring.bind fun (item, deferred) => .pure fun r after => ?_
    refine ⟨List.forall_mem_cons.mpr ⟨after.notSuper, plain⟩, (before.trans after.since).weaken fun _ mem => .of_mem ?_⟩
    simp_all [parenParts]
    grind

/-- What suspends in parentheses is forgotten if they are the head of an arrow function, where nothing may
suspend, and noted with what was before them otherwise. -/
theorem paren {canBeArrow : Bool} {init : InitMode} :
    Leads s (Since p []) (g.paren canBeArrow init) (Operand p) := by
  refine .look .startNode fun _ => .look .edition fun _ => .ite (fun _ => hg.parenthesizes) fun _ => ?_
  refine .quiet .next fun _ => .look .startNode fun _ => .each fun q first => .seesAt <| .change ?_
  refine .strengthen (P := Items q.silenced {}) (.look .since fun _ => .bind (.repeatPast (I := Items q.silenced)
    (Q := Items q.silenced) fun _ => hg.parenPass) fun contents => .known fun plain => ?_) ?_
  · refine .look .lexer fun _ => .quiet .expect fun _ => .look .canOmitSemicolon fun _ => .quiet (by grind) fun _ =>
      .ite (fun _ => ?_) fun _ => .ite (fun _ => .fails (.after fun _ => .bind .unexpectedAt)) fun _ => ?_
    · refine .quiet .check fun _ => .checkParameterAwait fun calm => .each fun r after => .change ?_
      refine .strengthen (P := Since q (parenParts contents))
        (.before first (hg.arrow (fun e mem => ?_) (fun a mem => ?_) calm nofun)) ?_
      · exact .of_mem (by simp_all [parenParts])
      · exact .of_mem (by simp_all [parenParts])
      · rintro _ rfl
        have kept := after.kept
        exact after.aside calm rfl ⟨kept.strict, kept.scopes, kept.labels, kept.classes, kept.nesting⟩ id
    · cases rest : contents.rest with
      | some x => exact .fails (by grind)
      | none =>
        refine .quiet .check fun _ => .each fun r after => .change ?_
        refine .strengthen (P := Since q (parenParts contents)) (.before first ?_) ?_
        · split
          · next e single =>
            have mem : e ∈ contents.items := List.mem_reverse.mp (by simp [single])
            exact .operand (plain e mem) fun _ here => .of_mem (by simp_all [parenParts])
          · exact .look .spanOf fun _ => .operand rfl
              (.node rfl (by simp [parts, children, Expression.children, parenParts, Function.comp_def]))
        · rintro _ rfl
          have kept := after.kept
          exact after.shift rfl ⟨kept.strict, kept.scopes, kept.labels, kept.classes, kept.nesting⟩
            (by simp [Parser.noted, Option.isSome_or]; tauto) (by simp [Parser.noted, Option.isSome_or]; tauto)
  · rintro _ rfl
    exact ⟨by simp, .refl _⟩

theorem parenAtom {canBeArrow : Bool} {init : InitMode} :
    CoverLeads s (Since p []) (g.parenAtom canBeArrow init) (Operand p) :=
  .look .tokenStart fun _ => .bind (.lift hg.paren) fun _ => .ofOperand fun plain => .coverQuiet (by grind) fun _ =>
    .operand plain fun _ mem => .of_mem mem

/-! ### `new` and `import` -/

theorem new : Leads s (Since p []) g.new (Operand p) := by
  refine .look .startNode fun start => .quiet .next fun _ => .look .since fun _ => .look .isKind fun _ =>
    .ite (fun _ => newTarget_leads) fun _ => .look .startNode fun _ => .each fun q first => .before first ?_
  refine (hg.begins .plain true q).alone.bind fun atom => hg.subscripts.bind fun callee => ?_
  refine .strengthen (P := Since q [(none, .expression callee)]) ?_ fun _ => And.left
  refine .quiet .eat fun _ => .ite (fun _ => ?_) fun _ => .given ?_
  · refine .look .since fun _ => .adds hg.expressionList.alone fun arguments => .look .finishSpan fun _ =>
      .operand rfl (.node rfl fun n mem => ?_)
    simpa [parts, children, Expression.children] using mem
  · exact .look .finishSpan fun _ => .operand rfl (.node rfl (by simp [parts, children, Expression.children]))

theorem importOptions : Adds s g.importOptions fun e => e.toList.map (none, .expression ·) := by
  refine .of fun _ => .quiet .eat fun _ => .ite (fun _ => .done (by simp)) fun _ =>
    .quiet .expect fun _ => .quiet .eat fun _ => .ite (fun _ => .done (by simp)) fun _ =>
      .adds hg.plainAssignment fun _ => .quiet .eat fun _ => .ite (fun _ => ?_) fun _ => ?_
  · exact .done fun _ mem => .of_mem (by simpa using mem)
  · exact .quiet .expect fun _ => .quiet .expect fun _ => .done fun _ mem => .of_mem (by simpa using mem)

theorem dynamicImport {start : NodeStart} : Leads s (Since p []) (g.dynamicImport start) (Operand p) := by
  refine .quiet .next fun _ => .adds hg.plainAssignment fun specifier => .look .since fun _ =>
    .ite (fun _ => .adds hg.importOptions fun options => .look .finishSpan fun _ =>
      .operand rfl (.node rfl ?_)) fun _ =>
      .quiet .importEnd fun _ => .given (.look .finishSpan fun _ => .operand rfl (.node rfl ?_))
  all_goals simp [parts, children, Expression.children, Function.comp_def]

theorem importAtom {forNew : Bool} : Leads s (Since p []) (g.importAtom forNew) (Operand p) :=
  .look .startNode fun _ => .quiet .next fun _ => .look .isKind fun _ => .ite (fun _ => hg.dynamicImport) fun _ =>
    .look .isKind fun _ => .ite (fun _ => importMeta_leads) fun _ => .fails .unexpected

/-! ### Atoms -/

theorem array {start : NodeStart} : CoverLeads s (Since p []) (g.array start) (Operand p) := by
  refine .quiet .next fun _ => .adds hg.expressionList fun _ => .look .finishSpan fun _ =>
    .operand rfl (.node rfl fun n mem => ?_)
  simpa [parts, children, Expression.children] using mem

theorem coreAtom {init : InitMode} {forNew : Bool} :
    CoverLeads s (Since p []) (g.coreAtom init forNew) (Linked p) := by
  refine .quiet .rereadSlash fun _ => .sees fun q => .look .tokenStart fun _ => .look .startNode fun _ =>
    .look .kind fun kind => ?_
  have linked {m : CoverM Expression} {ns : List Part} (h : CoverLeads s (Since p ns) m (Operand p)) :
      CoverLeads s (Since p ns) m (Linked p) := h.weaken fun _ _ => Operand.linked
  have lifted {m : ParseM Expression} (h : Leads s (Since p []) m (Operand p)) :
      CoverLeads s (Since p []) (liftM m) (Linked p) := linked (.lift h)
  split
  · exact .lift super_leads
  · exact .quiet .next fun _ => .look .finishSpan fun _ => linked (.operand rfl (.leaf rfl rfl))
  · exact lifted hg.nameAtom
  iterate 3 exact .quiet .literal fun _ => linked (.operand rfl (.leaf rfl rfl))
  iterate 3 exact lifted keywordLiteral_leads
  · exact linked hg.parenAtom
  · exact linked hg.array
  · refine .coverQuiet (.lift (.modify fun _ => .still ⟨rfl, .refl _, rfl, rfl, rfl⟩ id)) fun _ =>
      linked (.afresh fun _ => hg.object)
  · exact .quiet .next fun _ => .liftAdds hg.function fun _ => linked (.operand rfl (.node rfl fun _ mem => mem))
  · exact .liftAdds hg.classDefinition fun _ => linked (.operand rfl (.node rfl fun _ mem => mem))
  · exact lifted hg.new
  · exact .liftAdds hg.template fun _ => linked (.operand rfl fun _ mem => .of_mem mem)
  · exact .look .since fun _ => .ite (fun _ => lifted hg.importAtom) fun _ => .fails .unexpected
  · exact .fails .unexpected

theorem atomLevel {init : InitMode} {forNew : Bool} {p : Parser} :
    CoverLeads s (· = p) (g.atomLevel (pure none) init forNew) (Linked p) := by
  simpa only [Grammar.atomLevel, liftM_pure, pure_bind] using hg.coreAtom.start

end Settled
end ScriptSyntax.Ambient
