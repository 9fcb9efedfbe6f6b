import ScriptSyntax.Proofs.Parser.Binding
import ScriptSyntax.Proofs.Review.Around
import ScriptSyntax.Parser.Lookahead
import ScriptSyntax.Parser.Operator

/-!
Words, literals and targets do the same in the strict and in the lenient reading.  A private name is where they part:
outside all class bodies the strict one fails.  What both grammars read of lists and of patterns of names follows.
-/

namespace ScriptSyntax

open Node ParseM

variable {s : Setting} {α : Type} {p : Parser}

namespace Quiet

/-- A change that concerns neither tokens nor labels nor private names. -/
theorem modify {f : Parser → Parser} (same : ∀ q, (f q).bare = f q.bare)
    (labels : ∀ q, (f q).labels = q.labels) (names : ∀ q, (f q).privateNames = q.privateNames)
    (still : ∀ q, Reads s none q.lexer (f q).lexer false []) : Quiet s (modify f) :=
  changes fun q => ⟨_, f q, rfl, congrArg (EStateM.Result.ok PUnit.unit) (same q).symm, labels q, names q,
    fun ready => (still q ready.plain ready.ordered).onward⟩

/-- A look at the whole state that does not depend on private names. -/
theorem sees {f : Parser → ParseM α} (same : ∀ q, f q.bare = f q) (next : ∀ q, Quiet s (f q)) :
    Quiet s (get >>= f) :=
  .of fun p => .sees fun q => by
    have after : Tracks s (Since s p false []) (f q) (f q) fun _ => Since s p false [] := (next q).since
    rw [same]
    exact after.strengthen fun _ _ before => before.2

/-! ### Words and literals -/

@[grind ←] theorem keywordAsName {kind : TokenKind} : Quiet s (keywordAsName kind) := by
  refine changes fun p => ?_
  obtain ⟨q, run⟩ : ∃ q, Runs s (ParseM.keywordAsName kind) p ⟨⟩ q := ⟨_, rfl⟩
  have read := (Reads.keywordAsName run).1
  have still := fun ready : Steady s p => read ready.plain ready.ordered
  cases run
  exact ⟨_, _, rfl, rfl, rfl, rfl, fun ready => (still ready).onward⟩

@[grind ←] theorem wordText : Quiet s wordText := by grind [ParseM.wordText]

@[grind ←] theorem anyWord : Quiet s anyWord := by grind [ParseM.anyWord]

@[grind ←] theorem checkName {id : Identifier} : Quiet s (checkName id) := by grind [ParseM.checkName]

@[grind ←] theorem noteAwaitName {name : String} {pos : Nat} : Quiet s (noteAwaitName name pos) :=
  ite (modify (fun _ => rfl) (fun _ => rfl) (fun _ => rfl) fun _ => .refl) pure

@[grind ←] theorem identifier : Quiet s identifier := by grind [ParseM.identifier]

@[grind ←] theorem propertyWord : Quiet s propertyWord := by grind [ParseM.propertyWord]

@[grind ←] theorem literal : Quiet s literal :=
  bind (of_looks .startNode) fun _ => bind (of_looks .lexer) fun _ => bind (of_looks .source) fun _ => by
    split <;> grind

@[grind ←] theorem stringLiteral : Quiet s stringLiteral := by grind [ParseM.stringLiteral]

/-! ### Targets -/

@[grind ←] theorem declare {name : String} {binding : Binding} {pos : Nat} : Quiet s (declare name binding pos) := by
  refine bind (of_looks .scopes) fun scopes => ?_
  exact bind (modify (fun _ => rfl) (fun _ => rfl) (fun _ => rfl) fun _ => .refl) fun _ => by grind

@[grind ←] theorem checkTargetName {binding : Binding} {clashes : Bool} {id : Identifier} :
    Quiet s (checkTargetName binding clashes id) := by grind [ParseM.checkTargetName]

@[grind ←] theorem checkTargets {binding : Binding} {distinct : Bool} {targets : List Target} :
    ∀ {seen : List String}, Quiet s (checkTargets binding distinct seen targets) := by
  induction targets with
  | nil => exact pure
  | cons target rest ih => cases target <;> grind [ParseM.checkTargets]

@[grind ←] theorem checkPattern {binding : Binding} {a : Pattern} : Quiet s (checkPattern binding a) :=
  checkTargets

@[grind ←] theorem checkBinding {binding : Binding} {id : Identifier} : Quiet s (checkBinding binding id) :=
  checkTargetName

@[grind ←] theorem checkParams {params : List Pattern} {distinct : Bool} : Quiet s (checkParams params distinct) :=
  checkTargets

end Quiet

/-! ### Private names -/

namespace PrivateNames

variable {names : PrivateNames} {name : String} {pos : Nat}

theorem use_eq_note (names : PrivateNames) (name : String) (pos : Nat) (enclosed : 0 < names.classes.length) :
    names.use name pos = (true, names.note [(name, pos)]) := by
  obtain ⟨classes⟩ := names
  cases classes with
  | nil => simp at enclosed
  | cons => rfl

@[simp] theorem length_note (uses : List (String × Nat)) :
    (names.note uses).classes.length = names.classes.length := by
  obtain ⟨classes⟩ := names
  cases classes <;> rfl

theorem dropLast_note (inner : 1 < names.classes.length) (uses : List (String × Nat)) :
    (names.note uses).classes.dropLast = (note uses ⟨names.classes.dropLast⟩).classes := by
  obtain ⟨classes⟩ := names
  match classes with
  | [] | [_] => simp at inner
  | _ :: _ :: _ => rfl

end PrivateNames

/-- What is read of a private name, of which a use is noted. -/
theorem Past.use {q : Parser} {id : PrivateIdentifier} (past : Past s p q {})
    (here : id.span.start = p.lexer.token.start) (kind : p.lexer.kind = .privateId) (name : id.name = p.lexer.text)
    (check : s.options.checkPrivateFields = true) :
    Since s p true [.expression (.privateIdentifier id)]
      { q with privateNames := q.privateNames.note [(id.name, id.span.start)] }
      { uses := [(id.name, id.span.start)] } where
  left := past.since.1
  right :=
    { past.since.2 with
      ready := { past.since.2.ready with enclosed := by simpa [Parser.depth] using past.since.2.ready.enclosed }
      names := by simp [past.since.2.names]
      placed := ⟨by simpa [here] using past.forward, by simp, List.pairwise_singleton _ _⟩
      unchecked := by simp [check]
      read := List.forall_mem_singleton.mpr ⟨_, past.left, kind, name.symm, here.symm⟩
      jumped := nofun
      marks := by
        rw [List.forall_mem_singleton]
        intro k has
        cases has with
        | use => exact ⟨⟨Nat.le_of_eq here.symm, here ▸ past.forward⟩, fun _ => .head _⟩
        | inside child => cases child }

theorem Past.unchecked {q : Parser} {id : PrivateIdentifier} (past : Past s p q {})
    (here : id.span.start = p.lexer.token.start) (unchecked : ¬ s.options.checkPrivateFields = true) :
    Since s p true [.expression (.privateIdentifier id)] q {} where
  left := past.since.1
  right :=
    { past.since.2 with
      marks := by
        rw [List.forall_mem_singleton]
        intro k has
        cases has with
        | use => exact ⟨⟨Nat.le_of_eq here.symm, here ▸ past.forward⟩, fun check => absurd check unchecked⟩
        | inside child => cases child }

/-- The use of a private name is noted.  Outside all class bodies the strict reading stops at it. -/
theorem Tracks.useName (id : PrivateIdentifier) (here : id.span.start = p.lexer.token.start)
    (kind : p.lexer.kind = .privateId) (name : id.name = p.lexer.text) (check : s.options.checkPrivateFields = true) :
    let step : ParseM PrivateIdentifier := do
      let (known, privateNames) := (← get).privateNames.use id.name id.span.start
      modify fun p => { p with privateNames }
      unless known do fail id.span.start (.privateUndeclared id.name)
      return id
    Tracks s (Past s p) step step fun id => Since s p true [.expression (.privateIdentifier id)] := by
  intro step q log past
  obtain rfl := past.empty
  have enclosed := past.since.2.ready.enclosed
  have known := PrivateNames.use_eq_note _ id.name id.span.start enclosed
  have run : step s q = .ok id { q with privateNames := q.privateNames.note [(id.name, id.span.start)] } := by
    change Runs s step q id _
    simp [step, known]
  rw [run]
  refine ⟨{ uses := [(id.name, id.span.start)] }, by simp [Parser.depth], past.use here kind name check, ?_⟩
  by_cases outside : q.depth = 1
  · have empty : q.privateNames.classes.dropLast = [] := by
      rw [← List.length_eq_zero_iff, List.length_dropLast]
      exact Nat.sub_eq_zero_of_le (Nat.le_of_eq outside)
    have stopped : ∃ r, step s q.bare = .error (s.fatal id.span.start (.privateUndeclared id.name)) r := by
      simp only [step, Parser.bare, empty]
      exact ⟨_, rfl⟩
    obtain ⟨r, stopped⟩ := stopped
    rw [stopped]
    exact .stops (.use outside id.name (.inl rfl) rfl)
  · have inner : 1 < q.privateNames.classes.length := Nat.lt_of_le_of_ne enclosed (Ne.symm outside)
    have known := PrivateNames.use_eq_note ⟨q.privateNames.classes.dropLast⟩ id.name id.span.start
      (by simpa using Nat.sub_pos_of_lt inner)
    have same := congrArg PrivateNames.mk (PrivateNames.dropLast_note inner [(id.name, id.span.start)])
    have run : step s q.bare = .ok id
        (Parser.bare { q with privateNames := q.privateNames.note [(id.name, id.span.start)] }) := by
      change Runs s step _ id _
      simp [step, Parser.bare, known, same]
    rw [run]
    exact .passes ⟨rfl, fun depth => absurd depth outside⟩

theorem Adds.privateIdentifier : Adds s true privateIdentifier privateIdentifier
    fun id => [.expression (.privateIdentifier id)] := fun p ready => by
  refine .lookAt .startNode fun start here => ?_
  refine .lookAt .isKind fun isPrivate kind => ?_
  refine .ite (fun yes => ?_) fun _ => .fails (by grind) (by grind)
  have kind : p.lexer.kind = .privateId := by simpa [yes] using kind
  refine .lookAt .lexer fun l same => (Tracks.nextAt ready (by rw [kind]; rfl)).bind fun _ => ?_
  obtain rfl : l = p.lexer := by simp_all
  refine .lookFor .finishSpan (V := fun span => span.start = p.lexer.token.start) ?_ fun span here => ?_
  · simp_all
  refine .lookFor .options (V := (· = s.options)) (by simp) ?_
  rintro _ rfl
  refine .ite (fun check => ?_) fun unchecked => ?_
  · exact Tracks.useName ⟨span, p.lexer.text⟩ here kind rfl check
  · refine .pure fun q log past => ?_
    obtain rfl := past.empty
    exact past.unchecked here unchecked

/-! ### The two grammars -/

/-- The labels directly in front of the current token tell what the statement there is. -/
def Parser.Front (p : Parser) : Prop :=
  ∀ l ∈ p.labels, l.statementStart = some p.lexer.token.start → l.kind = LabelKind.ofToken? p.lexer.kind

/-- What reading the statement `a` from `p` on leaves behind: labels in front of it know what it is. -/
structure Labeled (s : Setting) (p : Parser) (a : Statement) (q : Parser) (log : Log) : Prop where
  labels : ∃ inner, q.labels = relabel p.lexer.token.start inner a.labelKind? p.labels
  trace : Trace s p q false [.statement a] log

/-- The productions of the strict grammar do what those of the lenient one do, as far as the log lets
them. -/
structure Grammar.Reviewed (s : Setting) (strict lenient : Grammar) : Prop where
  statement : ∀ context topLevel p, Steady s p → p.Front →
    Tracks s (At p) (strict.statement context topLevel) (lenient.statement context topLevel) (Labeled s p)
  assignment : ∀ init, CoverAdds s false (strict.assignment init) (lenient.assignment init)
    fun e => [.expression e]
  unary : ∀ afterUnary inUpdate init,
    CoverAdds s false (strict.unary afterUnary inUpdate init) (lenient.unary afterUnary inUpdate init)
      fun e => [.expression e]
  atom : ∀ init forNew, CoverAdds s false (strict.atom init forNew) (lenient.atom init forNew)
    fun e => [.expression e]
  bindingAtom : Adds s false strict.bindingAtom lenient.bindingAtom fun a => [.pattern a]

/-! ### Lists -/

section Lists

variable {N : α → List Node} {b moved : Bool} {ns : List Node}

theorem Since.cons {q : Parser} {log : Log} {found : List α} {a : α}
    (h : Since s p moved (found.flatMap N ++ N a) q log) (past : b = true → moved = true) :
    Since s p b ((a :: found).flatMap N) q log :=
  h.weaken past fun n mem => .of_mem (by simpa [or_comm] using mem)

theorem Since.reverse {q : Parser} {log : Log} {found : List α} (h : Since s p b (found.flatMap N) q log) :
    Since s p b (found.reverse.flatMap N) q log :=
  h.weaken id fun n mem => .of_mem (by simpa using mem)

theorem Adds.commaSeparated {item₀ item₁ : ParseM α} {close : TokenKind} {trailing : Bool}
    (h : Adds s moved item₀ item₁ N) :
    Adds s false (commaSeparated close trailing item₀) (commaSeparated close trailing item₁)
      fun as => as.flatMap N := by
  refine .of fun p => .repeatPast (a := []) (I := fun (found : List α) => Since s p false (found.flatMap N))
    fun found => ?_
  refine .quiet (by grind) fun closes => .ite (fun _ => .pure fun _ _ => .reverse) fun _ =>
    .ite (fun empty => ?_) fun _ => ?_
  · exact .adds h fun a => .pure fun _ _ before => by
      simpa [List.isEmpty_iff.mp empty] using before.cons (b := false) (by simp)
  · refine .quiet (by grind) fun _ => .quiet (by grind) fun closes => ?_
    exact .ite (fun _ => .pure fun _ _ => .reverse) fun _ => .adds h fun a => .pure fun _ _ before =>
      before.cons (by simp)

theorem CoverAdds.commaSeparated {item₀ item₁ : CoverM α} {close : TokenKind} {trailing : Bool}
    (h : CoverAdds s moved item₀ item₁ N) :
    CoverAdds s false (commaSeparated close trailing item₀) (commaSeparated close trailing item₁)
      fun as => as.flatMap N := by
  refine .of fun p => .repeatPast (a := []) (I := fun (found : List α) => Since s p false (found.flatMap N))
    fun found => ?_
  refine .quiet .eat fun closes => .ite (fun _ => .pure fun _ _ => .reverse) fun _ =>
    .ite (fun empty => ?_) fun _ => ?_
  · exact .adds h fun a => .pure fun _ _ before => by
      simpa [List.isEmpty_iff.mp empty] using before.cons (b := false) (by simp)
  · refine .quiet .expect fun _ => .coverQuiet (by grind) fun closes => ?_
    exact .ite (fun _ => .pure fun _ _ => .reverse) fun _ => .adds h fun a => .pure fun _ _ before =>
      before.cons (by simp)

/-- A list of items after a token. -/
theorem AddsBehind.collectUntil {item₀ item₁ : ParseM α} {close : TokenKind}
    (h : AddsBehind s moved item₀ item₁ N) :
    AddsBehind s true (collectUntil close item₀) (collectUntil close item₁) fun as => as.flatMap N := by
  intro p ready behind
  have start : ∀ q log, At p q log → Since s p true [] q log := by
    rintro _ _ ⟨rfl, rfl⟩
    exact ⟨rfl, { (Since.refl ready).2 with behind := fun _ => behind }⟩
  refine .strengthen (.repeatPast (a := []) (I := fun (found : List α) => Since s p true (found.flatMap N))
    fun found => ?_) start
  exact .quiet (by grind) fun closes => .ite (fun _ => .pure fun _ _ => .reverse) fun _ =>
    .behind h fun a => .pure fun _ _ before => before.cons id

end Lists

theorem Grammar.shorthandTarget_adds {start : NodeStart} {id : Identifier} :
    Adds s false (shorthandTarget start id) (shorthandTarget start id) fun a => [.pattern a] :=
  .of fun _ => .quiet .checkName fun _ => .quiet .noteAwaitName fun _ => .done (fun h => h) (.leaf rfl rfl)

namespace Grammar.Reviewed

variable {g₀ g₁ : Grammar} (hg : g₀.Reviewed s g₁)
include hg

theorem plainAssignment {init : InitMode} :
    Adds s false (g₀.plainAssignment init) (g₁.plainAssignment init) fun e => [.expression e] :=
  (hg.assignment init).alone

theorem expression {init : InitMode} :
    CoverAdds s false (g₀.expression init) (g₁.expression init) fun e => [.expression e] := by
  refine .of fun p => .look .startNode fun start => .adds (hg.assignment init) fun first => .look .isKind fun _ =>
    .ite (fun _ => ?_) fun _ => .done id fun _ mem => .of_mem mem
  refine .bind (.repeatPast (a := [first])
    (I := fun (found : List Expression) => Since s p false (found.flatMap fun e => [Node.expression e]))
    (Q := fun items => Since s p false (items.flatMap fun e => [Node.expression e])) fun found => ?_) fun items => ?_
  · exact .quiet .eat fun _ => .ite (fun _ => .adds (hg.assignment init) fun e => .pure fun _ _ before =>
      before.cons (by simp))
      fun _ => .pure fun _ _ => .reverse
  · exact .look .finishSpan fun span =>
      .done id (.node rfl (by simp [children, Expression.children, List.map_eq_flatMap]))

theorem plainExpression {init : InitMode} :
    Adds s false (g₀.plainExpression init) (g₁.plainExpression init) fun e => [.expression e] :=
  hg.expression.alone

theorem parenthesized : Adds s true g₀.parenthesized g₁.parenthesized fun e => [.expression e] :=
  .of fun _ => .adds (.expect (by rfl)) fun _ => .adds hg.plainExpression fun _ => .quiet .expect fun _ =>
    .done (by simp) fun _ mem => .of_mem mem

theorem propertyName : Adds s false g₀.propertyName g₁.propertyName fun x => [.expression x.1] := by
  refine .of fun _ => .quiet (.andM (.of_looks .since) .eat) fun _ => .ite (fun _ => ?_) fun _ =>
    .quiet (.of_looks .kind) fun _ => ?_
  · exact .adds hg.plainAssignment fun _ => .quiet .expect fun _ => .done id fun _ mem => .of_mem mem
  · split <;> exact .quiet (by grind) fun _ => .done id (.leaf rfl rfl)

theorem withDefault {start : NodeStart} {target : Pattern} {b : Bool} {ns : List Node}
    (covered : (Node.pattern target).Covered ns) :
    Tracks s (Since s p b ns) (g₀.withDefault start target) (g₁.withDefault start target)
      fun a => Since s p b [.pattern a] := by
  refine .quiet (.andM (.of_looks .since) .eat) fun _ => .ite (fun _ => ?_) fun _ => .done id (by simpa using covered)
  refine .adds hg.plainAssignment fun value => .look .finishSpan fun _ => .done (by simp +contextual) ?_
  exact .nodeOf rfl (by simpa [children, Pattern.children] using covered.mono (by simp))

theorem bindingElement : Adds s false g₀.bindingElement g₁.bindingElement fun a => [.pattern a] :=
  .of fun _ => .look .startNode fun _ => .adds hg.bindingAtom fun _ => hg.withDefault (.of_mem (by simp))

theorem restBinding : Adds s false g₀.restBinding g₁.restBinding fun a => [.pattern a] :=
  .of fun _ => .look .startNode fun _ => .quiet .next fun _ => .look .edition fun _ => .look .kind fun _ =>
    .when (.of_fails .unexpected) <| .adds hg.bindingAtom fun _ => .look .finishSpan fun _ =>
      .done id (.node rfl (by simp [children, Pattern.children]))

theorem bindingList {close : TokenKind} {holes trailing : Bool} :
    Adds s false (g₀.bindingList close holes trailing) (g₁.bindingList close holes trailing)
      fun as => as.flatMap fun a => a.toList.map .pattern := by
  refine .of fun p => .repeatPast (a := []) (I := fun (found : List (Option Pattern)) =>
    Since s p false (found.flatMap fun a => a.toList.map .pattern)) fun found => ?_
  refine .quiet .eat fun _ => .ite (fun _ => .pure fun _ _ => .reverse) fun _ => .unless .expect ?_
  refine .quiet (by grind) fun _ => .ite (fun _ => ?_) fun _ => .quiet (by grind) fun _ =>
    .ite (fun _ => .pure fun _ _ => .reverse) fun _ => .look .isKind fun _ => .ite (fun _ => ?_) fun _ => ?_
  · exact .pure fun _ _ before => by simpa using before
  · refine .adds hg.restBinding fun rest => .quiet (by grind [Grammar.checkNoComma]) fun _ => .quiet .expect fun _ => ?_
    exact .pure fun _ _ before => .reverse (.cons before (by simp))
  · exact .adds hg.bindingElement fun a => .pure fun _ _ before => .cons before (by simp)

theorem parameters : Adds s false g₀.parameters g₁.parameters fun params => params.map .pattern :=
  .of fun _ => .look .since fun _ => .adds hg.bindingList fun _ => .done id fun n mem => .of_mem <| by
    simpa using mem

theorem patternMember : Adds s false g₀.patternMember g₁.patternMember fun m => [.patternMember m] := by
  refine .of fun _ => .look .startNode fun _ => .quiet (.andM (.of_looks .since) .eat) fun _ =>
    .ite (fun _ => ?_) fun _ => ?_
  · refine .quiet .identifier fun _ => .quiet (by grind [Grammar.checkNoComma]) fun _ => .look .finishSpan fun _ => ?_
    exact .done id (.nodeOf rfl (by simp [children, PatternMember.children]))
  · refine .adds hg.propertyName fun x => ?_
    obtain ⟨key, computed⟩ := x
    refine .quiet .eat fun _ => .ite (fun _ => ?_) fun _ => ?_
    · refine .adds hg.bindingElement fun value => .look .finishSpan fun _ => .done id (.node rfl ?_)
      simp [children, PatternMember.children]
    · split
      · refine .adds shorthandTarget_adds fun _ => (hg.withDefault (.of_mem (by simp))).bind fun value => ?_
        exact .look .finishSpan fun _ => .done id (.nodeOf rfl (by simp [children, PatternMember.children]))
      · exact .fails .unexpected .unexpected

theorem objectPattern : Adds s false g₀.objectPattern g₁.objectPattern fun a => [.pattern a] :=
  .of fun _ => .look .startNode fun _ => .quiet .next fun _ => .adds (.commaSeparated hg.patternMember) fun _ =>
    .look .finishSpan fun _ => .done id (.node rfl (by simp [children, Pattern.children, List.map_eq_flatMap]))

theorem arrayPattern : Adds s false g₀.arrayPattern g₁.arrayPattern fun a => [.pattern a] :=
  .of fun _ => .look .startNode fun _ => .quiet .next fun _ => .adds hg.bindingList fun _ =>
    .look .finishSpan fun _ => .done id (.node rfl fun n mem => by simpa [children, Pattern.children] using mem)

theorem bindingLevel : Adds s false g₀.bindingLevel g₁.bindingLevel fun a => [.pattern a] := by
  refine .of fun _ => .look .since fun _ => .quiet (.of_looks .isKind) fun _ =>
    .ite (fun _ => hg.arrayPattern.since) fun _ => ?_
  refine .look .since fun _ => .quiet (.of_looks .isKind) fun _ => .ite (fun _ => hg.objectPattern.since) fun _ => ?_
  exact .quiet .identifier fun _ => .done id (.leaf rfl rfl)

end Grammar.Reviewed
end ScriptSyntax
