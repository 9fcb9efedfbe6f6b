import ScriptSyntax.Proofs.Ambient.Subscript
import ScriptSyntax.Proofs.Parser.Object

/-!
Object literals and classes.  The function of a method in an object literal has members of `super`.  All of a class is
strict, and its initializers and static blocks have scopes of their own.
-/

namespace ScriptSyntax.Ambient

open Node ParseM Grammar

variable {s : Setting} {p : Parser} {ns : List Part}

namespace Quiet

/-! ### Object literals -/

@[grind ←] theorem checkAccessor {isGetter : Bool} {f : Callable} : Quiet s (checkAccessor isGetter f) := by
  unfold ParseM.checkAccessor
  split <;> grind

@[grind ←] theorem checkNames {names : PropertyNames} {form : PropertyForm} {key : Expression} :
    Quiet s (checkNames names form key) := by grind [Grammar.checkNames]

end Quiet

namespace CoverQuiet

@[grind ←] theorem checkProto {names : PropertyNames} {form : PropertyForm} {computed : Bool} {key : Expression} :
    CoverQuiet s (checkProto names form computed key) := by
  unfold Grammar.checkProto
  split <;> grind

@[grind ←] theorem checkMember {names : PropertyNames} {m : ObjectMember} : CoverQuiet s (checkMember names m) := by
  cases m <;> grind [Grammar.checkMember]

end CoverQuiet

namespace Settled

variable {g : Grammar} (hg : Settled s g)
include hg

/-- A method that is no constructor. -/
theorem plainMethod {isGenerator isAsync : Bool} :
    Adds s (g.method isGenerator isAsync false) fun f => f.parts .method := hg.method

theorem shorthandValue {start : NodeStart} {id : Identifier} :
    CoverAdds s (g.shorthandValue start id) fun e => [(none, .expression e)] := by
  refine .of fun _ => .liftAdds shorthandTarget_adds fun _ => .coverQuiet (by grind) fun _ => .look .isKind fun _ =>
    .ite (fun _ => ?_) fun _ => .done (.leaf rfl rfl)
  refine .look .tokenStart fun _ => .coverQuiet (by grind) fun _ => .quiet .next fun _ => ?_
  refine .liftAdds hg.plainAssignment fun _ => .look .finishSpan fun _ => .done (.nodeOf rfl fun x part => ?_)
  simp only [parts, children, Expression.children, List.map_cons, List.map_nil, List.mem_cons,
    List.not_mem_nil, or_false] at part
  rcases part with rfl | rfl
  · exact .of_parts rfl (by simp [parts, children, Pattern.children])
  · exact .of_mem (by simp)

/-- The key of a property was read before. -/
theorem propertyValue {start : NodeStart} {key : Expression} {computed escaped isGenerator isAsync : Bool} :
    CoverLeads s (Since p [(none, .expression key)]) (g.propertyValue start key computed escaped isGenerator isAsync)
      fun m => Since p [(none, .objectMember m)] := by
  refine .look .isKind fun _ => .ite (fun _ => .failing .unexpected) fun _ => .quiet .eat fun _ =>
    .ite (fun _ => ?_) fun _ => .look .since fun _ => .look .isKind fun _ => .ite (fun _ => ?_) fun _ =>
      .lookFor .accessorForm? (V := fun form => ∀ f ∈ form, f = .getter ∨ f = .setter)
        (fun _ form _ run f same => ((accessorForm_spec run).2 f same).1) fun form accessor => ?_
  · refine .adds (hg.assignment .plain) fun value => .look .finishSpan fun _ => .done (.node rfl ?_)
    simp [parts]
  · refine .liftAdds hg.plainMethod fun _ => .look .finishSpan fun _ => .done (.node rfl ?_)
    simp [parts, ObjectMember.parts]
  · cases form with
    | some form =>
      refine .ite (fun _ => .failing .unexpected) fun _ => .liftAdds hg.propertyName fun x => ?_
      obtain ⟨key, computed⟩ := x
      refine .liftAdds hg.plainMethod fun _ => .quiet .checkAccessor fun _ => .look .finishSpan fun _ =>
        .done (.node rfl ?_)
      simp [parts, ObjectMember.parts_accessor (accessor form rfl)]
    | none =>
      refine .look .since fun _ => ?_
      split
      · refine .ite (fun _ => .failing .unexpected) fun _ => .adds hg.shorthandValue fun _ =>
          .look .finishSpan fun _ => .done (.node rfl ?_)
        simp [parts]
      · exact .fails .unexpected

theorem objectMember : CoverAdds s g.objectMember fun m => [(none, .objectMember m)] := by
  refine .of fun _ => .look .startNode fun _ => .quiet (.andM (.of_looks .since) .eat) fun _ =>
    .ite (fun _ => ?_) fun _ => ?_
  · refine .adds (hg.assignment .plain) fun _ => .coverQuiet .noteCommaAfterSpread fun _ =>
      .look .finishSpan fun _ => ?_
    exact .done (.node rfl (by simp [parts, ObjectMember.parts]))
  · refine .quiet (.andM (.of_looks .since) .eat) fun _ => .look .containsEscape fun _ =>
      .liftAdds hg.propertyName fun x => ?_
    obtain ⟨key, computed⟩ := x
    refine .look .since fun _ => .look .isAsyncMethod fun _ => .ite (fun _ => ?_) fun _ => hg.propertyValue
    refine .quiet (.andM (.of_looks .since) .eat) fun _ => .liftAdds hg.propertyName fun x => ?_
    obtain ⟨key, computed⟩ := x
    refine .strengthen hg.propertyValue ?_
    exact fun _ before => before.weaken fun _ mem => .of_mem (by simp_all)

theorem object {p : Parser} : CoverLeads s (· = p) g.object (Operand p) := by
  refine .start <| .look .startNode fun _ => .quiet .next fun _ => .look .since fun _ => ?_
  refine .bind (.repeatPast (a := ([], {}))
    (I := fun (x : List ObjectMember × PropertyNames) => Since p (x.1.flatMap fun m => [(none, Node.objectMember m)]))
    (Q := fun members => Since p (members.flatMap fun m => [(none, Node.objectMember m)])) fun (members, names) => ?_)
    fun members => .look .finishSpan fun _ => .operand rfl (.node rfl ?_)
  · refine .quiet .eat fun _ => .ite (fun _ => .pure fun _ => Since.reverse) fun _ => .unless (by grind) ?_
    refine .quiet (by grind) fun _ => .ite (fun _ => .pure fun _ => Since.reverse) fun _ => ?_
    exact .adds hg.objectMember fun m => .coverQuiet .checkMember fun _ => .pure fun _ => Since.cons
  · simp [parts, children, Expression.children, ← List.map_eq_flatMap, Function.comp_def]

end Settled

/-! ### Classes -/

variable {q : Parser}

namespace Quiet

@[grind ←] theorem asyncModifier {m : Modifiers} : Quiet s (asyncModifier m) :=
  bind (andM (by grind) .eatContextual) fun _ => by grind

@[grind ←] theorem generatorModifier {m : Modifiers} : Quiet s (generatorModifier m) :=
  bind (.of_looks .since) fun _ => bind (by grind) fun _ => by grind

@[grind ←] theorem accessorModifier {m : Modifiers} : Quiet s (accessorModifier m) := by
  grind [ParseM.accessorModifier]

@[grind ←] theorem modifiersAfter {m : Modifiers} : Quiet s (modifiersAfter m) := by grind [ParseM.modifiersAfter]

@[grind ←] theorem modifierName {word : String} : Quiet s (modifierName word) := by grind [ParseM.modifierName]

@[grind ←] theorem className {place : ClassPlace} : Quiet s (className place) := by grind [Grammar.className]

@[grind ←] theorem declarePrivate {e : ClassElement} : Quiet s (declarePrivate e) := by
  unfold ParseM.declarePrivate
  split
  · refine fun p => .seesAt (.change (.strengthen (P := Since p []) (.ofQuiet (by grind)) ?_))
    rintro _ rfl
    exact .still ⟨rfl, .refl _, rfl, length_declare .., rfl⟩ id
  · exact pure

end Quiet

/-- No modifier makes an element a constructor. -/
theorem modifiersAfter_kind {m m' : Modifiers} (run : Runs s (modifiersAfter m) p m' q) (method : m.kind = .method) :
    m'.kind ≠ .constructor := by
  have same {m m' : Modifiers} {p q : Parser} (run : Runs s (asyncModifier m) p m' q) : m'.kind = m.kind := by
    simp [asyncModifier] at run
    grind
  have same' {m m' : Modifiers} {p q : Parser} (run : Runs s (generatorModifier m) p m' q) : m'.kind = m.kind := by
    simp [generatorModifier] at run
    grind
  simp [modifiersAfter] at run
  obtain ⟨m₁, _, first, m₂, _, second, last⟩ := run
  have kind : m₂.kind = .method := (same' second).trans ((same first).trans method)
  simp [accessorModifier] at last
  grind

/-- A class body is left, and the private names that it leaves open move out of it. -/
theorem Since.classBody {r t : Parser} {ms : List Part} (before : Since (p.withStrict true) ns q)
    (inner : Since { q with privateNames := q.privateNames.enter } ms r)
    (after : Since (r.withStrict p.lexer.strict) [] t) :
    Since p (ns ++ ms) { t with privateNames := t.privateNames.exit.2 } := by
  have elements : Since q ms { r with privateNames := q.privateNames } :=
    inner.shift rfl ⟨inner.kept.strict, inner.kept.scopes, inner.kept.labels, rfl, inner.kept.nesting⟩ inner.noted id
  refine (before.trans elements).shift rfl ⟨after.kept.strict, ?_, ?_, ?_, ?_⟩ ?_ after.noted
  · exact before.kept.scopes.trans (inner.kept.scopes.trans after.kept.scopes)
  · exact after.kept.labels.trans (inner.kept.labels.trans before.kept.labels)
  · have inside : t.privateNames.classes.length = q.privateNames.classes.length + 1 :=
      after.kept.classes.trans inner.kept.classes
    rw [PrivateNames.length_exit, inside]
    exact before.kept.classes
  · exact after.kept.nesting.trans (inner.kept.nesting.trans before.kept.nesting)
  · exact after.noted ∘ inner.noted ∘ before.noted

theorem Leads.exitClassBody {α : Type} {f : PUnit → ParseM α} {Q : α → Parser → Prop}
    (next : Leads s (Since { p with privateNames := p.privateNames.exit.2 } []) (f ⟨⟩) Q) :
    Leads s (· = p) (ParseM.exitClassBody >>= f) Q := by
  refine .bind (R := fun _ => Since { p with privateNames := p.privateNames.exit.2 } []) (.seesAt ?_) fun _ => next
  generalize p.privateNames.exit = left
  obtain ⟨_ | ⟨name, pos⟩, names⟩ := left
  · exact .change (.start (.pure fun _ after => after))
  · exact .change (.start (.look .options fun _ => .ofQuiet (by split <;> grind)))

namespace Settled

variable {g : Grammar} (hg : Settled s g)
include hg

theorem elementName : Adds s g.elementName fun x => [(none, .expression x.1)] := by
  refine .of fun _ => .look .isKind fun _ => .ite (fun _ => ?_) fun _ => hg.propertyName.since
  refine .look .lexer fun _ => .ite (fun _ => .fails (.after fun _ => .bind .fail)) fun _ => ?_
  exact .quiet .privateIdentifier fun _ => .done (.leaf rfl rfl)

theorem classMethod {head : ElementHead} {m : Modifiers} {derived : Bool} (kind : m.kind ≠ .constructor) :
    Leads s (Since p [(none, .expression head.key)]) (g.classMethod head m derived) fun e =>
      Since p (e.parts derived) := by
  have rest {kind : MethodKind} (same : kind = .constructor ↔ head.isConstructor = true) :
      Leads s (Since p [(none, .expression head.key)])
        (do
          let value ← g.method m.isGenerator m.isAsync (head.isConstructor && derived)
          if kind = .getter ∨ kind = .setter then checkAccessor (kind == .getter) value
          return ClassElement.method (← finishSpan head.start) head.isStatic head.computed head.key kind value)
        fun e => Since p (e.parts derived) :=
    .adds hg.method fun _ => .when .checkAccessor <| .look .finishSpan fun _ => .done fun x mem => .of_mem (by
      simpa [ClassElement.parts, MethodKind.functionKind, same] using mem)
  refine .ite (fun isConstructor => .when (.of_fails .fail) <| .when (.of_fails .fail) <|
    .when (.of_fails .fail) (rest ?_)) fun isMethod =>
    .when (.of_fails .fail) (rest ?_)
  · simp [isConstructor]
  · simp [isMethod, kind]

theorem classField {head : ElementHead} {derived : Bool} :
    Leads s (Since p [(none, .expression head.key)]) (g.classField head) fun e => Since p (e.parts derived) := by
  have rest (value : Option Expression) :
      Leads s (Since p ((none, .expression head.key) :: value.toList.map fun e => (some .initializer, .expression e)))
        (do
          semicolon
          return ClassElement.field (← finishSpan head.start) head.isStatic head.computed head.key value)
        fun e => Since p (e.parts derived) :=
    .quiet .semicolon fun _ => .look .finishSpan fun _ => .done fun _ mem => .of_mem mem
  unfold Grammar.classField
  refine .when (.of_fails .fail) <| .when (.of_fails .fail) <| .quiet .eat fun _ => .ite (fun _ => ?_) fun _ => ?_
  · refine .enterScope fun q before => .adds hg.plainAssignment fun value => ?_
    refine .bind (R := fun _ => Since p ([(none, .expression head.key)] ++ [(some .initializer, .expression value)]))
      (.changes fun r after => before.trans (Since.leftFrame [.expression value] after .initializer rfl)) fun _ => ?_
    exact .given (rest (some value))
  · exact .given (rest none)

theorem staticBlock {start : NodeStart} {derived : Bool} :
    Adds s (g.staticBlock start) fun e => e.parts derived := by
  refine .of fun p => .quiet .next fun _ => .each fun q before => ?_
  refine (Leads.withoutLabels (R := fun body r => Since { q with labels := [] }
    ((body.map Node.statement).map (some .staticBlock, ·)) r) ?_).bind fun body => .look .finishSpan fun _ => .pure ?_
  · refine .start (.enterScope fun q' before => .adds (.collectUntil (hg.statement none false)) fun body =>
      .quiet .next fun _ => ?_)
    refine .bind (R := fun _ => Since { q with labels := [] } ((body.map Node.statement).map (some .staticBlock, ·)))
      (.changes fun r after => ?_) fun _ => .pure fun _ after => after
    refine before.trans (Since.leftFrame _ ?_ .staticBlock rfl)
    simpa [← List.map_eq_flatMap, Function.comp_def] using after
  · rintro _ ⟨r, after, rfl⟩
    refine (before.trans (after.shift (q := { r with labels := q.labels }) rfl
      ⟨after.kept.strict, after.kept.scopes, rfl, after.kept.classes, after.kept.nesting⟩ after.noted id)).weaken
        fun x mem => .of_mem ?_
    simpa [ClassElement.parts] using mem

theorem elementAfter {start : NodeStart} {derived : Bool} {m : Modifiers} (method : m.kind = .method) :
    Adds s (g.elementAfter start derived m) fun e => e.parts derived := by
  refine .of fun p => .bind (.having (.ofQuiet .modifiersAfter) fun _ _ _ run =>
    modifiersAfter_kind run method) fun m =>
    .known fun kind => ?_
  have rest (head : ElementHead) : Leads s (Since p [(none, .expression head.key)])
      (do
        if (← edition) < 13 || (← isKind .parenL) || m.kind != .method || m.isGenerator || m.isAsync then
          g.classMethod head m derived
        else g.classField head)
      fun e => Since p (e.parts derived) :=
    .look .edition fun _ => .look .isKind fun _ => .ite (fun _ => hg.classMethod kind) fun _ => hg.classField
  cases m.word with
  | some word =>
    refine .quiet .modifierName fun id => ?_
    exact (rest ⟨start, m.isStatic, .identifier id, false⟩).strengthen fun _ before => before.weaken (.leaf rfl rfl)
  | none => exact .adds hg.elementName fun (key, computed) => rest ⟨start, m.isStatic, key, computed⟩

theorem classElement {derived : Bool} : Adds s (g.classElement derived) fun e => e.parts derived := by
  refine .of fun _ => .look .startNode fun _ => .quiet .eatContextual fun _ => .ite (fun _ => ?_) fun _ =>
    (hg.elementAfter rfl).since
  refine .look .since fun _ => .look .isKind fun _ => .ite (fun _ => hg.staticBlock.since) fun _ => ?_
  exact .look .atElementName fun _ => .look .isKind fun _ => .ite (fun _ => (hg.elementAfter rfl).since) fun _ =>
    (hg.elementAfter rfl).since

omit hg in
theorem addElement {progress : ClassProgress} {e : ClassElement} {derived : Bool} :
    Leads s (Since p (progress.elements.flatMap (·.parts derived) ++ e.parts derived)) (addElement progress e)
      fun next => Since p (next.elements.flatMap (·.parts derived)) := by
  unfold Grammar.addElement
  split
  · exact .when (.of_fails .failRecoverable) <| .pure fun _ before => before.cons
  · exact .quiet .declarePrivate fun _ => .pure fun _ before => before.cons

theorem classElements {derived : Bool} : Adds s (g.classElements derived) fun es => es.flatMap (·.parts derived) := by
  refine .of fun p => .repeatPast (a := {}) (I := fun progress : ClassProgress =>
    Since p (progress.elements.flatMap (·.parts derived))) fun progress => ?_
  refine .look .isKind fun _ => .ite (fun _ => .pure fun _ => Since.reverse) fun _ => .quiet .eat fun _ =>
    .ite (fun _ => .pure fun _ before => before) fun _ => .adds hg.classElement fun e => addElement.bind fun _ =>
      .pure fun _ after => after

/-- The elements in braces, with strictness as it is outside after them. -/
theorem bracedElements (ns : List Part) (derived : Bool) :
    Leads s (Since (p.withStrict true) ns)
      (do
        enterClassBody
        let bodyStart ← startNode
        expect .braceL
        let elements ← g.classElements derived
        setStrict p.lexer.strict
        next
        let bodySpan ← finishSpan bodyStart
        exitClassBody
        return (elements, bodySpan))
      fun x => Since p (ns ++ x.1.flatMap (·.parts derived)) := by
  refine .each fun q before => .change (.start <| .look .startNode fun _ => .quiet .expect fun _ =>
    .adds hg.classElements fun elements => .each fun r inner => .change <| .start <| .quiet .next fun _ =>
      .look .finishSpan fun _ => .each fun t after => .exitClassBody (.pure fun u last => ?_))
  exact ((before.classBody inner after).trans last).weaken fun x mem => .of_mem (by simpa using mem)

theorem classDefinition {place : ClassPlace} : Adds s (g.classDefinition place) fun c => c.parts := by
  refine .of fun p => .look .startNode fun start => .quiet .next fun _ => .each fun q before => ?_
  refine .lookFor .strict (V := (· = q.lexer.strict)) (by simp +contextual) ?_
  rintro _ rfl
  refine .change (.start (p := q.withStrict true) (.quiet .className fun id => .quiet .eat fun _ => ?_))
  have rest (heritage : Option Expression) :
      Leads s (Since (q.withStrict true) (heritage.toList.map fun e => (none, .expression e)))
        (do
          enterClassBody
          let bodyStart ← startNode
          expect .braceL
          let elements ← g.classElements heritage.isSome
          setStrict q.lexer.strict
          next
          let bodySpan ← finishSpan bodyStart
          exitClassBody
          return (⟨← finishSpan start, id, heritage, bodySpan, elements⟩ : Class))
        fun c => Since p c.parts := by
    have whole := (hg.bracedElements (p := q) (heritage.toList.map fun e => (none, .expression e)) heritage.isSome).bind
      (Q := fun c : Class => Since p c.parts) fun x => .look (m := finishSpan start) .finishSpan fun span =>
        .pure (a := ⟨span, id, heritage, x.2, x.1⟩) fun r after => (before.trans after).weaken fun y mem => ?_
    · simpa only [bind_assoc, pure_bind] using whole
    · rcases List.mem_append.mp mem with mem | mem
      · obtain ⟨n, head, rfl⟩ := List.mem_map.mp mem
        rcases List.mem_append.mp head with name | mem
        · obtain ⟨id, -, rfl⟩ := List.mem_map.mp name
          exact .of_parts rfl (by simp [parts, children])
        · exact .of_mem (by simp_all)
      · exact .of_mem (by simp [mem])
  refine .ite (fun _ => ?_) fun _ => .given (rest none)
  exact .bind (.map (R := fun heritage => Since (q.withStrict true)
    (heritage.toList.map fun e => (none, .expression e)))
    hg.leftHandSide.alone.since) rest

end Settled
end ScriptSyntax.Ambient
