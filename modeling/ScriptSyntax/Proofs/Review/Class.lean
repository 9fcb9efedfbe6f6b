import ScriptSyntax.Parser.Class
import ScriptSyntax.Proofs.Review.Object

/-!
Classes in the strict and in the lenient reading.  A class body takes the uses of the names that it
declares out of the log.
-/

namespace ScriptSyntax

open Node ParseM Grammar

variable {s : Setting} {p : Parser} {b : Bool} {ns : List Node}

namespace Quiet

@[grind ←] theorem asyncModifier {m : Modifiers} : Quiet s (asyncModifier m) :=
  bind (andM (by grind) .eatContextual) fun _ => by grind

@[grind ←] theorem generatorModifier {m : Modifiers} : Quiet s (generatorModifier m) :=
  bind (.of_looks .since) fun _ => bind (by grind) fun _ => by grind

@[grind ←] theorem accessorModifier {m : Modifiers} : Quiet s (accessorModifier m) := by
  grind [ParseM.accessorModifier]

@[grind ←] theorem modifiersAfter {m : Modifiers} : Quiet s (modifiersAfter m) := by grind [ParseM.modifiersAfter]

@[grind ←] theorem modifierName {word : String} : Quiet s (modifierName word) := by grind [ParseM.modifierName]

@[grind ←] theorem className {place : ClassPlace} : Quiet s (className place) := by grind [Grammar.className]

end Quiet

theorem Since.of_unlabeled {q : Parser} {log : Log} (h : Since s p false ns q log) (empty : p.labels = []) :
    Since s p true ns q log :=
  ⟨h.1, { h.2 with behind := fun _ l mem => by simp [h.1, empty] at mem }⟩

namespace Grammar.Reviewed

variable {g₀ g₁ : Grammar} (hg : g₀.Reviewed s g₁)
include hg

theorem elementName : Adds s false g₀.elementName g₁.elementName fun x => [.expression x.1] := by
  refine .of fun _ => .look .isKind fun _ => .ite (fun _ => ?_) fun _ => hg.propertyName.since
  refine .look .lexer fun _ => .ite (fun _ => .fails (.after fun _ => .bind .fail)
    (.after fun _ => .bind .fail)) fun _ => ?_
  exact .adds .privateIdentifier fun _ => .done (by simp) fun _ mem => .of_mem mem

theorem classMethod {head : ElementHead} {m : Modifiers} {derived : Bool} :
    Tracks s (Since s p b [.expression head.key]) (g₀.classMethod head m derived) (g₁.classMethod head m derived)
      fun e => Since s p b [.classElement e] := by
  have rest {kind : MethodKind} : Tracks s (Since s p b [.expression head.key])
      (do
        let value ← g₀.method m.isGenerator m.isAsync (head.isConstructor && derived)
        if kind = .getter ∨ kind = .setter then checkAccessor (kind == .getter) value
        return .method (← finishSpan head.start) head.isStatic head.computed head.key kind value)
      (do
        let value ← g₁.method m.isGenerator m.isAsync (head.isConstructor && derived)
        if kind = .getter ∨ kind = .setter then checkAccessor (kind == .getter) value
        return .method (← finishSpan head.start) head.isStatic head.computed head.key kind value)
      fun e => Since s p b [.classElement e] :=
    .adds hg.method fun _ => .when .checkAccessor <| .look .finishSpan fun _ =>
      .done (by simp) (.node rfl (by simp [children, ClassElement.children]))
  refine .ite (fun _ => .when (.of_fails .fail) <| .when (.of_fails .fail) <| .when (.of_fails .fail) rest) fun _ =>
    .when (.of_fails .fail) rest

theorem classField {head : ElementHead} :
    Tracks s (Since s p b [.expression head.key]) (g₀.classField head) (g₁.classField head)
      fun e => Since s p b [.classElement e] := by
  have rest (value : Option Expression) :
      Tracks s (Since s p b (.expression head.key :: value.toList.map .expression))
        (do
          semicolon
          return .field (← finishSpan head.start) head.isStatic head.computed head.key value)
        (do
          semicolon
          return .field (← finishSpan head.start) head.isStatic head.computed head.key value)
        fun e => Since s p b [.classElement e] :=
    .quiet .semicolon fun _ => .look .finishSpan fun _ =>
      .done (fun h => h) (.node rfl (by simp [children, ClassElement.children]))
  unfold Grammar.classField
  refine .when (.of_fails .fail) <| .when (.of_fails .fail) <| .quiet .eat fun _ => .ite (fun _ => ?_) fun _ =>
    .given (rest none)
  refine .quiet .enterScope fun _ => .adds hg.plainAssignment fun value => .quiet .exitScope fun _ => .given ?_
  exact (rest (some value)).strengthen fun _ _ before => before.weaken (by simp) fun _ mem =>
    .of_mem (by simpa using mem)

theorem staticBlock {start : NodeStart} :
    Adds s false (g₀.staticBlock start) (g₁.staticBlock start) fun e => [.classElement e] := by
  refine .of fun _ => .quiet .next fun _ => .adds (.withoutLabels (b := true)
    (N := fun body => [.classElement (.staticBlock default body)]) (fun p ready empty => ?_) fun body => ?_) fun body =>
      .look .finishSpan fun _ => .done id ?_
  · refine .start ready (.quiet .enterScope fun _ => ?_)
    refine .strengthen (P := Since s p true []) ?_ fun _ _ before => before.of_unlabeled empty
    refine .behind (.collectUntil hg.statement_behind) fun body => .quiet .next fun _ => .quiet .exitScope fun _ => ?_
    refine .pure fun q log after =>
      ⟨after.1, after.2.around rfl (fun c child => .of_mem ?_) (fun _ => after.1.trans empty) nofun⟩
    simpa [children, ClassElement.children, eq_comm] using child
  · rw [List.forall_mem_singleton]
    exact fun k has => has.isCalm rfl
  · rw [List.forall_mem_singleton]
    exact .of_boundary (.head _) rfl rfl fun _ => .inl

theorem elementAfter {start : NodeStart} {derived : Bool} {m : Modifiers} :
    Adds s false (g₀.elementAfter start derived m) (g₁.elementAfter start derived m) fun e => [.classElement e] := by
  refine .of fun p => .quiet .modifiersAfter fun m => ?_
  have rest (head : ElementHead) : Tracks s (Since s p false [.expression head.key])
      (do
        if (← edition) < 13 || (← isKind .parenL) || m.kind != .method || m.isGenerator || m.isAsync then
          g₀.classMethod head m derived
        else g₀.classField head)
      (do
        if (← edition) < 13 || (← isKind .parenL) || m.kind != .method || m.isGenerator || m.isAsync then
          g₁.classMethod head m derived
        else g₁.classField head)
      fun e => Since s p false [.classElement e] :=
    .look .edition fun _ => .look .isKind fun _ => .ite (fun _ => hg.classMethod) fun _ => hg.classField
  cases m.word with
  | some word =>
    refine .quiet .modifierName fun id => ?_
    exact (rest ⟨start, m.isStatic, .identifier id, false⟩).strengthen fun _ _ before =>
      before.weaken (fun h => h) (by simp)
  | none => exact .adds hg.elementName fun (key, computed) => rest ⟨start, m.isStatic, key, computed⟩

theorem classElement {derived : Bool} :
    Adds s false (g₀.classElement derived) (g₁.classElement derived) fun e => [.classElement e] := by
  refine .of fun _ => .look .startNode fun _ => .quiet .eatContextual fun _ => .ite (fun _ => ?_) fun _ =>
    hg.elementAfter.since
  refine .look .since fun _ => .look .isKind fun _ => .ite (fun _ => hg.staticBlock.since) fun _ => ?_
  exact .look .atElementName fun _ => .look .isKind fun _ => .ite (fun _ => hg.elementAfter.since) fun _ =>
    hg.elementAfter.since

end Grammar.Reviewed

/-! ### Declarations of private names -/

/-- What a class body knows of a name that was declared in it in these ways. -/
inductive Declared : List PrivateKind → Option PrivateKind → Prop
  | none : Declared [] none
  | once (kind : PrivateKind) : Declared [kind] (some kind)
  | pair {first second : PrivateKind} (pair : first.pair? second = some .plain) :
    Declared [first, second] (some .plain)

theorem Declared.declaredOnce {kinds : List PrivateKind} {known : Option PrivateKind} (h : Declared kinds known) :
    DeclaredOnce kinds := by
  cases h with
  | none => exact .inl (Nat.zero_le _)
  | once => exact .inl (Nat.le_refl _)
  | @pair first second pair =>
    refine .inr ?_
    cases first <;> cases second <;> simp_all [PrivateKind.pair?]

theorem Declared.isSome_iff {kinds : List PrivateKind} {known : Option PrivateKind} (h : Declared kinds known) :
    known.isSome = !kinds.isEmpty := by cases h <;> rfl

/-- A declaration that does not conflict with those before it. -/
theorem Declared.snoc {kinds : List PrivateKind} {known kind both : PrivateKind}
    (h : Declared kinds (some known)) (pair : known.pair? kind = some both) :
    Declared (kinds ++ [kind]) (some both) := by
  have plain : both = .plain := by cases known <;> cases kind <;> simp_all [PrivateKind.pair?]
  subst plain
  cases h with
  | once => exact .pair pair
  | pair => simp [PrivateKind.pair?] at pair

theorem privateKinds_append {name : String} {elements : List ClassElement} {e : ClassElement} :
    privateKinds name (elements ++ [e]) = privateKinds name elements ++
      (e.privateName?.toList.filter (·.1.name = name)).map (·.2) := by
  cases h : e.privateName? with
  | none => simp [privateKinds, List.filterMap_append, h]
  | some x =>
    by_cases same : x.1.name = name <;> simp [privateKinds, List.filterMap_append, h, same]

/-- The names declared in a class body are those of the elements. -/
def ClassNames.Declares (names : ClassNames) (elements : List ClassElement) : Prop :=
  ∀ name, Declared (privateKinds name elements) (names.declared.lookup name)

theorem lookup_filter_ne {β : Type} {name other : String} (ne : other ≠ name) (l : List (String × β)) :
    (l.filter (·.1 != name)).lookup other = l.lookup other := by
  induction l with
  | nil => rfl
  | cons x rest ih =>
    obtain ⟨key, value⟩ := x
    by_cases same : key = name
    · subst same
      have different : (other == key) = false := by simpa using ne
      simp [List.lookup_cons, ih, different]
    · simp [List.lookup_cons, ih, same]

theorem any_fst_eq {β : Type} (name : String) (l : List (String × β)) :
    l.any (·.1 == name) = (l.lookup name).isSome := by
  rw [Bool.eq_iff_iff, List.lookup_isSome_iff, List.any_eq_true]
  exact exists_congr fun x => and_congr_right fun _ => by rw [beq_iff_eq, beq_iff_eq, eq_comm]

/-- A name declared without a conflict. -/
theorem ClassNames.Declares.snoc {names : ClassNames} {elements : List ClassElement} {e : ClassElement}
    {id : PrivateIdentifier} {kind : PrivateKind} (h : names.Declares elements)
    (declares : e.privateName? = some (id, kind)) {declared : List (String × PrivateKind)} (known : PrivateKind)
    (here : declared.lookup id.name = some known)
    (other : ∀ name, name ≠ id.name → declared.lookup name = names.declared.lookup name)
    (grows : Declared (privateKinds id.name elements ++ [kind]) (some known)) :
    ClassNames.Declares { names with declared } (elements ++ [e]) := fun name => by
  rw [privateKinds_append, declares]
  by_cases same : id.name = name
  · subst same
    simpa [here] using grows
  · simpa [same, other name (Ne.symm same)] using h name

namespace PrivateNames

/-- The private names without those declared in the innermost class body. -/
def undeclared (names : PrivateNames) : PrivateNames :=
  match names.classes with
  | [] => names
  | body :: outer => ⟨{ body with declared := [] } :: outer⟩

theorem undeclared_note (names : PrivateNames) (uses : List (String × Nat)) :
    (names.note uses).undeclared = names.undeclared.note uses := by
  obtain ⟨classes⟩ := names
  cases classes <;> rfl

@[simp] theorem length_undeclared (names : PrivateNames) :
    names.undeclared.classes.length = names.classes.length := by
  obtain ⟨classes⟩ := names
  cases classes <;> rfl

/-- The names declared in the innermost class body are those of the elements. -/
def Declares (names : PrivateNames) (elements : List ClassElement) : Prop :=
  ∃ body outer, names.classes = body :: outer ∧ outer ≠ [] ∧ body.Declares elements

theorem Declares.note {names : PrivateNames} {elements : List ClassElement} (h : names.Declares elements)
    (uses : List (String × Nat)) : (names.note uses).Declares elements := by
  obtain ⟨body, outer, same, ne, declares⟩ := h
  obtain ⟨classes⟩ := names
  subst same
  exact ⟨_, outer, rfl, ne, declares⟩

/-- A declaration that does not conflict with those before it makes the name known. -/
theorem Declares.declare {names : PrivateNames} {elements : List ClassElement} {e : ClassElement}
    {id : PrivateIdentifier} {kind : PrivateKind} (h : names.Declares elements)
    (declares : e.privateName? = some (id, kind)) (fits : (names.declare id.name kind).1 = false) :
    (names.declare id.name kind).2.Declares (elements ++ [e]) ∧
      (names.declare id.name kind).2.undeclared = names.undeclared := by
  obtain ⟨body, outer, same, ne, known⟩ := h
  obtain ⟨classes⟩ := names
  subst same
  simp only [PrivateNames.declare] at fits ⊢
  have grows := known id.name
  split at fits
  · next new =>
    simp only [new] at grows ⊢
    refine ⟨⟨_, outer, rfl, ne, known.snoc declares kind (by simp) (fun name other => ?_) ?_⟩, rfl⟩
    · have different : (name == id.name) = false := by simpa using other
      simp [List.lookup_cons, different]
    · cases h : privateKinds id.name elements with
      | nil => exact .once kind
      | cons => simp [h] at grows; cases grows
  · next old before =>
    simp only [before] at grows ⊢
    split at fits
    · next both pair =>
      refine ⟨⟨_, outer, rfl, ne, known.snoc declares both (by simp) (fun name other => ?_) ?_⟩, rfl⟩
      · have different : (name == id.name) = false := by simpa using other
        simp [List.lookup_cons, different, lookup_filter_ne other]
      · exact grows.snoc pair
    · cases fits

/-- The class body outside all others makes no difference to a declaration. -/
theorem declare_dropLast {names : PrivateNames} (name : String) (kind : PrivateKind)
    (inner : 1 < names.classes.length) :
    declare name kind ⟨names.classes.dropLast⟩ =
      ((names.declare name kind).1, ⟨(names.declare name kind).2.classes.dropLast⟩) := by
  obtain ⟨classes⟩ := names
  match classes with
  | [] | [_] => simp at inner
  | body :: parent :: outer =>
    simp only [declare, List.dropLast_cons_cons]
    split
    · rfl
    · split <;> rfl

end PrivateNames

def Parser.undeclared (p : Parser) : Parser := { p with privateNames := p.privateNames.undeclared }

theorem Since.undeclared {q : Parser} {log : Log} (h : Since s p b ns q log) :
    Since s p.undeclared b ns q.undeclared log where
  left := h.1
  right :=
    { h.2 with
      ready := { h.2.ready with enclosed := by simpa [Parser.depth, Parser.undeclared] using h.2.ready.enclosed }
      names := by simp [Parser.undeclared, h.2.names, PrivateNames.undeclared_note] }

/-- The nodes `ns` were read in a class body since `p`, and the elements declare their names there. -/
structure InClass (s : Setting) (p : Parser) (elements : List ClassElement) (ns : List Node) (q : Parser)
    (log : Log) : Prop where
  since : Since s p true ns q.undeclared log
  declares : q.privateNames.Declares elements

namespace InClass

variable {α β : Type} {N : α → List Node} {m : ParseM α} {m₀ m₁ : ParseM α} {moved : Bool} {es : List ClassElement}
  {f₀ f₁ : α → ParseM β} {Q : β → Parser → Log → Prop}

theorem ready {q : Parser} {log : Log} (h : InClass s p es ns q log) : Steady s q where
  plain := h.since.2.ready.plain
  ordered := h.since.2.ready.ordered
  enclosed := by simpa [Parser.depth, Parser.undeclared] using h.since.2.ready.enclosed
  labels := h.since.2.ready.labels

theorem tracks (h : Adds s moved m₀ m₁ N) :
    Tracks s (InClass s p es ns) m₀ m₁ fun a => InClass s p es (ns ++ N a) := by
  intro q log before
  have h := h q before.ready q {} ⟨rfl, rfl⟩
  split
  · next failed => simpa only [failed] using h
  · next run =>
    simp only [run] at h
    obtain ⟨new, depth, after, outcome⟩ := h
    refine ⟨new, depth, ⟨?_, after.2.names ▸ before.declares.note _⟩, outcome⟩
    exact (before.since.trans after.undeclared).weaken (fun _ => rfl) fun _ mem => .of_mem mem

theorem quiet (h : Quiet s m) (next : ∀ a, Tracks s (InClass s p es ns) (f₀ a) (f₁ a) Q) :
    Tracks s (InClass s p es ns) (m >>= f₀) (m >>= f₁) Q :=
  (tracks h).bind fun a => by simpa using next a

end InClass

/-- The declaration of a private name in the innermost class body. -/
def ParseM.declareName (id : PrivateIdentifier) (kind : PrivateKind) : ParseM Unit := do
  let (conflict, privateNames) := (← get).privateNames.declare id.name kind
  modify fun p => { p with privateNames }
  if conflict then failRecoverable id.span.start (.privateRedeclared id.name)

theorem declareName_fails {id : PrivateIdentifier} {kind : PrivateKind} (r : Parser)
    (conflict : (r.privateNames.declare id.name kind).1 = true) :
    ∃ e r', declareName id kind s r = .error e r' := by
  cases run : declareName id kind s r with
  | error e r' => exact ⟨e, r', rfl⟩
  | ok u r' =>
    have run : Runs s (declareName id kind) r u r' := run
    simp [declareName, conflict] at run

theorem declareName_passes {id : PrivateIdentifier} {kind : PrivateKind} (r : Parser)
    (fits : (r.privateNames.declare id.name kind).1 = false) :
    declareName id kind s r = .ok ⟨⟩ { r with privateNames := (r.privateNames.declare id.name kind).2 } := by
  change Runs s (declareName id kind) r _ _
  simp [declareName, fits]

/-- The declaration of a private name conflicts with none before it, or both readings fail. -/
theorem Tracks.declarePrivate {es : List ClassElement} {e : ClassElement} :
    Tracks s (InClass s p es ns) (declarePrivate e) (declarePrivate e) fun _ => InClass s p (es ++ [e]) ns := by
  unfold ParseM.declarePrivate
  split
  · next id kind declares =>
    suffices h : Tracks s (InClass s p es ns) (declareName id kind) (declareName id kind)
      fun _ => InClass s p (es ++ [e]) ns from h
    rintro q log ⟨since, known⟩
    have inner : 1 < q.privateNames.classes.length := by
      obtain ⟨body, outer, same, ne, -⟩ := known
      simpa [same, List.length_pos_iff] using ne
    have bare := PrivateNames.declare_dropLast id.name kind inner
    cases fits : (q.privateNames.declare id.name kind).1 with
    | true =>
      obtain ⟨e, r, failed⟩ := declareName_fails (s := s) q fits
      simpa only [failed] using declareName_fails (s := s) q.bare (by simpa [Parser.bare, bare] using fits)
    | false =>
      obtain ⟨known', same⟩ := known.declare declares fits
      have depth : (q.privateNames.declare id.name kind).2.classes.length = q.privateNames.classes.length := by
        simpa using congrArg (·.classes.length) same
      have run : declareName id kind s q.bare = .ok ⟨⟩
          (Parser.bare { q with privateNames := (q.privateNames.declare id.name kind).2 }) := by
        rw [declareName_passes q.bare (by simpa [Parser.bare, bare] using fits)]
        simp only [Parser.bare, bare]
      simp only [declareName_passes q fits, run]
      refine ⟨{}, depth, ⟨?_, known'⟩, .passes Log.clean_empty⟩
      simpa [Parser.undeclared, same] using since
  · next none =>
    refine .pure ?_
    rintro q log ⟨since, body, outer, same, ne, known⟩
    refine ⟨since, body, outer, same, ne, fun name => ?_⟩
    have other : e.privateName? = Option.none := by
      cases h : e.privateName? with
      | none => rfl
      | some x => exact (none x.1 x.2 h).elim
    simpa [privateKinds_append, other] using known name

/-! ### Constructors -/

/-- Whenever the step succeeds, its value satisfies `V`. -/
def Returns {α : Type} (s : Setting) (m : ParseM α) (V : α → Prop) : Prop := ∀ p a q, Runs s m p a q → V a

namespace Returns

variable {α β : Type} {m n : ParseM α} {f : α → ParseM β} {U : α → Prop} {V : β → Prop}

theorem bind (first : Returns s m U) (next : ∀ a, U a → Returns s (f a) V) : Returns s (m >>= f) V :=
  fun _ _ _ run => by
  obtain ⟨a, r, run, rest⟩ := Runs.bind_iff.mp run
  exact next a (first _ a r run) _ _ _ rest

theorem after (next : ∀ a, Returns s (f a) V) : Returns s (m >>= f) V :=
  bind (U := fun _ => True) (fun _ _ _ _ => trivial) fun a _ => next a

theorem pure {a : α} (value : U a) : Returns s (Pure.pure a) U := fun _ _ _ run =>
  (Runs.pure_iff.mp run).1 ▸ value

theorem ite {c : Prop} [Decidable c] (yes : Returns s m U) (no : Returns s n U) : Returns s (if c then m else n) U := by
  split
  · exact yes
  · exact no

theorem «when» {c : Prop} [Decidable c] {w : ParseM PUnit} {g : PUnit → ParseM β} (next : Returns s (g ⟨⟩) V) :
    Returns s (if c then w >>= g else g ⟨⟩) V := ite (after fun _ => next) next

end Returns

/-- A constructor is not named by a private name. -/
def ClassElement.HasPublicConstructor (e : ClassElement) : Prop :=
  ∀ span isStatic computed key f, e = .method span isStatic computed key .constructor f → e.privateName? = none

namespace Returns

variable {g : Grammar} {m : Modifiers} {head : ElementHead} {derived : Bool}

theorem asyncModifier : Returns s (asyncModifier m) fun m' => m'.kind = m.kind :=
  .after fun _ => .ite (.after fun _ => .after fun _ => .after fun _ => .ite (.pure rfl) (.pure rfl)) (.pure rfl)

theorem generatorModifier : Returns s (generatorModifier m) fun m' => m'.kind = m.kind :=
  .after fun _ => .after fun _ => .ite (.pure rfl) (.pure rfl)

theorem accessorModifier (method : m.kind = .method) :
    Returns s (accessorModifier m) fun m' => m'.kind ≠ .constructor := by
  have same : m.kind ≠ .constructor := by simp [method]
  refine .ite (.pure same) (.after fun _ => .ite ?_ (.after fun _ => .ite ?_ (.pure same)))
  all_goals exact .after fun _ => .ite (.pure (by simp)) (.pure same)

theorem modifiersAfter (method : m.kind = .method) :
    Returns s (modifiersAfter m) fun m' => m'.kind ≠ .constructor :=
  asyncModifier.bind fun _ same => generatorModifier.bind fun _ same' =>
    accessorModifier (by rw [same', same, method])

theorem classMethod (kind : m.kind ≠ .constructor) :
    Returns s (g.classMethod head m derived) ClassElement.HasPublicConstructor := by
  have value {f : Callable} {span : Span} : ClassElement.HasPublicConstructor
      (.method span head.isStatic head.computed head.key (if head.isConstructor then .constructor else m.kind) f) := by
    rintro _ _ _ key _ same
    simp only [ClassElement.method.injEq] at same
    obtain ⟨rfl, rfl, rfl, rfl, constructor, rfl⟩ := same
    cases key : head.key with
    | privateIdentifier =>
      have other : head.isConstructor = false := by simp [ElementHead.isConstructor, ElementHead.isNamed, key]
      simp [other, kind] at constructor
    | _ => rfl
  have rest : Returns s (do
      let value ← g.method m.isGenerator m.isAsync (head.isConstructor && derived)
      if (if head.isConstructor then .constructor else m.kind) = .getter ∨
          (if head.isConstructor then .constructor else m.kind) = .setter then
        checkAccessor ((if head.isConstructor then .constructor else m.kind) == .getter) value
      return .method (← finishSpan head.start) head.isStatic head.computed head.key
        (if head.isConstructor then .constructor else m.kind) value) ClassElement.HasPublicConstructor :=
    .after fun _ => .when <| .after fun _ => .pure value
  exact .ite (.when <| .when <| .when rest) (.when rest)

theorem classField : Returns s (g.classField head) ClassElement.HasPublicConstructor := by
  unfold Grammar.classField
  refine .when <| .when <| .after fun _ => .ite (.after fun _ => .after fun _ => .after fun _ => ?_) ?_
  all_goals exact .after fun _ => .after fun _ => .after fun _ => .pure nofun

theorem elementAfter {start : NodeStart} (method : m.kind = .method) :
    Returns s (g.elementAfter start derived m) ClassElement.HasPublicConstructor := by
  refine (modifiersAfter method).bind fun m' kind => ?_
  have rest (head : ElementHead) : Returns s (do
      if (← edition) < 13 || (← isKind .parenL) || m'.kind != .method || m'.isGenerator || m'.isAsync then
        g.classMethod head m' derived
      else g.classField head) ClassElement.HasPublicConstructor :=
    .after fun _ => .after fun _ => .ite (classMethod kind) classField
  cases m'.word with
  | some => exact .after fun _ => rest _
  | none => exact .after fun _ => rest _

theorem classElement : Returns s (g.classElement derived) ClassElement.HasPublicConstructor := by
  refine .after fun _ => .after fun _ => .ite (.after fun _ => .after fun _ => .ite ?_ ?_) (elementAfter rfl)
  · exact .after fun _ => .after fun _ => .after fun _ => .pure nofun
  · exact .after fun _ => .after fun _ => .ite (elementAfter rfl) (elementAfter rfl)

end Returns

/-! ### Class bodies -/

/-- The elements of a class body were read since `p`. -/
def InElements (s : Setting) (p : Parser) (elements : List ClassElement) : Parser → Log → Prop :=
  InClass s p elements (elements.map .classElement)

theorem Tracks.addElement {progress : ClassProgress} {e : ClassElement} (constructor : e.HasPublicConstructor) :
    Tracks s (InClass s p progress.elements.reverse (progress.elements.reverse.map .classElement ++ [.classElement e]))
      (addElement progress e) (addElement progress e) fun progress => InElements s p progress.elements.reverse := by
  have add (hasConstructor : Bool) : Tracks s
      (InClass s p progress.elements.reverse (progress.elements.reverse.map .classElement ++ [.classElement e]))
      (do
        ParseM.declarePrivate e
        return (⟨e :: progress.elements, hasConstructor⟩ : ClassProgress))
      (do
        ParseM.declarePrivate e
        return (⟨e :: progress.elements, hasConstructor⟩ : ClassProgress))
      fun progress => InElements s p progress.elements.reverse :=
    Tracks.declarePrivate.bind fun _ => .pure fun _ _ after => by simpa [InElements] using after
  unfold Grammar.addElement
  split
  · have silent := constructor _ _ _ _ _ rfl
    refine .ite (fun _ => .fails (.bind .failRecoverable) (.bind .failRecoverable)) fun _ => ?_
    simpa [ParseM.declarePrivate, silent] using add true
  · exact add _

namespace Grammar.Reviewed

variable {g₀ g₁ : Grammar} (hg : g₀.Reviewed s g₁)
include hg

theorem classElements {derived : Bool} :
    Tracks s (InClass s p [] []) (g₀.classElements derived) (g₁.classElements derived) (InElements s p) := by
  refine .repeatPast (a := {}) (I := fun (progress : ClassProgress) => InElements s p progress.elements.reverse)
    fun progress => ?_
  refine .look .isKind fun _ => .ite (fun _ => .pure fun _ _ => id) fun _ => InClass.quiet .eat fun _ =>
    .ite (fun _ => .pure fun _ _ => id) fun _ => ?_
  refine ((InClass.tracks hg.classElement).having fun _ _ _ => Returns.classElement _).bind fun e =>
    .known fun constructor => ?_
  exact (Tracks.addElement constructor).bind fun progress => .pure fun _ _ => id

end Grammar.Reviewed

/-! ### Leaving a class body -/

/-- The uses in a class body of names that it does not declare. -/
def ClassNames.escaping (body : ClassNames) : List (String × Nat) :=
  body.used.filter fun (name, _) => !body.declared.any (·.1 == name)

theorem ClassNames.Declares.mem_escaping {body : ClassNames} {elements : List ClassElement}
    (h : body.Declares elements) (span : Span) (u : String × Nat) :
    u ∈ body.escaping ↔ u ∈ body.used ∧ (classBody span elements).declares u.1 = false := by
  simp only [escaping, List.mem_filter, any_fst_eq, (h u.1).isSome_iff, declares, Bool.not_not]
  simp

namespace PrivateNames

variable {names : PrivateNames} {body : ClassNames} {outer : List ClassNames}

theorem exit_inner (same : names.classes = body :: outer) (ne : outer ≠ []) :
    names.exit = (none, PrivateNames.note body.escaping ⟨outer⟩) := by
  obtain ⟨classes⟩ := names
  subst same
  cases outer with
  | nil => exact absurd rfl ne
  | cons => rfl

theorem exit_outermost (same : names.classes = [body]) : names.exit = (body.escaping.head?, ⟨[]⟩) := by
  obtain ⟨classes⟩ := names
  subst same
  rfl

end PrivateNames

/-- The parser in a class body. -/
def Parser.inClassBody (p : Parser) : Parser := { p with privateNames := p.privateNames.enter }

/-- Two uses do not stand at the same place. -/
theorem Log.Placed.eq_of_pos {start stop : Nat} {log : Log} {u v : String × Nat} (h : log.Placed start stop)
    (mem : u ∈ log.uses) (mem' : v ∈ log.uses) (same : u.2 = v.2) : u = v :=
  List.inj_on_of_nodup_map (List.pairwise_map.mpr (h.sorted.imp Nat.ne_of_lt)) mem mem' same

section Leaving

variable {q : Parser} {elements : List ClassElement} {log : Log} {body : ClassNames} {span : Span}

/-- The elements of a class body were read, with the braces around them. -/
structure Braced (s : Setting) (p : Parser) (x : List ClassElement × Span) (q : Parser) (log : Log) : Prop where
  elements : InElements s p x.1 q log
  start : x.2.start = p.lexer.token.start
  stop : x.2.stop ≤ q.lexer.token.start

theorem InElements.names (h : InElements s p.inClassBody elements q log) : ∃ body,
    q.privateNames.classes = body :: p.privateNames.classes ∧ body.used = log.uses ∧ body.Declares elements := by
  obtain ⟨since, body, outer, same, -, declares⟩ := h
  have names := since.2.names
  simp only [Parser.undeclared, PrivateNames.undeclared, same, Parser.inClassBody, PrivateNames.enter,
    PrivateNames.note, PrivateNames.mk.injEq, List.cons.injEq, ClassNames.mk.injEq] at names
  obtain ⟨⟨-, used⟩, rfl⟩ := names
  exact ⟨body, same, by simpa using used, declares⟩

/-- From outside of a class body the names that it declares are known. -/
theorem Braced.admits {k : Mark} (braced : Braced s p.inClassBody (elements, span) q log) (used : body.used = log.uses)
    (declares : body.Declares elements) (has : (classBody span elements).Has k) :
    Log.Admits s q.labels p.lexer.token.start q.lexer.token.start { log with uses := body.escaping } k := by
  have h := braced.elements
  have mem (u : String × Nat) := used ▸ declares.mem_escaping span u
  cases has with
  | misdeclared twice => exact twice (declares _).declaredOnce
  | body => exact ⟨⟨Nat.le_of_eq braced.start.symm, braced.stop⟩, fun u out _ => ((mem u).mp out).2⟩
  | @inside c _ k child has =>
    have admits := h.since.2.marks c child k has
    cases k with
    | use name pos known =>
      obtain ⟨placed, admits⟩ := admits
      refine ⟨placed, ?_⟩
      cases known with
      | true => exact fun u out => admits u ((mem u).mp out).1
      | false =>
        cases here : (classBody span elements).declares name with
        | true =>
          rintro ⟨other, _⟩ out rfl
          obtain ⟨mem, unknown⟩ := (mem _).mp out
          cases check : s.options.checkPrivateFields with
          | true =>
            cases h.since.2.placed.eq_of_pos mem (admits check) rfl
            simp [here] at unknown
          | false => simp [h.since.2.unchecked check] at mem
        | false => exact fun check => (mem _).mpr ⟨admits check, here⟩
    | jump j pos reach => cases reach <;> exact admits
    | label name near => cases near <;> exact admits
    | clash => exact admits
    | misdeclared => exact admits
    | body span' elements' =>
      obtain ⟨placed, admits⟩ := admits
      exact ⟨placed, fun u out => admits u ((mem u).mp out).1⟩

theorem Braced.left (braced : Braced s p.inClassBody (elements, span) q log) (ready : Steady s p)
    (used : body.used = log.uses) (declares : body.Declares elements) :
    Since s p true [.classBody span elements]
      { q with privateNames := p.privateNames.note body.escaping } { log with uses := body.escaping } :=
  have since := braced.elements.since
  have kept {u : String × Nat} (mem : u ∈ body.escaping) : u ∈ log.uses := used ▸ List.mem_of_mem_filter mem
  { left := since.1
    right :=
      { ready := { since.2.ready with enclosed := by simpa [Parser.depth] using ready.enclosed }
        token_le := since.2.token_le
        tokens := since.2.tokens
        behind := since.2.behind
        names := rfl
        placed :=
          { uses := fun u mem => since.2.placed.uses u (kept mem)
            jumps := since.2.placed.jumps
            sorted := .filter _ (used ▸ since.2.placed.sorted) }
        unchecked := fun check => by simp [ClassNames.escaping, used, since.2.unchecked check]
        read := fun u mem => since.2.read u (kept mem)
        jumped := since.2.jumped
        marks := by
          rw [List.forall_mem_singleton]
          exact fun k has => braced.admits used declares has } }

end Leaving

/-- Nothing was read in the innermost class body. -/
def PrivateNames.IsFresh (names : PrivateNames) : Prop := ∃ outer, outer ≠ [] ∧ names = ⟨{} :: outer⟩

theorem PrivateNames.IsFresh.declares {names : PrivateNames} (h : names.IsFresh) : names.Declares [] := by
  obtain ⟨outer, ne, rfl⟩ := h
  exact ⟨{}, outer, rfl, ne, fun _ => .none⟩

theorem PrivateNames.IsFresh.undeclared (h : p.privateNames.IsFresh) : p.undeclared = p := by
  obtain ⟨outer, -, same⟩ := h
  have names : p.privateNames.undeclared = p.privateNames := by rw [same]; rfl
  rw [Parser.undeclared, names]

theorem exitClassBody_eq_ok {q : Parser} {names : PrivateNames} (exit : q.privateNames.exit = (none, names)) :
    exitClassBody s q = .ok ⟨⟩ { q with privateNames := names } := by
  change Runs s exitClassBody q _ _
  simp [exitClassBody, exit]

/-- How a class body is left. -/
theorem exitClassBody_eq {q : Parser} : exitClassBody s q =
    (do
      let (unresolved, privateNames) := q.privateNames.exit
      modify fun p : Parser => { p with privateNames }
      if let some (name, pos) := unresolved then
        if (← options).checkPrivateFields then failRecoverable pos (.privateUndeclared name)
      : ParseM Unit) s q := rfl

theorem exitClassBody_eq_error {q : Parser} {names : PrivateNames} {name : String} {pos : Nat}
    (exit : q.privateNames.exit = (some (name, pos), names)) (check : s.options.checkPrivateFields = true) :
    exitClassBody s q =
      .error (s.recoverable pos (.privateUndeclared name)) { q with privateNames := names } := by
  have last : exitClassBody s q =
      (if s.options.checkPrivateFields = true then failRecoverable pos (.privateUndeclared name) else pure ())
        s { q with privateNames := names } := by
    rw [exitClassBody_eq, exit]
    rfl
  rw [last, if_pos check]
  rfl

/-- In a class body uses are no reason to stop. -/
theorem Log.Blames.left {q : Parser} {log : Log} {uses : List (String × Nat)} {e : SyntaxError}
    (h : log.Blames p e) (inner : p.depth = q.depth + 1) (enclosed : 0 < q.depth) :
    Log.Blames { log with uses := uses } q e := by
  cases h with
  | jump isJump first => exact .jump isJump first
  | use outside => exact absurd outside (by omega)

/-- How a strict reading leaves a class body that nothing made it stop in. -/
theorem Outcome.exitClassBody {q q' : Parser} {log : Log} {body : ClassNames}
    (same : q'.privateNames.classes = body :: q.privateNames.classes) (enclosed : 0 < q.depth)
    (unchecked : s.options.checkPrivateFields = false → body.escaping = []) (jumps : log.jumps = []) :
    Outcome q { log with uses := body.escaping } ()
      { q' with privateNames := q.privateNames.note body.escaping } (exitClassBody s q'.bare) := by
  by_cases outside : q.depth = 1
  · obtain ⟨last, single⟩ := List.length_eq_one_iff.mp outside
    have exit : q'.bare.privateNames.exit = (body.escaping.head?, ⟨[]⟩) := PrivateNames.exit_outermost
      (by simp [Parser.bare, same, single])
    cases first : body.escaping with
    | nil =>
      rw [exitClassBody_eq_ok (by rw [exit, first]; rfl)]
      have bare : Parser.bare { q' with privateNames := q.privateNames.note [] } =
          { q'.bare with privateNames := ⟨[]⟩ } := by simp [Parser.bare, single]
      exact bare ▸ .passes ⟨jumps, fun _ => rfl⟩
    | cons use rest =>
      have check : s.options.checkPrivateFields = true := by
        by_contra off
        simp [unchecked (by simpa using off)] at first
      rw [exitClassBody_eq_error (by rw [exit, first]; rfl) check]
      exact .stops (.use outside use.1 (.inl rfl) rfl)
  · have inner : 1 < q.privateNames.classes.length := Nat.lt_of_le_of_ne enclosed (Ne.symm outside)
    have exit : q'.bare.privateNames.exit =
        (none, PrivateNames.note body.escaping ⟨q.privateNames.classes.dropLast⟩) := PrivateNames.exit_inner
      (by simp [Parser.bare, same, List.dropLast_cons_of_ne_nil (List.ne_nil_of_length_pos enclosed)])
      (List.ne_nil_of_length_pos (by simpa using inner))
    rw [exitClassBody_eq_ok exit]
    have bare : Parser.bare { q' with privateNames := q.privateNames.note body.escaping } =
        { q'.bare with privateNames := PrivateNames.note body.escaping ⟨q.privateNames.classes.dropLast⟩ } := by
      simp [Parser.bare, PrivateNames.dropLast_note inner]
    exact bare ▸ .passes ⟨jumps, fun depth => absurd depth outside⟩

/-- A step in a class body, and the border of the body around it. -/
theorem Adds.classBody {mid₀ mid₁ : ParseM (List ClassElement × Span)}
    (h : ∀ p, Steady s p → p.privateNames.IsFresh → Tracks s (At p) mid₀ mid₁ (Braced s p)) :
    Adds s true
      (do
        enterClassBody
        let x ← mid₀
        exitClassBody
        return x)
      (do
        enterClassBody
        let x ← mid₁
        exitClassBody
        return x) fun x => [.classBody x.2 x.1] := by
  rintro p ready q _ ⟨rfl, rfl⟩
  have ne : q.privateNames.classes ≠ [] := List.ne_nil_of_length_pos ready.enclosed
  have ready' : Steady s q.inClassBody := ⟨ready.plain, ready.ordered, Nat.succ_pos _, ready.labels⟩
  have bare : q.bare.inClassBody = q.inClassBody.bare := by
    simp [Parser.bare, Parser.inClassBody, PrivateNames.enter, List.dropLast_cons_of_ne_nil ne]
  have inner := h q.inClassBody ready' ⟨_, ne, rfl⟩ q.inClassBody {} ⟨rfl, rfl⟩
  have entered (p : Parser) : enterClassBody s p = .ok ⟨⟩ p.inClassBody := rfl
  simp only [Bind.bind, ReaderT.bind, EStateM.bind, entered, bare]
  cases run : mid₁ s q.inClassBody with
  | error e r =>
    simp only [run] at inner ⊢
    obtain ⟨e, r, failed⟩ := inner
    exact ⟨e, r, by simp only [failed]⟩
  | ok x q' =>
    simp only [run] at inner
    obtain ⟨new, depth, after, outcome⟩ := inner
    rw [show ({} : Log) ++ new = new from Log.empty_append new] at after
    obtain ⟨body, same, used, declares⟩ := after.elements.names
    simp only [exitClassBody_eq_ok (PrivateNames.exit_inner same ne)]
    refine ⟨{ new with uses := body.escaping }, by simp [Parser.depth], after.left ready used declares, ?_⟩
    generalize mid₀ s q.inClassBody.bare = result at outcome
    cases outcome with
    | stops blames => exact .stops (blames.left rfl ready.enclosed)
    | passes clean =>
      have unchecked (check : s.options.checkPrivateFields = false) : body.escaping = [] := by
        simp [ClassNames.escaping, used, after.elements.since.2.unchecked check]
      have left := Outcome.exitClassBody (s := s) same ready.enclosed unchecked clean.1
      simp only
      generalize exitClassBody s q'.bare = result at left ⊢
      cases left with
      | passes clean => exact .passes clean
      | stops blames => exact .stops blames

namespace Grammar.Reviewed

variable {g₀ g₁ : Grammar} (hg : g₀.Reviewed s g₁)
include hg

/-- The elements in braces. -/
theorem bracedElements (derived outerStrict : Bool) (ready : Steady s p) (fresh : p.privateNames.IsFresh) :
    let step (g : Grammar) : ParseM (List ClassElement × Span) := do
      let bodyStart ← startNode
      expect .braceL
      let elements ← g.classElements derived
      setStrict outerStrict
      next
      return (elements, ← finishSpan bodyStart)
    Tracks s (At p) (step g₀) (step g₁) (Braced s p) := by
  intro step
  refine .lookAt .startNode fun bodyStart begins => ?_
  have opens : Tracks s (At p) (expect .braceL) (expect .braceL) fun _ => InClass s p [] [] :=
    (Adds.expect rfl p ready).weaken fun _ q log after => by
      have since := after.undeclared
      rw [fresh.undeclared] at since
      exact ⟨since, after.2.names ▸ fresh.declares.note _⟩
  refine opens.bind fun _ => ?_
  · refine hg.classElements.bind fun elements => InClass.quiet .setStrict fun _ => InClass.quiet .next fun _ => ?_
    refine .lookIn .finishSpan fun span => .pure fun q log ⟨after, found⟩ => ⟨after, ?_, ?_⟩
    · simp_all
    · obtain rfl : span = _ := by simpa using found
      exact after.since.2.ready.ordered.last_le_token

theorem classDefinition {place : ClassPlace} :
    Adds s false (g₀.classDefinition place) (g₁.classDefinition place)
      fun c => [.expression (.classExpression c)] := by
  refine .of fun p => .look .startNode fun start => .quiet .next fun _ => .look .strict fun outerStrict =>
    .quiet .setStrict fun _ => .quiet .className fun id => ?_
  have rest (heritage : Option Expression) : Tracks s (Since s p false (heritage.toList.map .expression))
      (do
        enterClassBody
        let bodyStart ← startNode
        expect .braceL
        let elements ← g₀.classElements heritage.isSome
        setStrict outerStrict
        next
        let bodySpan ← finishSpan bodyStart
        exitClassBody
        return ⟨← finishSpan start, id, heritage, bodySpan, elements⟩)
      (do
        enterClassBody
        let bodyStart ← startNode
        expect .braceL
        let elements ← g₁.classElements heritage.isSome
        setStrict outerStrict
        next
        let bodySpan ← finishSpan bodyStart
        exitClassBody
        return ⟨← finishSpan start, id, heritage, bodySpan, elements⟩)
      fun c => Since s p false [.expression (.classExpression c)] := by
    have body := Adds.classBody (s := s) fun p ready fresh =>
      hg.bracedElements heritage.isSome outerStrict ready fresh
    have whole : Tracks s (Since s p false (heritage.toList.map .expression)) _ _
        fun c => Since s p false [.expression (.classExpression c)] :=
      .adds body fun x => .look (m := finishSpan start) .finishSpan fun span =>
        .done (a := ⟨span, id, heritage, x.2, x.1⟩) (by simp) (.nodeOf rfl fun c child => ?_)
    · simpa only [bind_assoc, pure_bind] using whole
    · simp only [children, Expression.children, Class.children, List.mem_append, List.mem_map,
        List.mem_singleton] at child
      rcases child with (⟨_, -, rfl⟩ | ⟨e, mem, rfl⟩) | rfl
      · exact .ofName
      · exact .of_mem (by simp_all)
      · exact .of_mem (by simp)
  refine .quiet .eat fun _ => .ite (fun _ => ?_) fun _ => .given (rest none)
  exact .bind (.map (R := fun heritage => Since s p false (heritage.toList.map .expression))
    hg.subscripted.alone.since) rest

end Grammar.Reviewed

end ScriptSyntax
