import ScriptSyntax.Proofs.Tandem.Step
import ScriptSyntax.Proofs.Tree.Bound
import ScriptSyntax.Proofs.Tree.Link

/-!
What holds of every node that is read: it lies between boundaries, its chains are marked, the parameters of a function
are distinct where they have to be, and a literal is a copy of its text.  Words and literals are read so by two parsers
side by side.
-/

namespace ScriptSyntax

/-- The literal is a copy of its text, and unless it is a keyword the text alone gives its value. -/
structure Literal.Copies (source : Source) (o : Options) (l : Literal) : Prop where
  raw : l.raw = source.slice l.span.start l.span.stop
  alone : l.value.tokenKind? ≠ none → ReadsAs o l.raw l.value

namespace Node

/-- If the node is a literal, it is a copy of its text. -/
def LiteralCopies (source : Source) (o : Options) : Node → Prop
  | literal l | expression (.literal l) => l.Copies source o
  | _ => True

/-- Does nothing have to be known of the node but what is known of the nodes in it? -/
def isOrdinary : Node → Bool
  | literal _ | expression (.literal _) | expression (.arrow ..) | expression (.function _)
  | statement (.functionDeclaration _) | classElement (.method ..) | objectMember (.property ..)
  | expression (.chain ..) | expression (.member _) | expression (.call ..) | pattern (.member _) => false
  | _ => true

end Node

namespace Tandem

open Node

variable {t : Twins}

structure Fit (t : Twins) (n : Node) : Prop where
  span : Spans t n.span
  linked : n.Linked
  unique : n.UniqueParams t.options.isModule
  literal : n.LiteralCopies t.first t.options

/-- The node and all that lies in it fit, and no chain is left open. -/
structure Fits (t : Twins) (n : Node) : Prop where
  all : n.All (Fit t)
  closed : n.isOpen = false

/-- A chain so far, and whether it can stop early. -/
structure Chained (t : Twins) (isOpen : Bool) (e : Expression) : Prop where
  all : (expression e).All (Fit t)
  isOpen : e.isOpen = isOpen

/-! ### Lists of nodes -/

section Lists

variable {a b c : Node}

theorem fits_none : ∀ n ∈ ([] : List Node), Fits t n := List.forall_mem_nil _

theorem fits_one (h : Fits t a) : ∀ n ∈ [a], Fits t n := List.forall_mem_singleton.mpr h

theorem fits_two (h : Fits t a) (h' : Fits t b) : ∀ n ∈ [a, b], Fits t n := List.forall_mem_cons.mpr ⟨h, fits_one h'⟩

theorem fits_three (h : Fits t a) (h' : Fits t b) (h'' : Fits t c) : ∀ n ∈ [a, b, c], Fits t n :=
  List.forall_mem_cons.mpr ⟨h, fits_two h' h''⟩

variable {α : Type} {f : α → Node} {xs ys : List Node}

theorem fits_append (first : ∀ n ∈ xs, Fits t n) (second : ∀ n ∈ ys, Fits t n) : ∀ n ∈ xs ++ ys, Fits t n :=
  List.forall_mem_append.mpr ⟨first, second⟩

theorem fits_cons (first : Fits t a) (rest : ∀ n ∈ xs, Fits t n) : ∀ n ∈ a :: xs, Fits t n :=
  List.forall_mem_cons.mpr ⟨first, rest⟩

theorem fits_map {items : List α} (h : ∀ x ∈ items, Fits t (f x)) : ∀ n ∈ items.map f, Fits t n :=
  List.forall_mem_map.mpr h

theorem fits_option {item : Option α} (h : ∀ x ∈ item, Fits t (f x)) : ∀ n ∈ item.toList.map f, Fits t n :=
  fits_map fun x mem => h x (Option.mem_toList.mp mem)

/-- Holes are no nodes. -/
theorem fits_slots {items : List (Option α)} (h : ∀ x ∈ items, ∀ y ∈ x, Fits t (f y)) :
    ∀ n ∈ (items.filterMap id).map f, Fits t n :=
  fits_map fun y mem => by
    obtain ⟨x, here, some⟩ := List.mem_filterMap.mp mem
    exact h x here y some

end Lists

namespace Fits

variable {n c : Node}

/-- A node apart from chains. -/
theorem of (span : Spans t n.span) (unique : n.UniqueParams t.options.isModule)
    (literal : n.LiteralCopies t.first t.options)
    (below : ∀ c ∈ n.children, Fits t c) (other : n.isChained = false) : Fits t n where
  all :=
    all_iff.mpr ⟨⟨span, linked_of_isChained other fun c child => (below c child).closed, unique,
      literal⟩, fun c child => (below c child).all⟩
  closed := isOpen_of_isChained other

/-- A node for which the nodes in it vouch. -/
theorem node (span : Spans t n.span) (below : ∀ c ∈ n.children, Fits t c) (plain : n.isOrdinary = true) : Fits t n := by
  refine .of span ?_ ?_ below ?_
  · unfold Node.UniqueParams
    split <;> first | cases plain | trivial
  · unfold LiteralCopies
    split <;> first | cases plain | trivial
  · unfold isChained
    split <;> first | rfl | cases plain

theorem leaf (span : Spans t n.span) (none : n.children = []) (plain : n.isOrdinary = true) : Fits t n :=
  .node span (none ▸ fits_none) plain

variable (h : Fits t n)
include h

theorem fit : Fit t n := h.all n .refl

theorem span : Spans t n.span := h.fit.span

theorem branch (child : c ∈ n.branches) : Fits t c :=
  ⟨h.all.within (.of_child (mem_children_of_mem_branches child)), h.fit.linked.branch child⟩

theorem child (other : n.isChained = false) (child : c ∈ n.children) : Fits t c :=
  h.branch (branches_of_isChained other ▸ child)

end Fits

/-! ### Nodes of their own kind -/

namespace Fits

theorem literal {l : Literal} (span : Spans t l.span) (copies : l.Copies t.first t.options) :
    Fits t (.literal l) ∧ Fits t (.expression (.literal l)) :=
  ⟨.of span trivial copies fits_none rfl, .of span trivial copies fits_none rfl⟩

theorem function {f : Callable} (span : Spans t f.span) (below : ∀ c ∈ f.children, Fits t c)
    (unique : f.UniqueParams t.options.isModule) :
    Fits t (.expression (.function f)) := .of span unique trivial below rfl

theorem functionDeclaration {f : Callable} (h : Fits t (.expression (.function f))) :
    Fits t (.statement (.functionDeclaration f)) := by
  have below (c : Node) (child : c ∈ f.children) : Fits t c := h.child rfl child
  exact .of h.span h.fit.unique trivial below rfl

theorem arrow {span : Span} {isAsync : Bool} {params : List Pattern} {body : ArrowBody} (spans : Spans t span)
    (fitParams : ∀ p ∈ params, Fits t (.pattern p)) (fitBody : Fits t body.node) (distinct : DistinctNames params) :
    Fits t (.expression (.arrow span isAsync params body)) :=
  .of spans distinct trivial (fits_append (fits_map fitParams) (fits_one fitBody)) rfl

theorem method {span : Span} {isStatic computed : Bool} {key : Expression} {kind : MethodKind} {f : Callable}
    (spans : Spans t span)
    (fitKey : Fits t (.expression key)) (value : Fits t (.expression (.function f)))
    (distinct : DistinctNames f.params) :
    Fits t (.classElement (.method span isStatic computed key kind f)) :=
      .of spans distinct trivial (fits_two fitKey value) rfl

theorem property {span : Span} {form : PropertyForm} {computed : Bool} {key value : Expression} (spans : Spans t span)
    (fitKey : Fits t (.expression key)) (fitValue : Fits t (.expression value))
    (distinct : form.isMethod = true → ∀ f, value = .function f → DistinctNames f.params) :
    Fits t (.objectMember (.property span form computed key value)) := by
  refine .of spans ?_ trivial (fits_two fitKey fitValue) rfl
  cases value <;> first | trivial | exact fun isMethod => distinct isMethod _ rfl

theorem memberPattern {m : Member} (h : Fits t (.expression (.member m))) : Fits t (.pattern (.member m)) := by
  have closed : (m.optional || m.object.isOpen) = false := (Expression.isOpen_member m).symm.trans h.closed
  rw [Bool.or_eq_false_iff] at closed
  have property : Fits t (.expression m.property) := h.branch (List.mem_singleton.mpr rfl)
  have below : ∀ c ∈ [Node.expression m.object, .expression m.property], c.isOpen = false :=
    List.forall_mem_cons.mpr ⟨closed.2, List.forall_mem_singleton.mpr property.closed⟩
  exact ⟨all_iff.mpr ⟨⟨h.span, ⟨closed.1, below⟩, trivial, trivial⟩, fun c child =>
    h.all.within (.of_child child)⟩, rfl⟩

end Fits

namespace Chained

variable {base : Expression} {isOpen : Bool}

theorem of_fits (h : Fits t (.expression base)) : Chained t false base := ⟨h.all, h.closed⟩

theorem fits (h : Chained t false base) : Fits t (.expression base) := ⟨h.all, h.isOpen⟩

variable (h : Chained t isOpen base)
include h

theorem member {span : Span} {property : Expression} {computed optional : Bool} (spans : Spans t span)
    (fits : Fits t (.expression property)) :
    Chained t (isOpen || optional) (.member ⟨span, base, property, computed, optional⟩) where
  all := by
    have branch : ∀ c ∈ [Node.expression property], c.isOpen = false := List.forall_mem_singleton.mpr fits.closed
    have below : ∀ c ∈ [Node.expression base, .expression property], c.All (Fit t) :=
      List.forall_mem_cons.mpr ⟨h.all, List.forall_mem_singleton.mpr fits.all⟩
    exact all_iff.mpr ⟨⟨spans, branch, trivial, trivial⟩, below⟩
  isOpen := by rw [Expression.isOpen_member, h.isOpen, Bool.or_comm]

theorem call {span : Span} {arguments : List Expression} {optional : Bool} (spans : Spans t span)
    (fits : ∀ e ∈ arguments, Fits t (.expression e)) :
    Chained t (isOpen || optional) (.call span base arguments optional) where
  all := by
    have fits : ∀ c ∈ arguments.map Node.expression, Fits t c := fits_map fits
    have branch : ∀ c ∈ arguments.map Node.expression, c.isOpen = false := fun c child => (fits c child).closed
    have below : ∀ c ∈ Node.expression base :: arguments.map Node.expression, c.All (Fit t) :=
      List.forall_mem_cons.mpr ⟨h.all, fun c child => (fits c child).all⟩
    exact all_iff.mpr ⟨⟨spans, branch, trivial, trivial⟩, below⟩
  isOpen := by rw [Expression.isOpen_call, h.isOpen, Bool.or_comm]

end Chained

/-- The end of a chain that can stop early is marked. -/
theorem Chained.chain {base : Expression} {span : Span} (h : Chained t true base) (spans : Spans t span) :
    Fits t (.expression (.chain span base)) := by
  have below : ∀ c ∈ [Node.expression base], c.All (Fit t) := List.forall_mem_singleton.mpr h.all
  exact ⟨all_iff.mpr ⟨⟨spans, h.isOpen, trivial, trivial⟩, below⟩, rfl⟩

open ParseM

variable {α β : Type}

/-! ### Looks at the current token -/

namespace Abreast

variable {n : Nat} {a b : Source} {o : Options} {l k : Lexer} (h : Abreast n a b o l k)
include h

theorem kind : k.kind = l.kind := by
  rw [h.lines]
  rfl

theorem value : k.value = l.value := by
  rw [h.lines]
  rfl

theorem text : k.text = l.text := by
  rw [h.lines]
  rfl

theorem containsEscape : k.containsEscape = l.containsEscape := by
  rw [h.lines]
  rfl

theorem pos : k.pos = l.pos := by
  rw [h.lines]
  rfl

theorem start : k.token.start = l.token.start := by
  rw [h.lines]
  rfl

theorem stop : k.token.stop = l.token.stop := by
  rw [h.lines]
  rfl

theorem lastStart : k.last.start = l.last.start := by
  rw [h.lines]
  rfl

theorem lastStop : k.last.stop = l.last.stop := by
  rw [h.lines]
  rfl

end Abreast

namespace Yields

variable {Q : β → β → Prop}

/-- What follows depends on the kind of the current token. -/
theorem ofKind {f₀ f₁ : TokenKind → ParseM β}
    (next : ∀ p, t.parsers.Agrees (· = p) (f₀ p.lexer.kind) (f₁ p.lexer.kind) fun x y _ => Q x y) :
    Yields t (kind >>= f₀) (kind >>= f₁) Q := by
  intro p q state _
  show t.parsers.Ends _ (f₀ p.lexer.kind _ p) (f₁ q.lexer.kind _ q)
  rw [state.lexers.kind]
  exact next p p q state rfl

theorem ofIsKind {k : TokenKind} {f₀ f₁ : Bool → ParseM β}
    (next : ∀ p, t.parsers.Agrees (· = p) (f₀ (p.lexer.kind == k)) (f₁ (p.lexer.kind == k)) fun x y _ => Q x y) :
    Yields t (isKind k >>= f₀) (isKind k >>= f₁) Q :=
  show Yields t (kind >>= fun kind => f₀ (kind == k)) (kind >>= fun kind => f₁ (kind == k)) Q from ofKind next

end Yields

/-! ### Words -/

namespace Quiet

theorem checkName {id : Identifier} (spans : Spans t id.span) : Quiet t (checkName id) := by
  refine .read (.quiet .strict fun strict => .quiet .scopes fun scopes => ?_)
  have escape : (setting t.second t.options).hasEscape id = (setting t.first t.options).hasEscape id := by
    rw [Setting.hasEscape, t.texts.agree.chars spans.start.le _ spans.stop.le, Setting.hasEscape]
  have same : (setting t.second t.options).nameComplaint? strict scopes id =
      (setting t.first t.options).nameComplaint? strict scopes id := by
    rw [Setting.nameComplaint?, escape]
    rfl
  rw [same]
  refine Quiet.check fun c mem => ?_
  simp only [Setting.nameComplaint?] at mem
  split_ifs at mem <;> cases mem <;> exact ⟨spans.start, nofun⟩

theorem noteAwaitName {name : String} {pos : Nat} (placed : t.Placed pos) : Quiet t (noteAwaitName name pos) := by
  refine .ite (.modify (fun _ => rfl) (fun _ _ => rfl) fun p h => { h with awaitNameAt := ?_ }) .pure
  exact forall_mem_or h.awaitNameAt (forall_mem_some placed)

theorem keywordAsName {kind : TokenKind} : Quiet t (keywordAsName kind) := by
  intro p q state _
  have dot : t.second.has p.lexer.last.start '.' = t.first.has p.lexer.last.start '.' :=
    t.texts.agree.has state.lexers.sited.lastStart.le '.'
  obtain ⟨c, kept, relined, first, second⟩ : ∃ c : Cursor → Cursor, (∀ x : Cursor, x.SameToken (c x)) ∧
      (∀ x y : Cursor, c (x.relined y) = (c x).relined y) ∧
      ParseM.keywordAsName kind (setting t.first t.options) p =
        .ok ⟨⟩ { p with lexer := { p.lexer with toCursor := { c p.lexer.toCursor with kind := .name } } } ∧
      ParseM.keywordAsName kind (setting t.second t.options) q =
        .ok ⟨⟩ { q with lexer := { q.lexer with toCursor := { c q.lexer.toCursor with kind := .name } } } := by
    have same : (q.lexer.last.stop == q.lexer.last.start + 1 && t.second.has q.lexer.last.start '.') =
        (p.lexer.last.stop == p.lexer.last.start + 1 && t.first.has p.lexer.last.start '.') := by
      rw [state.lexers.lastStop, state.lexers.lastStart, dot]
    have run (a : Source) (r : Parser) : ParseM.keywordAsName kind (setting a t.options) r =
        .ok ⟨⟩ { r with
          lexer := { r.lexer with
            toCursor :=
              { (if (kind = .kwClass ∨ kind = .kwFunction) ∧
                    !(r.lexer.last.stop == r.lexer.last.start + 1 && a.has r.lexer.last.start '.')
                  then r.lexer.toCursor.pop.2 else r.lexer.toCursor) with
                kind := .name } } } := rfl
    rw [run, run, same]
    generalize (p.lexer.last.stop == p.lexer.last.start + 1 && t.first.has p.lexer.last.start '.') = afterDot
    by_cases opened : (kind = .kwClass ∨ kind = .kwFunction) ∧ !afterDot
    · simp only [if_pos opened]
      exact ⟨fun x => x.pop.2, Cursor.sameToken_pop, fun _ _ => rfl, rfl, rfl⟩
    · simp only [if_neg opened]
      exact ⟨id, Cursor.SameToken.refl, fun _ _ => rfl, rfl, rfl⟩
  rw [first, second]
  obtain ⟨contexts, exprAllowed, same⟩ := kept p.lexer.toCursor
  refine .passes (state.ofCursor (c := fun x => { c x with kind := .name })
    (fun x y => by rw [relined]; rfl) ?_ ?_) ⟨rfl, trivial⟩
  · rw [same]
    exact { state.lexers.sited with }
  · rw [same]
    have reached := state.current.reached.contexts ⟨contexts, exprAllowed, rfl⟩
    exact ⟨{ state.current.ordered with eof := nofun, nonempty := nofun },
      state.current.strict, nofun, nofun, nofun, reached.name⟩

theorem wordText : Quiet t wordText := by
  refine .lexer fun l k h _ => ?_
  rw [h.kind, h.text]
  refine .ite (fun _ => .done trivial) fun _ => ?_
  cases l.kind.keyword? with
  | none => exact .unexpected
  | some keyword => exact .quiet .keywordAsName fun _ => .done trivial

end Quiet

/-- The uses of private names are noted at boundaries. -/
def UsesPlaced (t : Twins) (names : PrivateNames) : Prop := ∀ c ∈ names.classes, ∀ u ∈ c.used, t.Placed u.2

theorem UsesPlaced.use {names : PrivateNames} (h : UsesPlaced t names) {name : String} {pos : Nat}
    (placed : t.Placed pos) :
    UsesPlaced t (names.use name pos).2 := by
  obtain ⟨_ | ⟨body, outer⟩⟩ := names
  · exact h
  · have inner : ∀ u ∈ body.used ++ [(name, pos)], t.Placed u.2 :=
      List.forall_mem_append.mpr ⟨h body (.head _), List.forall_mem_singleton.mpr placed⟩
    exact List.forall_mem_cons.mpr ⟨inner, fun c mem => h c (.tail _ mem)⟩

namespace Gives

theorem anyWord : Gives t anyWord anyWord fun id => Spans t id.span :=
  .start fun _ _ same => .quiet .wordText fun _ => .quiet .nextAfterWord fun _ =>
    .finish same fun _ spans => .done spans

theorem identifier : Gives t identifier identifier fun id => Spans t id.span := by
  refine .start fun _ _ same => .quiet .wordText fun _ => .quiet .next fun _ => .finish same fun _ spans => ?_
  exact .quiet (.checkName spans) fun _ => .quiet (.noteAwaitName spans.start) fun _ => .done spans

theorem propertyWord : Gives t propertyWord propertyWord fun id => Spans t id.span :=
  .read (.ite (fun _ => identifier) fun _ => anyWord)

theorem privateIdentifier : Gives t privateIdentifier privateIdentifier fun id => Spans t id.span := by
  refine .start fun _ _ same => .quiet .isKind fun _ => .unless (fun _ => .unexpected) (.lexer fun l k h _ => ?_)
  rw [h.text]
  refine .quiet .next fun _ => .finish same fun span spans => .quiet .options fun _ =>
    .ite (fun _ => .get fun p q state => ?_) fun _ => .done spans
  rw [show q.privateNames = p.privateNames by rw [state.rest]]
  have uses : UsesPlaced t (p.privateNames.use l.text span.start).2 := UsesPlaced.use state.noted.uses spans.start
  generalize p.privateNames.use l.text span.start = x at uses ⊢
  refine .quiet (.modify (fun _ => rfl) (fun _ _ => rfl) fun _ h => { h with uses }) fun _ => ?_
  exact .unless (fun _ => .of_fails (.fail spans.start nofun)) (.done spans)

end Gives

/-! ### Literals -/

/-- The last token is the one before. -/
theorem last_of_next {p q : Parser} {u : Unit} (current : Current t p.lexer)
    (run : Runs (setting t.first t.options) ParseM.next p u q) :
    q.lexer.last = p.lexer.token := by
  obtain ⟨l, step, rfl⟩ := Runs.ofLexer_iff.mp (Runs.afterWord_of_next run)
  exact (next_spec rfl current.ordered step).2.1

/-- The current token is a number, a string or a regular expression. -/
def AtLiteral (p : Parser) : Prop := p.lexer.kind = .num ∨ p.lexer.kind = .string ∨ p.lexer.kind = .regexp

/-- The node is the literal. -/
def LiteralFits (t : Twins) (l : Literal) : Prop := Fits t (.literal l) ∧ Fits t (.expression (.literal l))

theorem literal_agrees : t.parsers.Agrees AtLiteral literal literal fun x y _ => y = x ∧ LiteralFits t x := by
  have shared : Gives t literal literal fun l => Spans t l.span := by
    refine .start fun _ _ same => .lexer fun l k h _ => .source ?_
    rw [h.start, h.stop, h.value, t.texts.agree.slice h.sited.start.le _ h.sited.stop.le]
    cases literalValue? l.value with
    | none => exact .unexpected
    | some value => exact .quiet .next fun _ => .finish same fun _ spans => .done spans
  refine ((shared.strengthen fun _ _ => trivial).also (U := fun l => l.Copies t.first t.options) ?_).weaken ?_
  · intro p l q current literal run
    obtain ⟨value, same, reads⟩ := current.alone literal
    simp only [ParseM.literal, Runs.bind_iff, Runs.startNode_iff, Runs.lexer_iff, Runs.source_iff,
      Runs.exists_look, same,
      Runs.finishSpan_iff, Runs.pure_iff] at run
    obtain ⟨_, p₁, moved, rfl, rfl⟩ := run
    have ends : q.lexer.last.stop = p.lexer.token.stop := by rw [last_of_next current moved]
    exact ⟨by simp [ends], fun _ => reads⟩
  · rintro x y _ ⟨⟨rfl, spans⟩, copies⟩
    exact ⟨rfl, Fits.literal spans copies⟩

theorem literal_agrees_at {p : Parser} (at' : AtLiteral p) :
    t.parsers.Agrees (· = p) literal literal fun x y _ => y = x ∧ LiteralFits t x := by
  refine literal_agrees.strengthen ?_
  rintro _ rfl
  exact at'

theorem Yields.literal {p : Parser} {f₀ f₁ : Literal → ParseM β} {Q : β → β → Prop} (at' : AtLiteral p)
    (next : ∀ l, LiteralFits t l → Yields t (f₀ l) (f₁ l) Q) :
    t.parsers.Agrees (· = p) (ParseM.literal >>= f₀) (ParseM.literal >>= f₁) fun x y _ => Q x y := by
  refine (literal_agrees_at at').bind fun l k p q state related => ?_
  obtain ⟨rfl, fits⟩ := related
  exact next _ fits p q state trivial

theorem Gives.stringLiteral : Gives t stringLiteral stringLiteral (LiteralFits t) := by
  refine .ofIsKind fun p => .ite (fun isString => literal_agrees_at ?_) fun _ => (Yields.stops .unexpected).at'
  exact .inr (.inl (by simpa using isString))

end Tandem
end ScriptSyntax
