import ScriptSyntax.Proofs.Lexer.Alone
import ScriptSyntax.Proofs.Lexer.Reach
import ScriptSyntax.Proofs.Parser.Look
import ScriptSyntax.Proofs.Tandem.Stream

/-!
Two parsers side by side, over texts that agree from an offset on.  What they read is the same, and where
nodes begin only lines and columns may differ.
-/

namespace ScriptSyntax.Tandem

open ParseM

/-- Two texts that agree from an offset on, and the options under which both are read. -/
structure Twins where
  start : Nat
  first : Source
  second : Source
  options : Options
  texts : Texts start first second options

variable {t : Twins} {p q : Parser} {α β : Type}

/-- An offset where a character may begin. -/
def Twins.Placed (t : Twins) (i : Nat) : Prop := t.first.Placed t.start i

theorem forall_mem_or {P : α → Prop} {x y : Option α} (first : ∀ a ∈ x, P a) (second : ∀ a ∈ y, P a) :
    ∀ a ∈ x.or y, P a := by
  intro a mem
  rcases Option.or_eq_some_iff.mp mem with here | ⟨-, here⟩
  · exact first a here
  · exact second a here

theorem forall_mem_some {P : α → Prop} {a : α} (h : P a) : ∀ b ∈ some a, P b := fun _ same => Option.some.inj same ▸ h

/-- The offsets that the parser remembers are boundaries. -/
structure Noted (t : Twins) (p : Parser) : Prop where
  exports : ∀ u ∈ p.scopes.undefinedExports, t.Placed u.2
  uses : ∀ c ∈ p.privateNames.classes, ∀ u ∈ c.used, t.Placed u.2
  yieldAt : ∀ i ∈ p.yieldAt, t.Placed i
  awaitAt : ∀ i ∈ p.awaitAt, t.Placed i
  awaitNameAt : ∀ i ∈ p.awaitNameAt, t.Placed i

/-- What is known of the current token. -/
structure Current (t : Twins) (l : Lexer) : Prop where
  ordered : l.Ordered t.first
  strict : t.options.isModule = true → l.strict = true
  slash : l.kind = .slash ∨ l.kind = .slashEq →
    t.first.charAt l.token.start = some '/' ∧ t.first.opensComment l.token.start = false
  /-- A literal says by itself what it says here. -/
  alone : l.kind = .num ∨ l.kind = .string ∨ l.kind = .regexp → l.Alone t.options t.first
  keyword : ∀ word, l.kind.keyword? = some word → l.containsEscape = false →
    t.first.slice l.token.start l.token.stop = word
  reached : (setting t.first t.options).Reaches t.start true l

/-- Two parsers that stand side by side. -/
structure Alongside (t : Twins) (p q : Parser) : Prop where
  lexers : Abreast t.start t.first t.second t.options p.lexer q.lexer
  rest : q = { p with lexer := q.lexer }
  noted : Noted t p
  current : Current t p.lexer

/-- How the parsers go together. -/
def Twins.parsers (t : Twins) : Bond (setting t.first t.options) (setting t.second t.options) Parser where
  state := Alongside t
  fault e f p _ := SameFault t.start t.first e f ∧ (setting t.first t.options).Visits t.start p.lexer

/-- Wherever the parsers stand side by side, the steps end together, with values that `R` relates. -/
def Yields (t : Twins) (m₀ m₁ : ParseM α) (R : α → α → Prop) : Prop :=
  t.parsers.Agrees (fun _ => True) m₀ m₁ fun x y _ => R x y

/-- As `Yields`, with one value of which `V` holds. -/
abbrev Gives (t : Twins) (m₀ m₁ : ParseM α) (V : α → Prop) : Prop := Yields t m₀ m₁ fun x y => y = x ∧ V x

/-- A step that goes the same way in both runs. -/
def Quiet (t : Twins) (m : ParseM α) : Prop := Gives t m m fun _ => True

/-- A node begins at one place in both runs, though in lines that may differ. -/
structure SameStart (t : Twins) (x y : NodeStart) : Prop where
  pos : y.pos = x.pos
  placed : t.Placed x.pos
  located : t.options.locations = true → y = x

/-- A span between boundaries. -/
structure Spans (t : Twins) (span : Span) : Prop where
  start : t.Placed span.start
  stop : t.Placed span.stop

variable {m m₀ m₁ n₀ n₁ : ParseM α} {f₀ f₁ : α → ParseM β} {V : α → Prop} {R R' : α → α → Prop} {Q : β → β → Prop}

/-! ### Rules -/

/-- What `m₀` gives in the first run is known besides. -/
theorem Bond.Agrees.also {P : Parser → Prop} {U : α → Prop} (h : t.parsers.Agrees P m₀ m₁ fun x y _ => R x y)
    (unary : ∀ {p x r}, Current t p.lexer → P p → Runs (setting t.first t.options) m₀ p x r → U x) :
    t.parsers.Agrees P m₀ m₁ fun x y _ => R x y ∧ U x := by
  intro p q state before
  have h := h p q state before
  generalize run : m₀ (setting t.first t.options) p = x at h ⊢
  generalize m₁ (setting t.second t.options) q = y at h ⊢
  cases h with
  | passes state' value => exact .passes state' ⟨value, unary state.current before run⟩
  | fails fault => exact .fails fault

namespace Yields

/-- A step is known by what it does from a state. -/
theorem of (h : ∀ p, t.parsers.Agrees (· = p) m₀ m₁ fun x y _ => R x y) : Yields t m₀ m₁ R :=
  fun p q state _ => h p p q state rfl

theorem at' (h : Yields t m₀ m₁ R) : t.parsers.Agrees (· = p) m₀ m₁ fun x y _ => R x y :=
  h.strengthen fun _ _ => trivial

theorem weaken (h : Yields t m₀ m₁ R) (after : ∀ x y, R x y → R' x y) : Yields t m₀ m₁ R' :=
  Bond.Agrees.weaken h fun x y _ => after x y

protected theorem bind (first : Yields t m₀ m₁ R) (next : ∀ x y, R x y → Yields t (f₀ x) (f₁ y) Q) :
    Yields t (m₀ >>= f₀) (m₁ >>= f₁) Q :=
  Bond.Agrees.bind first fun x y p q state related => next x y related p q state trivial

/-- A step that gives one value. -/
theorem step (first : Gives t m₀ m₁ V) (next : ∀ x, V x → Yields t (f₀ x) (f₁ x) Q) :
    Yields t (m₀ >>= f₀) (m₁ >>= f₁) Q := by
  apply first.bind
  rintro x _ ⟨rfl, value⟩
  exact next _ value

theorem quiet (first : Quiet t m) (next : ∀ x, Yields t (f₀ x) (f₁ x) Q) : Yields t (m >>= f₀) (m >>= f₁) Q :=
  step first fun x _ => next x

protected theorem pure {x y : α} (related : R x y) : Yields t (pure x) (pure y) R := Bond.Agrees.pure fun _ _ => related

theorem done {x : α} (value : V x) : Gives t (pure x) (pure x) V := .pure ⟨rfl, value⟩

theorem known {x : α} (next : Yields t (f₀ x) (f₁ x) Q) : Yields t (pure x >>= f₀) (pure x >>= f₁) Q := by
  simpa only [pure_bind] using next

protected theorem ite {c : Prop} [Decidable c] (yes : c → Yields t m₀ m₁ R) (no : ¬ c → Yields t n₀ n₁ R) :
    Yields t (if c then m₀ else n₀) (if c then m₁ else n₁) R := Bond.Agrees.ite yes no

/-- One of two steps is taken first. -/
theorem choose {c : Prop} [Decidable c] (yes : c → Gives t m₀ m₁ V) (no : ¬ c → Gives t n₀ n₁ V)
    (next : ∀ x, V x → Yields t (f₀ x) (f₁ x) Q) :
    Yields t (if c then m₀ >>= f₀ else n₀ >>= f₀) (if c then m₁ >>= f₁ else n₁ >>= f₁) Q :=
  .ite (fun h => step (yes h) next) fun h => step (no h) next

/-- A step that fails before anything else is done. -/
theorem stops (h : Yields t m₀ m₁ fun _ _ => False) : Yields t (m₀ >>= f₀) (m₁ >>= f₁) Q := h.bind fun _ _ => False.elim

section Unit

variable {w w₀ w₁ : ParseM PUnit} {g₀ g₁ : PUnit → ParseM β} {c : Prop} [Decidable c]

/-- A quiet step is taken first if a condition holds. -/
theorem «when» (h : c → Quiet t w) (next : Yields t (g₀ ⟨⟩) (g₁ ⟨⟩) Q) :
    Yields t (if c then w >>= g₀ else g₀ ⟨⟩) (if c then w >>= g₁ else g₁ ⟨⟩) Q :=
  .ite (fun yes => .quiet (h yes) fun _ => next) fun _ => next

theorem «unless» (h : ¬ c → Quiet t w) (next : Yields t (g₀ ⟨⟩) (g₁ ⟨⟩) Q) :
    Yields t (if c then g₀ ⟨⟩ else w >>= g₀) (if c then g₁ ⟨⟩ else w >>= g₁) Q :=
  .ite (fun _ => next) fun no => .quiet (h no) fun _ => next

/-- Where a condition holds nothing goes on. -/
theorem guard (h : c → Yields t w₀ w₁ fun _ _ => False) (next : ¬ c → Yields t (g₀ ⟨⟩) (g₁ ⟨⟩) Q) :
    Yields t (if c then w₀ >>= g₀ else g₀ ⟨⟩) (if c then w₁ >>= g₁ else g₁ ⟨⟩) Q :=
  .ite (fun yes => (h yes).stops) next

theorem require (h : ¬ c → Yields t w₀ w₁ fun _ _ => False) (next : c → Yields t (g₀ ⟨⟩) (g₁ ⟨⟩) Q) :
    Yields t (if c then g₀ ⟨⟩ else w₀ >>= g₀) (if c then g₁ ⟨⟩ else w₁ >>= g₁) Q :=
  .ite next fun no => (h no).stops

theorem modify {c₀ c₁ : Parser → Parser} (h : ∀ p q, Alongside t p q → Alongside t (c₀ p) (c₁ q)) :
    Gives t (modify c₀) (modify c₁) fun _ => True :=
  fun p q state _ => .passes (h p q state) ⟨rfl, trivial⟩

end Unit

/-! ### Looking -/

protected theorem get {f₀ f₁ : Parser → ParseM β} (next : ∀ p q, Alongside t p q → Yields t (f₀ p) (f₁ q) Q) :
    Yields t (MonadState.get >>= f₀) (MonadState.get >>= f₁) Q :=
  fun p q state _ => next p q state p q state trivial

protected theorem read {f₀ f₁ : Setting → ParseM β}
    (next : Yields t (f₀ (setting t.first t.options)) (f₁ (setting t.second t.options)) Q) :
    Yields t (MonadReader.read >>= f₀) (MonadReader.read >>= f₁) Q :=
  fun p q state before => next p q state before

protected theorem source {f₀ f₁ : Source → ParseM β} (next : Yields t (f₀ t.first) (f₁ t.second) Q) :
    Yields t (ParseM.source >>= f₀) (ParseM.source >>= f₁) Q :=
  fun p q state before => next p q state before

protected theorem lexer {f₀ f₁ : Lexer → ParseM β}
    (next : ∀ l k, Abreast t.start t.first t.second t.options l k → Current t l → Yields t (f₀ l) (f₁ k) Q) :
    Yields t (ParseM.lexer >>= f₀) (ParseM.lexer >>= f₁) Q :=
  fun p q state _ => next _ _ state.lexers state.current p q state trivial

theorem startNode : Yields t ParseM.startNode ParseM.startNode (SameStart t) := by
  refine .lexer fun l k h _ => .pure ⟨?_, h.sited.start, fun located => by rw [h.located located]⟩
  rw [h.lines]
  rfl

theorem start {f₀ f₁ : NodeStart → ParseM β} (next : ∀ x y, SameStart t x y → Yields t (f₀ x) (f₁ y) Q) :
    Yields t (ParseM.startNode >>= f₀) (ParseM.startNode >>= f₁) Q := startNode.bind next

theorem spanOf {x y : NodeStart} {stop : Nat} {position position' : Position} (same : SameStart t x y)
    (placed : t.Placed stop) (located : t.options.locations = true → position' = position) :
    Gives t (ParseM.spanOf x stop position) (ParseM.spanOf y stop position') (Spans t) := by
  refine .read (.pure ⟨?_, same.placed, placed⟩)
  have location : (setting t.second t.options).location y.position position' =
      (setting t.first t.options).location x.position position := by
    by_cases asked : t.options.locations = true
    · rw [same.located asked, located asked]
      rfl
    · simp [Setting.location, asked]
  rw [same.pos, location]
  rfl

theorem finishSpan {x y : NodeStart} (same : SameStart t x y) :
    Gives t (ParseM.finishSpan x) (ParseM.finishSpan y) (Spans t) := by
  refine .lexer fun l k h _ => ?_
  rw [show k.last.stop = l.last.stop by rw [h.lines]; rfl]
  exact spanOf same h.sited.lastStop fun located => by rw [h.located located]

theorem finish {x y : NodeStart} {f₀ f₁ : Span → ParseM β} (same : SameStart t x y)
    (next : ∀ span, Spans t span → Yields t (f₀ span) (f₁ span) Q) :
    Yields t (ParseM.finishSpan x >>= f₀) (ParseM.finishSpan y >>= f₁) Q := step (finishSpan same) next

/-! ### Failing -/

theorem fail {pos : Nat} {fault : Fault} (placed : t.Placed pos) (known : fault ≠ .invalidCharacterPosition) :
    Yields t (ParseM.fail pos fault) (ParseM.fail pos fault) R :=
  fun _ _ state _ => .fails ⟨.of .fatal placed known, true, state.current.reached⟩

theorem failRecoverable {pos : Nat} {fault : Fault} (placed : t.Placed pos)
    (known : fault ≠ .invalidCharacterPosition) :
    Yields t (ParseM.failRecoverable pos fault) (ParseM.failRecoverable pos fault) R :=
  fun _ _ state _ => .fails ⟨.of .recoverable placed known, true, state.current.reached⟩

theorem unexpectedAt {pos : Nat} (placed : t.Placed pos) :
    Yields t (ParseM.unexpectedAt pos) (ParseM.unexpectedAt pos) R :=
  fail placed (by simp)

theorem tokenStart : Gives t ParseM.tokenStart ParseM.tokenStart t.Placed := by
  refine .get fun p q h => .pure ⟨?_, h.lexers.sited.start⟩
  rw [h.lexers.lines]
  rfl

theorem lastStop : Gives t ParseM.lastStop ParseM.lastStop t.Placed := by
  refine .get fun p q h => .pure ⟨?_, h.lexers.sited.lastStop⟩
  rw [h.lexers.lines]
  rfl

theorem unexpected : Yields t ParseM.unexpected ParseM.unexpected R := step tokenStart fun _ => unexpectedAt

end Yields

/-- A complaint about a boundary. -/
structure Apt (t : Twins) (c : Complaint) : Prop where
  placed : t.Placed c.pos
  known : c.fault ≠ .invalidCharacterPosition

namespace Yields

theorem complain {c : Complaint} (apt : Apt t c) : Yields t (ParseM.complain c) (ParseM.complain c) R :=
  fun _ _ state _ => .fails ⟨.of c.severity apt.placed apt.known, true, state.current.reached⟩

end Yields

namespace Quiet

theorem check {c : Option Complaint} (apt : ∀ x ∈ c, Apt t x) : Quiet t (check c) := by
  cases c with
  | none => exact .done trivial
  | some c => exact .complain (apt c rfl)

end Quiet

/-! ### Repeating -/

namespace Yields

/-- What holds after a pass of a loop. -/
def Turns (I : α → α → Prop) (R : β → β → Prop) : Pass α β → Pass α β → Prop
  | .again x, .again y => I x y
  | .done x, .done y => R x y
  | _, _ => False

theorem loop {I : α → α → Prop} {pass₀ pass₁ : α → ParseM (Pass α β)}
    (each : ∀ x y, I x y → Yields t (pass₀ x) (pass₁ y) (Turns I Q)) (fuel : Nat) {x y : α} (before : I x y) :
    Yields t (ParseM.loop pass₀ fuel x) (ParseM.loop pass₁ fuel y) Q := by
  induction fuel generalizing x y with
  | zero => exact unexpected
  | succ fuel ih =>
    refine (each x y before).bind fun x' y' after => ?_
    cases x' <;> cases y'
    · exact ih after
    · exact after.elim
    · exact after.elim
    · exact .pure after

theorem repeatPast {I : α → α → Prop} {pass₀ pass₁ : α → ParseM (Pass α β)} {x y : α} (before : I x y)
    (each : ∀ x y, I x y → Yields t (pass₀ x) (pass₁ y) (Turns I Q)) :
    Yields t (ParseM.repeatPast x pass₀) (ParseM.repeatPast y pass₁) Q := by
  refine .source ?_
  rw [t.texts.agree.size]
  exact loop each _ before

end Yields
end ScriptSyntax.Tandem
