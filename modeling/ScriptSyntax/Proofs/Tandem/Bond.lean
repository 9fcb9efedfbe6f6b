import ScriptSyntax.Proofs.Run
import ScriptSyntax.Proofs.Source.Agree

/-!
Two runs side by side, in settings that differ in the text at most.  A bond says which states and which
faults of the two runs go together; two steps agree if they take states that go together to such states,
or both fail in ways that go together.
-/

namespace ScriptSyntax.Tandem

/-- A step over states of any kind. -/
abbrev Step (σ α : Type) := ReaderT Setting (EStateM SyntaxError σ) α

/-- What goes together in a run in the setting `s` and one in the setting `t`. -/
structure Bond (s t : Setting) (σ : Type) where
  state : σ → σ → Prop
  fault : SyntaxError → SyntaxError → σ → σ → Prop

variable {s t : Setting} {σ α β : Type}

/-- Two results go together, and `Q` holds of the values and of the first state. -/
inductive Bond.Ends (B : Bond s t σ) (Q : α → α → σ → Prop) :
    EStateM.Result SyntaxError σ α → EStateM.Result SyntaxError σ α → Prop
  | passes {a b : α} {p q : σ} (state : B.state p q) (value : Q a b p) : Ends B Q (.ok a p) (.ok b q)
  | fails {e f : SyntaxError} {p q : σ} (fault : B.fault e f p q) : Ends B Q (.error e p) (.error f q)

/-- From states that go together, `P` holding of the first, the steps end together. -/
def Bond.Agrees (B : Bond s t σ) (P : σ → Prop) (m₀ m₁ : Step σ α) (Q : α → α → σ → Prop) : Prop :=
  ∀ p q, B.state p q → P p → B.Ends Q (m₀ s p) (m₁ t q)

/-- The two values are the same, and `V` holds of them. -/
def Equal (V : α → σ → Prop) (a b : α) (p : σ) : Prop := b = a ∧ V a p

/-- What holds after a pass of a loop: the invariant, or what the loop is for. -/
def Turn (I : α → σ → Prop) (V : β → σ → Prop) : Pass α β → σ → Prop
  | .again next => I next
  | .done result => V result

/-- At the state `p` the step looks at `x` in both runs, and changes nothing. -/
def Bond.Sees (B : Bond s t σ) (p : σ) (m : Step σ α) (x : α) : Prop :=
  ∀ q, B.state p q → m s p = .ok x p ∧ m t q = .ok x q

namespace Bond

variable {B : Bond s t σ} {P : σ → Prop} {p : σ} {m₀ m₁ n₀ n₁ : Step σ α} {f₀ f₁ : α → Step σ β} {R : α → α → σ → Prop}
  {Q : β → β → σ → Prop}

namespace Agrees

protected theorem bind (first : B.Agrees P m₀ m₁ R) (next : ∀ a b, B.Agrees (R a b) (f₀ a) (f₁ b) Q) :
    B.Agrees P (m₀ >>= f₀) (m₁ >>= f₁) Q := by
  intro p q state before
  have first := first p q state before
  simp only [Bind.bind, ReaderT.bind, EStateM.bind]
  generalize m₀ s p = x at first
  generalize m₁ t q = y at first
  cases first with
  | passes state value => exact next _ _ _ _ state value
  | fails fault => exact .fails fault

/-- The rest runs from the state that the first step left behind. -/
theorem each (first : B.Agrees P m₀ m₁ R) (next : ∀ a b r, R a b r → B.Agrees (· = r) (f₀ a) (f₁ b) Q) :
    B.Agrees P (m₀ >>= f₀) (m₁ >>= f₁) Q :=
  first.bind fun a b p q state value => next a b p value p q state rfl

/-- As `each`, where the first steps give the same. -/
theorem step {V : α → σ → Prop} (first : B.Agrees P m₀ m₁ (Equal V))
    (next : ∀ a r, V a r → B.Agrees (· = r) (f₀ a) (f₁ a) Q) : B.Agrees P (m₀ >>= f₀) (m₁ >>= f₁) Q := by
  apply first.each
  rintro a _ r ⟨rfl, value⟩
  exact next _ r value

theorem weaken {R' : α → α → σ → Prop} (h : B.Agrees P m₀ m₁ R) (after : ∀ a b p, R a b p → R' a b p) :
    B.Agrees P m₀ m₁ R' := by
  intro p q state before
  have h := h p q state before
  generalize m₀ s p = x at h ⊢
  generalize m₁ t q = y at h ⊢
  cases h with
  | passes state value => exact .passes state (after _ _ _ value)
  | fails fault => exact .fails fault

theorem strengthen {Q : σ → Prop} (h : B.Agrees P m₀ m₁ R) (before : ∀ p, Q p → P p) : B.Agrees Q m₀ m₁ R :=
  fun p q state holds => h p q state (before p holds)

/-- What the bond says of the states may be used. -/
theorem given (h : ∀ q, B.state p q → B.Agrees (· = p) m₀ m₁ R) : B.Agrees (· = p) m₀ m₁ R := by
  rintro _ q state rfl
  exact h q state _ q state rfl

protected theorem pure {a b : α} (after : ∀ p, P p → R a b p) : B.Agrees P (pure a) (pure b) R :=
  fun p _ state before => .passes state (after p before)

protected theorem ite {c : Prop} [Decidable c] (yes : c → B.Agrees P m₀ m₁ R) (no : ¬ c → B.Agrees P n₀ n₁ R) :
    B.Agrees P (if c then m₀ else n₀) (if c then m₁ else n₁) R := by
  by_cases h : c
  · simpa only [if_pos h] using yes h
  · simpa only [if_neg h] using no h

variable {w₀ w₁ : Step σ PUnit} {g₀ g₁ : PUnit → Step σ β}

theorem look {m : Step σ α} {x : α} (h : B.Sees p m x) (next : B.Agrees (· = p) (f₀ x) (f₁ x) Q) :
    B.Agrees (· = p) (m >>= f₀) (m >>= f₁) Q := by
  rintro _ q state rfl
  have next := next _ q state rfl
  obtain ⟨first, second⟩ := h q state
  simpa only [Bind.bind, ReaderT.bind, EStateM.bind, first, second] using next

/-- A step that only looks. -/
theorem sees {m : Step σ α} {x : α} (h : B.Sees p m x) : B.Agrees (· = p) m m (Equal fun a r => a = x ∧ r = p) := by
  rintro _ q state rfl
  obtain ⟨first, second⟩ := h q state
  rw [first, second]
  exact .passes state ⟨rfl, rfl, rfl⟩

/-- In the two runs the states are looked at, not parts of them. -/
protected theorem get {f₀ f₁ : σ → Step σ β} (next : ∀ q, B.state p q → B.Agrees (· = p) (f₀ p) (f₁ q) Q) :
    B.Agrees (· = p) (MonadState.get >>= f₀) (MonadState.get >>= f₁) Q := by
  rintro _ q state rfl
  exact next q state _ q state rfl

protected theorem read {f₀ f₁ : Setting → Step σ β} (next : B.Agrees P (f₀ s) (f₁ t) Q) :
    B.Agrees P (MonadReader.read >>= f₀) (MonadReader.read >>= f₁) Q :=
  fun p q state before => next p q state before

theorem change {c₀ c₁ : σ → σ} (state : ∀ q, B.state p q → B.state (c₀ p) (c₁ q))
    (next : B.Agrees (· = c₀ p) (g₀ ⟨⟩) (g₁ ⟨⟩) Q) : B.Agrees (· = p) (modify c₀ >>= g₀) (modify c₁ >>= g₁) Q := by
  rintro _ q before rfl
  exact next _ _ (state q before) rfl

end Agrees

namespace Sees

protected theorem pure {a : α} : B.Sees p (pure a) a := fun _ _ => ⟨rfl, rfl⟩

protected theorem bind {m : Step σ α} {x : α} {f : α → Step σ β} {y : β} (first : B.Sees p m x)
    (next : B.Sees p (f x) y) :
    B.Sees p (m >>= f) y := by
  intro q state
  obtain ⟨first, first'⟩ := first q state
  obtain ⟨next, next'⟩ := next q state
  simp only [Bind.bind, ReaderT.bind, EStateM.bind, first, first', next, next', and_self]

end Sees
/-- A run next to itself, through states of which `I` holds. -/
def alone (s : Setting) (I : σ → Prop) : Bond s s σ where
  state p q := q = p ∧ I p
  fault _ _ p _ := I p

section Alone

variable {I : σ → Prop} {f : α → Step σ β} {m : Step σ α}

theorem Sees.alone {x : α} (h : m s p = .ok x p) : (alone s I).Sees p m x := fun _ state => ⟨h, state.1 ▸ h⟩

theorem Agrees.keep {c : σ → σ} {g : PUnit → Step σ β} (keeps : I p → I (c p))
    (next : (alone s I).Agrees (· = c p) (g ⟨⟩) (g ⟨⟩) Q) :
    (alone s I).Agrees (· = p) (modify c >>= g) (modify c >>= g) Q :=
  .change (fun _ state => ⟨congrArg c state.1, keeps state.2⟩) next

theorem Agrees.thrown (throws : ∀ p, ∃ e, m s p = .error e p) : (alone s I).Agrees P m m R := by
  rintro p q ⟨rfl, holds⟩ _
  obtain ⟨e, run⟩ := throws q
  rw [run]
  exact .fails holds

end Alone

end Bond
end ScriptSyntax.Tandem
