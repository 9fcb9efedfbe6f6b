import Mathlib
import ScriptSyntax.Parser.Deferred

/-!
Runs of steps.  A step of the lexer or the parser that succeeds takes one state to another and gives a
value; the equations below take a run of a composed step apart into runs of its parts.
-/

namespace ScriptSyntax

/-- The step succeeds from `p`, gives `a` and leaves `q` behind. -/
def Runs {ε σ α : Type} (s : Setting) (m : ReaderT Setting (EStateM ε σ) α) (p : σ) (a : α) (q : σ) :
    Prop :=
  m s p = .ok a q

/-- The step succeeds from every state: it gives what `value` says and leaves behind what `after` says. -/
class Succeeds {ε σ α : Type} (m : ReaderT Setting (EStateM ε σ) α) (value : outParam (Setting → σ → α))
    (after : outParam (Setting → σ → σ)) : Prop where
  run (s : Setting) (p : σ) : Runs s m p (value s p) (after s p)

namespace Runs

section Steps

variable {ε σ α β : Type} {s : Setting} {p q : σ}

/-- A look gives a value and leaves the state as it is. -/
@[simp] theorem exists_look {x : α} {P : α → σ → Prop} :
    (∃ a r, (a = x ∧ r = p) ∧ P a r) ↔ P x p := by
  simp

@[simp] theorem exists_last_look {x : α} {P : α → Prop} :
    (∃ a, (a = x ∧ q = p) ∧ P a) ↔ P x ∧ q = p := by
  simp [and_comm]

/-- A check that passes leaves the state as it is. -/
@[simp] theorem exists_checked {c : Prop} {x : σ} {P : σ → Prop} :
    (∃ r, (c ∧ r = x) ∧ P r) ↔ c ∧ P x := by
  simp

@[simp] theorem exists_unit {P : PUnit → Prop} : (∃ u, P u) ↔ P ⟨⟩ :=
  ⟨fun ⟨_, h⟩ => h, fun h => ⟨_, h⟩⟩

@[simp] theorem pure_iff {a b : α} :
    Runs s (pure a : ReaderT Setting (EStateM ε σ) α) p b q ↔ b = a ∧ q = p := by
  simp only [Runs, pure, ReaderT.pure, EStateM.pure, EStateM.Result.ok.injEq]
  exact and_congr eq_comm eq_comm

/-! ### Composed steps

What a step composed of others does depends on its first part, so a run is taken apart before its parts are
looked at. -/

@[simp ↓] theorem bind_iff {m : ReaderT Setting (EStateM ε σ) α}
    {f : α → ReaderT Setting (EStateM ε σ) β} {b : β} :
    Runs s (m >>= f) p b q ↔ ∃ a r, Runs s m p a r ∧ Runs s (f a) r b q := by
  simp only [Runs, bind, ReaderT.bind, EStateM.bind]
  cases h : m s p with
  | ok a r => simp [and_assoc]
  | error e r => simp

theorem succeeds_iff {m : ReaderT Setting (EStateM ε σ) α} {value : Setting → σ → α} {after : Setting → σ → σ}
    [sure : Succeeds m value after] {a : α} : Runs s m p a q ↔ a = value s p ∧ q = after s p := by
  have run := sure.run s p
  simp only [Runs] at run ⊢
  rw [run, EStateM.Result.ok.injEq]
  exact and_congr eq_comm eq_comm

/-- A step that succeeds from every state is taken at once. -/
@[simp ↓ 20000] theorem succeeds_bind_iff {m : ReaderT Setting (EStateM ε σ) α} {value : Setting → σ → α}
    {after : Setting → σ → σ} [Succeeds m value after] {f : α → ReaderT Setting (EStateM ε σ) β} {b : β} :
    Runs s (m >>= f) p b q ↔ Runs s (f (value s p)) (after s p) b q := by
  simp only [bind_iff, succeeds_iff]
  constructor
  · rintro ⟨_, _, ⟨rfl, rfl⟩, run⟩
    exact run
  · exact fun run => ⟨_, _, ⟨rfl, rfl⟩, run⟩

@[simp] theorem map_iff {m : ReaderT Setting (EStateM ε σ) α} {f : α → β} {b : β} :
    Runs s (f <$> m) p b q ↔ ∃ a, Runs s m p a q ∧ b = f a := by
  rw [map_eq_pure_bind]
  simp only [bind_iff, pure_iff]
  exact ⟨fun ⟨a, _, run, eq, same⟩ => ⟨a, same ▸ run, eq⟩, fun ⟨a, run, eq⟩ => ⟨a, q, run, eq, rfl⟩⟩

instance : Succeeds (read : ReaderT Setting (EStateM ε σ) Setting) (fun s _ => s) (fun _ p => p) := ⟨fun _ _ => rfl⟩

@[simp] theorem read_iff {c : Setting} :
    Runs s (read : ReaderT Setting (EStateM ε σ) Setting) p c q ↔ c = s ∧ q = p := by
  rw [succeeds_iff]

instance : Succeeds (get : ReaderT Setting (EStateM ε σ) σ) (fun _ p => p) (fun _ p => p) := ⟨fun _ _ => rfl⟩

@[simp] theorem get_iff {r : σ} :
    Runs s (get : ReaderT Setting (EStateM ε σ) σ) p r q ↔ r = p ∧ q = p := by
  rw [succeeds_iff]

instance {f : σ → σ} : Succeeds (modify f : ReaderT Setting (EStateM ε σ) PUnit) (fun _ _ => ⟨⟩) (fun _ p => f p) :=
  ⟨fun _ _ => rfl⟩

@[simp] theorem modify_iff {f : σ → σ} {u : PUnit} :
    Runs s (modify f : ReaderT Setting (EStateM ε σ) PUnit) p u q ↔ q = f p :=
  succeeds_iff.trans (and_iff_right rfl)

instance {r : σ} : Succeeds (set r : ReaderT Setting (EStateM ε σ) PUnit) (fun _ _ => ⟨⟩) (fun _ _ => r) :=
  ⟨fun _ _ => rfl⟩

@[simp] theorem throw_iff {e : ε} {a : α} :
    ¬ Runs s (throw e : ReaderT Setting (EStateM ε σ) α) p a q := by
  simp [Runs, throw, throwThe, MonadExceptOf.throw, liftM, monadLift, MonadLift.monadLift,
    EStateM.throw]

@[simp ↓] theorem ite_iff {c : Prop} [Decidable c] {m n : ReaderT Setting (EStateM ε σ) α} {a : α} :
    Runs s (if c then m else n) p a q ↔ c ∧ Runs s m p a q ∨ ¬ c ∧ Runs s n p a q := by
  by_cases h : c <;> simp [h]

@[simp] theorem andM_iff {m n : ReaderT Setting (EStateM ε σ) Bool} {b : Bool} :
    Runs s (m <&&> n) p b q ↔
      (∃ r, Runs s m p true r ∧ Runs s n r b q) ∨ (Runs s m p false q ∧ b = false) := by
  simp only [andM, toBool, bind_iff, Bool.exists_bool, pure_iff]
  constructor
  · rintro (⟨r, run, eq, rfl⟩ | h)
    · exact .inr ⟨run, eq⟩
    · exact .inl h
  · rintro (h | ⟨run, eq⟩)
    · exact .inr h
    · exact .inl ⟨q, run, eq, rfl⟩

@[simp] theorem orM_iff {m n : ReaderT Setting (EStateM ε σ) Bool} {b : Bool} :
    Runs s (m <||> n) p b q ↔
      (Runs s m p true q ∧ b = true) ∨ (∃ r, Runs s m p false r ∧ Runs s n r b q) := by
  simp only [orM, toBool, bind_iff, Bool.exists_bool, pure_iff]
  constructor
  · rintro (h | ⟨r, run, eq, rfl⟩)
    · exact .inr h
    · exact .inl ⟨run, eq⟩
  · rintro (⟨run, eq⟩ | h)
    · exact .inr ⟨q, run, eq, rfl⟩
    · exact .inl h

end Steps

end Runs
end ScriptSyntax
