import ScriptSyntax.Proofs.Tandem.Parser

/-!
Steps that may put faults off, in two parsers side by side.  The faults are put off at the same boundaries.
-/

namespace ScriptSyntax.Tandem

open ParseM

variable {t : Twins} {α β : Type}

/-- The faults that were put off lie at boundaries. -/
structure Postponed (t : Twins) (d : Deferred) : Prop where
  shorthandDefault : ∀ i ∈ d.shorthandDefault, t.Placed i
  commaAfterRest : ∀ i ∈ d.commaAfterRest, t.Placed i
  parenthesizedTarget : ∀ i ∈ d.parenthesizedTarget, t.Placed i
  parenthesized : ∀ i ∈ d.parenthesized, t.Placed i
  secondProto : ∀ i ∈ d.secondProto, t.Placed i

namespace Postponed

theorem empty : Postponed t {} := ⟨nofun, nofun, nofun, nofun, nofun⟩

variable {d : Deferred} (h : Postponed t d)
include h

theorem expressionComplaint : ∀ c ∈ d.expressionComplaint?, Apt t c := by
  intro c mem
  cases shorthand : d.shorthandDefault with
  | some pos =>
    obtain rfl : .fatal pos .shorthandAssignment = c := by simpa [Deferred.expressionComplaint?, shorthand] using mem
    exact ⟨h.shorthandDefault pos shorthand, by simp [Complaint.fatal]⟩
  | none =>
    cases proto : d.secondProto with
    | some pos =>
      obtain rfl : .recoverable pos .protoRedefined = c := by
        simpa [Deferred.expressionComplaint?, shorthand, proto] using mem
      exact ⟨h.secondProto pos proto, by simp [Complaint.recoverable]⟩
    | none => simp [Deferred.expressionComplaint?, shorthand, proto] at mem

theorem patternComplaint {binding : Bool} : ∀ c ∈ d.patternComplaint? binding, Apt t c := by
  have map {found : Option Nat} {fault : Fault} (placed : ∀ i ∈ found, t.Placed i)
      (known : fault ≠ .invalidCharacterPosition) :
      ∀ c ∈ found.map (Complaint.recoverable · fault), Apt t c := by
    intro c mem
    obtain ⟨pos, here, rfl⟩ := Option.map_eq_some_iff.mp mem
    exact ⟨placed pos here, known⟩
  intro c mem
  unfold Deferred.patternComplaint? at mem
  split at mem
  · next pos here =>
    obtain rfl := Option.some.inj mem
    exact ⟨h.commaAfterRest pos here, by simp [Complaint.recoverable]⟩
  · split at mem
    · exact map h.parenthesized (by simp) c mem
    · exact map h.parenthesizedTarget (by simp) c mem

theorem forgetTarget : Postponed t d.forgetTarget :=
  { h with parenthesizedTarget := nofun, commaAfterRest := nofun, secondProto := nofun }

theorem excuseMember {start : Nat} : Postponed t (d.excuseMember start) := by
  have filter {found : Option Nat} (placed : ∀ i ∈ found, t.Placed i) : ∀ i ∈ found.filter (· < start), t.Placed i :=
    fun i mem => placed i (Option.filter_eq_some_iff.mp mem).1
  exact { h with
    parenthesizedTarget := filter h.parenthesizedTarget
    parenthesized := filter h.parenthesized
    commaAfterRest := filter h.commaAfterRest }

end Postponed

/-- As `Yields`, whatever faults were put off before. -/
structure CoverYields (t : Twins) (m₀ m₁ : CoverM α) (R : α → α → Prop) : Prop where
  run : ∀ d, (∀ x ∈ d, Postponed t x) →
    Yields t (m₀.run d) (m₁.run d) fun x y => R x.1 y.1 ∧ y.2 = x.2 ∧ ∀ d ∈ x.2, Postponed t d

abbrev CoverGives (t : Twins) (m₀ m₁ : CoverM α) (V : α → Prop) : Prop := CoverYields t m₀ m₁ fun x y => y = x ∧ V x

def CoverQuiet (t : Twins) (m : CoverM α) : Prop := CoverGives t m m fun _ => True

variable {m m₀ m₁ n₀ n₁ : CoverM α} {l l₀ l₁ : ParseM α} {f₀ f₁ : α → CoverM β} {V : α → Prop} {R R' : α → α → Prop}
  {Q : β → β → Prop}

namespace CoverYields

protected theorem bind (first : CoverYields t m₀ m₁ R) (next : ∀ x y, R x y → CoverYields t (f₀ x) (f₁ y) Q) :
    CoverYields t (m₀ >>= f₀) (m₁ >>= f₁) Q := by
  refine ⟨fun d put => (first.run d put).bind ?_⟩
  rintro ⟨x, d⟩ ⟨y, _⟩ ⟨related, rfl, put⟩
  exact (next x y related).run _ put

theorem step (first : CoverGives t m₀ m₁ V) (next : ∀ x, V x → CoverYields t (f₀ x) (f₁ x) Q) :
    CoverYields t (m₀ >>= f₀) (m₁ >>= f₁) Q := by
  apply first.bind
  rintro x _ ⟨rfl, value⟩
  exact next _ value

theorem quiet (first : CoverQuiet t m) (next : ∀ x, CoverYields t (f₀ x) (f₁ x) Q) :
    CoverYields t (m >>= f₀) (m >>= f₁) Q :=
  step first fun x _ => next x

protected theorem pure {x y : α} (related : R x y) : CoverYields t (pure x) (pure y) R :=
  ⟨fun _ put => .pure ⟨related, rfl, put⟩⟩

theorem done {x : α} (value : V x) : CoverGives t (pure x) (pure x) V := .pure ⟨rfl, value⟩

theorem known {x : α} (next : CoverYields t (f₀ x) (f₁ x) Q) : CoverYields t (pure x >>= f₀) (pure x >>= f₁) Q := by
  simpa only [pure_bind] using next

theorem lift (h : Yields t l₀ l₁ R) : CoverYields t (liftM l₀) (liftM l₁) R :=
  ⟨fun _ put => h.bind fun _ _ related => .pure ⟨related, rfl, put⟩⟩

theorem lifted {R : α → α → Prop} (h : Yields t l₀ l₁ R) (next : ∀ x y, R x y → CoverYields t (f₀ x) (f₁ y) Q) :
    CoverYields t (liftM l₀ >>= f₀) (liftM l₁ >>= f₁) Q := (lift h).bind next

theorem liftStep (h : Gives t l₀ l₁ V) (next : ∀ x, V x → CoverYields t (f₀ x) (f₁ x) Q) :
    CoverYields t (liftM l₀ >>= f₀) (liftM l₁ >>= f₁) Q := step (lift h) next

theorem liftQuiet (h : Quiet t l) (next : ∀ x, CoverYields t (f₀ x) (f₁ x) Q) :
    CoverYields t (liftM l >>= f₀) (liftM l >>= f₁) Q := liftStep h fun x _ => next x

protected theorem ite {c : Prop} [Decidable c] (yes : c → CoverYields t m₀ m₁ R) (no : ¬ c → CoverYields t n₀ n₁ R) :
    CoverYields t (if c then m₀ else n₀) (if c then m₁ else n₁) R := by
  by_cases h : c
  · simpa only [if_pos h] using yes h
  · simpa only [if_neg h] using no h

theorem choose {c : Prop} [Decidable c] (yes : c → CoverGives t m₀ m₁ V) (no : ¬ c → CoverGives t n₀ n₁ V)
    (next : ∀ x, V x → CoverYields t (f₀ x) (f₁ x) Q) :
    CoverYields t (if c then m₀ >>= f₀ else n₀ >>= f₀) (if c then m₁ >>= f₁ else n₁ >>= f₁) Q :=
  .ite (fun h => step (yes h) next) fun h => step (no h) next

theorem stops (h : CoverYields t m₀ m₁ fun _ _ => False) : CoverYields t (m₀ >>= f₀) (m₁ >>= f₁) Q :=
  h.bind fun _ _ => False.elim

theorem start {f₀ f₁ : NodeStart → CoverM β} (next : ∀ x y, SameStart t x y → CoverYields t (f₀ x) (f₁ y) Q) :
    CoverYields t (liftM ParseM.startNode >>= f₀) (liftM ParseM.startNode >>= f₁) Q := lifted .startNode next

theorem finish {x y : NodeStart} {f₀ f₁ : Span → CoverM β} (same : SameStart t x y)
    (next : ∀ span, Spans t span → CoverYields t (f₀ span) (f₁ span) Q) :
    CoverYields t (liftM (ParseM.finishSpan x) >>= f₀) (liftM (ParseM.finishSpan y) >>= f₁) Q :=
      liftStep (.finishSpan same) next

section Unit

variable {w₀ w₁ : CoverM PUnit} {g₀ g₁ : PUnit → CoverM β} {c : Prop} [Decidable c]

theorem «when» {w : CoverM PUnit} (h : c → CoverQuiet t w) (next : CoverYields t (g₀ ⟨⟩) (g₁ ⟨⟩) Q) :
    CoverYields t (if c then w >>= g₀ else g₀ ⟨⟩) (if c then w >>= g₁ else g₁ ⟨⟩) Q :=
  .ite (fun yes => .quiet (h yes) fun _ => next) fun _ => next

theorem «unless» {w : CoverM PUnit} (h : ¬ c → CoverQuiet t w) (next : CoverYields t (g₀ ⟨⟩) (g₁ ⟨⟩) Q) :
    CoverYields t (if c then g₀ ⟨⟩ else w >>= g₀) (if c then g₁ ⟨⟩ else w >>= g₁) Q :=
  .ite (fun _ => next) fun no => .quiet (h no) fun _ => next

theorem guard (h : c → CoverYields t w₀ w₁ fun _ _ => False) (next : ¬ c → CoverYields t (g₀ ⟨⟩) (g₁ ⟨⟩) Q) :
    CoverYields t (if c then w₀ >>= g₀ else g₀ ⟨⟩) (if c then w₁ >>= g₁ else g₁ ⟨⟩) Q :=
  .ite (fun yes => (h yes).stops) next

end Unit

/-! ### Faults put off -/

protected theorem get {f : Option Deferred → CoverM β} {f' : Option Deferred → CoverM β}
    (next : ∀ d, (∀ x ∈ d, Postponed t x) → CoverYields t (f d) (f' d) Q) :
    CoverYields t (MonadState.get >>= f) (MonadState.get >>= f') Q :=
  ⟨fun d put => (next d put).run d put⟩

theorem set {d : Option Deferred} (put : ∀ x ∈ d, Postponed t x) : CoverQuiet t (MonadStateOf.set d : CoverM PUnit) :=
  ⟨fun _ _ => .pure ⟨⟨rfl, trivial⟩, rfl, put⟩⟩

theorem amend {change : Deferred → Deferred} (h : ∀ d, Postponed t d → Postponed t (change d)) :
    CoverQuiet t (CoverM.amend change) := by
  refine ⟨fun d put => .pure ⟨⟨rfl, trivial⟩, rfl, fun x mem => ?_⟩⟩
  obtain ⟨y, here, rfl⟩ := Option.map_eq_some_iff.mp mem
  exact h y (put y here)

theorem mustBePattern : CoverQuiet t CoverM.mustBePattern := .get fun _ _ => .done trivial

theorem checkExpression : CoverQuiet t CoverM.checkExpression := by
  refine .get fun d put => ?_
  cases d with
  | none => exact .done trivial
  | some d => exact .lift (Quiet.check (put d rfl).expressionComplaint)

end CoverYields

/-- A step whose faults are put off beyond those from before. -/
theorem CoverGives.deferring {d : Deferred} (h : CoverGives t m₀ m₁ V) (put : Postponed t d) :
    Gives t (CoverM.deferring d m₀) (CoverM.deferring d m₁) fun x => V x.1 ∧ Postponed t x.2 := by
  refine (h.run (some d) (fun _ same => Option.some.inj same ▸ put)).bind ?_
  rintro ⟨x, _⟩ ⟨_, after⟩ ⟨⟨rfl, value⟩, rfl, put⟩
  refine .done ⟨value, ?_⟩
  cases after with
  | none => exact .empty
  | some d => exact put d rfl

theorem CoverGives.alone (h : CoverGives t m₀ m₁ V) : Gives t m₀.alone m₁.alone V := by
  refine (h.run none nofun).bind ?_
  rintro ⟨x, d⟩ ⟨_, _⟩ ⟨⟨rfl, value⟩, -⟩
  exact .done value

/-! ### Repeating -/

/-- What holds after a pass of a loop that takes the same way in both runs. -/
def Turned (I : α → Prop) (V : β → Prop) : Pass α β → Prop
  | .again x => I x
  | .done x => V x

variable {I : α → Prop} {W : β → Prop} {x : α}

theorem Gives.repeatPast {pass₀ pass₁ : α → ParseM (Pass α β)} (before : I x)
    (each : ∀ x, I x → Gives t (pass₀ x) (pass₁ x) (Turned I W)) :
    Gives t (ParseM.repeatPast x pass₀) (ParseM.repeatPast x pass₁) W := by
  refine Yields.repeatPast (I := fun x y => y = x ∧ I x) ⟨rfl, before⟩ ?_
  rintro x _ ⟨rfl, here⟩
  refine (each _ here).weaken ?_
  rintro (_ | _) _ ⟨rfl, after⟩ <;> exact ⟨rfl, after⟩

theorem CoverGives.repeatPast {pass₀ pass₁ : α → CoverM (Pass α β)} (before : I x)
    (each : ∀ x, I x → CoverGives t (pass₀ x) (pass₁ x) (Turned I W)) :
    CoverGives t (ParseM.repeatPast x pass₀) (ParseM.repeatPast x pass₁) W := by
  have loop (fuel : Nat) {x : α} (before : I x) : CoverGives t (ParseM.loop pass₀ fuel x)
      (ParseM.loop pass₁ fuel x) W := by
    induction fuel generalizing x with
    | zero => exact .lift .unexpected
    | succ fuel ih =>
      refine CoverYields.step (each x before) fun x' after => ?_
      cases x' with
      | again => exact ih after
      | done => exact .done after
  refine CoverYields.lifted (R := fun x y => x = t.first ∧ y = t.second)
    (fun p q state _ => .passes state ⟨rfl, rfl⟩) ?_
  rintro _ _ ⟨rfl, rfl⟩
  rw [t.texts.agree.size]
  exact loop _ before

end ScriptSyntax.Tandem
