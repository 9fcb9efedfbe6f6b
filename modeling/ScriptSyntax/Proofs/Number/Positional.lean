import Mathlib.Algebra.Order.Field.Rat
import Mathlib.Data.List.Induction
import Mathlib.Data.List.TakeWhile
import Mathlib.Tactic.FieldSimp
import Mathlib.Tactic.Linarith
import Mathlib.Tactic.Ring
import ScriptSyntax.Number.Decimal

/-!
Doubles that differ are written differently.  The shortest decimal of a double lies in the stretch of rationals that
round to it, and the stretches of two doubles have no point in common.
-/

namespace ScriptSyntax
namespace Number

theorem roundDiv_cases (n d : Nat) : roundDiv n d = n / d ∨ roundDiv n d = n / d + 1 := by
  simp only [roundDiv]
  split
  · exact .inr rfl
  · exact .inl rfl

namespace Double

/-- The double is in the form in which values are kept. -/
inductive IsCanonical : Double → Prop where
  | finite {m e : Nat} (small : m < 2 ^ 53) (large : e = 0 ∨ 2 ^ 52 ≤ m) : IsCanonical (finite m e)
  | infinite : IsCanonical infinite

variable {m m' e e' n : Nat} {x : ℚ} {power : Int} {point : GridPoint}

/-! ### The form in which values are kept -/

theorem isCanonical_ofParts (small : m < 2 ^ 53) (large : e = 0 ∨ 2 ^ 52 ≤ m) : (ofParts m e).IsCanonical := by
  unfold ofParts
  split
  · exact .infinite
  · exact .finite small large

theorem isCanonical_ofRatio (num den : Nat) : (ofRatio num den).IsCanonical := by
  unfold ofRatio
  generalize num * scale = scaled
  dsimp only
  generalize exponent : bitLength (scaled / den) - 53 = e
  have quotient : scaled / (den * Nat.pow 2 e) = scaled / den / 2 ^ e := (Nat.div_div_eq_div_mul ..).symm
  obtain ⟨small, large⟩ : scaled / den / 2 ^ e < 2 ^ 53 ∧ (e = 0 ∨ 2 ^ 52 ≤ scaled / den / 2 ^ e) := by
    unfold bitLength at exponent
    split at exponent
    · next zero =>
      rw [zero, Nat.zero_div]
      exact ⟨by decide, .inl exponent.symm⟩
    · next nonzero =>
      have below := Nat.lt_log2_self (n := scaled / den)
      have above := Nat.log2_self_le nonzero
      generalize scaled / den = q at *
      constructor
      · rw [Nat.div_lt_iff_lt_mul (Nat.pow_pos (by decide)), ← Nat.pow_add]
        exact Nat.lt_of_lt_of_le below (Nat.pow_le_pow_right (by decide) (by omega))
      · by_cases none : e = 0
        · exact .inl none
        · right
          rw [Nat.le_div_iff_mul_le (Nat.pow_pos (by decide)), ← Nat.pow_add]
          exact Nat.le_trans (Nat.pow_le_pow_right (by decide) (by omega)) above
  obtain same | more := roundDiv_cases scaled (den * Nat.pow 2 e)
  · rw [same, quotient]
    split
    · next full => exact absurd full (Nat.ne_of_lt small)
    · exact isCanonical_ofParts small large
  · rw [more, quotient]
    split
    · exact isCanonical_ofParts (by decide) (.inr (Nat.le_refl _))
    · next other =>
      have other : scaled / den / 2 ^ e + 1 ≠ 2 ^ 53 := other
      exact isCanonical_ofParts (by omega) (by omega)

theorem isCanonical_ofDigits (radix : Nat) (digits : List Nat) : (ofDigits radix digits).IsCanonical := by
  have step (d : Double) (n : Nat) : (d.addNat n).IsCanonical := by
    fun_cases addNat d n
    · exact .infinite
    · exact isCanonical_ofRatio ..
  induction digits using List.reverseRecOn with
  | nil => exact .finite (by decide) (.inl rfl)
  | append_singleton digits digit _ =>
    rw [ofDigits, List.foldl_append]
    exact step ..

theorem scale_pos : 0 < scale := by decide +kernel

theorem scale_isPow : ∃ l, scale = Nat.pow 2 l := ⟨1074, by decide +kernel⟩

theorem pow_split {k l : Nat} (le : k ≤ l) : Nat.pow 2 l = Nat.pow 2 (l - k) * Nat.pow 2 k := by
  show 2 ^ l = 2 ^ (l - k) * 2 ^ k
  rw [← Nat.pow_add, Nat.sub_add_cancel le]

/-! ### Stretches -/

/-- The middle of the gap below a double, over `4 * scale`.  Below a power of two the gap is half as wide. -/
def lowerEnd (m e : Nat) : Nat := (4 * m - if m = Nat.pow 2 52 ∧ 0 < e then 1 else 2) * Nat.pow 2 e

/-- The middle of the gap above a double, over `4 * scale`. -/
def upperEnd (m e : Nat) : Nat := (4 * m + 2) * Nat.pow 2 e

/-- The rational rounds to the double: it lies between the middles of the gaps around it, and on one only if the
significand is even. -/
def Rounds (m e : Nat) (x : ℚ) : Prop :=
  if m % 2 = 0 then (lowerEnd m e : ℚ) ≤ x * (4 * scale) ∧ x * (4 * scale) ≤ upperEnd m e
  else (lowerEnd m e : ℚ) < x * (4 * scale) ∧ x * (4 * scale) < upperEnd m e

/-- The stretch of a double ends where that of a later one begins, or before; they do not both have the end. -/
theorem upperEnd_le (canonical : (finite m e).IsCanonical) (canonical' : (finite m' e').IsCanonical)
    (before : e < e' ∨ e = e' ∧ m < m') :
    upperEnd m e ≤ lowerEnd m' e' ∧ (m % 2 = 0 → m' % 2 = 0 → upperEnd m e < lowerEnd m' e') := by
  obtain ⟨small, large⟩ := canonical
  obtain ⟨small', large'⟩ := canonical'
  unfold upperEnd lowerEnd
  obtain later | ⟨rfl, lt⟩ := before
  · obtain ⟨k, rfl⟩ := Nat.exists_eq_add_of_lt later
    have large' : 2 ^ 52 ≤ m' := large'.resolve_left (by omega)
    have wide : 2 * Nat.pow 2 e ≤ Nat.pow 2 (e + k + 1) := by
      show 2 * 2 ^ e ≤ 2 ^ (e + k + 1)
      rw [Nat.mul_comm, ← pow_succ]
      exact Nat.pow_le_pow_right (by decide) (by omega)
    have positive : 0 < Nat.pow 2 e := Nat.pow_pos (by decide)
    have scaled (c : Nat) : 2 * c * Nat.pow 2 e ≤ c * Nat.pow 2 (e + k + 1) := by
      have := Nat.mul_le_mul_left c wide
      rwa [← Nat.mul_assoc, Nat.mul_comm c 2] at this
    refine ⟨Nat.le_trans (Nat.mul_le_mul_right _ ?_) (scaled _), fun even _ =>
      Nat.lt_of_lt_of_le (Nat.mul_lt_mul_of_pos_right ?_ positive) (scaled _)⟩
    · show _ ≤ 2 * (4 * m' - if m' = 2 ^ 52 ∧ _ then 1 else 2)
      split <;> omega
    · show _ < 2 * (4 * m' - if m' = 2 ^ 52 ∧ _ then 1 else 2)
      split <;> omega
  · have width : (if m' = Nat.pow 2 52 ∧ 0 < e then 1 else 2) = 2 := if_neg fun ⟨least, positive⟩ => by
      have least : m' = 2 ^ 52 := least
      omega
    rw [width]
    refine ⟨Nat.mul_le_mul_right _ (by omega), fun even even' => ?_⟩
    exact Nat.mul_lt_mul_of_pos_right (by omega) (Nat.pow_pos (by decide))

/-- No rational rounds to two doubles. -/
theorem Rounds.unique (canonical : (finite m e).IsCanonical) (canonical' : (finite m' e').IsCanonical)
    (rounds : Rounds m e x) (rounds' : Rounds m' e' x) : finite m e = finite m' e' := by
  have apart {m m' e e' : Nat} (canonical : (finite m e).IsCanonical) (canonical' : (finite m' e').IsCanonical)
      (before : e < e' ∨ e = e' ∧ m < m') (rounds : Rounds m e x) (rounds' : Rounds m' e' x) : False := by
    obtain ⟨le, lt⟩ := upperEnd_le canonical canonical' before
    have le : (upperEnd m e : ℚ) ≤ lowerEnd m' e' := by exact_mod_cast le
    unfold Rounds at rounds rounds'
    split at rounds <;> split at rounds'
    · next even even' =>
      have lt : (upperEnd m e : ℚ) < lowerEnd m' e' := by exact_mod_cast lt even even'
      linarith
    all_goals linarith
  by_contra differ
  obtain later | earlier | same : e < e' ∨ e' < e ∨ e = e' := by omega
  · exact apart canonical canonical' (.inl later) rounds rounds'
  · exact apart canonical' canonical (.inl earlier) rounds' rounds
  · obtain less | more | rfl : m < m' ∨ m' < m ∨ m = m' := by omega
    · exact apart canonical canonical' (.inr ⟨same, less⟩) rounds rounds'
    · exact apart canonical' canonical (.inr ⟨same.symm, more⟩) rounds' rounds
    · exact differ (same ▸ rfl)

/-- A double rounds to itself. -/
theorem rounds_self (m e : Nat) : Rounds m e ((m * Nat.pow 2 e : Nat) / scale) := by
  have unit : 0 < Nat.pow 2 e := Nat.pow_pos (by decide)
  have value : ((m * Nat.pow 2 e : Nat) : ℚ) / scale * (4 * scale) = ((4 * m * Nat.pow 2 e : Nat) : ℚ) := by
    have : (scale : ℚ) ≠ 0 := by exact_mod_cast scale_pos.ne'
    push_cast
    field_simp
  have below : lowerEnd m e ≤ 4 * m * Nat.pow 2 e := Nat.mul_le_mul_right _ (Nat.sub_le ..)
  have above : 4 * m * Nat.pow 2 e < upperEnd m e := Nat.mul_lt_mul_of_pos_right (by omega) unit
  unfold Rounds
  rw [value]
  split
  · exact ⟨by exact_mod_cast below, by exact_mod_cast above.le⟩
  · next odd =>
    have below : lowerEnd m e < 4 * m * Nat.pow 2 e := Nat.mul_lt_mul_of_pos_right (by split <;> omega) unit
    exact ⟨by exact_mod_cast below, by exact_mod_cast above⟩

/-! ### Shortest decimals -/

/-- The step of a decimal grid over `4 * scale`, as a fraction. -/
def gridStep : Int → Nat × Nat
  | .ofNat p => (Nat.pow 10 p * (4 * scale), 1)
  | .negSucc p => (4 * scale, Nat.pow 10 (p + 1))

theorem gridStep_eq (power : Int) : ((gridStep power).1 : ℚ) / (gridStep power).2 = 10 ^ power * (4 * scale) := by
  cases power with
  | ofNat p =>
    simp only [gridStep]
    generalize scale = unit
    simp
  | negSucc p =>
    simp only [gridStep, zpow_negSucc]
    generalize scale = unit
    push_cast
    field_simp
    norm_cast

/-- So many steps round to the double. -/
def readsBack (m e : Nat) (step : Nat × Nat) (n : Nat) : Bool :=
  if m % 2 = 0 then lowerEnd m e * step.2 ≤ n * step.1 && n * step.1 ≤ upperEnd m e * step.2
  else lowerEnd m e * step.2 < n * step.1 && n * step.1 < upperEnd m e * step.2

theorem gridStep_pos (power : Int) : 0 < (gridStep power).2 := by
  cases power with
  | ofNat => exact Nat.one_pos
  | negSucc => exact Nat.pow_pos (by decide)

theorem rounds_of_readsBack (reads : readsBack m e (gridStep power) n = true) : Rounds m e (n * 10 ^ power) := by
  have positive : (0 : ℚ) < (gridStep power).2 := by exact_mod_cast gridStep_pos power
  have value : (n : ℚ) * 10 ^ power * (4 * scale) = n * (gridStep power).1 / (gridStep power).2 := by
    rw [mul_assoc, ← gridStep_eq]
    ring
  unfold readsBack at reads
  unfold Rounds
  rw [value]
  split at reads <;> simp only [Bool.and_eq_true, decide_eq_true_eq] at reads
  · next even =>
    rw [if_pos even, le_div_iff₀ positive, div_le_iff₀ positive]
    exact_mod_cast reads
  · next odd =>
    rw [if_neg odd, lt_div_iff₀ positive, div_lt_iff₀ positive]
    exact_mod_cast reads

/-- A point of a grid is one of two around the double. -/
theorem gridPoint?_eq (m e : Nat) (power : Int) : gridPoint? m e power =
    let value := 4 * m * Nat.pow 2 e
    let step := gridStep power
    let under := value * step.2 / step.1
    match readsBack m e step under, readsBack m e step (under + 1) with
    | true, true =>
      if value * step.2 - under * step.1 < (under + 1) * step.1 - value * step.2 then some ⟨under, power⟩
      else some ⟨under + 1, power⟩
    | true, false => some ⟨under, power⟩
    | false, true => some ⟨under + 1, power⟩
    | false, false => none := by
  cases power <;> rfl

theorem gridPoint?_rounds (found : gridPoint? m e power = some point) :
    Rounds m e (point.significand * 10 ^ point.exponent) := by
  rw [gridPoint?_eq] at found
  dsimp only at found
  split at found
  · next under above =>
    split at found <;> cases found
    · exact rounds_of_readsBack under
    · exact rounds_of_readsBack above
  · next under _ =>
    cases found
    exact rounds_of_readsBack under
  · next above =>
    cases found
    exact rounds_of_readsBack above
  · cases found

/-- The finest grid has a point that rounds to the double. -/
theorem gridPoint?_finest (positive : 0 < m) : (gridPoint? m e (-350)).isSome = true := by
  have unit : 0 < Nat.pow 2 e := Nat.pow_pos (by decide)
  -- The step is so small that not even the narrowest half of a gap fits into it.
  have fine : (gridStep (-350)).1 ≤ (gridStep (-350)).2 := by decide +kernel
  have wide : (gridStep (-350)).2 ≤ Nat.pow 2 e * (gridStep (-350)).2 := Nat.le_mul_of_pos_left _ unit
  have positive' : 0 < (gridStep (-350)).1 := by decide +kernel
  rw [gridPoint?_eq]
  generalize gridStep (-350) = step at fine wide positive' ⊢
  dsimp only
  generalize value : 4 * m * Nat.pow 2 e = v
  have below : lowerEnd m e + Nat.pow 2 e ≤ v := by
    rw [← value, lowerEnd, ← Nat.succ_mul]
    exact Nat.mul_le_mul_right _ (by split <;> omega)
  have above : v < upperEnd m e := value ▸ Nat.mul_lt_mul_of_pos_right (by omega) unit
  have under : v * step.2 / step.1 * step.1 ≤ v * step.2 := Nat.div_mul_le_self ..
  have next : v * step.2 < v * step.2 / step.1 * step.1 + step.1 := Nat.lt_div_mul_add positive'
  have low : lowerEnd m e * step.2 < v * step.2 / step.1 * step.1 := by
    have := Nat.mul_le_mul_right step.2 below
    rw [Nat.add_mul] at this
    omega
  have high : v * step.2 / step.1 * step.1 < upperEnd m e * step.2 :=
    Nat.lt_of_le_of_lt under (Nat.mul_lt_mul_of_pos_right above (by omega))
  have reads : readsBack m e step (v * step.2 / step.1) = true := by
    unfold readsBack
    split <;> simp [low, high, low.le, high.le]
  rw [reads]
  split
  · split <;> rfl
  all_goals simp_all

theorem coarsest?_rounds {fuel : Nat} (found : coarsest? m e fuel power = some point) :
    Rounds m e (point.significand * 10 ^ point.exponent) := by
  induction fuel generalizing power with
  | zero => cases found
  | succ fuel ih =>
    rw [coarsest?] at found
    split at found
    · next hit =>
      cases found
      exact gridPoint?_rounds hit
    · exact ih found

theorem coarsest?_isSome {fuel k : Nat} (hit : (gridPoint? m e (power - k)).isSome = true) (enough : k < fuel) :
    (coarsest? m e fuel power).isSome = true := by
  induction fuel generalizing power k with
  | zero => omega
  | succ fuel ih =>
    rw [coarsest?]
    split
    · rfl
    · next missed =>
      cases k with
      | zero => simp [missed] at hit
      | succ k => exact ih (k := k) (by rwa [show power - 1 - (k : Int) = power - (k + 1 : Nat) by omega]) (by omega)

/-- A positive double has a shortest decimal, which rounds to it. -/
theorem exists_shortest (e : Nat) (positive : 0 < m) : ∃ point, (finite m e).shortest? = some point ∧
    Rounds m e (point.significand * 10 ^ point.exponent) := by
  have finest : (gridPoint? m e (309 - (659 : Nat))).isSome = true := gridPoint?_finest positive
  have found : (coarsest? m e 660 309).isSome = true := coarsest?_isSome finest (by decide)
  obtain ⟨point, found⟩ := Option.isSome_iff_exists.mp found
  exact ⟨point, found, coarsest?_rounds found⟩

/-! ### Decimals as they are written -/

/-- The rational that a decimal without exponent writes. -/
def written (text : List Char) : ℚ :=
  Nat.ofDigitChars 10 (text.filter (· != '.')) 0 / 10 ^ (text.dropWhile (· != '.')).tail.length

theorem digits_ne_point {n : Nat} : ∀ c ∈ Nat.toDigits 10 n, (c != '.') = true := fun c mem => by
  have digit := Nat.isDigit_of_mem_toDigits (by decide) (by decide) mem
  rw [bne_iff_ne]
  rintro rfl
  cases digit

theorem written_toDigits (n : Nat) : written (Nat.toDigits 10 n) = n := by
  have whole : (Nat.toDigits 10 n).filter (· != '.') = Nat.toDigits 10 n := List.filter_eq_self.mpr digits_ne_point
  have none : (Nat.toDigits 10 n).dropWhile (· != '.') = [] := List.dropWhile_eq_nil_iff.mpr digits_ne_point
  simp [written, whole, none]

/-- A decimal is written as what it stands for. -/
theorem written_positional (point : GridPoint) :
    written point.positional.toList = point.significand * 10 ^ point.exponent := by
  obtain ⟨n, power⟩ := point
  have digits := digits_ne_point (n := n)
  have whole : (Nat.toDigits 10 n).filter (· != '.') = Nat.toDigits 10 n := List.filter_eq_self.mpr digits
  cases power with
  | ofNat power =>
    have zeros : ∀ c ∈ List.replicate power '0', (c != '.') = true := fun c mem => by
      rw [List.eq_of_mem_replicate mem]
      rfl
    have none : (Nat.toDigits 10 n ++ List.replicate power '0').dropWhile (· != '.') = [] :=
      List.dropWhile_eq_nil_iff.mpr fun c mem => (List.mem_append.mp mem).elim (digits c) (zeros c)
    simp [GridPoint.positional, written, none, whole, List.filter_eq_self.mpr zeros, Nat.ofDigitChars_append]
    ring
  | negSucc power =>
    rw [zpow_negSucc, ← div_eq_mul_inv]
    simp only [GridPoint.positional]
    split
    · next inner =>
      have before : ∀ c ∈ (Nat.toDigits 10 n).take ((Nat.toDigits 10 n).length - (power + 1)), (c != '.') = true :=
        fun c mem => digits c (List.mem_of_mem_take mem)
      have behind : ∀ c ∈ (Nat.toDigits 10 n).drop ((Nat.toDigits 10 n).length - (power + 1)), (c != '.') = true :=
        fun c mem => digits c (List.mem_of_mem_drop mem)
      have places : (Nat.toDigits 10 n).length - ((Nat.toDigits 10 n).length - (power + 1)) = power + 1 := by omega
      simp [written, List.dropWhile_append_of_pos before, List.filter_eq_self.mpr before,
        List.filter_eq_self.mpr behind, places]
    · next outer =>
      have zeros : ∀ c ∈ List.replicate (power + 1 - (Nat.toDigits 10 n).length) '0', (c != '.') = true := by
        intro c mem
        rw [List.eq_of_mem_replicate mem]
        rfl
      have places : power + 1 - (Nat.toDigits 10 n).length + (Nat.toDigits 10 n).length = power + 1 := by omega
      simp [written, List.filter_eq_self.mpr zeros, whole, Nat.ofDigitChars_cons, Nat.ofDigitChars_append, places]

/-- Only digits and a point are written. -/
theorem mem_positional {c : Char} (mem : c ∈ point.positional.toList) : c.isDigit = true ∨ c = '.' := by
  obtain ⟨n, power⟩ := point
  have digit {c : Char} (mem : c ∈ Nat.toDigits 10 n) : c.isDigit = true :=
    Nat.isDigit_of_mem_toDigits (by decide) (by decide) mem
  cases power with
  | ofNat power =>
    simp only [GridPoint.positional, String.toList_ofList, List.mem_append, List.mem_replicate] at mem
    obtain mem | ⟨-, rfl⟩ := mem
    · exact .inl (digit mem)
    · exact .inl rfl
  | negSucc power =>
    simp only [GridPoint.positional] at mem
    split at mem
    · simp only [String.toList_ofList, List.mem_append, List.mem_cons] at mem
      obtain mem | rfl | mem := mem
      · exact .inl (digit (List.mem_of_mem_take mem))
      · exact .inr rfl
      · exact .inl (digit (List.mem_of_mem_drop mem))
    · simp only [String.toList_ofList, List.cons_append, List.mem_append, List.mem_cons, List.mem_replicate] at mem
      obtain rfl | rfl | ⟨-, rfl⟩ | mem := mem
      · exact .inl rfl
      · exact .inr rfl
      · exact .inl rfl
      · exact .inl (digit mem)

/-! ### Whole doubles -/

theorem toNat?_eq_some_iff : (finite m e).toNat? = some n ↔ m * Nat.pow 2 e = n * scale := by
  show (if (finite m e).scaled % scale = 0 then some ((finite m e).scaled / scale) else none) = some n ↔
    (finite m e).scaled = n * scale
  generalize (finite m e).scaled = v
  constructor
  · intro whole
    split at whole
    · next divides =>
      cases whole
      exact (Nat.div_mul_cancel (Nat.dvd_of_mod_eq_zero divides)).symm
    · cases whole
  · intro same
    rw [same, if_pos (Nat.mul_mod_left ..), Nat.mul_div_cancel _ scale_pos]

theorem Rounds.between (rounds : Rounds m e x) :
    (lowerEnd m e : ℚ) ≤ x * (4 * scale) ∧ x * (4 * scale) ≤ upperEnd m e := by
  unfold Rounds at rounds
  split at rounds
  · exact rounds
  · exact ⟨rounds.1.le, rounds.2.le⟩

/-- Only to a whole double does a natural number round. -/
theorem Rounds.isWhole (rounds : Rounds m e n) : ∃ k, (finite m e).toNat? = some k := by
  obtain ⟨l, power⟩ := scale_isPow
  obtain lt | le := Nat.lt_or_ge l e
  · refine ⟨m * Nat.pow 2 (e - l), toNat?_eq_some_iff.mpr ?_⟩
    have split : Nat.pow 2 e = Nat.pow 2 (e - l) * scale := power ▸ pow_split lt.le
    rw [split, Nat.mul_assoc]
  · have split : scale = Nat.pow 2 (l - e) * Nat.pow 2 e := power ▸ pow_split le
    have unit : 0 < Nat.pow 2 e := Nat.pow_pos (by decide)
    obtain ⟨low, high⟩ := rounds.between
    have low : lowerEnd m e ≤ n * (4 * scale) := by exact_mod_cast low
    have high : n * (4 * scale) ≤ upperEnd m e := by exact_mod_cast high
    have value : n * (4 * scale) = 4 * (n * Nat.pow 2 (l - e)) * Nat.pow 2 e := by
      rw [split]
      ring
    rw [value] at low high
    have low := Nat.le_of_mul_le_mul_right low unit
    have high := Nat.le_of_mul_le_mul_right high unit
    refine ⟨n, toNat?_eq_some_iff.mpr ?_⟩
    have same : m = n * Nat.pow 2 (l - e) := by
      split at low <;> omega
    rw [split, ← Nat.mul_assoc, ← same]

/-- What rounds to a whole double is at least half of it. -/
theorem Rounds.half_le (rounds : Rounds m e x) (whole : (finite m e).toNat? = some n) : (n : ℚ) ≤ 2 * x := by
  have whole := toNat?_eq_some_iff.mp whole
  have half : 2 * (m * Nat.pow 2 e) ≤ lowerEnd m e := by
    rw [← Nat.mul_assoc]
    exact Nat.mul_le_mul_right _ (by split <;> omega)
  have half : (2 * (n * scale) : ℚ) ≤ lowerEnd m e := by exact_mod_cast whole ▸ half
  have positive : (0 : ℚ) < scale := by exact_mod_cast scale_pos
  have between := half.trans rounds.between.1
  exact le_of_mul_le_mul_right (by linarith) positive

/-- Doubles in the form in which values are kept are known by their values. -/
theorem IsCanonical.eq_of_toNat? {a b : Double} (canonical : a.IsCanonical) (canonical' : b.IsCanonical)
    (whole : a.toNat? = some n) (whole' : b.toNat? = some n) : a = b := by
  cases a with
  | infinite => cases whole
  | finite m e =>
    cases b with
    | infinite => cases whole'
    | finite m' e' =>
      have same : m * Nat.pow 2 e = m' * Nat.pow 2 e' :=
        (toNat?_eq_some_iff.mp whole).trans (toNat?_eq_some_iff.mp whole').symm
      exact (same ▸ rounds_self m e).unique canonical canonical' (rounds_self m' e')

end Double

theorem Decimal.isCanonical_toDouble (d : Decimal) : d.toDouble.IsCanonical := by
  unfold Decimal.toDouble
  dsimp only
  split
  · exact .finite (by decide) (.inl rfl)
  split
  · exact .infinite
  split
  · exact .finite (by decide) (.inl rfl)
  split <;> exact Double.isCanonical_ofRatio ..

end Number
end ScriptSyntax
