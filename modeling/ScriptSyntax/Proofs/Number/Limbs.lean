import Mathlib.Data.List.Induction
import Mathlib.Tactic.LinearCombination
import Mathlib.Tactic.Ring
import ScriptSyntax.Number.Digits

/-!
The conversion of big integers is exact.  Limbs stand for a number in base `10^9`; a digit more multiplies
that number by the radix and adds the digit, and no machine word overflows on the way.
-/

namespace ScriptSyntax
namespace Number

variable {radix carry digit limb : UInt64} {limbs : List UInt64} {n k : Nat}

/-! ### What limbs stand for -/

/-- The number that limbs stand for, the least significant first. -/
def limbsValue : List UInt64 → Nat
  | [] => 0
  | limb :: limbs => limb.toNat + 1000000000 * limbsValue limbs

@[simp] theorem limbsValue_nil : limbsValue [] = 0 := rfl

@[simp] theorem limbsValue_cons : limbsValue (limb :: limbs) = limb.toNat + 1000000000 * limbsValue limbs := rfl

theorem limbsValue_append (limbs above : List UInt64) :
    limbsValue (limbs ++ above) = limbsValue limbs + 1000000000 ^ limbs.length * limbsValue above := by
  induction limbs with
  | nil => simp
  | cons limb limbs ih =>
    rw [List.cons_append, limbsValue_cons, limbsValue_cons, ih, List.length_cons, pow_succ']
    ring

/-- Nine decimal digits hold a limb. -/
def AreLimbs (limbs : List UInt64) : Prop := ∀ limb ∈ limbs, limb.toNat < 1000000000

theorem AreLimbs.value_lt (small : AreLimbs limbs) : limbsValue limbs < 1000000000 ^ limbs.length := by
  induction limbs with
  | nil => simp
  | cons limb limbs ih =>
    have first := small limb (.head _)
    have rest := ih fun limb mem => small limb (.tail _ mem)
    rw [limbsValue_cons, List.length_cons, pow_succ']
    omega

/-- Limbs with none too many: without the last they would not do. -/
structure Tight (limbs : List UInt64) : Prop where
  nonempty : limbs ≠ []
  areLimbs : AreLimbs limbs
  least : 1 < limbs.length → 1000000000 ^ (limbs.length - 1) ≤ limbsValue limbs

/-! ### One digit more -/

/-- What each limb comes to before it is reduced, as natural numbers.  The carries are those of the machine. -/
def limbTotals (radix : UInt64) : List UInt64 → UInt64 → List Nat
  | [], _ => []
  | limb :: limbs, carry =>
    (limb.toNat * radix.toNat + carry.toNat) ::
      limbTotals radix limbs ((limb * radix + carry) / limbBase)

/-- A limb and a carry below the radix come to a word. -/
theorem total_lt (small : limb.toNat < 1000000000) (below : carry.toNat < radix.toNat) :
    limb.toNat * radix.toNat + carry.toNat < radix.toNat * 1000000000 := by
  have product : limb.toNat * radix.toNat ≤ (1000000000 - 1) * radix.toNat := Nat.mul_le_mul_right _ (by omega)
  omega

theorem toNat_total (small : limb.toNat < 1000000000) (low : radix.toNat ≤ 16) (below : carry.toNat < radix.toNat) :
    (limb * radix + carry).toNat = limb.toNat * radix.toNat + carry.toNat := by
  have bound := total_lt small below
  rw [UInt64.toNat_add, UInt64.toNat_mul, Nat.mod_add_mod, Nat.mod_eq_of_lt (by omega)]

/-- The carry to the next limb is again below the radix. -/
theorem toNat_nextCarry (small : limb.toNat < 1000000000) (low : radix.toNat ≤ 16) (below : carry.toNat < radix.toNat) :
    ((limb * radix + carry) / limbBase).toNat = (limb.toNat * radix.toNat + carry.toNat) / 1000000000 ∧
    ((limb * radix + carry) / limbBase).toNat < radix.toNat := by
  have quotient : ((limb * radix + carry) / limbBase).toNat =
      (limb.toNat * radix.toNat + carry.toNat) / 1000000000 := by
    rw [UInt64.toNat_div, toNat_total small low below]
    rfl
  exact ⟨quotient, quotient ▸ Nat.div_lt_of_lt_mul (by have := total_lt small below; omega)⟩

theorem limbTotals_lt (small : AreLimbs limbs) (low : radix.toNat ≤ 16) (below : carry.toNat < radix.toNat) :
    ∀ total ∈ limbTotals radix limbs carry, total < 2 ^ 64 := by
  induction limbs generalizing carry with
  | nil => simp [limbTotals]
  | cons limb limbs ih =>
    have first := small limb (.head _)
    have bound := total_lt first below
    have rest := ih (fun limb mem => small limb (.tail _ mem)) (toNat_nextCarry first low below).2
    intro total mem
    obtain rfl | mem := List.mem_cons.1 mem
    · omega
    · exact rest total mem

theorem carryThrough_value (small : AreLimbs limbs) (low : radix.toNat ≤ 16) (below : carry.toNat < radix.toNat) :
    AreLimbs (carryThrough radix limbs carry).1 ∧
    (carryThrough radix limbs carry).1.length = limbs.length ∧
    limbsValue (carryThrough radix limbs carry).1 +
      1000000000 ^ limbs.length * (carryThrough radix limbs carry).2.toNat =
        limbsValue limbs * radix.toNat + carry.toNat := by
  induction limbs generalizing carry with
  | nil => simp [carryThrough, AreLimbs]
  | cons limb limbs ih =>
    have first := small limb (.head _)
    obtain ⟨quotient, lower⟩ := toNat_nextCarry first low below
    obtain ⟨rest, length, value⟩ := ih (fun limb mem => small limb (.tail _ mem)) lower
    have remainder : ((limb * radix + carry) % limbBase).toNat =
        (limb.toNat * radix.toNat + carry.toNat) % 1000000000 := by
      rw [UInt64.toNat_mod, toNat_total first low below]
      rfl
    refine ⟨fun l mem => ?_, by simpa [carryThrough] using length, ?_⟩
    · obtain rfl | mem := List.mem_cons.1 mem
      · rw [remainder]
        exact Nat.mod_lt _ (by decide)
      · exact rest l mem
    · have split := Nat.div_add_mod (limb.toNat * radix.toNat + carry.toNat) 1000000000
      simp only [carryThrough, limbsValue_cons, List.length_cons, remainder, pow_succ']
      rw [quotient] at value
      linear_combination split + 1000000000 * value

theorem carryLimbs_value (carry : UInt64) :
    AreLimbs (carryLimbs carry) ∧ limbsValue (carryLimbs carry) = carry.toNat ∧
    (carry ≠ 0 → 1000000000 ^ ((carryLimbs carry).length - 1) ≤ carry.toNat) := by
  induction carry using carryLimbs.induct with
  | case1 => simp [carryLimbs, AreLimbs]
  | case2 carry nonzero ih =>
    obtain ⟨rest, value, least⟩ := ih
    have quotient : (carry / limbBase).toNat = carry.toNat / 1000000000 := UInt64.toNat_div ..
    have remainder : (carry % limbBase).toNat = carry.toNat % 1000000000 := UInt64.toNat_mod ..
    have split := Nat.div_add_mod carry.toNat 1000000000
    have positive : carry.toNat ≠ 0 := fun zero => nonzero (UInt64.toNat_inj.1 zero)
    rw [carryLimbs, if_neg nonzero]
    refine ⟨fun l mem => ?_, ?_, fun _ => ?_⟩
    · obtain rfl | mem := List.mem_cons.1 mem
      · rw [remainder]
        exact Nat.mod_lt _ (by decide)
      · exact rest l mem
    · rw [limbsValue_cons, value, quotient, remainder]
      omega
    · rw [List.length_cons, Nat.add_sub_cancel]
      cases more : carryLimbs (carry / limbBase) with
      | nil => simpa using Nat.one_le_iff_ne_zero.2 positive
      | cons limb limbs =>
        have further : carry / limbBase ≠ 0 := by
          intro zero
          rw [zero, carryLimbs, if_pos rfl] at more
          cases more
        have bound := least further
        rw [more, quotient, List.length_cons, Nat.add_sub_cancel] at bound
        rw [List.length_cons, pow_succ']
        omega

/-- A digit more multiplies by the radix and adds the digit, and leaves no limb too many. -/
theorem pushDigit_value (tight : Tight limbs) (low : radix.toNat ≤ 16) (below : digit.toNat < radix.toNat) :
    Tight (pushDigit radix limbs digit) ∧
    limbsValue (pushDigit radix limbs digit) = limbsValue limbs * radix.toNat + digit.toNat := by
  obtain ⟨small, length, value⟩ := carryThrough_value tight.areLimbs low below
  obtain ⟨above, carried, least⟩ := carryLimbs_value (carryThrough radix limbs digit).2
  have total : limbsValue (pushDigit radix limbs digit) = limbsValue limbs * radix.toNat + digit.toNat := by
    simp only [pushDigit, limbsValue_append, length, carried, value]
  refine ⟨⟨?_, ?_, fun several => ?_⟩, total⟩
  · refine List.append_ne_nil_of_left_ne_nil (List.ne_nil_of_length_pos ?_) _
    rw [length]
    exact List.length_pos_iff.2 tight.nonempty
  · intro l mem
    exact (List.mem_append.1 mem).elim (small l) (above l)
  · by_cases nothing : (carryThrough radix limbs digit).2 = 0
    · -- The number has grown, the limbs are as many as before.
      have same : (pushDigit radix limbs digit).length = limbs.length := by
        have none : carryLimbs (carryThrough radix limbs digit).2 = [] := by rw [nothing, carryLimbs, if_pos rfl]
        simp only [pushDigit, none, List.append_nil, length]
      rw [total, same]
      have grown : limbsValue limbs * 1 ≤ limbsValue limbs * radix.toNat := Nat.mul_le_mul_left _ (by omega)
      have before := tight.least (same ▸ several)
      omega
    · -- What is left of the carry stands for more than all limbs before it can hold.
      have more : 0 < (carryLimbs (carryThrough radix limbs digit).2).length := by
        rw [carryLimbs, if_neg nothing]
        exact Nat.succ_pos _
      have longer : (pushDigit radix limbs digit).length - 1 =
          limbs.length + ((carryLimbs (carryThrough radix limbs digit).2).length - 1) := by
        simp only [pushDigit, List.length_append, length]
        omega
      calc 1000000000 ^ ((pushDigit radix limbs digit).length - 1)
          = 1000000000 ^ limbs.length * 1000000000 ^ ((carryLimbs (carryThrough radix limbs digit).2).length - 1) := by
            rw [longer, pow_add]
        _ ≤ 1000000000 ^ limbs.length * (carryThrough radix limbs digit).2.toNat :=
            Nat.mul_le_mul_left _ (least nothing)
        _ ≤ limbsValue (pushDigit radix limbs digit) := by
            rw [total, ← value]
            exact Nat.le_add_left _ _

/-! ### All digits -/

/-- A radix whose digits become limbs. -/
def IsRadix (radix : Nat) : Prop := 2 ≤ radix ∧ radix ≤ 16

theorem toNat_toUInt64 (small : n ≤ 16) : n.toUInt64.toNat = n :=
  Nat.mod_eq_of_lt (by omega)

theorem limbsOfDigits_append_singleton (radix digit : Nat) (digits : List Nat) :
    limbsOfDigits radix (digits ++ [digit]) =
      pushDigit radix.toUInt64 (limbsOfDigits radix digits) digit.toUInt64 := by
  simp [limbsOfDigits]

theorem limbsOfDigits_value {radix : Nat} {digits : List Nat} (small : IsRadix radix)
    (below : ∀ n ∈ digits, n < radix) :
    Tight (limbsOfDigits radix digits) ∧ limbsValue (limbsOfDigits radix digits) = natOfDigits radix digits := by
  induction digits using List.reverseRecOn with
  | nil => exact ⟨⟨List.cons_ne_nil _ _, by simp [limbsOfDigits, AreLimbs], by simp [limbsOfDigits]⟩, rfl⟩
  | append_singleton digits digit ih =>
    obtain ⟨tight, value⟩ := ih fun n mem => below n (List.mem_append_left _ mem)
    have last : digit < radix := below digit (by simp)
    have radixWord := toNat_toUInt64 small.2
    have digitWord : digit.toUInt64.toNat = digit := toNat_toUInt64 (by have := small.2; omega)
    have fits : radix.toUInt64.toNat ≤ 16 := by rw [radixWord]; exact small.2
    have lastFits : digit.toUInt64.toNat < radix.toUInt64.toNat := by rw [radixWord, digitWord]; exact last
    obtain ⟨tight', value'⟩ := pushDigit_value tight fits lastFits
    rw [limbsOfDigits_append_singleton]
    refine ⟨tight', ?_⟩
    rw [value', value, radixWord, digitWord, natOfDigits_append_singleton]

/-! ### Decimal digits -/

/-- Digits with zeros in front up to a width. -/
def padded (width n : Nat) : List Char :=
  List.replicate (width - (Nat.toDigits 10 n).length) '0' ++ Nat.toDigits 10 n

theorem padded_succ (positive : 0 < k) : padded (k + 1) n = padded k (n / 10) ++ [(n % 10).digitChar] := by
  by_cases single : n < 10
  · have rest : n / 10 = 0 := by omega
    have last : n % 10 = n := by omega
    obtain ⟨k, rfl⟩ : ∃ m, k = m + 1 := ⟨k - 1, by omega⟩
    simp [padded, rest, last, Nat.toDigits_of_lt_base single, List.replicate_succ']
  · have many := Nat.toDigits_of_base_le (b := 10) (n := n) (by decide) (by omega)
    simp [padded, many, Nat.add_sub_add_right]

/-- Below a number, so many further digits are padded. -/
theorem toDigits_mul_pow_add (positive : 0 < n) (wide : 0 < k) {low : Nat} (below : low < 10 ^ k) :
    Nat.toDigits 10 (n * 10 ^ k + low) = Nat.toDigits 10 n ++ padded k low := by
  induction k generalizing low with
  | zero => exact absurd wide (Nat.lt_irrefl 0)
  | succ k ih =>
    rw [pow_succ] at below
    have large : 10 ≤ n * 10 ^ (k + 1) + low := by
      have le : 1 * 10 ^ (k + 1) ≤ n * 10 ^ (k + 1) := Nat.mul_le_mul_right _ positive
      have ten : 10 ^ 1 ≤ 10 ^ (k + 1) := Nat.pow_le_pow_right (by decide) (by omega)
      omega
    have quotient : (n * 10 ^ (k + 1) + low) / 10 = n * 10 ^ k + low / 10 := by
      rw [pow_succ, ← Nat.mul_assoc]
      omega
    have remainder : (n * 10 ^ (k + 1) + low) % 10 = low % 10 := by
      rw [pow_succ, ← Nat.mul_assoc]
      omega
    rw [Nat.toDigits_of_base_le (by decide) large, quotient, remainder]
    rcases Nat.eq_zero_or_pos k with rfl | more
    · have single : low < 10 := by omega
      have rest : low / 10 = 0 := by omega
      have last : low % 10 = low := by omega
      simp [padded, rest, last, Nat.toDigits_of_lt_base single]
    · rw [ih more (by omega), padded_succ more, List.append_assoc]

theorem toDigits_foldl (positive : 0 < n) {below : List UInt64} (small : AreLimbs below) :
    Nat.toDigits 10 (below.foldl (fun value limb => limb.toNat + 1000000000 * value) n) =
      Nat.toDigits 10 n ++ below.flatMap paddedLimb := by
  induction below generalizing n with
  | nil => simp
  | cons limb below ih =>
    have first := small limb (.head _)
    have digits : Nat.toDigits 10 (limb.toNat + 1000000000 * n) = Nat.toDigits 10 n ++ paddedLimb limb := by
      rw [Nat.add_comm, Nat.mul_comm]
      exact toDigits_mul_pow_add (k := 9) positive (by decide) first
    rw [List.foldl_cons, ih (by omega) fun l mem => small l (.tail _ mem), digits, List.flatMap_cons, List.append_assoc]

theorem limbsValue_eq_foldl (limbs : List UInt64) :
    limbsValue limbs = limbs.reverse.foldl (fun value limb => limb.toNat + 1000000000 * value) 0 := by
  rw [List.foldl_reverse]
  induction limbs with
  | nil => rfl
  | cons limb limbs ih => rw [limbsValue_cons, List.foldr_cons, ih]

/-- Limbs are written as the number that they stand for. -/
theorem decimalOfLimbs_eq (tight : Tight limbs) : decimalOfLimbs limbs = Nat.toDigits 10 (limbsValue limbs) := by
  obtain ⟨below, top, rfl⟩ : ∃ below top, limbs = below ++ [top] :=
    ⟨_, _, (List.dropLast_concat_getLast tight.nonempty).symm⟩
  have small : AreLimbs below.reverse := fun l mem => tight.areLimbs l (by simp at mem; simp [mem])
  rw [limbsValue_eq_foldl, decimalOfLimbs, List.reverse_append]
  simp only [List.reverse_cons, List.reverse_nil, List.nil_append, List.cons_append, List.foldl_cons, Nat.mul_zero,
    Nat.add_zero]
  rcases Nat.eq_zero_or_pos top.toNat with zero | positive
  · cases below with
    | nil => simp
    | cons limb below =>
      have least := tight.least (by simp)
      have lower : AreLimbs (limb :: below) := fun l mem => tight.areLimbs l (List.mem_append_left _ mem)
      rw [limbsValue_append, List.length_append, List.length_singleton, Nat.add_sub_cancel] at least
      have nothing : limbsValue [top] = 0 := by simp [zero]
      rw [nothing, Nat.mul_zero, Nat.add_zero] at least
      exact absurd lower.value_lt (Nat.not_lt.2 least)
  · exact (toDigits_foldl positive small).symm

/-- Only zero is written with a zero in front. -/
theorem toDigits_head (zero : (Nat.toDigits 10 n).head? = some '0') : n = 0 := by
  induction n using Nat.strongRecOn with
  | ind n ih =>
    by_cases single : n < 10
    · rw [Nat.toDigits_of_lt_base single] at zero
      simpa using zero
    · rw [Nat.toDigits_of_base_le (by decide) (by omega), List.head?_append, Option.or_of_isSome (by simp)] at zero
      have := ih (n / 10) (by omega) zero
      omega

/-! ### Big integers with a radix -/

/-- The marks behind a zero that say the radix. -/
def radixMarks : List (Char × Nat) := [('x', 16), ('X', 16), ('o', 8), ('O', 8), ('b', 2), ('B', 2)]

/-- The digits of a big integer with a mark are converted to the decimal digits of the number that they write,
with no zero in front; and the exact total of each limb at each digit fits into 64 bits. -/
theorem decimalOfBigint_marked {mark : Char} {radix : Nat} (marked : (mark, radix) ∈ radixMarks) (body : List Char) :
    let digits := body.filterMap (Alphabet.digit? radix)
    decimalOfBigint ('0' :: mark :: body) = toString (natOfDigits radix digits) ∧
    ((decimalOfBigint ('0' :: mark :: body)).toList.head? = some '0' → natOfDigits radix digits = 0) ∧
    ∀ before digit after, digits = before ++ digit :: after →
      ∀ total ∈ limbTotals radix.toUInt64 (limbsOfDigits radix before) digit.toUInt64, total < 2 ^ 64 := by
  intro digits
  have small : IsRadix radix := by
    simp only [radixMarks, List.mem_cons, Prod.mk.injEq, List.not_mem_nil, or_false] at marked
    unfold IsRadix
    omega
  have below : ∀ n ∈ digits, n < radix := by
    intro n mem
    obtain ⟨c, -, digit⟩ := List.mem_filterMap.1 mem
    exact Alphabet.digit?_lt digit
  have converted : decimalOfBigint ('0' :: mark :: body) =
      String.ofList (decimalOfLimbs (limbsOfDigits radix digits)) := by
    simp only [radixMarks, List.mem_cons, Prod.mk.injEq, List.not_mem_nil, or_false] at marked
    rcases marked with ⟨rfl, rfl⟩ | ⟨rfl, rfl⟩ | ⟨rfl, rfl⟩ | ⟨rfl, rfl⟩ | ⟨rfl, rfl⟩ | ⟨rfl, rfl⟩ <;> rfl
  obtain ⟨tight, value⟩ := limbsOfDigits_value small below
  rw [decimalOfLimbs_eq tight, value] at converted
  refine ⟨converted, fun zero => toDigits_head (by simpa [converted] using zero), ?_⟩
  rintro before digit after same
  have tight' : Tight (limbsOfDigits radix before) :=
    (limbsOfDigits_value small fun n mem => below n (by simp [same, mem])).1
  have last : digit < radix := below digit (by simp [same])
  have radixWord := toNat_toUInt64 small.2
  have digitWord : digit.toUInt64.toNat = digit := toNat_toUInt64 (by have := small.2; omega)
  exact limbTotals_lt tight'.areLimbs (by rw [radixWord]; exact small.2) (by rw [radixWord, digitWord]; exact last)

/-- Leading zeros, letters of both cases and a limb of zeros in the middle. -/
theorem decimalOfBigint_marked_large :
    ('X', 16) ∈ radixMarks ∧ decimalOfBigint "0X00De0B6b3A7640000".toList = "1000000000000000000" := by
  have marked : ('X', 16) ∈ radixMarks := by decide
  have converted := (decimalOfBigint_marked marked "00De0B6b3A7640000".toList).1
  exact ⟨marked, converted.trans (by decide +kernel)⟩

end Number
end ScriptSyntax
