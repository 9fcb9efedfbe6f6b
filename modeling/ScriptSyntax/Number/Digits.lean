import ScriptSyntax.Alphabet

/-!
Positional notation of natural numbers, and big integers, which are known by their digits.  Digits of another radix
become decimal through limbs of nine decimal digits each, in machine words, the least significant limb first.
-/

namespace ScriptSyntax
namespace Number

/-- The natural number that digits of `radix` write, most significant first. -/
def natOfDigits (radix : Nat) (digits : List Nat) : Nat :=
  digits.foldl (fun total digit => total * radix + digit) 0

@[simp] theorem natOfDigits_nil (radix : Nat) : natOfDigits radix [] = 0 := rfl

theorem natOfDigits_append_singleton (radix digit : Nat) (digits : List Nat) :
    natOfDigits radix (digits ++ [digit]) = natOfDigits radix digits * radix + digit := by
  simp [natOfDigits]

/-! ### Big integers -/

/-- One more than the largest limb. -/
def limbBase : UInt64 := 1000000000

/-- Multiplies each limb by the radix and passes the carry on to the next; the second value is what
is left of it at the end. -/
def carryThrough (radix : UInt64) : List UInt64 → UInt64 → List UInt64 × UInt64
  | [], carry => ([], carry)
  | limb :: limbs, carry =>
    let total := limb * radix + carry
    let (limbs, carry) := carryThrough radix limbs (total / limbBase)
    (total % limbBase :: limbs, carry)

/-- The limbs of a carry. -/
def carryLimbs (carry : UInt64) : List UInt64 :=
  if carry = 0 then [] else carry % limbBase :: carryLimbs (carry / limbBase)
termination_by carry.toNat
decreasing_by
  rename_i nonzero
  have positive : carry.toNat ≠ 0 := fun zero => nonzero (UInt64.toNat_inj.1 zero)
  simp only [UInt64.toNat_div, limbBase, UInt64.reduceToNat]
  omega

/-- Puts one more digit behind those that the limbs stand for. -/
def pushDigit (radix : UInt64) (limbs : List UInt64) (digit : UInt64) : List UInt64 :=
  let (limbs, carry) := carryThrough radix limbs digit
  limbs ++ carryLimbs carry

/-- The limbs of the number that digits of `radix` write, most significant first. -/
def limbsOfDigits (radix : Nat) (digits : List Nat) : List UInt64 :=
  digits.foldl (fun limbs digit => pushDigit radix.toUInt64 limbs digit.toUInt64) [0]

/-- A limb with zeros in front up to nine digits. -/
def paddedLimb (limb : UInt64) : List Char :=
  let digits := Nat.toDigits 10 limb.toNat
  List.replicate (9 - digits.length) '0' ++ digits

/-- The decimal digits of limbs. -/
def decimalOfLimbs (limbs : List UInt64) : List Char :=
  match limbs.reverse with
  | [] => []
  | top :: below => Nat.toDigits 10 top.toNat ++ below.flatMap paddedLimb

/-- The decimal digits of a big integer whose digits may begin with a mark of another radix. -/
def decimalOfBigint (digits : List Char) : String :=
  let ofRadix (radix : Nat) (body : List Char) : String :=
    String.ofList (decimalOfLimbs (limbsOfDigits radix (body.filterMap (Alphabet.digit? radix))))
  match digits with
  | '0' :: 'x' :: body | '0' :: 'X' :: body => ofRadix 16 body
  | '0' :: 'o' :: body | '0' :: 'O' :: body => ofRadix 8 body
  | '0' :: 'b' :: body | '0' :: 'B' :: body => ofRadix 2 body
  | digits => String.ofList digits

example : decimalOfBigint "0xFFFFFFFFFFFFFFFFFFFF".toList = "1208925819614629174706175" := by
  decide +kernel
example : decimalOfBigint "0b0".toList = "0" := by decide +kernel

end Number
end ScriptSyntax
