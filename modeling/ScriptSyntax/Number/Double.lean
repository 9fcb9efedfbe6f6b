/-!
Numbers of double precision that are not negative, which are all that a literal can denote.  Every operation works on
exact quotients of natural numbers and rounds once, to the nearest double, ties to the even significand.
-/

namespace ScriptSyntax
namespace Number

/-! ### Division of natural numbers -/

def roundDiv (n d : Nat) : Nat :=
  let quotient := n / d
  let twice := 2 * (n % d)
  if d < twice ∨ (twice = d ∧ quotient % 2 = 1) then quotient + 1 else quotient

/-- The number of bits of a natural number. -/
def bitLength (n : Nat) : Nat := if n = 0 then 0 else n.log2 + 1

@[simp] theorem bitLength_zero : bitLength 0 = 0 := rfl

/-! ### Doubles -/

/-- `finite m e` is `m · 2^(e - 1074)`.  Values are kept in the form where `m` is below `2^53`, and
at least `2^52` unless `e` is zero. -/
inductive Double where
  | finite (significand exponent : Nat)
  | infinite
deriving DecidableEq, Inhabited, Repr

namespace Double

def zero : Double := finite 0 0

/-- The largest exponent of a finite double. -/
def maxExponent : Nat := 2045

/-- The denominator that all finite doubles share. -/
def scale : Nat := Nat.pow 2 1074

def ofParts (significand exponent : Nat) : Double :=
  if maxExponent < exponent then infinite else finite significand exponent

/-- The double nearest to `num / den`. -/
def ofRatio (num den : Nat) : Double :=
  let scaled := num * scale
  let exponent := bitLength (scaled / den) - 53
  let significand := roundDiv scaled (den * Nat.pow 2 exponent)
  if significand = Nat.pow 2 53 then ofParts (Nat.pow 2 52) (exponent + 1) else ofParts significand exponent

/-- The numerator over `scale`; zero stands in for infinity. -/
def scaled : Double → Nat
  | finite significand exponent => significand * Nat.pow 2 exponent
  | infinite => 0

def mulNat (d : Double) (n : Nat) : Double :=
  match d with
  | infinite => infinite
  | d => ofRatio (d.scaled * n) scale

def addNat (d : Double) (n : Nat) : Double :=
  match d with
  | infinite => infinite
  | d => ofRatio (d.scaled + n * scale) scale

/-- The value of digits of `radix`, most significant first, where every step rounds. -/
def ofDigits (radix : Nat) (digits : List Nat) : Double :=
  digits.foldl (fun total digit => (total.mulNat radix).addNat digit) zero

/-- The value as a natural number, if it is one. -/
def toNat? : Double → Option Nat
  | infinite => none
  | d => if d.scaled % scale = 0 then some (d.scaled / scale) else none

/-- The binary interchange encoding. -/
def bits : Double → Nat
  | finite significand exponent => exponent * Nat.pow 2 52 + significand
  | infinite => 0x7ff * Nat.pow 2 52

@[simp] theorem mulNat_infinite (n : Nat) : infinite.mulNat n = infinite := rfl
@[simp] theorem addNat_infinite (n : Nat) : infinite.addNat n = infinite := rfl
@[simp] theorem ofDigits_nil (radix : Nat) : ofDigits radix [] = zero := rfl
@[simp] theorem bits_zero : zero.bits = 0 := rfl

example : (ofRatio 1 1).bits = 0x3ff0000000000000 := by decide +kernel
example : (ofRatio 1 10).bits = 0x3fb999999999999a := by decide +kernel
example : (ofRatio (2 ^ 53 + 1) 1).toNat? = some (2 ^ 53) := by decide +kernel
example : ofRatio (2 ^ 1024) 1 = infinite := by decide +kernel

end Double
end Number
end ScriptSyntax
