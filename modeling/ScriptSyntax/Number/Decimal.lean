import ScriptSyntax.Alphabet
import ScriptSyntax.Number.Digits
import ScriptSyntax.Number.Double

/-!
Decimal notation of doubles: the nearest double to a written decimal, and the shortest decimal that
reads back as a given double.
-/

namespace ScriptSyntax
namespace Number

/-- The values of the decimal digits among `text`. -/
def decimalDigits (text : List Char) : List Nat := text.filterMap (Alphabet.digit? 10)

/-- `digits · 10^exponent`. -/
structure Decimal where
  digits : List Nat
  exponent : Int
deriving DecidableEq, Inhabited, Repr

namespace Decimal

/-- Reads `whole.fraction` with an optional exponent. -/
def ofText (text : List Char) : Decimal :=
  let whole := text.takeWhile Alphabet.isDecimalDigit
  let rest := text.dropWhile Alphabet.isDecimalDigit
  let (fraction, rest) :=
    match rest with
    | '.' :: rest => (rest.takeWhile Alphabet.isDecimalDigit, rest.dropWhile Alphabet.isDecimalDigit)
    | rest => ([], rest)
  let exponent : Int :=
    match rest with
    | _ :: '-' :: power => -(natOfDigits 10 (decimalDigits power) : Int)
    | _ :: power => natOfDigits 10 (decimalDigits power)
    | [] => 0
  ⟨decimalDigits (whole ++ fraction), exponent - fraction.length⟩

/-- The nearest double.  A decimal of magnitude outside `10^±400` is settled by its magnitude
alone. -/
def toDouble (d : Decimal) : Double :=
  let digits := d.digits.dropWhile (· == 0)
  let significand := natOfDigits 10 digits
  let magnitude := d.exponent + digits.length
  if significand = 0 then Double.zero
  else if magnitude > 400 then Double.infinite
  else if magnitude < -400 then Double.zero
  else
    match d.exponent with
    | .ofNat power => Double.ofRatio (significand * Nat.pow 10 power) 1
    | .negSucc power => Double.ofRatio significand (Nat.pow 10 (power + 1))

end Decimal

namespace Double

/-- `significand · 10^exponent`, tried as a decimal form of a double. -/
structure GridPoint where
  significand : Nat
  exponent : Int
deriving DecidableEq, Inhabited, Repr

/-- The point of the decimal grid `10^power` that lies nearest to the double among those that read
back as it, if any does.  The reals that round to a double reach half way to its neighbours, ends
included if its significand is even. -/
def gridPoint? (significand exponent : Nat) (power : Int) : Option GridPoint :=
  let value := 4 * significand * Nat.pow 2 exponent
  let below := if significand = Nat.pow 2 52 ∧ 0 < exponent then 1 else 2
  let low := (4 * significand - below) * Nat.pow 2 exponent
  let high := (4 * significand + 2) * Nat.pow 2 exponent
  let (num, den) : Nat × Nat :=
    match power with
    | .ofNat p => (Nat.pow 10 p * (4 * scale), 1)
    | .negSucc p => (4 * scale, Nat.pow 10 (p + 1))
  let readsBack (n : Nat) : Bool :=
    if significand % 2 = 0 then low * den ≤ n * num && n * num ≤ high * den
    else low * den < n * num && n * num < high * den
  let under := value * den / num
  let above := under + 1
  let pick (n : Nat) : Option GridPoint := some ⟨n, power⟩
  match readsBack under, readsBack above with
  | true, true => if value * den - under * num < above * num - value * den then pick under else pick above
  | true, false => pick under
  | false, true => pick above
  | false, false => none

/-- The first hit among ever finer grids. -/
def coarsest? (significand exponent : Nat) : Nat → Int → Option GridPoint
  | 0, _ => none
  | fuel + 1, power =>
    match gridPoint? significand exponent power with
    | some point => some point
    | none => coarsest? significand exponent fuel (power - 1)

/-- The shortest decimal that reads back as the double. -/
def shortest? : Double → Option GridPoint
  | infinite => none
  | finite significand exponent => coarsest? significand exponent 660 309

/-- A decimal without exponent. -/
def GridPoint.positional (point : GridPoint) : String :=
  let digits := (Nat.toDigits 10 point.significand)
  match point.exponent with
  | .ofNat power => String.ofList (digits ++ List.replicate power '0')
  | .negSucc power =>
    let places := power + 1
    if places < digits.length then
      String.ofList (digits.take (digits.length - places) ++ '.' :: digits.drop (digits.length - places))
    else String.ofList ('0' :: '.' :: List.replicate (places - digits.length) '0' ++ digits)

/-- The shortest decimal that reads back, written without exponent. -/
def positional (d : Double) : String :=
  match d.shortest? with
  | some point => point.positional
  | none => "inf"

end Double

example : (Decimal.ofText "1.5e3".toList).toDouble.toNat? = some 1500 := by decide +kernel
example : (Decimal.ofText ".1".toList).toDouble.positional = "0.1" := by decide +kernel
example : (Decimal.ofText "5e-324".toList).toDouble.shortest? = some ⟨5, -324⟩ := by decide +kernel
example : (Decimal.ofText "123456.789".toList).toDouble.positional = "123456.789" := by decide +kernel
example : (Decimal.ofText "1e21".toList).toDouble.shortest? = some ⟨1, 21⟩ := by decide +kernel

end Number
end ScriptSyntax
