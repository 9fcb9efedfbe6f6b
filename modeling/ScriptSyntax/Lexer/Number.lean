import ScriptSyntax.Lexer.Contexts
import ScriptSyntax.Number.Decimal

/-!
Numeric literals.
-/

namespace ScriptSyntax
namespace LexM

/-- How far a run of digits is read: its digits, latest first, and whether a separator stands
last. -/
structure DigitRun where
  digits : List Nat := []
  separatorLast : Bool := false

/-- Reads one digit or one separator.  `legacy` forbids separators. -/
def digitPass (radix start : Nat) (legacy : Bool) (run : DigitRun) :
    LexM (Pass DigitRun DigitRun) := do
  match ← peek with
  | none => return .done run
  | some c =>
    if c = '_' ∧ 12 ≤ (← edition) then
      let here ← pos
      if legacy then failRecoverable here .separatorInLegacyOctal
      if run.separatorLast then failRecoverable here .separatorRepeated
      if here = start then failRecoverable here .separatorFirst
      advance 1
      return .again { run with separatorLast := true }
    else
      match Alphabet.digit? radix c with
      | some digit =>
        advance 1
        return .again ⟨digit :: run.digits, false⟩
      | none => return .done run

/-- Digits with separators between them, from the twelfth edition on.  None if there is no digit. -/
def readDigits (radix : Nat) (maybeLegacy : Bool) : LexM (Option (List Nat)) := do
  let start ← pos
  let legacy ← if maybeLegacy then sees '0' else pure false
  let run ← repeatForward {} (digitPass radix start legacy)
  if run.separatorLast then failRecoverable ((← pos) - 1) .separatorLast
  return if run.digits.isEmpty then none else some run.digits.reverse

/-- A number ends where no identifier begins. -/
def checkNumberEnd : LexM Unit := do
  let astral := (← read).astral
  if (← peek).any (Alphabet.isIdentifierStart astral) then fail (← pos) .identifierAfterNumber

/-- The digits from `start` up to the cursor, without separators. -/
def bigintDigits (start : Nat) : LexM String :=
  return String.ofList (((← source).chars start (← pos)).filter (· != '_'))

/-- Digits after a mark of two characters that names the radix. -/
def readRadixNumber (radix : Nat) : LexM Unit := do
  let start ← pos
  advance 2
  match ← readDigits radix false with
  | none => fail ((← get).token.start + 2) (.numberExpected radix)
  | some digits =>
    if 11 ≤ (← edition) && (← sees 'n') then
      let text ← bigintDigits start
      advance 1
      finish .num (.bigint text)
    else
      checkNumberEnd
      finish .num (.number (Number.Double.ofDigits radix digits))

/-- A point and the digits after it. -/
def readFraction : LexM Unit := do
  if ← sees '.' then
    advance 1
    let _ ← readDigits 10 false

/-- An exponent with its sign. -/
def readExponent (start : Nat) : LexM Unit := do
  if (← sees 'e') || (← sees 'E') then
    advance 1
    if (← sees '+') || (← sees '-') then advance 1
    if (← readDigits 10 false).isNone then fail start .invalidNumber

/-- A decimal number, or an octal one written with a leading zero and no digit above seven. -/
def readNumber (startsWithDot : Bool) : LexM Unit := do
  let start ← pos
  unless startsWithDot do
    if (← readDigits 10 true).isNone then fail start .invalidNumber
  let s ← source
  let whole := s.chars start (← pos)
  let leadingZero := 2 ≤ (← pos) - start && s.has start '0'
  if leadingZero && (← get).strict then fail start .invalidNumber
  if !leadingZero && !startsWithDot && 11 ≤ (← edition) && (← sees 'n') then
    let text ← bigintDigits start
    advance 1
    checkNumberEnd
    finish .num (.bigint text)
  else if leadingZero && whole.all fun c => c != '8' && c != '9' then
    checkNumberEnd
    finish .num (.number (Number.Double.ofDigits 8 (whole.map fun c => c.toNat - '0'.toNat)))
  else
    readFraction
    readExponent start
    checkNumberEnd
    let text := (s.chars start (← pos)).filter (· != '_')
    finish .num (.number (Number.Decimal.ofText text).toDouble)

end LexM
end ScriptSyntax
