import ScriptSyntax.Unicode.Identifier

/-!
The classes of characters that the lexical grammar distinguishes: what may begin or continue an
identifier, what ends a line, what separates tokens, and the digits of the small radices.
-/

namespace ScriptSyntax
namespace Alphabet

def zeroWidthNonJoiner : Char := '\u200c'
def zeroWidthJoiner : Char := '\u200d'

/-- Without `astral`, only characters of the basic multilingual plane qualify. -/
def isIdentifierStart (astral : Bool) (c : Char) : Bool :=
  if c.toNat < 0x80 then c.isAlpha || c = '$' || c = '_'
  else (astral || c.toNat ≤ 0xffff) && Unicode.identifierStart.contains c.toNat

/-- The two joiners continue an identifier although no property of Unicode puts them there. -/
def isIdentifierPart (astral : Bool) (c : Char) : Bool :=
  if c.toNat < 0x80 then c.isAlphanum || c = '$' || c = '_'
  else c = zeroWidthNonJoiner || c = zeroWidthJoiner ||
    ((astral || c.toNat ≤ 0xffff) &&
      (Unicode.identifierStart.contains c.toNat || Unicode.identifierOnlyPart.contains c.toNat))

def isLineTerminator (c : Char) : Bool :=
  c = '\n' || c = '\r' || c = '\u2028' || c = '\u2029'

/-- White space that ends no line. -/
def isBlank (c : Char) : Bool :=
  c = '\t' || c = '\x0b' || c = '\x0c' || c = ' ' || c = '\u00a0' || c = '\ufeff' ||
    c = '\u1680' || (0x2000 ≤ c.toNat && c.toNat ≤ 0x200a) || c = '\u202f' || c = '\u205f' ||
    c = '\u3000'

def isDecimalDigit (c : Char) : Bool := '0' ≤ c && c ≤ '9'
def isOctalDigit (c : Char) : Bool := '0' ≤ c && c ≤ '7'
def isHexDigit (c : Char) : Bool :=
  isDecimalDigit c || ('a' ≤ c && c ≤ 'f') || ('A' ≤ c && c ≤ 'F')

/-- The value of `c` as a digit: letters of either case continue after nine. -/
def digitValue? (c : Char) : Option Nat :=
  if isDecimalDigit c then some (c.toNat - '0'.toNat)
  else if 'a' ≤ c && c ≤ 'z' then some (c.toNat - 'a'.toNat + 10)
  else if 'A' ≤ c && c ≤ 'Z' then some (c.toNat - 'A'.toNat + 10)
  else none

/-- The digit that `c` stands for in `radix`. -/
def digit? (radix : Nat) (c : Char) : Option Nat := (digitValue? c).filter (· < radix)

theorem digit?_lt {radix n : Nat} {c : Char} (h : digit? radix c = some n) : n < radix := by
  simp only [digit?, Option.filter_eq_some_iff, decide_eq_true_eq] at h
  exact h.2

theorem isIdentifierPart_of_isIdentifierStart {astral : Bool} {c : Char}
    (h : isIdentifierStart astral c = true) : isIdentifierPart astral c = true := by
  unfold isIdentifierStart at h
  unfold isIdentifierPart
  by_cases ascii : c.toNat < 0x80
  · simp only [ascii, if_true, Bool.or_eq_true, Char.isAlphanum] at h ⊢
    grind
  · simp only [ascii, if_false, Bool.or_eq_true, Bool.and_eq_true] at h ⊢
    grind

/-- What begins and ends a string. -/
def isQuote (c : Char) : Bool := c == '"' || c == '\''

/-- A digit is one byte long. -/
theorem utf8Size_of_digit? {radix n : Nat} {c : Char} (digit : digit? radix c = some n) : c.utf8Size = 1 := by
  have some : (digitValue? c).isSome = true := by
    rw [digit?, Option.filter_eq_some_iff] at digit
    exact Option.isSome_iff_exists.mpr ⟨n, digit.1⟩
  have ascii : c.val ≤ 0x7f := by
    simp only [digitValue?, isDecimalDigit, Bool.and_eq_true, decide_eq_true_eq, Char.le_def] at some
    split at some
    · next decimal => exact UInt32.le_trans decimal.2 (by decide)
    split at some
    · next lower => exact UInt32.le_trans lower.2 (by decide)
    split at some
    · next upper => exact UInt32.le_trans upper.2 (by decide)
    · cases some
  simp [Char.utf8Size, ascii]

theorem exists_digit_of_isOctalDigit {c : Char} (octal : isOctalDigit c = true) :
    ∃ digit, digit? 8 c = some digit := by
  simp only [isOctalDigit, Bool.and_eq_true, decide_eq_true_eq, Char.le_def, UInt32.le_iff_toNat_le] at octal
  obtain ⟨low, high⟩ := octal
  have decimal : isDecimalDigit c = true := by
    simp only [isDecimalDigit, Bool.and_eq_true, decide_eq_true_eq, Char.le_def, UInt32.le_iff_toNat_le]
    exact ⟨low, Nat.le_trans high (by decide)⟩
  refine ⟨c.toNat - '0'.toNat, ?_⟩
  simp only [digit?, digitValue?, decimal, if_true, Option.filter_some, Char.toNat]
  rw [if_pos]
  simp only [decide_eq_true_eq]
  have := show '7'.val.toNat = '0'.val.toNat + 7 from rfl
  omega

end Alphabet
end ScriptSyntax
