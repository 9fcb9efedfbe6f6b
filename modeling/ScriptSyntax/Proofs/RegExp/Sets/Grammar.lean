import ScriptSyntax.Proofs.Lexer.Spelling
import ScriptSyntax.RegExp.Validator

/-!
Set expressions, as trees and as texts.  What stands behind a text matters: a character may mean something else when it
is doubled, and an escape may go on.
-/

namespace ScriptSyntax
namespace RegExp
namespace Sets

/-! ### Trees -/

/-- A set expression or a part of one. -/
inductive Tree where
  | empty
  | character (code : Nat)
  | range (low high : Nat)
  | escape (letter : Char)
  | property (complement : Bool) (name : List Char) (value : Option (List Char))
  | strings (alternatives : List (List Nat))
  | nested (negated : Bool) (contents : Tree)
  | union (first rest : Tree)
  | intersection (first rest : Tree)
  | subtraction (first taken : Tree)
deriving DecidableEq, Repr

namespace Tree

/-- May what matches be a string that is no single character? -/
def mayHoldStrings : Tree → Bool
  | property _ name none => Property.isOfStrings (String.ofList name)
  | strings alternatives => alternatives.any fun codes => codes.length != 1
  | nested _ contents => contents.mayHoldStrings
  | union first rest => first.mayHoldStrings || rest.mayHoldStrings
  | intersection first rest => first.mayHoldStrings && rest.mayHoldStrings
  | subtraction first _ => first.mayHoldStrings
  | _ => false

/-- No class is negated that may hold strings. -/
def lawful : Tree → Bool
  | nested negated contents => contents.lawful && !(negated && contents.mayHoldStrings)
  | union first rest => first.lawful && rest.lawful
  | intersection first rest => first.lawful && rest.lawful
  | subtraction first taken => first.lawful && taken.lawful
  | _ => true

/-- How many levels deeper the reading goes.  A union ends where no further operand is found, and to look for one takes
a level just as a class inside does. -/
def levels : Tree → Nat
  | escape _ => 1
  | property _ _ _ => 1
  | nested _ contents => contents.levels + 1
  | union first rest => max 1 (max first.levels rest.levels)
  | intersection first rest => max first.levels rest.levels
  | subtraction first taken => max first.levels taken.levels
  | _ => 0

end Tree

/-! ### Characters -/

/-- Codes that stand for themselves behind a backslash. -/
def isIdentity (code : Nat) : Bool := isSyntaxCharacter code || code == '/'.toNat

/-- A character as it may be written before a text. -/
inductive Character : Nat → List Char → List Char → Prop where
  /-- Some characters must not be doubled. -/
  | plain {c : Char} {rest : List Char} (ordinary : isSetSyntaxCharacter c.toNat = false)
      (single : isReservedDouble c.toNat = true → rest.head? ≠ some c) : Character c.toNat [c] rest
  | control {c : Char} {code : Nat} {rest : List Char} (known : controlValue? c.toNat = some code) :
      Character code ['\\', c] rest
  | letter {c : Char} {rest : List Char} (alpha : c.isAlpha = true) : Character (c.toNat % 0x20) ['\\', 'c', c] rest
  | zero {rest : List Char} (single : ∀ c ∈ rest.head?, Alphabet.isDecimalDigit c = false) :
      Character 0 ['\\', '0'] rest
  | twoDigits {digits rest : List Char} {code : Nat} (two : digits.length = 2) (hex : SpellsHex digits code) :
      Character code ('\\' :: 'x' :: digits) rest
  /-- A high surrogate must not be followed by a low one. -/
  | fourDigits {digits rest : List Char} {code : Nat} (four : digits.length = 4) (hex : SpellsHex digits code)
      (alone : isHighSurrogate code = true → ∀ more after low, rest = '\\' :: 'u' :: (more ++ after) → more.length = 4 →
        SpellsHex more low → isLowSurrogate low = false) : Character code ('\\' :: 'u' :: digits) rest
  | pair {digits more rest : List Char} {high low : Nat} (four : digits.length = 4) (first : SpellsHex digits high)
      (isHigh : isHighSurrogate high = true) (four' : more.length = 4) (second : SpellsHex more low)
      (isLow : isLowSurrogate low = true) :
      Character (joinSurrogates high low) ('\\' :: 'u' :: (digits ++ '\\' :: 'u' :: more)) rest
  | braces {digits rest : List Char} {code : Nat} (nonempty : digits ≠ []) (hex : SpellsHex digits code)
      (small : code ≤ 0x10ffff) : Character code ('\\' :: 'u' :: '{' :: (digits ++ ['}'])) rest
  | identity {c : Char} {rest : List Char} (special : isIdentity c.toNat = true) :
      Character c.toNat ['\\', c] rest
  | punctuator {c : Char} {rest : List Char} (reserved : isReservedPunctuator c.toNat = true) :
      Character c.toNat ['\\', c] rest
  | backspace {rest : List Char} : Character 0x08 ['\\', 'b'] rest

/-- The characters of a string. -/
inductive Characters : List Nat → List Char → List Char → Prop where
  | nil {rest : List Char} : Characters [] [] rest
  | cons {code : Nat} {codes : List Nat} {t u rest : List Char} (first : Character code t (u ++ rest))
      (others : Characters codes u rest) : Characters (code :: codes) (t ++ u) rest

/-- The strings of a disjunction behind the first. -/
inductive Alternatives : List (List Nat) → List Char → List Char → Prop where
  | nil {rest : List Char} : Alternatives [] [] rest
  | cons {codes : List Nat} {more : List (List Nat)} {t u rest : List Char} (first : Characters codes t (u ++ rest))
      (others : Alternatives more u rest) : Alternatives (codes :: more) ('|' :: (t ++ u)) rest

/-! ### Class escapes -/

/-- The letters that stand for classes after a backslash. -/
def classLetters : List Char := ['d', 'D', 's', 'S', 'w', 'W']

/-- The letter of a property. -/
def propertyLetter (complement : Bool) : Char := if complement then 'P' else 'p'

def isNameCharacter (c : Char) : Bool := c.isAlpha || c == '_'
def isValueCharacter (c : Char) : Bool := c.isAlphanum || c == '_'

/-- A word of some characters. -/
structure IsWord (belongs : Char → Bool) (word : List Char) : Prop where
  nonempty : word ≠ []
  belongs : ∀ c ∈ word, belongs c = true

/-- Is the value one of those that the property has? -/
def isKnownValue (edition : Nat) (name value : String) : Bool :=
  if name == "General_Category" || name == "gc" then Property.isGeneralCategory value
  else ["Script", "sc", "Script_Extensions", "scx"].contains name && Property.isScript edition value

/-- What stands between the braces of a property.  A property of strings has no complement. -/
inductive PropertyText (edition : Nat) (complement : Bool) : List Char → Option (List Char) → List Char → Prop where
  | value {name value : List Char} (isName : IsWord isNameCharacter name) (isValue : IsWord isValueCharacter value)
      (known : isKnownValue edition (String.ofList name) (String.ofList value) = true) :
      PropertyText edition complement name (some value) (name ++ '=' :: value)
  | lone {name : List Char} (isName : IsWord isValueCharacter name)
      (known : (Property.isBinary edition (String.ofList name) || Property.isGeneralCategory (String.ofList name) ||
        (Property.isOfStrings (String.ofList name) && !complement)) = true) :
      PropertyText edition complement name none name

/-! ### Set expressions -/

/-- What part of a set expression a text is. -/
inductive Role where
  /-- What unions, intersections and subtractions have in common. -/
  | operand
  /-- An operand or a range. -/
  | member
  /-- The members of a union up to its end. -/
  | members
  /-- The operands of an intersection behind the first. -/
  | met
  /-- The operands of a subtraction behind what is read of it. -/
  | taken (from' : Tree)
  /-- What stands between the brackets. -/
  | contents

/-- The circumflex that negates a class. -/
def negation (negated : Bool) : List Char := if negated then ['^'] else []

/-- A class in its brackets. -/
def brackets (negated : Bool) (contents : List Char) : List Char := '[' :: (negation negated ++ (contents ++ [']']))

/-- A tree as it may be written before a text. -/
inductive Written (edition : Nat) : Role → Tree → List Char → List Char → Prop where
  | character {code : Nat} {t rest : List Char} (written : Character code t rest) :
      Written edition .operand (.character code) t rest
  | escape {letter : Char} {rest : List Char} (known : letter ∈ classLetters) :
      Written edition .operand (.escape letter) ['\\', letter] rest
  | property {complement : Bool} {name : List Char} {value : Option (List Char)} {t rest : List Char}
      (written : PropertyText edition complement name value t) :
      Written edition .operand (.property complement name value)
        ('\\' :: propertyLetter complement :: '{' :: (t ++ ['}'])) rest
  | strings {codes : List Nat} {more : List (List Nat)} {t u rest : List Char}
      (first : Characters codes t (u ++ '}' :: rest))
      (others : Alternatives more u ('}' :: rest)) :
      Written edition .operand (.strings (codes :: more)) ('\\' :: 'q' :: '{' :: (t ++ (u ++ ['}']))) rest
  | nested {negated : Bool} {contents : Tree} {t rest : List Char}
      (inner : Written edition .contents contents t (']' :: rest))
      (plain : negated = false → t.head? ≠ some '^') :
      Written edition .operand (.nested negated contents) (brackets negated t) rest
  | operand {e : Tree} {t rest : List Char} (single : Written edition .operand e t rest) :
      Written edition .member e t rest
  | range {low high : Nat} {t u rest : List Char} (first : Character low t ('-' :: (u ++ rest)))
      (second : Character high u rest)
      (ordered : low ≤ high) : Written edition .member (.range low high) (t ++ '-' :: u) rest
  | none {rest : List Char} : Written edition .members .empty [] rest
  | more {e f : Tree} {t u rest : List Char} (first : Written edition .member e t (u ++ rest))
      (others : Written edition .members f u rest) : Written edition .members (.union e f) (t ++ u) rest
  | lastMet {e : Tree} {t rest : List Char} (single : Written edition .operand e t rest) (apart : t.head? ≠ some '&') :
      Written edition .met e ('&' :: '&' :: t) rest
  | moreMet {e f : Tree} {t u rest : List Char} (first : Written edition .operand e t (u ++ rest))
      (apart : t.head? ≠ some '&')
      (others : Written edition .met f u rest) : Written edition .met (.intersection e f) ('&' :: '&' :: (t ++ u)) rest
  | lastTaken {from' e : Tree} {t rest : List Char} (single : Written edition .operand e t rest) :
      Written edition (.taken from') (.subtraction from' e) ('-' :: '-' :: t) rest
  | moreTaken {from' e f : Tree} {t u rest : List Char} (first : Written edition .operand e t (u ++ rest))
      (others : Written edition (.taken (.subtraction from' e)) f u rest) :
      Written edition (.taken from') f ('-' :: '-' :: (t ++ u)) rest
  | nothing {rest : List Char} : Written edition .contents .empty [] rest
  | union {e f : Tree} {t u rest : List Char} (first : Written edition .member e t (u ++ rest))
      (others : Written edition .members f u rest) : Written edition .contents (.union e f) (t ++ u) rest
  | intersection {e f : Tree} {t u rest : List Char} (first : Written edition .operand e t (u ++ rest))
      (others : Written edition .met f u rest) : Written edition .contents (.intersection e f) (t ++ u) rest
  | subtraction {e f : Tree} {t u rest : List Char} (first : Written edition .operand e t (u ++ rest))
      (others : Written edition (.taken e) f u rest) : Written edition .contents f (t ++ u) rest

end Sets
end RegExp
end ScriptSyntax
