import ScriptSyntax.Number.Digits
import ScriptSyntax.RegExp.Validator

/-!
The core of the pattern grammar: what unicode mode accepts of the patterns that have neither escapes nor classes.
-/

namespace ScriptSyntax
namespace RegExp
namespace Core

/-- Does a character stand for itself? -/
def isOrdinary (c : Char) : Bool := !(['^', '$', '.', '*', '+', '?', '(', ')', ']', '{', '}', '|'].contains c)

/-- The number that decimal digits write. -/
def numberIn (digits : List Char) : Nat := Number.natOfDigits 10 (digits.map fun c => c.toNat - '0'.toNat)

/-- The bounds are in order as far as numbers count. -/
def InOrder (low : Nat) (high : Option Nat) : Prop := ∀ m ∈ high, min low maxNumber ≤ min m maxNumber

/-- The bounds are in order, and numbers count as far as they go. -/
def Bounded (low : Nat) (high : Option Nat) : Prop := low < Nat.pow 2 64 ∧ ∀ m ∈ high, m < Nat.pow 2 64 ∧ low ≤ m

/-- A number as quantifiers have it. -/
structure IsNumber (digits : List Char) : Prop where
  nonempty : digits ≠ []
  decimal : ∀ c ∈ digits, Alphabet.isDecimalDigit c = true

/-- The name of a group. -/
inductive IsName : List Char → Prop where
  | mk {c : Char} {later : List Char} (first : belongsToName true c = true)
      (rest : ∀ b ∈ later, belongsToName false b = true) : IsName (c :: later)

section

-- Which bounds quantifiers may have; what stands in the parentheses of a group, with the names of the groups in it.
variable (fits : Nat → Option Nat → Prop) (inner : List Char → List String → Prop)

inductive Quantifier : List Char → Prop where
  | star : Quantifier ['*']
  | plus : Quantifier ['+']
  | optional : Quantifier ['?']
  | exactly {ds : List Char} (low : IsNumber ds) (fit : fits (numberIn ds) none) : Quantifier ('{' :: (ds ++ ['}']))
  | atLeast {ds : List Char} (low : IsNumber ds) (fit : fits (numberIn ds) none) :
      Quantifier ('{' :: (ds ++ [',', '}']))
  | between {ds es : List Char} (low : IsNumber ds) (high : IsNumber es)
      (fit : fits (numberIn ds) (some (numberIn es))) :
      Quantifier ('{' :: (ds ++ ',' :: (es ++ ['}'])))

/-- A quantifier, which may be lazy. -/
inductive Repetition : List Char → Prop where
  | greedy {q : List Char} (quantifier : Quantifier fits q) : Repetition q
  | lazy {q : List Char} (quantifier : Quantifier fits q) : Repetition (q ++ ['?'])

/-- An atom, with the names of the groups in it. -/
inductive Atom : List Char → List String → Prop where
  | any : Atom ['.'] []
  | character {c : Char} (ordinary : isOrdinary c = true) : Atom [c] []
  | group {t : List Char} {names : List String} (contents : inner t names) : Atom ('(' :: (t ++ [')'])) names
  | uncaptured {t : List Char} {names : List String} (contents : inner t names) : Atom
      ('(' :: '?' :: ':' :: (t ++ [')'])) names
  | named {name t : List Char} {names : List String} (isName : IsName name) (contents : inner t names) :
      Atom ('(' :: '?' :: '<' :: (name ++ '>' :: (t ++ [')']))) (String.ofList name :: names)

/-- How a lookaround begins. -/
def looks : List (List Char) := [['(', '?', '='], ['(', '?', '!'], ['(', '?', '<', '='], ['(', '?', '<', '!']]

inductive Term : List Char → List String → Prop where
  | start : Term ['^'] []
  | stop : Term ['$'] []
  | look {opening t : List Char} {names : List String} (opens : opening ∈ looks) (contents : inner t names) :
      Term (opening ++ (t ++ [')'])) names
  | once {t : List Char} {names : List String} (atom : Atom inner t names) : Term t names
  | repeated {t q : List Char} {names : List String} (atom : Atom inner t names) (repetition : Repetition fits q) :
      Term (t ++ q) names

inductive Alternative : List Char → List String → Prop where
  | nil : Alternative [] []
  | cons {t u : List Char} {names more : List String} (term : Term fits inner t names) (rest : Alternative u more) :
      Alternative (t ++ u) (names ++ more)

inductive Disjunction : List Char → List String → Prop where
  | last {t : List Char} {names : List String} (alternative : Alternative fits inner t names) : Disjunction t names
  | or {t u : List Char} {names more : List String} (alternative : Alternative fits inner t names)
      (rest : Disjunction u more) :
      Disjunction (t ++ '|' :: u) (names ++ more)

end

/-- Disjunctions whose groups and lookarounds nest less than `depth` deep. -/
def Nested (fits : Nat → Option Nat → Prop) : Nat → List Char → List String → Prop
  | 0 => fun _ _ => False
  | depth + 1 => Disjunction fits (Nested fits depth)

/-- Groups and lookarounds nest at most 999 deep, and all groups have different names. -/
def IsPattern (fits : Nat → Option Nat → Prop) (text : List Char) : Prop :=
  ∃ names, Nested fits 1000 text names ∧ names.Nodup

/-! ### Alternatives -/

/-- With brackets and backslashes, the characters that do not stand for themselves are those of the syntax. -/
theorem isSyntaxCharacter_iff {c : Char} :
    isSyntaxCharacter c.toNat = true ↔ isOrdinary c = false ∨ c = '\\' ∨ c = '[' := by
  simp only [isSyntaxCharacter, isOneOf, isOrdinary, List.any_cons, List.any_nil, Bool.or_false,
    Bool.or_eq_true, beq_iff_eq,
    Char.toNat_inj, List.contains_cons, List.contains_nil, Bool.not_eq_false', @eq_comm _ c]
  grind

namespace Alternative

variable {fits : Nat → Option Nat → Prop} {inner : List Char → List String → Prop} {t u q w : List Char}
  {names more : List String}

theorem append (first : Alternative fits inner t names) (second : Alternative fits inner u more) :
    Alternative fits inner (t ++ u) (names ++ more) := by
  induction first with
  | nil => exact second
  | cons term rest ih =>
    rw [List.append_assoc, List.append_assoc]
    exact .cons term ih

theorem single (term : Term fits inner t names) : Alternative fits inner t names := by
  simpa using cons term nil

theorem word (ordinary : ∀ c ∈ w, isOrdinary c = true) : Alternative fits inner w [] := by
  induction w with
  | nil => exact .nil
  | cons c w ih =>
    exact .cons (.once (.character (ordinary c (.head _)))) (ih fun b mem => ordinary b (.tail _ mem))

/-- A quantifier after several characters is about the last. -/
theorem word_repeated (nonempty : w ≠ []) (ordinary : ∀ c ∈ w, isOrdinary c = true) (repetition : Repetition fits q) :
    Alternative fits inner (w ++ q) [] := by
  obtain ⟨first, last, rfl⟩ : ∃ first last, w = first ++ [last] := ⟨_, _, (List.dropLast_concat_getLast nonempty).symm⟩
  rw [List.append_assoc]
  exact append (word fun c mem => ordinary c (List.mem_append_left _ mem))
    (single (.repeated (.character (ordinary last (by simp))) repetition))

end Alternative

end Core
end RegExp
end ScriptSyntax
