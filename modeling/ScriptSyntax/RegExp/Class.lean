import ScriptSyntax.RegExp.Escape

/-!
Character classes: ranges of single characters, or set expressions where classes nest.
-/

namespace ScriptSyntax
namespace RegExp

/-! ### Plain classes -/

/-- A member of a plain class: its code, or none if it is itself a class. -/
abbrev ClassAtom := Option Nat

/-- An escape in a plain class, after the backslash. -/
def escapedClassAtom : PatternM (Option ClassAtom) := do
  let d ← read
  if ← eat 'b' then return some (some 0x08)
  if d.unicode then
    if ← eat '-' then return some (some '-'.toNat)
  else
    let control ← orRewind do
      if ← eat 'c' then eatCode fun code => isDigitCode code || code == '_'.toNat
      else return none
    if let some code := control then return some (some (code % 0x20))
  if (← classEscape).isSome then return some none
  return (← characterEscape).map some

def classAtom : PatternM (Option ClassAtom) := do
  let start ← position
  if ← eat '\\' then
    if let some atom ← escapedClassAtom then return some atom
    if (← read).unicode then
      if (← peek).any fun code => code == 'c'.toNat || isOctalCode code then
        throw .invalidClassEscape
      else throw .invalidEscape
    moveTo start
  return (← eatCode fun code => code != ']'.toNat).map some

/-- One member or one range. -/
def classRange : PatternM Bool := do
  match ← classAtom with
  | none => return false
  | some left =>
    if ← eat '-' then
      if let some right ← classAtom then
        if (← read).unicode && (left.isNone || right.isNone) then throw .invalidClass
        match left, right with
        | some left, some right => if right < left then throw .rangeOutOfOrder
        | _, _ => pure ()
    return true

/-! ### Set expressions -/

/-- Characters that mean something when doubled. -/
def isReservedDouble : Nat → Bool :=
  isOneOf ['!', '#', '$', '%', '&', '*', '+', ',', '.', ':', ';', '<', '=', '>', '?', '@', '^',
    '\x60', '~']

def isSetSyntaxCharacter : Nat → Bool :=
  isOneOf ['(', ')', '-', '/', '[', '\\', ']', '{', '|', '}']

def isReservedPunctuator : Nat → Bool :=
  isOneOf ['!', '#', '%', '&', ',', '-', ':', ';', '<', '=', '>', '@', '\x60', '~']

def setCharacter : PatternM (Option Nat) := do
  let start ← position
  if ← eat '\\' then
    if let some code ← characterEscape then return some code
    if let some code ← eatCode isReservedPunctuator then return some code
    if ← eat 'b' then return some 0x08
    moveTo start
    return none
  match ← peek with
  | none => return none
  | some code =>
    if (← peekSecond) == some code && isReservedDouble code then return none
    if isSetSyntaxCharacter code then return none
    advance
    return some code

def setRange : PatternM Bool := do
  let start ← position
  if let some left ← setCharacter then
    if ← eat '-' then
      if let some right ← setCharacter then
        if right < left then throw .rangeOutOfOrder
        return true
    moveTo start
  return false

/-- One string of a disjunction; only one of length one counts as a character. -/
def setString : PatternM CharSet := do
  let fuel := (← read).units.size + 1
  let length ← count fuel
  return if length = 1 then .characters else .strings
where
  count : Nat → PatternM Nat
    | 0 => return 0
    | fuel + 1 => do if (← setCharacter).isSome then return (← count fuel) + 1 else return 0

/-- The further strings of a disjunction. -/
def setStrings (first : CharSet) : Nat → PatternM CharSet
  | 0 => return first
  | fuel + 1 => do
    if ← eat '|' then
      match ← setString with
      | .strings => setStrings .strings fuel
      | .characters => setStrings first fuel
    else return first

/-- A disjunction of strings after an escaped `q`. -/
def stringDisjunction : PatternM (Option CharSet) := do
  let start ← position
  if ← eatPair '\\' 'q' then
    unless ← eat '{' do throw .invalidEscape
    let set ← setStrings (← setString) ((← read).units.size + 1)
    if ← eat '}' then return some set
    moveTo start
  return none

section

-- Reads a nested class, which may nest one level less deep than the class around it.
variable (nested : PatternM (Option CharSet))

def setOperand : PatternM (Option CharSet) := do
  if (← setCharacter).isSome then return some .characters
  if let some set ← stringDisjunction then return some set
  nested

/-- The operands of an intersection: it may hold strings only if all of them may. -/
def intersection (set : CharSet) : Nat → PatternM CharSet
  | 0 => return set
  | fuel + 1 => do
    if ← eatPair '&' '&' then
      if !(← sees '&') then
        if let some operand ← setOperand nested then
          return ← intersection (if operand = .strings then set else .characters) fuel
      throw .invalidClassCharacter
    else return set

/-- The operands that a subtraction takes away. -/
def subtraction : Nat → PatternM Unit
  | 0 => return
  | fuel + 1 => do
    if ← eatPair '-' '-' then
      if (← setOperand nested).isNone then throw .invalidClassCharacter
      subtraction fuel

/-- The members of a union: it may hold strings if one of them may. -/
def union (set : CharSet) : Nat → PatternM CharSet
  | 0 => return set
  | fuel + 1 => do
    if ← setRange then union set fuel
    else
      match ← setOperand nested with
      | none => return set
      | some .strings => union .strings fuel
      | some .characters => union set fuel

def setExpression : PatternM CharSet := do
  let fuel := (← read).units.size + 1
  if ← setRange then return ← union nested .characters fuel
  match ← setOperand nested with
  | none => throw .invalidClassCharacter
  | some first =>
    let start ← position
    let set ← intersection nested first fuel
    if (← position) != start then return set
    subtraction nested fuel
    if (← position) != start then return set
    union nested set fuel

/-- What stands between the brackets. -/
def classContents : PatternM CharSet := do
  if ← sees ']' then return .characters
  if (← read).unicodeSets then setExpression nested
  else
    exhaust classRange
    return .characters

/-- A class, complemented or not, up to its closing bracket. -/
def bracketed (unclosed : PatternM (Option CharSet)) : PatternM (Option CharSet) := do
  let negated ← eat '^'
  let set ← classContents nested
  if ← eat ']' then
    if negated && set = .strings then throw .negatedStringClass
    return some set
  else unclosed

end

/-- A class inside a class, or a class escape there.  `depth` is how much deeper classes may
nest. -/
def nestedClass : Nat → PatternM (Option CharSet)
  | 0 => throw .tooDeeplyNested
  | depth + 1 => do
    let start ← position
    if ← eat '[' then
      if let some set ← bracketed (nestedClass depth) (return none) then return some set
      moveTo start
    orRewind do
      if ← eat '\\' then classEscape else return none

/-- An outermost class. -/
def characterClass (depth : Nat) : PatternM Bool := do
  if ← eat '[' then
    let _ ← bracketed (nestedClass depth) (throw .unterminatedClass)
    return true
  else return false

end RegExp
end ScriptSyntax
