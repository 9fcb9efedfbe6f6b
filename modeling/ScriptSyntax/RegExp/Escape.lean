import ScriptSyntax.RegExp.Cursor
import ScriptSyntax.RegExp.Property

/-!
Escapes of a pattern.  Each step gives the value of what it matched: the code of an escaped
character, the name of a group, or what a class escape may match.
-/

namespace ScriptSyntax
namespace RegExp

/-- The first of several steps that matches. -/
def firstMatch {α : Type} : List (PatternM (Option α)) → PatternM (Option α)
  | [] => return none
  | step :: steps => do
    match ← step with
    | some a => return some a
    | none => firstMatch steps

/-- Does one of several steps match? -/
def anyMatch : List (PatternM Bool) → PatternM Bool
  | [] => return false
  | step :: steps => do if ← step then return true else anyMatch steps

/-- A step that goes back to where it began unless it matches. -/
def orRewind {α : Type} (step : PatternM (Option α)) : PatternM (Option α) := do
  let start ← position
  match ← step with
  | some a => return some a
  | none => moveTo start; return none

/-! ### Characters -/

/-- The control character that a letter stands for. -/
def controlValue? (code : Nat) : Option Nat :=
  match scalar? code with
  | some 't' => some 0x09
  | some 'n' => some 0x0a
  | some 'v' => some 0x0b
  | some 'f' => some 0x0c
  | some 'r' => some 0x0d
  | _ => none

def controlEscape : PatternM (Option Nat) := do
  match (← peek).bind controlValue? with
  | some value => advance; return some value
  | none => return none

/-- `c` and a letter. -/
def controlLetterEscape : PatternM (Option Nat) := orRewind do
  if ← eat 'c' then return (← eatCode isLetterCode).map (· % 0x20) else return none

/-- A zero that no digit follows. -/
def zeroEscape : PatternM (Option Nat) := do
  if (← sees '0') && !(← peekSecond).any isDigitCode then
    advance
    return some 0
  else return none

def hexEscape : PatternM (Option Nat) := do
  let start ← position
  if ← eat 'x' then
    if let some value ← eatFixedHex 2 then return some value
    if (← read).unicode then throw .invalidEscape
    moveTo start
  return none

/-- The low surrogate escape that may follow a high one. -/
def lowSurrogateEscape : PatternM (Option Nat) := orRewind do
  if ← eatPair '\\' 'u' then
    match ← eatFixedHex 4 with
    | some low => return if isLowSurrogate low then some low else none
    | none => return none
  else return none

/-- `u` and four digits, or digits in braces where code points count. -/
def unicodeEscape (joined : Bool) : PatternM (Option Nat) := do
  let start ← position
  let byCodePoint := joined || (← read).unicode
  if ← eat 'u' then
    if let some value ← eatFixedHex 4 then
      if byCodePoint && isHighSurrogate value then
        if let some low ← lowSurrogateEscape then return some (joinSurrogates value low)
      return some value
    if byCodePoint then
      if ← eat '{' then
        if let some value ← eatHex then
          if ← eat '}' then
            if value ≤ 0x10ffff then return some value
      throw .invalidUnicodeEscape
    moveTo start
  return none

def octalDigit : PatternM (Option Nat) := return (← eatCode isOctalCode).map (· - '0'.toNat)

/-- Up to three octal digits that stay below four hundred octal. -/
def octalEscape : PatternM (Option Nat) := do
  match ← octalDigit with
  | none => return none
  | some first =>
    match ← octalDigit with
    | none => return some first
    | some second =>
      if first ≤ 3 then
        match ← octalDigit with
        | some third => return some (first * 64 + second * 8 + third)
        | none => return some (first * 8 + second)
      else return some (first * 8 + second)

/-- A character that stands for itself: in unicode mode only one with a meaning to take away. -/
def identityEscape : PatternM (Option Nat) := do
  let d ← read
  if d.unicode then eatCode fun code => isSyntaxCharacter code || code == '/'.toNat
  else eatCode fun code => code != 'c'.toNat && !(d.namedGroups && code == 'k'.toNat)

/-- An escape of a single character, after the backslash. -/
def characterEscape : PatternM (Option Nat) := do
  firstMatch
    [controlEscape, controlLetterEscape, zeroEscape, hexEscape, unicodeEscape false,
     (if (← read).unicode then return none else octalEscape), identityEscape]

/-! ### Classes -/

/-- What a class may match: single characters only, or strings too. -/
inductive CharSet where
  | characters
  | strings
deriving DecidableEq, Inhabited, Repr

/-- The text of a run of codes. -/
def textOf (codes : List Nat) : String := String.ofList (codes.filterMap scalar?)

def eatPropertyName : PatternM String :=
  return textOf (← eatRun fun code =>
    (scalar? code).any fun c => c.isAlpha || c == '_')

def eatPropertyValue : PatternM String :=
  return textOf (← eatRun fun code =>
    (scalar? code).any fun c => c.isAlphanum || c == '_')

def checkPropertyValue (edition : Nat) (name value : String) : PatternM Unit := do
  let known ←
    if name == "General_Category" || name == "gc" then pure (Property.isGeneralCategory value)
    else if ["Script", "sc", "Script_Extensions", "scx"].contains name then
      pure (Property.isScript edition value)
    else throw .invalidPropertyName
  unless known do throw .invalidPropertyValue

/-- What a property named alone may match. -/
def loneProperty (d : Dialect) (name : String) : PatternM CharSet :=
  if Property.isBinary d.edition name || Property.isGeneralCategory name then
    return .characters
  else if d.unicodeSets && Property.isOfStrings name then return .strings
  else throw .invalidPropertyName

/-- What stands between the braces of a property escape. -/
def propertyExpression : PatternM (Option CharSet) := do
  let d ← read
  let start ← position
  let name ← eatPropertyName
  if name != "" then
    if ← eat '=' then
      let value ← eatPropertyValue
      if value != "" then
        checkPropertyValue d.edition name value
        return some .characters
  moveTo start
  let name ← eatPropertyValue
  if name != "" then return some (← loneProperty d name) else return none

/-- `d`, `s`, `w`, a property, or one of their complements. -/
def classEscape : PatternM (Option CharSet) := do
  let d ← read
  if (← eatCode (isOneOf ['d', 'D', 's', 'S', 'w', 'W'])).isSome then return some .characters
  if d.unicode && 9 ≤ d.edition then
    if let some letter ← eatCode (isOneOf ['p', 'P']) then
      if ← eat '{' then
        if let some set ← propertyExpression then
          if ← eat '}' then
            if letter == 'P'.toNat && set == .strings then throw .invalidPropertyName
            return some set
      throw .invalidPropertyName
  return none

/-! ### Names of groups -/

/-- May a character stand in a name, at its start or later? -/
def belongsToName (atStart : Bool) (c : Char) : Bool :=
  if atStart then Alphabet.isIdentifierStart true c else Alphabet.isIdentifierPart true c

/-- The code that stands at the cursor, plainly or as a unicode escape. -/
def nameCode (joined : Bool) : PatternM (Option Nat) := do
  let plain ← peekJoined joined
  advanceJoined joined
  if plain == some '\\'.toNat then
    match ← unicodeEscape joined with
    | some value => return some value
    | none => return plain
  else return plain

/-- One character of a group's name. -/
def nameCharacter (atStart : Bool) : PatternM (Option Char) := orRewind do
  let code ← nameCode (11 ≤ (← read).edition)
  return (code.bind scalar?).filter (belongsToName atStart)

/-- The rest of a name. -/
def nameRest : Nat → PatternM (List Char)
  | 0 => return []
  | fuel + 1 => do
    match ← nameCharacter false with
    | some c => return c :: (← nameRest fuel)
    | none => return []

def identifierName : PatternM (Option String) := do
  match ← nameCharacter true with
  | some c => return some (String.ofList (c :: (← nameRest ((← read).units.size + 1))))
  | none => return none

/-- A name in angle brackets. -/
def groupName : PatternM (Option String) := do
  if ← eat '<' then
    match ← identifierName with
    | some name => if ← eat '>' then return some name else throw .invalidGroupName
    | none => throw .invalidGroupName
  else return none

/-! ### References -/

/-- A reference by number.  Outside unicode mode it must be to a group already closed. -/
def numberedReference : PatternM Bool := do
  let start ← position
  if (← peek).any fun code => isDigitCode code && code != '0'.toNat then
    if let some number ← eatDecimal then
      if (← read).unicode then
        modify fun p => { p with maxReference := max p.maxReference number }
        return true
      if number ≤ (← get).groups then return true
      moveTo start
  return false

/-- `k` and the name of a group. -/
def namedReference : PatternM Bool := do
  if ← eat 'k' then
    match ← groupName with
    | some name =>
      modify fun p => { p with references := p.references ++ [name] }
      return true
    | none => throw .invalidNamedReference
  else return false

/-- An escape that stands as an atom, after the backslash. -/
def atomEscape : PatternM Bool := do
  let d ← read
  let matched ← anyMatch
    [numberedReference, return (← classEscape).isSome, return (← characterEscape).isSome,
     (if d.namedGroups then namedReference else return false)]
  if !matched && d.unicode then
    if ← sees 'c' then throw .invalidUnicodeEscape else throw .invalidEscape
  return matched

/-- A backslash and an escape. -/
def escapedAtom : PatternM Bool := do
  let start ← position
  if ← eat '\\' then
    if ← atomEscape then return true
    moveTo start
  return false

end RegExp
end ScriptSyntax
