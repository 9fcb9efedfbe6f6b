import ScriptSyntax.Alphabet
import ScriptSyntax.RegExp.Fault

/-!
A cursor over the UTF-16 code units of a pattern, and the small steps that move it.  A step that finds no match leaves
the cursor where it was.

The alternatives of a pattern are numbered as they begin, and each knows the alternative around its disjunction, so that
two places can be told apart when no match runs through both.
-/

namespace ScriptSyntax
namespace RegExp

/-! ### Alternatives -/

/-- An alternative of a disjunction. -/
structure Branch where
  /-- The alternative around its disjunction; none around that of the whole pattern. -/
  parent : Option Nat
  /-- The first alternative of its disjunction. -/
  base : Nat
deriving Inhabited

/-- An alternative and those around it, innermost first.  One around another begins before it. -/
def lineage (branches : Array Branch) (id : Nat) : List Nat :=
  match branches[id]? with
  | none => []
  | some branch =>
    match branch.parent with
    | none => [id]
    | some parent => if parent < id then id :: lineage branches parent else [id]

/-- The disjunction of an alternative, by its first alternative. -/
def baseOf (branches : Array Branch) (id : Nat) : Option Nat := branches[id]?.map (·.base)

/-- Does a disjunction around both places have them in different alternatives? -/
def separatedFrom (branches : Array Branch) (a b : Nat) : Bool :=
  (lineage branches a).any fun x =>
    (lineage branches b).any fun y => baseOf branches x == baseOf branches y && x != y

/-! ### Code units -/

/-- The UTF-16 code units of a text. -/
def codeUnits (text : List Char) : List Nat :=
  text.flatMap fun c =>
    if c.toNat < 0x10000 then [c.toNat]
    else [0xd800 + (c.toNat - 0x10000) / 0x400, 0xdc00 + (c.toNat - 0x10000) % 0x400]

def isHighSurrogate (unit : Nat) : Bool := 0xd800 ≤ unit && unit ≤ 0xdbff
def isLowSurrogate (unit : Nat) : Bool := 0xdc00 ≤ unit && unit ≤ 0xdfff

/-- The code point that a surrogate pair stands for. -/
def joinSurrogates (high low : Nat) : Nat :=
  0x10000 + (high - 0xd800) * 0x400 + (low - 0xdc00)

/-- The character with a code point; none for a surrogate. -/
def scalar? (code : Nat) : Option Char :=
  if h : code.isValidChar then some (Char.ofNatAux code h) else none

/-- The pattern and the grammar that it is read by. -/
structure Dialect where
  units : Array Nat
  edition : Nat
  /-- Read code points rather than code units, and forgive nothing. -/
  unicode : Bool
  /-- Character classes are set expressions. -/
  unicodeSets : Bool
  /-- An escaped `k` is always a reference to a named group. -/
  namedGroups : Bool
deriving Inhabited

/-- How far the pattern is read, and what it holds up to there. -/
structure Progress where
  pos : Nat := 0
  /-- Capturing groups closed so far. -/
  groups : Nat := 0
  /-- The largest group that an escape refers to by number. -/
  maxReference : Nat := 0
  /-- Each named group with the alternative that it stands in. -/
  names : List (String × Option Nat) := []
  /-- Names that escapes refer to. -/
  references : List String := []
  /-- Alternatives begun so far. -/
  branches : Array Branch := #[]
  /-- The alternative at the cursor. -/
  branch : Option Nat := none
deriving Inhabited

abbrev PatternM := ReaderT Dialect (EStateM Fault Progress)

namespace Dialect

/-- The code unit at an index, or the code point that begins there if pairs are joined. -/
def at? (d : Dialect) (joined : Bool) (i : Nat) : Option Nat :=
  match d.units[i]? with
  | none => none
  | some unit =>
    if joined && isHighSurrogate unit then
      match d.units[i + 1]? with
      | some next => if isLowSurrogate next then some (joinSurrogates unit next) else some unit
      | none => some unit
    else some unit

/-- The index after what stands at `i`. -/
def next (d : Dialect) (joined : Bool) (i : Nat) : Nat :=
  match d.at? joined i with
  | none => i
  | some code => if 0xffff < code then i + 2 else i + 1

theorem le_next (d : Dialect) (joined : Bool) (i : Nat) : i ≤ d.next joined i := by
  unfold next
  split
  · omega
  · split <;> omega

/-- The longest run of a class of codes from `i` on, and the index after it. -/
def run (d : Dialect) (inClass : Nat → Bool) : Nat → Nat → List Nat × Nat
  | 0, i => ([], i)
  | fuel + 1, i =>
    match d.at? d.unicode i with
    | some code =>
      if inClass code then
        let (codes, stop) := d.run inClass fuel (d.next d.unicode i)
        (code :: codes, stop)
      else ([], i)
    | none => ([], i)

end Dialect

/-! ### Steps -/

def position : PatternM Nat := return (← get).pos

def moveTo (pos : Nat) : PatternM Unit := modify fun p => { p with pos }

/-- What stands at the cursor; `joined` joins surrogate pairs whatever the dialect says. -/
def peekJoined (joined : Bool) : PatternM (Option Nat) := do
  let d ← read
  return d.at? (joined || d.unicode) (← position)

def peek : PatternM (Option Nat) := peekJoined false

/-- What stands after what stands at the cursor. -/
def peekSecond : PatternM (Option Nat) := do
  let d ← read
  return d.at? d.unicode (d.next d.unicode (← position))

def advanceJoined (joined : Bool) : PatternM Unit := do
  let d ← read
  moveTo (d.next (joined || d.unicode) (← position))

def advance : PatternM Unit := advanceJoined false

/-- Does the character stand at the cursor? -/
def sees (c : Char) : PatternM Bool := return (← peek) == some c.toNat

/-- Moves past the character if it stands at the cursor. -/
def eat (c : Char) : PatternM Bool := do
  if ← sees c then advance; return true else return false

/-- Moves past the two characters if both stand at the cursor. -/
def eatPair (c c' : Char) : PatternM Bool := do
  let start ← position
  if ← eat c then
    if ← eat c' then return true
    moveTo start
  return false

/-- Moves past one code of a class and gives it. -/
def eatCode (inClass : Nat → Bool) : PatternM (Option Nat) := do
  match ← peek with
  | some code => if inClass code then advance; return some code else return none
  | none => return none

/-- Moves past the longest run of a class. -/
def eatRun (inClass : Nat → Bool) : PatternM (List Nat) := do
  let d ← read
  let (codes, stop) := d.run inClass (d.units.size + 1) (← position)
  moveTo stop
  return codes

/-- Takes a step as long as it matches. -/
def whileMatch (step : PatternM Bool) : Nat → PatternM Unit
  | 0 => pure ()
  | fuel + 1 => do if ← step then whileMatch step fuel

/-- Takes a step as long as it matches; no step matches more often than there are code units
left. -/
def exhaust (step : PatternM Bool) : PatternM Unit := do
  whileMatch step ((← read).units.size + 1 - (← position))

/-! ### Classes of codes -/

/-- Is `code` one of the characters? -/
def isOneOf (cs : List Char) (code : Nat) : Bool := cs.any fun c => c.toNat == code

def isDigitCode (code : Nat) : Bool := (scalar? code).any Alphabet.isDecimalDigit
def isOctalCode (code : Nat) : Bool := (scalar? code).any Alphabet.isOctalDigit
def isLetterCode (code : Nat) : Bool := (scalar? code).any Char.isAlpha

def hexValue? (code : Nat) : Option Nat := (scalar? code).bind (Alphabet.digit? 16)

def isSyntaxCharacter : Nat → Bool :=
  isOneOf ['$', '(', ')', '*', '+', '.', '?', '[', '\\', ']', '^', '{', '|', '}']

/-! ### Numbers -/

/-- Numbers in a pattern count no further than this. -/
def maxNumber : Nat := Nat.pow 2 64 - 1

/-- The number that digits write, most significant first. -/
def numberOf (radix : Nat) (digits : List Nat) : Nat :=
  digits.foldl (fun total digit => min (total * radix + digit) maxNumber) 0

/-- A run of decimal digits. -/
def eatDecimal : PatternM (Option Nat) := do
  match ← eatRun isDigitCode with
  | [] => return none
  | digits => return some (numberOf 10 (digits.map (· - '0'.toNat)))

/-- A run of hexadecimal digits. -/
def eatHex : PatternM (Option Nat) := do
  match ← eatRun fun code => (hexValue? code).isSome with
  | [] => return none
  | digits => return some (numberOf 16 (digits.filterMap hexValue?))

/-- Exactly `count` hexadecimal digits. -/
def eatFixedHex (count : Nat) : PatternM (Option Nat) := do
  let start ← position
  let rec go : Nat → Nat → PatternM (Option Nat)
    | 0, total => return some total
    | count + 1, total => do
      match (← peek).bind hexValue? with
      | some digit => advance; go count (total * 16 + digit)
      | none => moveTo start; return none
  go count 0

end RegExp
end ScriptSyntax
