import ScriptSyntax.RegExp.Pattern

/-!
Validation of a literal: its flags, and its pattern by the grammar that the flags choose.
-/

namespace ScriptSyntax
namespace RegExp

def permittedFlags (edition : Nat) : List Char :=
  ['g', 'i', 'm'] ++ (if 6 ≤ edition then ['u', 'y'] else []) ++
    (if 9 ≤ edition then ['s'] else []) ++ (if 13 ≤ edition then ['d'] else []) ++
    (if 15 ≤ edition then ['v'] else [])

/-- Each flag must be known and stand once. -/
def checkEachFlag (permitted : List Char) : List Char → Except Fault Unit
  | [] => .ok ()
  | flag :: flags =>
    if !permitted.contains flag then .error .invalidFlag
    else if flags.contains flag then .error .duplicateFlag
    else checkEachFlag permitted flags

def checkFlags (edition : Nat) (flags : List Char) : Except Fault Unit := do
  checkEachFlag (permittedFlags edition) flags
  if 15 ≤ edition && flags.contains 'u' && flags.contains 'v' then throw .invalidFlag

/-- The grammar that flags choose for a pattern. -/
def Dialect.ofFlags (pattern flags : List Char) (edition : Nat) : Dialect :=
  let sets := flags.contains 'v' && 15 ≤ edition
  { units := (codeUnits pattern).toArray
    edition
    unicode := sets || (flags.contains 'u' && 6 ≤ edition)
    unicodeSets := sets
    namedGroups := sets || (flags.contains 'u' && 9 ≤ edition) }

/-- Reads the whole pattern once. -/
def Dialect.readPattern (d : Dialect) : Except Fault Progress :=
  match (pattern.run d).run {} with
  | .ok _ progress => .ok progress
  | .error fault _ => .error fault

/-- Outside unicode mode an escaped `k` is a reference only in patterns with a named group, and
whether a pattern has one shows at its end: such a pattern is read a second time.  The dialect
that was used last is kept. -/
def Dialect.validate (d : Dialect) : Except Fault Unit × Dialect :=
  match d.readPattern with
  | .error fault => (.error fault, d)
  | .ok progress =>
    if !d.namedGroups && 9 ≤ d.edition && !progress.names.isEmpty then
      let named := { d with namedGroups := true }
      (named.readPattern.map fun _ => (), named)
    else (.ok (), d)

def validateLiteral (edition : Nat) (pattern flags : List Char) : Except Fault Unit := do
  checkFlags edition flags
  ((Dialect.ofFlags pattern flags edition).validate).1

end RegExp
end ScriptSyntax
