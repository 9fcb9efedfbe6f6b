import ScriptSyntax.RegExp.Class

/-!
Patterns: disjunctions of alternatives, alternatives of terms, terms of atoms and assertions.
-/

namespace ScriptSyntax
namespace RegExp

/-- How deep groups and classes may nest. -/
def maxDepth : Nat := 1000

/-! ### Quantifiers -/

/-- Bounds in braces.  A `lenient` reading never fails. -/
def bracedQuantifier (lenient : Bool) : PatternM Bool := do
  let start ← position
  if ← eat '{' then
    if let some low ← eatDecimal then
      let high ← if ← eat ',' then eatDecimal else pure none
      if ← eat '}' then
        if high.any (· < low) && !lenient then throw .quantifierOutOfOrder
        return true
    if (← read).unicode && !lenient then throw .incompleteQuantifier
    moveTo start
  return false

def quantifier (lenient : Bool) : PatternM Bool := do
  if ← anyMatch [eat '*', eat '+', eat '?', bracedQuantifier lenient] then
    let _ ← eat '?'
    return true
  else return false

/-! ### Alternatives -/

/-- Are alternatives told apart?  From the sixteenth edition on groups may share a name, if no two
of them can take part in one match. -/
def Dialect.tracksBranches (d : Dialect) : Bool := 16 ≤ d.edition

/-- The alternative at the cursor. -/
def Progress.current? (p : Progress) : Option Branch := p.branch.bind fun id => p.branches[id]?

/-- Begins an alternative of the disjunction that began with `base`, or of a new one. -/
def beginBranch (parent base : Option Nat) : PatternM Unit :=
  modify fun p =>
    let id := p.branches.size
    { p with branches := p.branches.push ⟨parent, base.getD id⟩, branch := some id }

/-- Begins the first alternative of a disjunction at the cursor. -/
def openBranch : PatternM Unit := do
  if (← read).tracksBranches then beginBranch (← get).branch none

/-- Begins the next alternative of the disjunction at the cursor. -/
def nextBranch : PatternM Unit := do
  if (← read).tracksBranches then
    if let some branch := (← get).current? then beginBranch branch.parent (some branch.base)

/-- Goes back to the alternative around the disjunction at the cursor. -/
def closeBranch : PatternM Unit := do
  if (← read).tracksBranches then
    modify fun p => { p with branch := p.current?.bind (·.parent) }

/-! ### Groups -/

/-- Are the groups at two places kept apart? -/
def Progress.separates (p : Progress) (known current : Option Nat) : Bool :=
  match known, current with
  | some a, some b => separatedFrom p.branches a b
  | _, _ => false

/-- Does a group of the name stand where another must not? -/
def Progress.refuses (d : Dialect) (p : Progress) (name : String) : Bool :=
  p.names.any fun group =>
    group.1 == name && !(d.tracksBranches && p.separates group.2 p.branch)

/-- Enters a name at the cursor. -/
def declareGroup (name : String) : PatternM Unit := do
  if (← get).refuses (← read) name then throw .duplicateGroupName
  modify fun p => { p with names := p.names ++ [(name, p.branch)] }

/-- The name of a capturing group, if it has one. -/
def groupSpecifier : PatternM Unit := do
  if ← eat '?' then
    match ← groupName with
    | some name => declareGroup name
    | none => throw .invalidGroup

def hasDuplicate (codes : List Nat) : Bool :=
  match codes with
  | [] => false
  | code :: codes => codes.contains code || hasDuplicate codes

/-- Modifiers that a group adds and removes. -/
def modifiers : PatternM Unit := do
  let eatModifiers := eatRun (isOneOf ['i', 'm', 's'])
  let added ← eatModifiers
  let hyphen ← eat '-'
  if !added.isEmpty || hyphen then
    if hasDuplicate added then throw .duplicateModifiers
    if hyphen then
      let removed ← eatModifiers
      if added.isEmpty && removed.isEmpty && (← sees ':') then throw .invalidModifiers
      if hasDuplicate removed || removed.any added.contains then throw .duplicateModifiers

section

-- Reads the disjunction inside a group.
variable (inner : PatternM Unit)

/-- The disjunction inside a group and the parenthesis that closes it. -/
def closedDisjunction : PatternM Unit := do
  inner
  unless ← eat ')' do throw .unterminatedGroup

/-- An assertion; the value says whether it may be quantified. -/
def assertion : PatternM (Option Bool) := orRewind do
  if ← anyMatch [eat '^', eat '$'] then return some false
  if ← eatPair '\\' 'B' then return some false
  if ← eatPair '\\' 'b' then return some false
  if ← eatPair '(' '?' then
    let behind ← if 9 ≤ (← read).edition then eat '<' else pure false
    if ← anyMatch [eat '=', eat '!'] then
      closedDisjunction inner
      return some !behind
  return none

def uncapturingGroup : PatternM Bool := do
  let start ← position
  if ← eat '(' then
    if ← eat '?' then
      if 16 ≤ (← read).edition then modifiers
      if ← eat ':' then
        closedDisjunction inner
        return true
    moveTo start
  return false

def capturingGroup : PatternM Bool := do
  if ← eat '(' then
    if 9 ≤ (← read).edition then groupSpecifier
    else if ← sees '?' then throw .invalidGroup
    closedDisjunction inner
    modify fun p => { p with groups := p.groups + 1 }
    return true
  else return false

/-! ### Terms -/

/-- A quantifier where no atom stands before it. -/
def strayQuantifier : PatternM Bool := do
  if ← bracedQuantifier true then throw .nothingToRepeat
  return false

/-- What the lenient grammar takes as a plain character. -/
def isLenientCharacter (code : Nat) : Bool :=
  !isOneOf ['$', '(', ')', '*', '+', '.', '?', '[', '^', '|'] code

/-- An atom of unicode mode. -/
def strictAtom (depth : Nat) : PatternM Bool :=
  anyMatch
    [return !(← eatRun fun code => !isSyntaxCharacter code).isEmpty, eat '.', escapedAtom,
     characterClass depth, uncapturingGroup inner, capturingGroup inner]

/-- An atom outside unicode mode, where what cannot be read otherwise stands for itself. -/
def lenientAtom (depth : Nat) : PatternM Bool :=
  anyMatch
    [eat '.', escapedAtom, characterClass depth, uncapturingGroup inner, capturingGroup inner,
     strayQuantifier, return (← eatCode isLenientCharacter).isSome]

def term (depth : Nat) : PatternM Bool := do
  let unicode := (← read).unicode
  match ← assertion inner with
  | some quantifiable =>
    if quantifiable then
      if ← quantifier false then
        if unicode then throw .invalidQuantifier
    return true
  | none =>
    if ← if unicode then strictAtom inner depth else lenientAtom inner depth then
      let _ ← quantifier false
      return true
    else return false

def alternative (depth : Nat) : PatternM Unit := exhaust (term inner depth)

/-- The alternatives after the first. -/
def alternatives (depth : Nat) : Nat → PatternM Unit
  | 0 => return
  | fuel + 1 => do
    if ← eat '|' then
      nextBranch
      alternative inner depth
      alternatives depth fuel

end

/-- A disjunction.  `depth` is how much deeper groups may nest. -/
def disjunction : Nat → PatternM Unit
  | 0 => throw .tooDeeplyNested
  | depth + 1 => do
    openBranch
    alternative (disjunction depth) depth
    alternatives (disjunction depth) depth ((← read).units.size + 1)
    closeBranch
    if ← quantifier true then throw .nothingToRepeat
    if ← eat '{' then throw .loneQuantifierBrackets

/-- A whole pattern. -/
def pattern : PatternM Unit := do
  disjunction maxDepth
  if (← position) != (← read).units.size then
    if ← eat ')' then throw .unmatchedParenthesis
    if ← anyMatch [eat ']', eat '}'] then throw .loneQuantifierBrackets
  let p ← get
  if p.groups < p.maxReference then throw .invalidEscape
  unless p.references.all fun name => p.names.any (·.1 == name) do throw .invalidNamedCapture

end RegExp
end ScriptSyntax
