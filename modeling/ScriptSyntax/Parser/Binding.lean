import ScriptSyntax.Parser.Grammar

/-!
Patterns that bind names: identifiers, and from the sixth edition on arrays and objects of patterns
with defaults and rests.
-/

namespace ScriptSyntax
namespace Grammar

open ParseM

variable (g : Grammar)

/-- The name of a property, and whether it is computed. -/
def propertyName : ParseM (Expression × Bool) := do
  if ← since 6 <&&> eat .bracketL then
    let key ← g.plainAssignment .plain
    expect .bracketR
    return (key, true)
  else
    match ← kind with
    | .num | .string => return (.literal (← literal), false)
    | _ => return (.identifier (← propertyWord), false)

/-- The default that may follow a target. -/
def withDefault (start : NodeStart) (target : Pattern) : ParseM Pattern := do
  if ← since 6 <&&> eat .eq then
    let value ← g.plainAssignment .plain
    return .assignment (← finishSpan start) target value
  else return target

/-- A target with or without a default. -/
def bindingElement : ParseM Pattern := do
  let start ← startNode
  g.withDefault start (← g.bindingAtom)

/-- No element follows a rest. -/
def checkNoComma : ParseM Unit := do
  if ← isKind .comma then failRecoverable (← tokenStart) .commaAfterRest

/-- A rest with a target; in the sixth edition that is a plain name. -/
def restBinding : ParseM Pattern := do
  let start ← startNode
  next
  if (← edition) = 6 ∧ (← kind) ≠ .name then unexpected
  let target ← g.bindingAtom
  return .rest (← finishSpan start) target

/-- Targets up to a closing token, which is moved past. -/
def bindingList (close : TokenKind) (holes trailing : Bool) : ParseM (List (Option Pattern)) :=
  repeatPast [] fun found => do
    if ← eat close then return .done found.reverse
    else
      unless found.isEmpty do expect .comma
      if ← pure holes <&&> isKind .comma then return .again (none :: found)
      else if ← pure trailing <&&> eat close then return .done found.reverse
      else if ← isKind .ellipsis then
        let rest ← g.restBinding
        checkNoComma
        expect close
        return .done (some rest :: found).reverse
      else return .again (some (← g.bindingElement) :: found)

/-- The parameters of a function, after the opening parenthesis. -/
def parameters : ParseM (List Pattern) := do
  return (← g.bindingList .parenR false (← since 8)).filterMap id

/-- The value of a property that is no more than its name. -/
def shorthandTarget (start : NodeStart) (id : Identifier) : ParseM Pattern := do
  checkName id
  noteAwaitName id.name start.pos
  return .identifier id

/-- A property of an object pattern, or its rest. -/
def patternMember : ParseM PatternMember := do
  let start ← startNode
  if ← since 9 <&&> eat .ellipsis then
    let id ← identifier
    checkNoComma
    return .rest (← finishSpan start) (.identifier id)
  else
    let (key, computed) ← g.propertyName
    if ← eat .colon then
      let value ← g.bindingElement
      return .property (← finishSpan start) false computed key value
    else
      match key, computed with
      | .identifier id, false =>
        let value ← g.withDefault start (← shorthandTarget start id)
        return .property (← finishSpan start) true false key value
      | _, _ => unexpected

def objectPattern : ParseM Pattern := do
  let start ← startNode
  next
  let members ← commaSeparated .braceR true g.patternMember
  return .object (← finishSpan start) members

def arrayPattern : ParseM Pattern := do
  let start ← startNode
  next
  let elements ← g.bindingList .bracketR true true
  return .array (← finishSpan start) elements

/-- A name, an array pattern or an object pattern. -/
def bindingLevel : ParseM Pattern := do
  if (← since 6) && (← isKind .bracketL) then g.arrayPattern
  else if (← since 6) && (← isKind .braceL) then g.objectPattern
  else return .identifier (← identifier)

end Grammar
end ScriptSyntax
