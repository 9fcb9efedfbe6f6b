import ScriptSyntax.Number.Decimal
import ScriptSyntax.Parser.Subscript

/-!
Object literals, and the properties that may not stand twice in one.
-/

namespace ScriptSyntax

/-! ### Names of properties -/

/-- Numbers from this one on are named by their digits; smaller whole numbers by what fits into 64
bits. -/
def wholeNameLimit : Nat := Nat.pow 10 21

def largestWholeName : Nat := Nat.pow 2 63 - 1

def numberName (n : Number.Double) : String :=
  match n.toNat? with
  | some whole => if whole < wholeNameLimit then toString (min whole largestWholeName) else n.positional
  | none => n.positional

/-- The name of a property whose key is a literal. -/
def LiteralValue.propertyName : LiteralValue → String
  | string text => text
  | number n => numberName n
  | bigint digits => digits
  | boolean true => "true"
  | boolean false => "false"
  | null => "null"
  | regexp _ _ => ""

/-- The name of a property and where it stands, if it is known before the program runs. -/
def Expression.propertyName? : Expression → Option (String × Nat)
  | .identifier id => some (id.name, id.span.start)
  | .literal l => some (l.value.propertyName, l.span.start)
  | _ => none

/-- The forms in which a name stands in an object so far. -/
structure NameUse where
  data : Bool := false
  getter : Bool := false
  setter : Bool := false
deriving DecidableEq, Inhabited, Repr

namespace NameUse

/-- Does a property of a form clash with those before it? -/
def clashes (strict : Bool) (form : PropertyForm) (u : NameUse) : Bool :=
  match form with
  | .getter => u.data || u.getter
  | .setter => u.data || u.setter
  | _ => (strict && u.data) || u.getter || u.setter

def add (form : PropertyForm) (u : NameUse) : NameUse :=
  match form with
  | .getter => { u with getter := true }
  | .setter => { u with setter := true }
  | _ => { u with data := true }

end NameUse

/-- The names of an object's properties so far. -/
structure PropertyNames where
  /-- Does a `__proto__` property stand among them? -/
  proto : Bool := false
  uses : List (String × NameUse) := []
deriving Inhabited, Repr

namespace PropertyNames

def use (names : PropertyNames) (name : String) : NameUse := (names.uses.lookup name).getD {}

/-- Adds a property; the first value says whether it clashes. -/
def add (strict : Bool) (name : String) (form : PropertyForm) (names : PropertyNames) :
    Bool × PropertyNames :=
  let use := names.use name
  (use.clashes strict form, { names with uses := (name, use.add form) :: names.uses })

end PropertyNames

namespace ParseM

/-- A getter has no parameter, and a setter has one that is no rest. -/
def checkAccessor (isGetter : Bool) (f : Callable) : ParseM Unit := do
  match isGetter, f.params with
  | true, [] => return
  | true, _ => failRecoverable f.span.start .getterParameters
  | false, [.rest span _] => failRecoverable span.start .setterRest
  | false, [_] => return
  | false, _ => failRecoverable f.span.start .setterParameters

end ParseM

namespace Grammar

open ParseM

variable (g : Grammar)

/-- Is the key just read the word `async` before the name of a method? -/
def isAsyncMethod (key : Expression) (computed : Bool) : ParseM Bool := do
  match key, computed with
  | .identifier id, false =>
    let starAllowed ← since 9
    let nameFollows :=
      match ← kind with
      | .name | .num | .string | .bracketL => true
      | .star => starAllowed
      | kind => kind.isKeyword
    return id.name == "async" && nameFollows && !(← lineBreakBefore)
  | _, _ => return false

/-- Is the key just read the word `get` or `set` before the name of an accessor? -/
def accessorForm? (key : Expression) (computed escaped : Bool) : ParseM (Option PropertyForm) := do
  let kind ← kind
  if escaped || (← edition) < 5 || kind == .comma || kind == .braceR || kind == .eq then return none
  else
    match key, computed with
    | .identifier id, false =>
      return if id.name = "get" then some .getter else if id.name = "set" then some .setter else none
    | _, _ => return none

/-- A property that is no more than its name, with the default that it may have in a pattern. -/
def shorthandValue (start : NodeStart) (id : Identifier) : CoverM Expression := do
  let _ ← shorthandTarget start id
  if (← get).isSome && (← isKind .eq) then
    let pos ← tokenStart
    CoverM.amend fun d => { d with shorthandDefault := d.shorthandDefault.or (some pos) }
    next
    let value ← g.plainAssignment .plain
    return .assignment (← finishSpan start) .assign (.identifier id) value
  else return .identifier id

/-- A property from just past its key on.  `special` says that a star or `async` stood before the
key, as only methods have. -/
def propertyValue (start : NodeStart) (key : Expression) (computed escaped isGenerator isAsync : Bool) :
    CoverM ObjectMember := do
  let special := isGenerator || isAsync
  if special && (← isKind .colon) then unexpected
  if ← eat .colon then
    let value ← g.assignment .plain
    return .property (← finishSpan start) .plain computed key value
  else if (← since 6) && (← isKind .parenL) then
    let value ← g.method isGenerator isAsync false
    return .property (← finishSpan start) .method computed key (.function value)
  else
    match ← accessorForm? key computed escaped with
    | some form =>
      if special then unexpected
      let (key, computed) ← g.propertyName
      let value ← g.method false false false
      checkAccessor (form == .getter) value
      return .property (← finishSpan start) form computed key (.function value)
    | none =>
      match (← since 6), computed, key with
      | true, false, .identifier id =>
        if special then unexpected
        let value ← g.shorthandValue start id
        return .property (← finishSpan start) .shorthand false key value
      | _, _, _ => unexpected

/-- A member of an object. -/
def objectMember : CoverM ObjectMember := do
  let start ← startNode
  if ← (since 9 <&&> eat .ellipsis : ParseM Bool) then
    let argument ← g.assignment .plain
    noteCommaAfterSpread
    return .spread (← finishSpan start) argument
  else
    let isGenerator ← (since 6 <&&> eat .star : ParseM Bool)
    let escaped ← containsEscape
    let (key, computed) ← g.propertyName
    if !escaped && (← since 8) && !isGenerator && (← isAsyncMethod key computed) then
      let isGenerator ← (since 9 <&&> eat .star : ParseM Bool)
      let (key, computed) ← g.propertyName
      g.propertyValue start key computed escaped isGenerator true
    else g.propertyValue start key computed escaped isGenerator false

/-- A second `__proto__` property is a fault, put off if someone will settle it. -/
def checkProto (names : PropertyNames) (form : PropertyForm) (computed : Bool) (key : Expression) :
    CoverM PropertyNames := do
  match form, computed, key.propertyName? with
  | .plain, false, some ("__proto__", pos) =>
    if names.proto then
      if (← get).isSome then
        CoverM.amend fun d => { d with secondProto := d.secondProto.or (some pos) }
      else failRecoverable pos .protoRedefined
    return { names with proto := true }
  | _, _, _ => return names

/-- Before the sixth edition no name may stand twice, except for a getter with a setter and, in
sloppy code, for two values. -/
def checkNames (names : PropertyNames) (form : PropertyForm) (key : Expression) :
    ParseM PropertyNames := do
  match key.propertyName? with
  | none => return names
  | some (name, pos) =>
    let (conflict, names) := names.add (← strict) name form
    if conflict then failRecoverable pos .propertyRedefined
    return names

def checkMember (names : PropertyNames) : ObjectMember → CoverM PropertyNames
  | .spread .. => return names
  | .property _ form computed key _ => do
    if ← since 6 then checkProto names form computed key else checkNames names form key

/-- An object literal. -/
def object : CoverM Expression := do
  let start ← startNode
  next
  let trailing ← since 5
  let members ← repeatPast (([] : List ObjectMember), ({} : PropertyNames)) fun (members, names) => do
    if ← eat .braceR then return .done members.reverse
    else
      unless members.isEmpty do expect .comma
      if ← (pure (trailing && !members.isEmpty) <&&> eat .braceR : ParseM Bool) then
        return .done members.reverse
      else
        let m ← g.objectMember
        return .again (m :: members, ← checkMember names m)
  return .object (← finishSpan start) members

end Grammar
end ScriptSyntax
