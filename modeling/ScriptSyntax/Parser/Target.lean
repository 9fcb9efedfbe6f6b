import ScriptSyntax.Parser.Name

/-!
Targets of assignments and bindings: expressions that turn out to be patterns, and the checks on what
a pattern assigns to or binds.
-/

namespace ScriptSyntax

/-- What decides whether an expression can be read as a pattern. -/
structure TargetRules where
  edition : Nat
  inAsync : Bool
  /-- Names are bound, so members are no targets. -/
  binding : Bool
deriving DecidableEq, Inhabited, Repr

namespace TargetRules

/-- In an async function `await` is no name. -/
def name (r : TargetRules) (id : Identifier) : Except Complaint Pattern :=
  if r.inAsync && id.name == "await" then .error (.fatal id.span.start .awaitInAsync)
  else .ok (.identifier id)

/-- The target before a default was read as a pattern already. -/
def recheck (r : TargetRules) : Pattern → Except Complaint Pattern
  | .identifier id => r.name id
  | .member m => if r.binding then .error (.fatal m.span.start .assignToRvalue) else .ok (.member m)
  | p => .ok p

/-- The rest of an object has no structure and no default. -/
def objectRest : Pattern → Except Complaint Pattern
  | .array span _ | .object span _ => .error (.fatal span.start .unexpectedToken)
  | .assignment span _ _ => .error (.fatal span.start .restDefault)
  | p => .ok p

/-- The rest of an array has no default. -/
def arrayRest : Pattern → Except Complaint Pattern
  | .assignment span _ _ => .error (.fatal span.start .restDefault)
  | p => .ok p

/-- A rest stands last; in the sixth edition it binds a plain name. -/
def checkRest (r : TargetRules) (isLast : Bool) : Pattern → Except Complaint Unit
  | .rest span argument =>
    if !isLast then .error (.fatal span.start .commaAfterRest)
    else
      match argument with
      | .identifier _ => .ok ()
      | argument =>
        if r.edition = 6 ∧ r.binding then .error (.fatal argument.span.start .unexpectedToken)
        else .ok ()
  | _ => .ok ()

end TargetRules

mutual

/-- The pattern that an expression of the sixth edition or later writes. -/
def Expression.toTarget (r : TargetRules) : Expression → Except Complaint Pattern
  | .identifier id => r.name id
  | .object span members => do return .object span (← memberTargets r members)
  | .array span elements => do return .array span (← slotTargets r elements)
  | .spread span argument => do
    return .rest span (← TargetRules.arrayRest (← argument.toTarget r))
  | .assignment span .assign target value => do
    return .assignment span (← r.recheck target) value
  | .assignment _ _ target _ => .error (.fatal target.span.stop .compoundDefault)
  | .chain span _ => .error (.recoverable span.start .optionalTarget)
  | .member m =>
    if r.binding then .error (.fatal m.span.start .assignToRvalue) else .ok (.member m)
  | e => .error (.fatal e.span.start .assignToRvalue)

def slotTarget (r : TargetRules) : Option Expression → Except Complaint (Option Pattern)
  | none => .ok none
  | some e => do return some (← e.toTarget r)

def slotTargets (r : TargetRules) : List (Option Expression) → Except Complaint (List (Option Pattern))
  | [] => .ok []
  | e :: rest => do
    let p ← slotTarget r e
    if let some p := p then r.checkRest rest.isEmpty p
    return p :: (← slotTargets r rest)

def memberTarget (r : TargetRules) : ObjectMember → Except Complaint PatternMember
  | .property span form computed key value =>
    if form = .getter ∨ form = .setter then .error (.fatal key.span.start .accessorInPattern)
    else do return .property span (form == .shorthand) computed key (← value.toTarget r)
  | .spread span argument => do
    return .rest span (← TargetRules.objectRest (← argument.toTarget r))

def memberTargets (r : TargetRules) : List ObjectMember → Except Complaint (List PatternMember)
  | [] => .ok []
  | m :: rest => do return (← memberTarget r m) :: (← memberTargets r rest)

end

/-- The pattern that an expression writes.  Before the sixth edition there are names and members
only. -/
def Expression.toPattern (r : TargetRules) (e : Expression) : Except Complaint Pattern :=
  if r.edition < 6 then
    match e with
    | .identifier id => .ok (.identifier id)
    | .member m => .ok (.member m)
    | e => .error (.fatal e.span.start .assignToRvalue)
  else e.toTarget r

/-- Does reading the expression as a pattern settle the faults that were put off? -/
def Expression.settlesFaults (edition : Nat) : Expression → Bool
  | .object .. | .array .. => true
  | _ => edition < 6

/-- One place that a pattern assigns to or binds. -/
inductive Target where
  | name (id : Identifier)
  | member (pos : Nat)
  /-- What can be no target. -/
  | other (pos : Nat)
deriving DecidableEq, Inhabited, Repr

mutual

/-- The targets of a pattern in source order.  Defaults and rests are for inner patterns only. -/
def Pattern.targets (inner : Bool) : Pattern → List Target
  | .identifier id => [.name id]
  | .member m => [.member m.span.start]
  | .object _ members => patternMemberTargets members
  | .array _ elements => patternSlotTargets elements
  | .rest span argument => if inner then argument.targets false else [.other span.start]
  | .assignment span target _ => if inner then target.targets false else [.other span.start]

def patternMemberTargets : List PatternMember → List Target
  | [] => []
  | m :: rest => patternMemberTarget m ++ patternMemberTargets rest

def patternMemberTarget : PatternMember → List Target
  | .property _ _ _ _ value => value.targets true
  | .rest _ argument => argument.targets false

def patternSlotTargets : List (Option Pattern) → List Target
  | [] => []
  | p :: rest => patternSlotTarget p ++ patternSlotTargets rest

def patternSlotTarget : Option Pattern → List Target
  | none => []
  | some p => p.targets true

end

namespace ParseM

def targetRules (binding : Bool) : ParseM TargetRules :=
  return ⟨← edition, (← scopes).inAsync, binding⟩

/-- Binds a name in the innermost scope. -/
def declare (name : String) (binding : Binding) (pos : Nat) : ParseM Unit := do
  let (conflict, scopes) := (← scopes).declare name binding
  modify fun p => { p with scopes }
  if conflict then failRecoverable pos (.alreadyDeclared name)

/-- A name as a target.  `clashes` says that it is already among the names bound with it. -/
def checkTargetName (binding : Binding) (clashes : Bool) (id : Identifier) : ParseM Unit := do
  let pos := id.span.start
  if (← strict) && (← read).reservedWords.containsStrictBinding id.name then
    failRecoverable pos
      (if binding = .none then .strictAssignment id.name else .strictBinding id.name)
  unless binding = .none do
    if binding = .lexical ∧ id.name = "let" then failRecoverable pos .lexicalLet
    if clashes then failRecoverable pos .argumentClash
    unless binding = .outside do declare id.name binding pos

/-- Checks targets in order, and binds their names.  `seen` are names that must not come again. -/
def checkTargets (binding : Binding) (distinct : Bool) (seen : List String) :
    List Target → ParseM Unit
  | [] => return
  | .name id :: rest => do
    checkTargetName binding (distinct && seen.contains id.name) id
    checkTargets binding distinct (id.name :: seen) rest
  | .member pos :: rest => do
    unless binding = .none do failRecoverable pos .bindingMember
    checkTargets binding distinct seen rest
  | .other pos :: _ => fail pos (if binding = .none then .assignToRvalue else .bindingRvalue)

def checkPattern (binding : Binding) (p : Pattern) : ParseM Unit :=
  checkTargets binding false [] (p.targets false)

/-- Binds a name. -/
def checkBinding (binding : Binding) (id : Identifier) : ParseM Unit :=
  checkTargetName binding false id

/-- Binds the parameters of a function. -/
def checkParams (params : List Pattern) (distinct : Bool) : ParseM Unit :=
  checkTargets .var distinct [] (params.flatMap (·.targets true))

/-- The operand of an update or a compound assignment as a target. -/
def simpleTarget (e : Expression) : ParseM Pattern := do
  match e with
  | .identifier id =>
    checkTargetName .none false id
    return .identifier id
  | .member m => return .member m
  | .chain span _ => failRecoverable span.start .optionalTarget
  | e => fail e.span.start .assignToRvalue

end ParseM
end ScriptSyntax
