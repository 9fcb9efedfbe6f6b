/-!
Scopes and the names bound in them.  A stack of scopes answers whether a declaration conflicts with
an earlier one, and where `await`, `yield`, `super` and `new.target` are legal.
-/

namespace ScriptSyntax

/-- What a scope belongs to, and what is legal in it. -/
structure ScopeFlags where
  top : Bool := false
  function : Bool := false
  async : Bool := false
  generator : Bool := false
  arrow : Bool := false
  /-- A catch clause whose parameter is a plain name. -/
  simpleCatch : Bool := false
  /-- Members of `super` are legal. -/
  super : Bool := false
  /-- Calls of `super` are legal. -/
  directSuper : Bool := false
  staticBlock : Bool := false
  fieldInitializer : Bool := false
  switch : Bool := false
deriving DecidableEq, Inhabited, Repr

namespace ScopeFlags

/-- The flags of either. -/
def union (a b : ScopeFlags) : ScopeFlags where
  top := a.top || b.top
  function := a.function || b.function
  async := a.async || b.async
  generator := a.generator || b.generator
  arrow := a.arrow || b.arrow
  simpleCatch := a.simpleCatch || b.simpleCatch
  super := a.super || b.super
  directSuper := a.directSuper || b.directSuper
  staticBlock := a.staticBlock || b.staticBlock
  fieldInitializer := a.fieldInitializer || b.fieldInitializer
  switch := a.switch || b.switch

/-- The flags as a number, one bit each. -/
def bits (f : ScopeFlags) : Nat :=
  [f.top, f.function, f.async, f.generator, f.arrow, f.simpleCatch, f.super, f.directSuper,
    f.staticBlock, f.fieldInitializer, f.switch].foldr (fun bit rest => bit.toNat + 2 * rest) 0

def ofFunction (async generator : Bool) : ScopeFlags := { function := true, async, generator }

/-- Variables are hoisted up to such a scope and no further. -/
def holdsVars (f : ScopeFlags) : Bool := f.top || f.function || f.staticBlock

/-- Is it the scope of a whole body of code, or of a field initializer? -/
def isBody (f : ScopeFlags) : Bool := f.holdsVars || f.fieldInitializer

end ScopeFlags

/-- How a name is bound. -/
inductive Binding where
  /-- Not at all: the name is only assigned to. -/
  | none
  | var
  | lexical
  | function
  /-- The plain parameter of a catch clause. -/
  | simpleCatch
  /-- In a scope around this one. -/
  | outside
deriving DecidableEq, Inhabited, Repr

structure Scope where
  flags : ScopeFlags
  /-- Variables declared here, or hoisted through here. -/
  vars : List String := []
  lexical : List String := []
  functions : List String := []
  /-- The plain parameter of a catch clause, which a variable may redeclare. -/
  catchParam : Option String := none
deriving DecidableEq, Inhabited, Repr

namespace Scope

/-- Do function declarations here behave like variables? -/
def functionsAsVars (inModule : Bool) (s : Scope) : Bool :=
  s.flags.function || (!inModule && s.flags.top)

/-- Does a variable conflict with what is declared here? -/
def clashesWithVar (inModule : Bool) (name : String) (s : Scope) : Bool :=
  (s.lexical.contains name && !(s.flags.simpleCatch && s.catchParam == some name)) ||
    (!s.functionsAsVars inModule && s.functions.contains name)

def insertVar (name : String) (s : Scope) : Scope := { s with vars := s.vars.insert name }

/-- Hoists a variable from the innermost scope outward until a scope holds it.  The values say
whether it meets a conflict on the way, the scopes after, and whether it gets to a top scope. -/
def hoist (inModule : Bool) (name : String) : List Scope → Bool × List Scope × Bool
  | [] => (false, [], false)
  | s :: outer =>
    if s.clashesWithVar inModule name then (true, s :: outer, false)
    else if s.flags.holdsVars then (false, s.insertVar name :: outer, s.flags.top)
    else
      let (conflict, outer, atTop) := hoist inModule name outer
      (conflict, s.insertVar name :: outer, atTop)

end Scope

structure ScopeStack where
  /-- Innermost first. -/
  scopes : List Scope := []
  inModule : Bool
  edition : Nat
  allowAwait : Bool
  allowSuper : Bool
  /-- Exported local names not declared so far, with their offsets, in the order of export. -/
  undefinedExports : List (String × Nat) := []
deriving DecidableEq, Inhabited, Repr

namespace ScopeStack

def enter (flags : ScopeFlags) (s : ScopeStack) : ScopeStack :=
  { s with scopes := { flags } :: s.scopes }

def exit (s : ScopeStack) : ScopeStack := { s with scopes := s.scopes.tail }

def depth (s : ScopeStack) : Nat := s.scopes.length

def current? (s : ScopeStack) : Option Scope := s.scopes.head?

/-- The flags of the innermost scope that passes a test; a top scope encloses all others. -/
def nearest (test : ScopeFlags → Bool) (s : ScopeStack) : ScopeFlags :=
  ((s.scopes.map (·.flags)).find? test).getD { top := true }

/-- The innermost body. -/
def varScope (s : ScopeStack) : ScopeFlags := s.nearest (·.isBody)

/-- The innermost body that binds `this`; arrow functions do not. -/
def thisScope (s : ScopeStack) : ScopeFlags := s.nearest fun f => f.isBody && !f.arrow

def functionsAsVars (s : ScopeStack) : Bool :=
  s.current?.any (·.functionsAsVars s.inModule)

/-- A name declared at the top of a module is no longer missing. -/
def defineExport (name : String) (s : ScopeStack) : ScopeStack :=
  { s with undefinedExports := s.undefinedExports.filter (·.1 != name) }

/-- Binds a name.  The first value says whether the name conflicts with an earlier declaration. -/
def declare (name : String) (binding : Binding) (s : ScopeStack) : Bool × ScopeStack :=
  match s.scopes with
  | [] => (false, s)
  | scope :: outer =>
    match binding with
    | .lexical =>
      let conflict := scope.lexical.contains name || scope.functions.contains name ||
        scope.vars.contains name
      let s := { s with scopes := { scope with lexical := scope.lexical.insert name } :: outer }
      (conflict, if s.inModule && scope.flags.top then s.defineExport name else s)
    | .simpleCatch =>
      let scope := { scope with lexical := scope.lexical.insert name, catchParam := some name }
      (false, { s with scopes := scope :: outer })
    | .function =>
      let conflict := scope.lexical.contains name ||
        (!scope.functionsAsVars s.inModule && scope.vars.contains name)
      let scope := { scope with functions := scope.functions.insert name }
      (conflict, { s with scopes := scope :: outer })
    | .var | .none | .outside =>
      let (conflict, scopes, atTop) := Scope.hoist s.inModule name s.scopes
      let s := { s with scopes }
      (conflict, if s.inModule && atTop then s.defineExport name else s)

/-- Notes the export of a local name; by the end of the module the top scope must declare it. -/
def exportLocal (name : String) (pos : Nat) (s : ScopeStack) : ScopeStack :=
  match s.scopes.getLast? with
  | some top =>
    if top.lexical.contains name || top.vars.contains name then s
    else { s with undefinedExports := s.undefinedExports ++ [(name, pos)] }
  | none => s

def inFunction (s : ScopeStack) : Bool := s.varScope.function
def inGenerator (s : ScopeStack) : Bool := s.varScope.generator
def inAsync (s : ScopeStack) : Bool := s.varScope.async
def inStaticBlock (s : ScopeStack) : Bool := s.varScope.staticBlock

/-- Is `await` an operator?  The innermost function, static block or field initializer tells. -/
def canAwait (s : ScopeStack) : Bool :=
  go s.scopes
where
  go : List Scope → Bool
    | [] => (s.inModule && 13 ≤ s.edition) || s.allowAwait
    | scope :: outer =>
      if scope.flags.staticBlock || scope.flags.fieldInitializer then false
      else if scope.flags.function then scope.flags.async
      else go outer

def superAllowed (s : ScopeStack) : Bool := s.thisScope.super || s.allowSuper

def directSuperAllowed (s : ScopeStack) : Bool := s.thisScope.directSuper

def newTargetAllowed (s : ScopeStack) : Bool :=
  s.scopes.any fun scope =>
    scope.flags.staticBlock || scope.flags.fieldInitializer ||
      (scope.flags.function && !scope.flags.arrow)

/-- Resources are declared in blocks, functions and modules. -/
def usingAllowed (s : ScopeStack) : Bool :=
  let flags := (s.current?.map (·.flags)).getD { top := true }
  !flags.switch && (s.inModule || !flags.top)

@[simp] theorem exit_enter (flags : ScopeFlags) (s : ScopeStack) : (s.enter flags).exit = s := rfl

@[simp] theorem depth_enter (flags : ScopeFlags) (s : ScopeStack) :
    (s.enter flags).depth = s.depth + 1 := rfl

theorem map_flags_hoist (inModule : Bool) (name : String) (scopes : List Scope) :
    (Scope.hoist inModule name scopes).2.1.map (·.flags) = scopes.map (·.flags) := by
  induction scopes with
  | nil => rfl
  | cons s outer ih =>
    unfold Scope.hoist
    split
    · rfl
    · split <;> simp [Scope.insertVar, ih]

theorem map_flags_declare (name : String) (binding : Binding) (s : ScopeStack) :
    (s.declare name binding).2.scopes.map (·.flags) = s.scopes.map (·.flags) := by
  unfold declare
  split
  · rfl
  · rename_i scope outer h
    cases binding <;> simp only [h]
    all_goals first
      | simp [defineExport]; done
      | (split <;> simp [defineExport]; done)
      | (split <;> simp [defineExport, map_flags_hoist])

end ScopeStack
end ScriptSyntax
