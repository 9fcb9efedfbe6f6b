/-!
What a caller chooses about a parse, and the names and numbers by which the choices are written.
-/

namespace ScriptSyntax

/-- An edition of the language, as a caller names it: by edition number, by year, or as the
latest. -/
inductive Version where
  | latest
  | numbered (number : Nat)
deriving DecidableEq, Inhabited, Repr

inductive SourceType where
  | script
  | module
deriving DecidableEq, Inhabited, Repr

/-- May reserved words be identifiers?  `never` forbids them as property names too. -/
inductive AllowReserved where
  | yes
  | no
  | never
deriving DecidableEq, Inhabited, Repr

/-- Why a written choice is refused. -/
inductive OptionsError where
  | unsupportedNumber (number : Nat)
  | unsupportedName (name : String)
  | invalidAllowReserved (name : String)
deriving DecidableEq, Inhabited, Repr

/-- A name between double quotes, with what is unprintable escaped. -/
def quoted (name : String) : String :=
  "\"" ++ String.join (name.toList.map escape) ++ "\""
where
  escape (c : Char) : String :=
    match c with
    | '"' => "\\\""
    | '\\' => "\\\\"
    | '\n' => "\\n"
    | '\t' => "\\t"
    | '\r' => "\\r"
    | '\x00' => "\\0"
    | c =>
      if c.toNat < 0x20 ∨ (0x7f ≤ c.toNat ∧ c.toNat < 0xa0) then
        "\\u\x7b" ++ String.ofList (Nat.toDigits 16 c.toNat) ++ "\x7d"
      else c.toString

def OptionsError.message : OptionsError → String
  | unsupportedNumber number => "unsupported ecmaVersion " ++ toString number
  | unsupportedName name => "unsupported ecmaVersion " ++ quoted name
  | invalidAllowReserved name => "invalid allowReserved value " ++ quoted name

namespace Version

/-- The latest edition known. -/
def latestEdition : Nat := 17

/-- The edition meant: years count from the sixth edition in 2015. -/
def edition : Version → Nat
  | latest => latestEdition
  | numbered number => min (if 2015 ≤ number then number - 2009 else number) latestEdition

/-- There is no fourth edition. -/
def ofNumber (number : Nat) : Except OptionsError Version :=
  if number = 3 ∨ (5 ≤ number ∧ number ≤ 17) ∨ (2015 ≤ number ∧ number ≤ 2026) then
    .ok (numbered number)
  else .error (.unsupportedNumber number)

def ofName (name : String) : Except OptionsError Version :=
  if name = "latest" then .ok latest else .error (.unsupportedName name)

theorem edition_le_latestEdition (v : Version) : v.edition ≤ latestEdition := by
  cases v with
  | latest => exact Nat.le_refl _
  | numbered number => exact Nat.min_le_right _ _

end Version

def AllowReserved.ofName (name : String) : Except OptionsError AllowReserved :=
  if name = "never" then .ok .never else .error (.invalidAllowReserved name)

def AllowReserved.ofBool (flag : Bool) : AllowReserved := if flag then .yes else .no

structure Options where
  version : Version := .latest
  sourceType : SourceType := .script
  /-- Left open, words are free in editions before the fifth only. -/
  allowReserved : Option AllowReserved := none
  allowReturnOutsideFunction : Bool := false
  allowImportExportEverywhere : Bool := false
  /-- Modules need no leave from the thirteenth edition on. -/
  allowAwaitOutsideFunction : Bool := false
  allowSuperOutsideMethod : Bool := false
  /-- Left open, a `#!` line is allowed from the fourteenth edition on. -/
  allowHashBang : Option Bool := none
  checkPrivateFields : Bool := true
  locations : Bool := false
  ranges : Bool := false
  sourceFile : Option String := none
deriving DecidableEq, Inhabited, Repr

namespace Options

/-- The defaults for a module. -/
def forModule : Options := { sourceType := .module }

def edition (o : Options) : Nat := o.version.edition

def isModule (o : Options) : Bool := o.sourceType == .module

def reservedPolicy (o : Options) : AllowReserved :=
  o.allowReserved.getD (if o.edition < 5 then .yes else .no)

def hashBangAllowed (o : Options) : Bool := o.allowHashBang.getD (14 ≤ o.edition)

@[simp] theorem edition_mk (o : Options) (v : Version) :
    { o with version := v }.edition = v.edition := rfl

end Options
end ScriptSyntax
