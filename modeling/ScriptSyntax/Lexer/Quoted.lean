import ScriptSyntax.Lexer.Contexts
import ScriptSyntax.Number.Digits
import ScriptSyntax.RegExp.Cursor

/-!
Strings and templates, with the escapes in them.
-/

namespace ScriptSyntax
namespace LexM

/-- What an escape stands for.  An invalid escape is excused in the text of a template, from the
ninth edition on. -/
inductive Escape where
  | code (code : Nat)
  /-- A line break that leaves no trace. -/
  | continuation
  | invalid (error : SyntaxError) (excused : Bool)

/-- The character for a code; surrogates become the replacement character, one by one. -/
def charOfCode (code : Nat) : Char := (RegExp.scalar? code).getD '\ufffd'

def invalidEscape (pos : Nat) (fault : Fault) : LexM Escape := do
  let s ← read
  return .invalid (s.fatal pos fault) ((← get).inTemplate && decide (9 ≤ s.edition))

/-- Up to `count` hexadecimal digits, most significant first. -/
def hexDigits : Nat → LexM (List Nat)
  | 0 => return []
  | count + 1 => do
    match (← peek).bind (Alphabet.digit? 16) with
    | some digit =>
      advance 1
      return digit :: (← hexDigits count)
    | none => return []

/-- Exactly `count` hexadecimal digits, at least one. -/
def readHex (count : Nat) : LexM Escape := do
  let start ← pos
  let digits ← hexDigits count
  if digits.isEmpty || digits.length != count then invalidEscape start .badEscape
  else return .code (Number.natOfDigits 16 digits)

/-- A code point in braces, or four digits. -/
def readCodePoint : LexM Escape := do
  if ← sees '{' then
    if (← edition) < 6 then unexpected
    advance 1
    let start ← pos
    let s ← source
    match s.find? (fun i => s.has i '}') start with
    | none => invalidEscape start .badEscape
    | some close =>
      match ← readHex (close - start) with
      | .code code =>
        advance 1
        if 0x10ffff < code then invalidEscape start .codePointOutOfBounds else return .code code
      | other => return other
  else readHex 4

/-- An octal escape whose first digit is read already.  Only a lone zero is no legacy. -/
def readOctalEscape (inTemplate : Bool) : LexM Escape := do
  let s ← source
  let here ← pos
  let digits := ([here - 1, here, here + 1].map fun i => (s.charAt i).bind (Alphabet.digit? 8))
  let digits := (digits.takeWhile Option.isSome).filterMap id
  let digits := if 255 < Number.natOfDigits 8 digits then digits.dropLast else digits
  moveTo (here + (digits.length - 1))
  let legacy := digits != [0] || (← sees '8') || (← sees '9')
  if legacy && ((← get).strict || inTemplate) then
    invalidEscape ((← pos) - 1 - digits.length)
      (if inTemplate then .octalInTemplate else .octalInStrictMode)
  else return .code (Number.natOfDigits 8 digits)

/-- The escape at the cursor, which is at the backslash. -/
def readEscape (inTemplate : Bool) : LexM Escape := do
  advance 1
  match ← peek with
  | none => fail (← get).token.start .unterminatedString
  | some c =>
    skip c
    match c with
    | 'n' => return .code 0x0a
    | 'r' => return .code 0x0d
    | 'x' => readHex 2
    | 'u' => readCodePoint
    | 't' => return .code 0x09
    | 'b' => return .code 0x08
    | 'v' => return .code 0x0b
    | 'f' => return .code 0x0c
    | '\r' =>
      endCarriageReturn
      return .continuation
    | c =>
      if Alphabet.isLineTerminator c then
        newLine
        return .continuation
      else if c = '8' ∨ c = '9' then
        if (← get).strict then invalidEscape ((← pos) - 1) .invalidEscape
        else if inTemplate then invalidEscape ((← pos) - 1) .invalidEscapeInTemplate
        else return .code c.toNat
      else if Alphabet.isOctalDigit c then readOctalEscape inTemplate
      else return .code c.toNat

/-! ### Strings -/

/-- Reads one character or escape; `text` is what was read before, latest first. -/
def stringPass (quote : Char) (text : List Char) : LexM (Pass (List Char) (List Char)) := do
  let start := (← get).token.start
  match ← peek with
  | none => fail start .unterminatedString
  | some c =>
    if c = quote then return .done text
    else if c = '\\' then
      match ← readEscape false with
      | .code code => return .again (charOfCode code :: text)
      | .continuation => return .again text
      | .invalid error _ => throw error
    else if c = '\u2028' ∨ c = '\u2029' then
      if (← edition) < 10 then fail start .unterminatedString
      skip c
      newLine
      return .again (c :: text)
    else if Alphabet.isLineTerminator c then fail start .unterminatedString
    else
      skip c
      return .again (c :: text)

def readString (quote : Char) : LexM Unit := do
  advance 1
  let text ← repeatForward [] (stringPass quote)
  advance 1
  finish .string (.string (String.ofList text.reverse))

/-! ### Templates -/

/-- Does a chunk of a template end at the cursor? -/
def atChunkEnd : LexM Bool := do
  match ← peek with
  | some '\x60' => return true
  | some '$' => seesAhead 1 '{'
  | _ => return false

/-- Ends a chunk at the cursor.  After a chunk that ended here before, ends the backquote or the
opening brace instead. -/
def finishChunk (text : List Char) : LexM Unit := do
  let l ← get
  if l.pos = l.token.start ∧ (l.kind = .template ∨ l.kind = .invalidTemplate) then
    if ← sees '$' then finishOperator .dollarBraceL 2 else finishOperator .backQuote 1
  else finish .template (.string (String.ofList text.reverse))

/-- Reads one character or escape of a chunk; done with false at an excused escape, which makes the
chunk invalid. -/
def chunkPass (text : List Char) : LexM (Pass (List Char) Bool) := do
  if ← atChunkEnd then
    finishChunk text
    return .done true
  else
    match ← peek with
    | none => fail (← get).token.start .unterminatedTemplate
    | some '\\' =>
      match ← readEscape true with
      | .code code => return .again (charOfCode code :: text)
      | .continuation => return .again text
      | .invalid error excused => if excused then return .done false else throw error
    | some '\r' =>
      advance 1
      endCarriageReturn
      return .again ('\n' :: text)
    | some c =>
      skip c
      if Alphabet.isLineTerminator c then newLine
      return .again (c :: text)

/-- Skips one character or one escape of an invalid chunk. -/
def invalidChunkPass (_ : Unit) : LexM (Pass Unit Unit) := do
  if ← atChunkEnd then
    finish .invalidTemplate .none
    return .done ()
  else
    match ← peek with
    | none => fail (← get).token.start .unterminatedTemplate
    | some '\\' =>
      advance 1
      if let some c ← peek then skip c
      return .again ()
    | some '\r' =>
      advance 1
      endCarriageReturn
      return .again ()
    | some c =>
      skip c
      if Alphabet.isLineTerminator c then newLine
      return .again ()

/-- Runs a step on the text of a template.  Behind it the lexer is no longer in that text, whether
the step succeeds or fails. -/
def insideTemplate {α : Type} (step : LexM α) : LexM α := fun s l =>
  match step s { l with inTemplate := true } with
  | .ok a l => .ok a { l with inTemplate := false }
  | .error e l => .error e { l with inTemplate := false }

/-- The next chunk of a template, or the mark behind one. -/
def readChunk : LexM Unit := do
  unless ← repeatForward [] chunkPass do repeatForward () invalidChunkPass

/-- The next token of a template's text. -/
def readTemplate : LexM Unit := insideTemplate readChunk

end LexM
end ScriptSyntax
