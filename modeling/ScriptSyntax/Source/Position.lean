import ScriptSyntax.Source

/-!
Lines and columns.  Lines count from one; a column is the distance in bytes from the start of
its line.
-/

namespace ScriptSyntax

structure Position where
  line : Nat
  column : Nat
deriving DecidableEq, Inhabited, Repr

namespace Position

/-- The start of a text. -/
def first : Position := ⟨1, 0⟩

end Position

namespace Source

/-- The line that `stop` lies on and the start of that line, counted onward from `start`. -/
def lineOf (s : Source) (stop : Nat) : Nat → Nat → Nat → Nat × Nat
  | 0, line, start => (line, start)
  | fuel + 1, line, start =>
    match s.nextLineBreak? start stop with
    | some next => s.lineOf stop fuel (line + 1) next
    | none => (line, start)

/-- The position of an offset; offsets past the end count as the end. -/
def position (s : Source) (offset : Nat) : Position :=
  let stop := min offset s.size
  let (line, start) := s.lineOf stop (stop + 1) 1 0
  ⟨line, stop - start⟩

/-- Just past the last line terminator that begins before `offset`, or the start of the text. -/
def lastLineEnd (s : Source) : Nat → Nat
  | 0 => 0
  | offset + 1 =>
    match s.charAt offset with
    | some c =>
      if Alphabet.isLineTerminator c then offset + c.utf8Size else s.lastLineEnd offset
    | none => s.lastLineEnd offset

/-- The start of the line that `offset` lies on; zero if `offset` is no boundary. -/
def lineStart (s : Source) (offset : Nat) : Nat :=
  if s.isBoundary offset then s.lastLineEnd offset else 0

end Source

/-- The start and the end of a token or node, and the name of the file they lie in. -/
structure SourceLocation where
  start : Position
  stop : Position
  file : Option String
deriving DecidableEq, Inhabited, Repr

end ScriptSyntax
