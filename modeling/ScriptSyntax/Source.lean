import ScriptSyntax.Alphabet

/-!
A source text addressed by byte offsets.  Offsets count the bytes of the UTF-8 encoding; a cell
stands for each byte, and the cell of a character's first byte holds the character.  White space and comments are one
gap between tokens, skipped without reading any token.
-/

namespace ScriptSyntax

/-- One cell per byte: the character itself, then its continuation bytes. -/
def spread (text : List Char) : List (Option Char) :=
  text.flatMap fun c => some c :: List.replicate (c.utf8Size - 1) none

@[simp] theorem spread_nil : spread [] = [] := rfl

theorem spread_cons (c : Char) (text : List Char) :
    spread (c :: text) = some c :: (List.replicate (c.utf8Size - 1) none ++ spread text) := rfl

theorem spread_append (a b : List Char) : spread (a ++ b) = spread a ++ spread b := by
  simp [spread]

theorem filterMap_replicate_none (n : Nat) : (List.replicate n (none : Option Char)).filterMap id = [] := by
  induction n with
  | zero => rfl
  | succ n ih => exact ih

theorem filterMap_spread (text : List Char) : (spread text).filterMap id = text := by
  induction text with
  | nil => rfl
  | cons c text ih =>
    have rest : (List.replicate (c.utf8Size - 1) none ++ spread text).filterMap id = text := by
      rw [List.filterMap_append, filterMap_replicate_none, ih, List.nil_append]
    exact congrArg (c :: ·) rest

structure Source where
  text : String
  cells : Array (Option Char)
  cells_eq : cells = (spread text.toList).toArray

namespace Source

def ofString (text : String) : Source := ⟨text, (spread text.toList).toArray, rfl⟩

instance : Inhabited Source := ⟨ofString ""⟩

/-- The length in bytes. -/
def size (s : Source) : Nat := s.cells.size

/-- The character that begins at an offset; none inside a character or past the end. -/
def charAt (s : Source) (offset : Nat) : Option Char := (s.cells[offset]?).join

/-- Does the character `c` begin at `offset`? -/
def has (s : Source) (offset : Nat) (c : Char) : Bool := s.charAt offset == some c

/-- The end of the text is a boundary too. -/
def isBoundary (s : Source) (offset : Nat) : Bool := offset == s.size || (s.charAt offset).isSome

theorem lt_size_of_charAt {s : Source} {offset : Nat} {c : Char}
    (h : s.charAt offset = some c) : offset < s.size := by
  rcases Nat.lt_or_ge offset s.size with below | above
  · exact below
  · simp [charAt, size] at h above
    simp [Array.getElem?_eq_none above] at h

theorem charAt_size (s : Source) : s.charAt s.size = none := by
  simp [charAt, size]

/-- The characters from one boundary to another; none if an end is no boundary. -/
def chars (s : Source) (start stop : Nat) : List Char :=
  if s.isBoundary start && s.isBoundary stop then
    (s.cells.extract start stop).toList.filterMap id
  else []

def slice (s : Source) (start stop : Nat) : String := String.ofList (s.chars start stop)

/-- Does a line end between two offsets? -/
def hasLineBreak (s : Source) (start stop : Nat) : Bool :=
  (s.chars start stop).any Alphabet.isLineTerminator

/-- The first offset at or after `offset` where no character of the class begins. -/
def skipWhile (s : Source) (inClass : Char → Bool) (offset : Nat) : Nat :=
  match _h : s.charAt offset with
  | some c => if inClass c then s.skipWhile inClass (offset + c.utf8Size) else offset
  | none => offset
termination_by s.size - offset
decreasing_by
  have := lt_size_of_charAt _h
  have := c.utf8Size_pos
  omega

theorem le_skipWhile (s : Source) (inClass : Char → Bool) (offset : Nat) :
    offset ≤ s.skipWhile inClass offset := by
  fun_induction skipWhile s inClass offset with
  | case1 _ c _ _ ih => have := c.utf8Size_pos; omega
  | case2 | case3 => omega

/-- The first offset at or after `offset` that passes a test. -/
def find? (s : Source) (test : Nat → Bool) (offset : Nat) : Option Nat :=
  if offset < s.size then
    if test offset then some offset else s.find? test (offset + 1)
  else none
termination_by s.size - offset

theorem find?_spec {s : Source} {test : Nat → Bool} {offset found : Nat}
    (h : s.find? test offset = some found) :
    offset ≤ found ∧ found < s.size ∧ test found = true := by
  fun_induction find? s test offset with
  | case1 => simp_all
  | case2 _ _ _ ih => obtain ⟨le, lt, ok⟩ := ih h; exact ⟨by omega, lt, ok⟩
  | case3 => simp at h

/-- Where the next comment terminator begins. -/
def findCommentEnd? (s : Source) (offset : Nat) : Option Nat :=
  s.find? (fun i => s.has i '*' && s.has (i + 1) '/') offset

/-- Just past the first line break between two offsets.  A carriage return and the line feed
after it are one break, unless `stop` parts them. -/
def nextLineBreak? (s : Source) (start stop : Nat) : Option Nat :=
  if s.isBoundary start && s.isBoundary stop then
    let at' := s.skipWhile (fun c => !Alphabet.isLineTerminator c) start
    if at' < stop then
      (s.charAt at').map fun c =>
        let after := at' + c.utf8Size
        if c == '\r' && s.has after '\n' && after < stop then after + 1 else after
    else none
  else none

/-- The first offset at or after `offset` that begins neither white space nor a comment.  An open
block comment reaches to the end of the text. -/
def skipBlank (s : Source) (offset : Nat) : Nat :=
  match _h : s.charAt offset with
  | none => offset
  | some c =>
    if Alphabet.isBlank c || Alphabet.isLineTerminator c then s.skipBlank (offset + c.utf8Size)
    else if c = '/' && s.has (offset + 1) '/' then
      s.skipBlank (s.skipWhile (fun c => !Alphabet.isLineTerminator c) (offset + 2))
    else if c = '/' && s.has (offset + 1) '*' then
      match _found : s.findCommentEnd? (offset + 2) with
      | some stop => s.skipBlank (stop + 2)
      | none => s.size
    else offset
termination_by s.size - offset
decreasing_by
  all_goals
    have := lt_size_of_charAt _h
    have := c.utf8Size_pos
  · omega
  · have := s.le_skipWhile (fun c => !Alphabet.isLineTerminator c) (offset + 2)
    omega
  · have := find?_spec _found
    omega

end Source
end ScriptSyntax
