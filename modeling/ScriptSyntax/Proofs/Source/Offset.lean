import ScriptSyntax.Source

/-!
Offsets inside a text.  A character that begins in the text ends in it, and so do the gaps and words
that are skipped.
-/

namespace ScriptSyntax

theorem length_spread (text : List Char) : (spread text).length = text.utf8Encode.size := by
  induction text with
  | nil => rfl
  | cons c text ih =>
    have := c.utf8Size_pos
    rw [List.utf8Encode_cons, ByteArray.size_append, ← ih, List.utf8Encode_singleton,
      List.size_toByteArray, String.length_utf8EncodeChar]
    simp only [spread_cons, List.length_cons, List.length_append, List.length_replicate]
    omega

/-- A character begins where the characters before it end. -/
theorem spread_split {text : List Char} {i : Nat} {c : Char} (h : (spread text)[i]? = some (some c)) :
    ∃ before after, text = before ++ c :: after ∧ (spread before).length = i := by
  induction text generalizing i with
  | nil => simp at h
  | cons b text ih =>
    have := b.utf8Size_pos
    rw [spread_cons] at h
    cases i with
    | zero =>
      obtain rfl : b = c := by simpa using h
      exact ⟨[], text, rfl, rfl⟩
    | succ i =>
      rw [List.getElem?_cons_succ] at h
      rcases Nat.lt_or_ge i (b.utf8Size - 1) with inside | beyond
      · rw [List.getElem?_append_left (by simpa using inside)] at h
        simp [inside] at h
      · rw [List.getElem?_append_right (by simpa using beyond), List.length_replicate] at h
        obtain ⟨before, after, rfl, length⟩ := ih h
        refine ⟨b :: before, after, rfl, ?_⟩
        simp only [spread_cons, List.length_cons, List.length_append, List.length_replicate, length]
        omega

/-- White space or the end of a line, which stand between tokens. -/
def Alphabet.isGap (c : Char) : Bool := isBlank c || isLineTerminator c

namespace Source

/-- The length of a source is that of its text. -/
theorem size_eq (s : Source) : s.size = s.text.utf8ByteSize := by
  rw [size, s.cells_eq, List.size_toArray, length_spread, String.utf8Encode_toList,
    String.size_toByteArray]

theorem charAt_split {s : Source} {offset : Nat} {c : Char} (h : s.charAt offset = some c) :
    ∃ before after, s.cells.toList = spread before ++ (spread [c] ++ spread after) ∧
      (spread before).length = offset := by
  simp only [charAt, s.cells_eq, List.getElem?_toArray, Option.join_eq_some_iff] at h
  obtain ⟨before, after, text, length⟩ := spread_split h
  refine ⟨before, after, ?_, length⟩
  rw [s.cells_eq, List.toList_toArray, text, spread_append, ← List.singleton_append, spread_append]

@[simp] theorem length_spread_singleton (c : Char) : (spread [c]).length = c.utf8Size := by
  have := c.utf8Size_pos
  simp only [spread_cons, spread_nil, List.length_cons, List.length_append, List.length_replicate, List.length_nil]
  omega

theorem charAt_extent {s : Source} {offset : Nat} {c : Char} (h : s.charAt offset = some c) :
    offset + c.utf8Size ≤ s.size := by
  obtain ⟨before, after, cells, length⟩ := charAt_split h
  rw [size, ← Array.length_toList, cells, List.length_append, List.length_append, length,
    length_spread_singleton]
  omega

/-- Where a character ends the next one begins, or the text ends. -/
theorem isBoundary_next {s : Source} {offset : Nat} {c : Char} (h : s.charAt offset = some c) :
    s.isBoundary (offset + c.utf8Size) = true := by
  obtain ⟨before, after, cells, length⟩ := charAt_split h
  have place : offset + c.utf8Size = (spread before ++ spread [c]).length := by simp [length]
  rw [← List.append_assoc] at cells
  cases after with
  | nil => simp [isBoundary, size, ← Array.length_toList, cells, length]
  | cons d after =>
    have next : s.cells.toList[offset + c.utf8Size]? = some (some d) := by
      rw [cells, place, List.getElem?_append_right (Nat.le_refl _)]
      simp [spread_cons]
    simp [isBoundary, charAt, ← Array.getElem?_toList, next]

theorem isBoundary_of_charAt {s : Source} {offset : Nat} {c : Char} (h : s.charAt offset = some c) :
    s.isBoundary offset = true := by
  simp [isBoundary, h]

/-- The characters of one. -/
theorem chars_single {s : Source} {offset : Nat} {c : Char} (h : s.charAt offset = some c) :
    s.chars offset (offset + c.utf8Size) = [c] := by
  obtain ⟨before, after, cells, rfl⟩ := charAt_split h
  rw [chars, if_pos (by simp [isBoundary_of_charAt h, isBoundary_next h]), Array.toList_extract,
    List.extract_eq_take_drop, cells, List.drop_left, Nat.add_sub_cancel_left, ← length_spread_singleton,
    List.take_left, filterMap_spread]

theorem chars_append {s : Source} {a b c : Nat} (first : s.isBoundary a = true) (middle : s.isBoundary b = true)
    (last : s.isBoundary c = true) (le : a ≤ b) (le' : b ≤ c) : s.chars a c = s.chars a b ++ s.chars b c := by
  simp only [chars, first, middle, last, Bool.and_self, if_true, ← List.filterMap_append]
  rw [← Array.toList_append, Array.extract_append_extract, Nat.min_eq_left le, Nat.max_eq_right le']

theorem chars_cons {s : Source} {a b : Nat} {c : Char} (h : s.charAt a = some c) (last : s.isBoundary b = true)
    (le : a + c.utf8Size ≤ b) : s.chars a b = c :: s.chars (a + c.utf8Size) b := by
  rw [chars_append (isBoundary_of_charAt h) (isBoundary_next h) last (Nat.le_add_right ..) le, chars_single h,
    List.singleton_append]

theorem chars_concat {s : Source} {a b : Nat} {c : Char} (first : s.isBoundary a = true)
    (h : s.charAt b = some c) (le : a ≤ b) : s.chars a (b + c.utf8Size) = s.chars a b ++ [c] := by
  rw [chars_append first (isBoundary_of_charAt h) (isBoundary_next h) le (Nat.le_add_right ..), chars_single h]

theorem has_iff {s : Source} {offset : Nat} {c : Char} :
    s.has offset c = true ↔ s.charAt offset = some c := by
  simp [has]

theorem lt_size_of_has {s : Source} {offset : Nat} {c : Char} (h : s.has offset c = true) :
    offset < s.size :=
  lt_size_of_charAt (has_iff.mp h)

theorem skipWhile_le_size {s : Source} {inClass : Char → Bool} {offset : Nat}
    (h : offset ≤ s.size) : s.skipWhile inClass offset ≤ s.size := by
  fun_induction skipWhile s inClass offset with
  | case1 _ c found _ ih => exact ih (charAt_extent found)
  | case2 | case3 => exact h

theorem skipWhile_end {s : Source} {inClass : Char → Bool} {offset : Nat} (h : s.charAt offset = none) :
    s.skipWhile inClass offset = offset := by
  rw [skipWhile]
  split
  · simp_all
  · rfl

theorem skipWhile_next {s : Source} {inClass : Char → Bool} {offset : Nat} {c : Char}
    (h : s.charAt offset = some c) (belongs : inClass c = true) :
    s.skipWhile inClass offset = s.skipWhile inClass (offset + c.utf8Size) := by
  conv => lhs; rw [skipWhile]
  split
  · next d here =>
    obtain rfl : d = c := by simpa [h] using here.symm
    exact if_pos belongs
  · simp_all

theorem skipWhile_stop {s : Source} {inClass : Char → Bool} {offset : Nat} {c : Char}
    (h : s.charAt offset = some c) (outside : inClass c = false) : s.skipWhile inClass offset = offset := by
  rw [skipWhile]
  split
  · next d here =>
    obtain rfl : d = c := by simpa [h] using here.symm
    rw [outside, if_neg (by decide)]
  · rfl

theorem findCommentEnd?_spec {s : Source} {offset found : Nat}
    (h : s.findCommentEnd? offset = some found) : offset ≤ found ∧ found + 2 ≤ s.size := by
  obtain ⟨le, -, ends⟩ := find?_spec h
  have := lt_size_of_has (Bool.and_eq_true_iff.mp ends).2
  exact ⟨le, by omega⟩

/-- Do the characters, each of one byte, stand at an offset? -/
def spells (s : Source) (offset : Nat) : List Char → Bool
  | [] => true
  | c :: text => s.has offset c && s.spells (offset + 1) text

@[simp] theorem spells_nil {s : Source} {offset : Nat} : s.spells offset [] = true := rfl

@[simp] theorem spells_cons {s : Source} {offset : Nat} {c : Char} {text : List Char} :
    s.spells offset (c :: text) = true ↔ s.charAt offset = some c ∧ s.spells (offset + 1) text = true := by
  rw [spells, Bool.and_eq_true, has_iff]

theorem spells_append {s : Source} {offset : Nat} {a b : List Char} (first : s.spells offset a = true)
    (second : s.spells (offset + a.length) b = true) : s.spells offset (a ++ b) = true := by
  induction a generalizing offset with
  | nil => exact second
  | cons c a ih =>
    rw [List.cons_append, spells_cons]
    rw [spells_cons] at first
    rw [List.length_cons, Nat.add_comm a.length, ← Nat.add_assoc] at second
    exact ⟨first.1, ih first.2 second⟩

theorem spells_inside {s : Source} {offset : Nat} {text : List Char} (inside : offset ≤ s.size)
    (h : s.spells offset text = true) : offset + text.length ≤ s.size := by
  induction text generalizing offset with
  | nil => exact inside
  | cons c text ih =>
    obtain ⟨here, rest⟩ := Bool.and_eq_true_iff.mp h
    have := ih (lt_size_of_has here) rest
    rwa [List.length_cons, Nat.add_comm text.length, ← Nat.add_assoc]

/-! ### Gaps -/

variable {s : Source} {offset : Nat} {c : Char}

theorem skipBlank_end (h : s.charAt offset = none) : s.skipBlank offset = offset := by
  rw [skipBlank]
  split
  · rfl
  · simp_all

theorem skipBlank_gap (h : s.charAt offset = some c) (gap : Alphabet.isGap c = true) :
    s.skipBlank offset = s.skipBlank (offset + c.utf8Size) := by
  rw [skipBlank]
  split
  · simp_all
  · next d here =>
    obtain rfl : d = c := by simpa [h] using here.symm
    exact if_pos gap

theorem skipBlank_stop (h : s.charAt offset = some c) (notGap : Alphabet.isGap c = false)
    (notComment : c = '/' → s.has (offset + 1) '/' = false ∧ s.has (offset + 1) '*' = false) :
    s.skipBlank offset = offset := by
  rw [skipBlank]
  split
  · rfl
  · next d here =>
    obtain rfl : d = c := by simpa [h] using here.symm
    rw [if_neg (by simpa [Alphabet.isGap] using notGap), if_neg, if_neg]
    · exact fun opens => by simp_all
    · exact fun opens => by simp_all

theorem skipBlank_line (h : s.spells offset ['/', '/'] = true) :
    s.skipBlank offset =
      s.skipBlank (s.skipWhile (fun c => !Alphabet.isLineTerminator c) (offset + 2)) := by
  simp only [spells, Bool.and_true, Bool.and_eq_true] at h
  conv => lhs; rw [skipBlank]
  split
  · next none => simp [has, none] at h
  · next d here =>
    obtain rfl : d = '/' := by simpa [has, here] using h.1
    rw [if_neg (by decide), if_pos (by simp [h.2])]

theorem skipBlank_block {found : Nat} (h : s.spells offset ['/', '*'] = true)
    (closes : s.findCommentEnd? (offset + 2) = some found) :
    s.skipBlank offset = s.skipBlank (found + 2) := by
  simp only [spells, Bool.and_true, Bool.and_eq_true] at h
  have notSlash : s.has (offset + 1) '/' = false := by
    have star := has_iff.mp h.2
    simp [has, star]
  conv => lhs; rw [skipBlank]
  split
  · next none => simp [has, none] at h
  · next d here =>
    obtain rfl : d = '/' := by simpa [has, here] using h.1
    rw [if_neg (by decide), if_neg (by simp [notSlash]), if_pos (by simp [h.2])]
    split
    · next stop ends =>
      obtain rfl : stop = found := by simpa [closes] using ends.symm
      rfl
    · next none => simp [closes] at none

end Source
end ScriptSyntax
