import ScriptSyntax.Proofs.Source.Agree
import ScriptSyntax.Proofs.Source.Text

/-!
Texts with a part of their characters blanked out.  A character gives way to as many spaces as it has bytes, so all
offsets stay what they were, and the characters that end a line stay too.
-/

namespace ScriptSyntax

/-- The text from offset `start` on, with spaces in the place of the hidden characters that end no line. -/
def blanked (hidden : Nat → Bool) : Nat → List Char → List Char
  | _, [] => []
  | start, c :: text =>
    (if hidden start && !Alphabet.isLineTerminator c then List.replicate c.utf8Size ' ' else [c]) ++
      blanked hidden (start + c.utf8Size) text

variable {hidden : Nat → Bool} {start : Nat}

theorem spread_spaces (n : Nat) : spread (List.replicate n ' ') = List.replicate n (some ' ') := by
  induction n with
  | zero => rfl
  | succ n ih =>
    rw [List.replicate_succ, spread_cons, ih, List.replicate_succ]
    rfl

/-- A character takes up as many bytes as what stands in its place. -/
theorem width_blanked (hidden : Nat → Bool) (start : Nat) (text : List Char) :
    width (blanked hidden start text) = width text := by
  induction text generalizing start with
  | nil => rfl
  | cons c text ih =>
    have rest := ih (start + c.utf8Size)
    simp only [width] at rest
    rw [width_cons, width, blanked, spread_append, List.length_append, rest]
    split
    · rw [spread_spaces, List.length_replicate, width]
    · rw [Source.length_spread_singleton, width]

theorem blanked_append (first second : List Char) :
    blanked hidden start (first ++ second) = blanked hidden start first ++
      blanked hidden (start + width first) second := by
  induction first generalizing start with
  | nil => rfl
  | cons c first ih => rw [List.cons_append, blanked, ih, blanked, width_cons, List.append_assoc, Nat.add_assoc]

theorem getElem?_middle {α : Type} {before middle after : List α} {i n : Nat} (length : before.length = i)
    (inside : n < middle.length) :
    (before ++ (middle ++ after))[i + n]? = middle[n]? := by
  rw [List.getElem?_append_right (by omega), length, Nat.add_sub_cancel_left, List.getElem?_append_left inside]

namespace Source

/-- Every byte of a text belongs to a character. -/
theorem exists_charAt {a : Source} {i : Nat} (inside : i < a.size) :
    ∃ j c, a.charAt j = some c ∧ j ≤ i ∧ i < j + c.utf8Size := by
  have found (text : List Char) (p : Nat) (at' : a.TextAt p text) (le : p ≤ i) (lt : i < p + width text) :
      ∃ j c, a.charAt j = some c ∧ j ≤ i ∧ i < j + c.utf8Size := by
    induction text generalizing p with
    | nil => exact absurd (Nat.lt_of_le_of_lt le lt) (Nat.lt_irrefl p)
    | cons c text ih =>
      rw [width_cons] at lt
      rcases Nat.lt_or_ge i (p + c.utf8Size) with here | past
      · exact ⟨p, c, at'.charAt_cons, le, here⟩
      · exact ih (p + c.utf8Size) at'.step past (by omega)
  have at' : a.TextAt 0 a.text.toList := ⟨[], by simp [a.cells_eq], rfl⟩
  exact found _ 0 at' (Nat.zero_le i) (at'.size ▸ inside)

/-- A boundary behind the start of a character is not before its end. -/
theorem next_le {a : Source} {i j : Nat} {c : Char} (here : a.charAt i = some c) (lt : i < j)
    (boundary : a.isBoundary j = true) :
    i + c.utf8Size ≤ j := by
  obtain ⟨before, after, cells, length⟩ := charAt_split here
  have at' : a.TextAt i (c :: after) := ⟨before, by rw [cells, ← spread_append, List.singleton_append], length⟩
  obtain ⟨t, rest, split, rfl⟩ := at'.split boundary (Nat.le_of_lt lt)
  cases t with
  | nil => simp at lt
  | cons d t =>
    obtain ⟨rfl, -⟩ := List.cons.inj split
    rw [width_cons]
    omega

/-- The second text is the first one with the hidden characters blanked out. -/
structure Blanked (hidden : Nat → Bool) (a b : Source) : Prop where
  size : b.size = a.size
  kept : ∀ {i c}, a.charAt i = some c → (hidden i && !Alphabet.isLineTerminator c) = false →
    ∀ n < c.utf8Size, b.charAt (i + n) = a.charAt (i + n)
  blank : ∀ {i c}, a.charAt i = some c → (hidden i && !Alphabet.isLineTerminator c) = true →
    ∀ n < c.utf8Size, b.charAt (i + n) = some ' '

theorem blanked_ofString (hidden : Nat → Bool) (text : String) :
    Blanked hidden (ofString text) (ofString (String.ofList (blanked hidden 0 text.toList))) := by
  -- The text around one of its characters, and what stands there afterwards.
  have around {i : Nat} {c : Char} (here : (ofString text).charAt i = some c) : ∃ before after,
      (ofString text).cells.toList = spread before ++ (spread [c] ++ spread after) ∧ (spread before).length = i ∧
      ∃ others rest, (ofString (String.ofList (blanked hidden 0 text.toList))).cells.toList =
        others ++ (spread (if hidden i && !Alphabet.isLineTerminator c then List.replicate c.utf8Size ' '
          else [c]) ++ rest) ∧
        others.length = i := by
    simp only [charAt, ofString, List.getElem?_toArray, Option.join_eq_some_iff] at here
    obtain ⟨before, after, split, length⟩ := spread_split here
    refine ⟨before, after, ?_, length, spread (blanked hidden 0 before),
      spread (blanked hidden (i + c.utf8Size) after), ?_, ?_⟩
    · rw [← spread_append, ← spread_append, List.singleton_append, ← split]
      rfl
    · rw [← spread_append, ← spread_append]
      show spread (String.ofList (blanked hidden 0 text.toList)).toList = _
      rw [String.toList_ofList, split, blanked_append, blanked, Nat.zero_add, width, length]
    · rw [← length]
      exact width_blanked hidden 0 before
  refine ⟨?_, fun here stays n lt => ?_, fun here goes n lt => ?_⟩
  · show (spread (String.ofList (blanked hidden 0 text.toList)).toList).length = (spread text.toList).length
    rw [String.toList_ofList]
    exact width_blanked hidden 0 text.toList
  · obtain ⟨before, after, cells, length, others, rest, cells', length'⟩ := around here
    rw [if_neg (by simp [stays])] at cells'
    simp only [charAt, ← Array.getElem?_toList, cells, cells']
    rw [getElem?_middle length (by simpa using lt), getElem?_middle length' (by simpa using lt)]
  · obtain ⟨before, after, cells, length, others, rest, cells', length'⟩ := around here
    rw [if_pos goes, spread_spaces] at cells'
    simp only [charAt, ← Array.getElem?_toList, cells']
    rw [getElem?_middle length' (by simpa using lt)]
    simp [lt]

namespace Blanked

variable {a b : Source} (h : Blanked hidden a b) {i j : Nat}
include h

/-- Where the texts differ there is a space, in the place of a hidden character. -/
theorem charAt_or (i : Nat) : b.charAt i = a.charAt i ∨
    b.charAt i = some ' ' ∧ ∃ j c, a.charAt j = some c ∧ j ≤ i ∧ i < j + c.utf8Size ∧ hidden j = true := by
  rcases Nat.lt_or_ge i a.size with inside | outside
  · obtain ⟨j, c, here, le, lt⟩ := exists_charAt inside
    obtain ⟨n, rfl⟩ := Nat.exists_eq_add_of_le le
    cases goes : hidden j && !Alphabet.isLineTerminator c with
    | false => exact .inl (h.kept here goes n (by omega))
    | true => exact .inr ⟨h.blank here goes n (by omega), j, c, here, le, lt, (Bool.and_eq_true_iff.mp goes).1⟩
  · have ended {s : Source} (outside : s.size ≤ i) : s.charAt i = none := by
      cases here : s.charAt i with
      | none => rfl
      | some c => exact absurd (lt_size_of_charAt here) (Nat.not_lt.mpr outside)
    exact .inl (by rw [ended outside, ended (h.size ▸ outside)])

/-- A character that ends a line is kept, and no other one is put in. -/
theorem charAt_lineTerminator {c : Char} (ends : Alphabet.isLineTerminator c = true) :
    b.charAt i = some c ↔ a.charAt i = some c := by
  constructor
  · intro here
    rcases h.charAt_or i with same | ⟨space, -⟩
    · rw [← same, here]
    · obtain rfl : c = ' ' := Option.some.inj (here.symm.trans space)
      exact absurd ends (by decide)
  · intro here
    exact (h.kept (n := 0) here (by simp [ends]) c.utf8Size_pos).trans here

theorem isBoundary (boundary : a.isBoundary i = true) : b.isBoundary i = true := by
  rw [Source.isBoundary, Bool.or_eq_true, beq_iff_eq] at boundary
  rcases boundary with rfl | inside
  · rw [← h.size]
    exact b.isBoundary_size
  · obtain ⟨c, here⟩ := Option.isSome_iff_exists.mp inside
    rcases h.charAt_or i with same | ⟨space, -⟩
    · exact isBoundary_of_charAt (same.trans here)
    · exact isBoundary_of_charAt space

/-- White space and hidden characters leave nothing but white space. -/
theorem isGap_of {c : Char} (only : ∀ d, a.charAt i = some d → Alphabet.isGap d = true ∨ hidden i = true)
    (here : b.charAt i = some c) :
    Alphabet.isGap c = true := by
  rcases h.charAt_or i with same | ⟨space, -⟩
  · rw [same] at here
    rcases only c here with gap | hides
    · exact gap
    · cases ends : Alphabet.isLineTerminator c with
      | true => simp [Alphabet.isGap, ends]
      | false =>
        have space := h.blank (n := 0) here (by simp [hides, ends]) c.utf8Size_pos
        rw [Nat.add_zero, same, here] at space
        obtain rfl := Option.some.inj space
        decide
  · obtain rfl : c = ' ' := Option.some.inj (here.symm.trans space)
    decide

end Blanked

/-- A line ends between two boundaries if a character there ends it. -/
theorem hasLineBreak_iff {a : Source} {i j : Nat} (first : a.isBoundary i = true) (last : a.isBoundary j = true) :
    a.hasLineBreak i j = true ↔ ∃ n c, i ≤ n ∧ n < j ∧ a.charAt n = some c ∧ Alphabet.isLineTerminator c = true := by
  simp only [hasLineBreak, chars, first, last, Bool.and_self, if_true, List.any_eq_true, List.mem_filterMap,
    id, exists_eq_right,
    Array.mem_toList_iff, Array.mem_extract_iff_getElem]
  constructor
  · rintro ⟨c, ⟨n, inside, here⟩, ends⟩
    refine ⟨i + n, c, Nat.le_add_right .., by omega, ?_, ends⟩
    rw [charAt, Array.getElem?_eq_getElem (by omega), here]
    rfl
  · rintro ⟨n, c, le, lt, here, ends⟩
    have inside := lt_size_of_charAt here
    refine ⟨c, ⟨n - i, by simp only [size] at inside; omega, ?_⟩, ends⟩
    have cell : a.cells[n]? = some (some c) := by simpa [charAt, Option.join_eq_some_iff] using here
    obtain ⟨_, cell⟩ := Array.getElem?_eq_some_iff.mp cell
    simpa [Nat.add_sub_cancel' le] using cell

theorem Blanked.hasLineBreak {a b : Source} {i j : Nat} (h : Blanked hidden a b) (first : a.isBoundary i = true)
    (last : a.isBoundary j = true) : b.hasLineBreak i j = a.hasLineBreak i j := by
  rw [Bool.eq_iff_iff, hasLineBreak_iff first last, hasLineBreak_iff (h.isBoundary first) (h.isBoundary last)]
  constructor
  · rintro ⟨n, c, le, lt, here, ends⟩
    exact ⟨n, c, le, lt, (h.charAt_lineTerminator ends).mp here, ends⟩
  · rintro ⟨n, c, le, lt, here, ends⟩
    exact ⟨n, c, le, lt, (h.charAt_lineTerminator ends).mpr here, ends⟩

end Source
end ScriptSyntax
