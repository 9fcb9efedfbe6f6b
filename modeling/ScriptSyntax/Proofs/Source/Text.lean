import ScriptSyntax.Proofs.Source.Agree
import ScriptSyntax.Proofs.Source.Offset

/-!
Texts that are still to be read: at an offset a source goes on as some text does.  A part of a text is a text of its
own.
-/

namespace ScriptSyntax

/-- How many bytes a text takes up. -/
def width (text : List Char) : Nat := (spread text).length

@[simp] theorem width_nil : width [] = 0 := rfl

@[simp] theorem width_cons (c : Char) (text : List Char) : width (c :: text) = c.utf8Size + width text := by
  have := c.utf8Size_pos
  simp only [width, spread_cons, List.length_cons, List.length_append, List.length_replicate]
  omega

theorem width_append (a b : List Char) :
    width (a ++ b) = width a + width b := by rw [width, spread_append, List.length_append, width, width]

theorem length_le_width (text : List Char) : text.length ≤ width text := by
  induction text with
  | nil => exact Nat.le_refl _
  | cons c text ih =>
    have := c.utf8Size_pos
    rw [width_cons, List.length_cons]
    omega

namespace Source

/-- From the offset on the source is the text. -/
def TextAt (s : Source) (offset : Nat) (text : List Char) : Prop :=
  ∃ before, s.cells.toList = spread before ++ spread text ∧ (spread before).length = offset

variable {s : Source} {offset : Nat} {c : Char} {t text rest : List Char}

theorem textAt_ofString (text : String) : (ofString text).TextAt 0 text.toList := ⟨[], by simp [ofString], rfl⟩

namespace TextAt

theorem past (at' : s.TextAt offset (t ++ rest)) : s.TextAt (offset + width t) rest := by
  obtain ⟨before, cells, rfl⟩ := at'
  exact ⟨before ++ t, by rw [cells, spread_append, spread_append, List.append_assoc], by rw [spread_append,
    List.length_append, width]⟩

theorem step (at' : s.TextAt offset (c :: rest)) : s.TextAt (offset + c.utf8Size) rest := by
  simpa using at'.past (t := [c])

theorem size (at' : s.TextAt offset text) : offset + width text = s.size := by
  obtain ⟨before, cells, rfl⟩ := at'
  rw [Source.size, ← Array.length_toList, cells, List.length_append, width]

/-- Where the rest of a text is, is behind the text before it. -/
theorem moved {stop : Nat} (at' : s.TextAt offset (t ++ rest)) (after : s.TextAt stop rest) :
    stop = offset + width t := by
  have whole := at'.size
  have left := after.size
  rw [width_append] at whole
  omega

theorem charAt_cons (at' : s.TextAt offset (c :: rest)) : s.charAt offset = some c := by
  obtain ⟨before, cells, rfl⟩ := at'
  simp [charAt, ← Array.getElem?_toList, cells, spread_cons]

theorem charAt_nil (at' : s.TextAt offset []) : s.charAt offset = none := by
  rw [← Nat.add_zero offset, ← width_nil, at'.size, charAt_size]

/-- What stands at the offset is the first character of the text. -/
theorem charAt (at' : s.TextAt offset text) : s.charAt offset = text.head? := by
  cases text with
  | nil => exact at'.charAt_nil
  | cons c text => exact at'.charAt_cons

theorem isBoundary (at' : s.TextAt offset text) : s.isBoundary offset = true := by
  cases text with
  | nil => simp [Source.isBoundary, ← at'.size]
  | cons c text => exact isBoundary_of_charAt at'.charAt_cons

theorem chars (at' : s.TextAt offset (t ++ rest)) : s.chars offset (offset + width t) = t := by
  rw [Source.chars, if_pos (by simp [at'.isBoundary, at'.past.isBoundary])]
  obtain ⟨before, cells, rfl⟩ := at'
  rw [Array.toList_extract, List.extract_eq_take_drop, cells, List.drop_left, Nat.add_sub_cancel_left,
    spread_append, width,
    List.take_left, filterMap_spread]

theorem slice (at' : s.TextAt offset (t ++ rest)) : s.slice offset (offset + width t) = String.ofList t := by
  rw [Source.slice, at'.chars]

theorem hasLineBreak (at' : s.TextAt offset (t ++ rest)) :
    s.hasLineBreak offset (offset + width t) = t.any Alphabet.isLineTerminator := by
  rw [Source.hasLineBreak, at'.chars]

/-- A run of characters of a class goes as far as they go. -/
theorem skipWhile {inClass : Char → Bool} (at' : s.TextAt offset (t ++ rest)) (all : ∀ c ∈ t, inClass c = true)
    (stop : ∀ c ∈ rest.head?, inClass c = false) : s.skipWhile inClass offset = offset + width t := by
  induction t generalizing offset with
  | nil =>
    rw [List.nil_append] at at'
    cases rest with
    | nil => exact skipWhile_end at'.charAt_nil
    | cons c rest => exact skipWhile_stop at'.charAt_cons (stop c rfl)
  | cons c t ih =>
    rw [skipWhile_next at'.charAt_cons (all c (.head _)), ih at'.step fun b mem =>
      all b (.tail _ mem), width_cons, Nat.add_assoc]

end TextAt
end Source

/-- The text `e` stands in `a` from `p` on. -/
def Source.Excerpt (p : Nat) (a e : Source) : Prop := ∃ rest, a.TextAt p (e.text.toList ++ rest)

namespace Source

variable {p stop i j : Nat} {a e : Source}

/-! ### Texts from a boundary on -/

theorem textAt_of_isBoundary (h : a.isBoundary p = true) : ∃ text, a.TextAt p text := by
  rw [isBoundary, Bool.or_eq_true, beq_iff_eq] at h
  rcases h with rfl | here
  · refine ⟨[], a.text.toList, ?_, ?_⟩
    · rw [a.cells_eq, List.toList_toArray, spread_nil, List.append_nil]
    · rw [size, a.cells_eq, List.size_toArray]
  · obtain ⟨c, here⟩ := Option.isSome_iff_exists.mp here
    obtain ⟨before, after, cells, length⟩ := charAt_split here
    exact ⟨[c] ++ after, before, by rw [cells, spread_append], length⟩

/-- A boundary in a text parts it in two. -/
theorem TextAt.split {text : List Char} (h : a.TextAt p text) (boundary : a.isBoundary stop = true) (le : p ≤ stop) :
    ∃ t rest, text = t ++ rest ∧ stop = p + width t := by
  induction text generalizing p with
  | nil =>
    refine ⟨[], [], rfl, ?_⟩
    have last := h.size
    have := le_size_of_isBoundary boundary
    rw [width_nil] at last ⊢
    omega
  | cons c text ih =>
    rcases Nat.eq_or_lt_of_le le with rfl | lt
    · exact ⟨[], c :: text, rfl, rfl⟩
    · obtain ⟨inner, cells, length⟩ := id h
      have past : p + c.utf8Size ≤ stop := by
        -- Inside a character there is no boundary.
        rw [Source.isBoundary, Bool.or_eq_true, beq_iff_eq] at boundary
        rcases boundary with rfl | here
        · exact charAt_extent h.charAt_cons
        · refine Nat.le_of_not_lt fun inside => ?_
          obtain ⟨k, rfl⟩ := Nat.exists_eq_add_of_lt lt
          have hole : a.charAt (p + k + 1) = none := by
            rw [Source.charAt, ← Array.getElem?_toList, cells, ← length,
              List.getElem?_append_right (by omega), spread_cons,
              show (spread inner).length + k + 1 - (spread inner).length = k + 1 by omega, List.getElem?_cons_succ,
              List.getElem?_append_left (by simp; omega), List.getElem?_replicate_of_lt (by omega)]
            rfl
          simp [hole] at here
      obtain ⟨t, rest, rfl, rfl⟩ := ih h.step past
      exact ⟨c :: t, rest, rfl, by rw [width_cons, Nat.add_assoc]⟩

/-- The text between two boundaries is an excerpt. -/
theorem excerpt_slice (start : a.isBoundary p = true) (boundary : a.isBoundary stop = true) (le : p ≤ stop) :
    Excerpt p a (ofString (a.slice p stop)) ∧ p + (ofString (a.slice p stop)).size = stop := by
  obtain ⟨text, at'⟩ := textAt_of_isBoundary start
  obtain ⟨t, rest, rfl, rfl⟩ := at'.split boundary le
  rw [at'.slice]
  refine ⟨⟨rest, by simpa [ofString] using at'⟩, ?_⟩
  have size := (textAt_ofString (String.ofList t)).size
  rw [String.toList_ofList, Nat.zero_add] at size
  rw [size]

namespace Excerpt

variable (x : Excerpt p a e)
include x

theorem fits : p + e.size ≤ a.size := by
  obtain ⟨rest, before, cells, rfl⟩ := x
  have whole : e.size = (spread e.text.toList).length := by rw [size, e.cells_eq, List.size_toArray]
  rw [whole, size, ← Array.length_toList, cells, spread_append, List.length_append, List.length_append]
  omega

theorem cells (inside : i < e.size) : e.cells[i]? = a.cells[p + i]? := by
  obtain ⟨rest, before, cells, rfl⟩ := x
  rw [size, e.cells_eq, List.size_toArray] at inside
  rw [e.cells_eq, List.getElem?_toArray, ← Array.getElem?_toList, cells, spread_append,
    List.getElem?_append_right (Nat.le_add_right ..), Nat.add_sub_cancel_left, List.getElem?_append_left inside]

/-- Inside the excerpt the characters are the same. -/
theorem charAt (inside : i < e.size) : e.charAt i = a.charAt (p + i) := by
  rw [Source.charAt, Source.charAt, x.cells inside]

/-- What the excerpt lacks, it lacks because it ends. -/
theorem charAt_or (i : Nat) : e.charAt i = a.charAt (p + i) ∨ e.charAt i = none := by
  rcases Nat.lt_or_ge i e.size with inside | outside
  · exact .inl (x.charAt inside)
  · exact .inr (by rw [Source.charAt, Array.getElem?_eq_none outside]; rfl)

theorem isBoundary (le : i ≤ e.size) : e.isBoundary i = a.isBoundary (p + i) := by
  rcases Nat.eq_or_lt_of_le le with rfl | inside
  · obtain ⟨rest, at'⟩ := x
    have size := (textAt_ofString e.text).size
    have same : (ofString e.text).size = e.size := by rw [Source.size, Source.size, e.cells_eq]; rfl
    rw [isBoundary_size, show p + e.size = p + width e.text.toList by omega, at'.past.isBoundary]
  · have fits := x.fits
    rw [Source.isBoundary, Source.isBoundary, x.charAt inside, show (i == e.size) =
      false by simpa using Nat.ne_of_lt inside,
      show (p + i == a.size) = false by simp; omega]

theorem chars (le : i ≤ e.size) (le' : j ≤ e.size) : e.chars i j = a.chars (p + i) (p + j) := by
  rw [Source.chars, Source.chars, x.isBoundary le, x.isBoundary le']
  have cells : (e.cells.extract i j).toList = (a.cells.extract (p + i) (p + j)).toList := by
    congr 1
    apply Array.ext_getElem?
    intro k
    have fits : p + e.cells.size ≤ a.cells.size := x.fits
    have le' : j ≤ e.cells.size := le'
    simp only [Array.getElem?_extract, Nat.min_eq_left le',
      Nat.min_eq_left (Nat.le_trans (Nat.add_le_add_left le' p) fits)]
    rw [show p + j - (p + i) = j - i by omega]
    split
    · rw [x.cells (by rw [Source.size]; omega), Nat.add_assoc]
    · rfl
  rw [cells]

theorem has (inside : i < e.size) (c : Char) :
    e.has i c = a.has (p + i) c := by rw [Source.has, x.charAt inside, Source.has]

/-- What is found inside the excerpt is found in it. -/
theorem find? {f g : Nat → Bool} (same : ∀ i, i < e.size → g i = f (p + i)) (found : a.find? f (p + i) = some (p + j))
    (inside : j < e.size) : e.find? g i = some j := by
  have le : i ≤ j := by have := (find?_spec found).1; omega
  generalize steps : j - i = n
  induction n generalizing i with
  | zero =>
    obtain rfl : j = i := by omega
    rw [Source.find?, if_pos inside, same _ inside, if_pos (find?_spec found).2.2]
  | succ n ih =>
    rw [Source.find?] at found ⊢
    rw [if_pos (Nat.lt_of_lt_of_le (by omega) x.fits)] at found
    rw [if_pos (by omega), same i (by omega)]
    split at found
    · have := Option.some.inj found
      omega
    · next fails =>
      rw [if_neg fails]
      exact ih found (by omega) (by omega)

end Excerpt
end Source
end ScriptSyntax
