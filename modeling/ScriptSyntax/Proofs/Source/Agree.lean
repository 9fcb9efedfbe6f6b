import ScriptSyntax.Parser.Lookahead
import ScriptSyntax.Proofs.Source.Offset

/-!
Two texts of one length that agree from an offset on.  All that is read from that offset on is the same in
both, and where a character of the text ends another one begins.
-/

namespace ScriptSyntax

/-- The texts are equally long, and their characters from `n` on are the same. -/
structure Source.Agree (n : Nat) (a b : Source) : Prop where
  size : b.size = a.size
  charAt : ∀ i, n ≤ i → b.charAt i = a.charAt i

/-- The offset is a boundary of the text, at `n` or after it. -/
structure Source.Placed (n : Nat) (a : Source) (i : Nat) : Prop where
  le : n ≤ i
  boundary : a.isBoundary i = true

namespace Source

theorem isBoundary_size (a : Source) : a.isBoundary a.size = true := by simp [isBoundary]

theorem le_size_of_isBoundary {a : Source} {i : Nat} (h : a.isBoundary i = true) : i ≤ a.size := by
  rw [isBoundary, Bool.or_eq_true, beq_iff_eq] at h
  rcases h with rfl | h
  · exact Nat.le_refl _
  · obtain ⟨c, here⟩ := Option.isSome_iff_exists.mp h
    exact Nat.le_of_lt (lt_size_of_charAt here)

/-- Inside the text a character begins at a boundary. -/
theorem charAt_of_isBoundary {a : Source} {i : Nat} (h : a.isBoundary i = true) (inside : i < a.size) :
    ∃ c, a.charAt i = some c := by
  rw [isBoundary, Bool.or_eq_true, beq_iff_eq] at h
  rcases h with rfl | h
  · exact (Nat.lt_irrefl _ inside).elim
  · exact Option.isSome_iff_exists.mp h

theorem le_skipBlank (a : Source) (i : Nat) : i ≤ a.skipBlank i := by
  fun_induction Source.skipBlank a i with
  | case1 => exact Nat.le_refl _
  | case2 _ c here _ ih => exact Nat.le_trans (Nat.le_add_right ..) ih
  | case3 offset c here _ _ ih => exact Nat.le_trans (Nat.le_trans (Nat.le_add_right ..) (le_skipWhile ..)) ih
  | case4 offset c here _ _ _ stop found ih =>
    have past := (find?_spec found).1
    omega
  | case5 offset c here => exact Nat.le_of_lt (lt_size_of_charAt here)
  | case6 => exact Nat.le_refl _

/-- In texts of one length a cell holds the character that begins there. -/
theorem cells_eq_of_charAt {a b : Source} {i : Nat} (size : b.size = a.size) (same : b.charAt i = a.charAt i) :
    b.cells[i]? = a.cells[i]? := by
  rcases Nat.lt_or_ge i a.cells.size with inside | outside
  · have inside' : i < b.cells.size := (show b.cells.size = a.cells.size from size) ▸ inside
    simp only [Source.charAt, Array.getElem?_eq_getElem inside, Array.getElem?_eq_getElem inside',
      Option.join_some] at same
    rw [Array.getElem?_eq_getElem inside, Array.getElem?_eq_getElem inside', same]
  · rw [Array.getElem?_eq_none outside, Array.getElem?_eq_none ((show b.cells.size = a.cells.size from size) ▸ outside)]

/-! ### Placed offsets -/

namespace Placed

variable {n i : Nat} {a : Source} {c : Char}

theorem size (h : n ≤ a.size) : a.Placed n a.size := ⟨h, a.isBoundary_size⟩

theorem le_size (h : a.Placed n i) : i ≤ a.size := le_size_of_isBoundary h.boundary

theorem of_charAt (le : n ≤ i) (here : a.charAt i = some c) : a.Placed n i := ⟨le, isBoundary_of_charAt here⟩

theorem next (le : n ≤ i) (here : a.charAt i = some c) : a.Placed n (i + c.utf8Size) :=
  ⟨Nat.le_trans le (Nat.le_add_right ..), isBoundary_next here⟩

/-- A character of one byte is passed. -/
theorem succ (le : n ≤ i) (here : a.charAt i = some c) (ascii : c.utf8Size = 1) : a.Placed n (i + 1) :=
  ascii ▸ next le here

theorem skipWhile {inClass : Char → Bool} (h : a.Placed n i) : a.Placed n (a.skipWhile inClass i) := by
  fun_induction Source.skipWhile a inClass i with
  | case1 _ c here _ ih => exact ih (.next h.le here)
  | case2 | case3 => exact h

theorem commentEnd {found : Nat} (le : n ≤ i) (ends : a.findCommentEnd? i = some found) : a.Placed n (found + 2) := by
  obtain ⟨after, -, ends⟩ := find?_spec ends
  have slash := has_iff.mp (Bool.and_eq_true_iff.mp ends).2
  exact .succ (by omega) slash rfl

theorem skipBlank (h : a.Placed n i) : a.Placed n (a.skipBlank i) := by
  fun_induction Source.skipBlank a i with
  | case1 => exact h
  | case2 _ c here _ ih => exact ih (.next h.le here)
  | case3 offset c here _ opens ih =>
    have second := has_iff.mp (Bool.and_eq_true_iff.mp opens).2
    exact ih (skipWhile (.succ (Nat.le_succ_of_le h.le) second rfl))
  | case4 offset c here _ _ _ stop found ih => exact ih (commentEnd (Nat.le_add_right_of_le h.le) found)
  | case5 => exact .size (Nat.le_trans h.le h.le_size)
  | case6 => exact h

end Placed

/-! ### What is read of both texts -/

namespace Agree

variable {n : Nat} {a b : Source} (h : Agree n a b) {i : Nat}
include h

theorem has (le : n ≤ i) (c : Char) : b.has i c = a.has i c := by rw [Source.has, h.charAt i le, Source.has]

theorem isBoundary (le : n ≤ i) : b.isBoundary i = a.isBoundary i := by
  rw [Source.isBoundary, h.size, h.charAt i le, Source.isBoundary]

theorem cells (le : n ≤ i) : b.cells[i]? = a.cells[i]? := cells_eq_of_charAt h.size (h.charAt i le)

theorem chars (le : n ≤ i) (j : Nat) (le' : n ≤ j) : b.chars i j = a.chars i j := by
  have extracts : (b.cells.extract i j).toList = (a.cells.extract i j).toList := by
    congr 1
    apply Array.ext_getElem?
    intro k
    have size : b.cells.size = a.cells.size := h.size
    simp only [Array.getElem?_extract, size]
    rw [h.cells (i := i + k) (Nat.le_add_right_of_le le)]
  rw [Source.chars, h.isBoundary le, h.isBoundary le', extracts, Source.chars]

theorem slice (le : n ≤ i) (j : Nat) (le' : n ≤ j) : b.slice i j = a.slice i j := by
  rw [Source.slice, h.chars le j le', Source.slice]

theorem hasLineBreak (le : n ≤ i) (j : Nat) (le' : n ≤ j) : b.hasLineBreak i j = a.hasLineBreak i j := by
  rw [Source.hasLineBreak, h.chars le j le', Source.hasLineBreak]

theorem skipWhile (le : n ≤ i) (inClass : Char → Bool) : b.skipWhile inClass i = a.skipWhile inClass i := by
  fun_induction Source.skipWhile a inClass i with
  | case1 i c here belongs ih =>
    rw [skipWhile_next ((h.charAt i le).trans here) belongs]
    exact ih (Nat.le_add_right_of_le le)
  | case2 i c here outside =>
    exact skipWhile_stop ((h.charAt i le).trans here) (by simpa using outside)
  | case3 i none => exact skipWhile_end ((h.charAt i le).trans none)

theorem find? {test test' : Nat → Bool} (le : n ≤ i) (same : ∀ j, n ≤ j → test' j = test j) :
    b.find? test' i = a.find? test i := by
  fun_induction Source.find? a test i with
  | case1 i inside passes =>
    rw [Source.find?, if_pos (h.size ▸ inside), same i le, if_pos passes]
  | case2 i inside fails ih =>
    rw [Source.find?, if_pos (h.size ▸ inside), same i le, if_neg fails]
    exact ih (Nat.le_succ_of_le le)
  | case3 i outside => rw [Source.find?, if_neg (h.size ▸ outside)]

theorem findCommentEnd? (le : n ≤ i) : b.findCommentEnd? i = a.findCommentEnd? i :=
  h.find? le fun j le => by rw [h.has le, h.has (Nat.le_succ_of_le le)]

theorem skipBlank (le : n ≤ i) : b.skipBlank i = a.skipBlank i := by
  fun_induction Source.skipBlank a i with
  | case1 i none => exact skipBlank_end ((h.charAt i le).trans none)
  | case2 i c here gap ih =>
    rw [skipBlank_gap ((h.charAt i le).trans here) gap]
    exact ih (Nat.le_add_right_of_le le)
  | case3 i c here gap opens ih =>
    obtain ⟨rfl, second⟩ : c = '/' ∧ a.has (i + 1) '/' = true := by simpa using opens
    have begins : b.spells i ['/', '/'] = true := by
      simp [h.charAt i le, here, h.charAt (i + 1) (Nat.le_succ_of_le le), has_iff.mp second]
    rw [skipBlank_line begins, h.skipWhile (Nat.le_add_right_of_le le)]
    exact ih (Nat.le_trans (Nat.le_add_right_of_le le) (le_skipWhile ..))
  | case4 i c here gap line opens stop found ih =>
    obtain ⟨rfl, second⟩ : c = '/' ∧ a.has (i + 1) '*' = true := by simpa using opens
    have begins : b.spells i ['/', '*'] = true := by
      simp [h.charAt i le, here, h.charAt (i + 1) (Nat.le_succ_of_le le), has_iff.mp second]
    rw [skipBlank_block begins ((h.findCommentEnd? (Nat.le_add_right_of_le le)).trans found)]
    exact ih (by have := (find?_spec found).1; omega)
  | case5 i c here gap line opens missing =>
    have found := (h.findCommentEnd? (i := i + 2) (Nat.le_add_right_of_le le)).trans missing
    rw [Source.skipBlank]
    split
    · simp_all [h.charAt i le]
    · next d there =>
      obtain rfl : d = c := by simpa [h.charAt i le, here] using there.symm
      rw [if_neg gap, h.has (Nat.le_succ_of_le le), if_neg line, h.has (Nat.le_succ_of_le le), if_pos opens]
      split
      · simp_all
      · exact h.size
  | case6 i c here gap line block =>
    rw [Source.skipBlank]
    split
    · rfl
    · next d there =>
      obtain rfl : d = c := by simpa [h.charAt i le, here] using there.symm
      rw [if_neg gap, h.has (Nat.le_succ_of_le le), if_neg line, h.has (Nat.le_succ_of_le le), if_neg block]

/-! ### Words and directives ahead -/

theorem beginsName (le : n ≤ i) (except : List String) : b.beginsName except i = a.beginsName except i := by
  have stops : n ≤ a.wordEnd i := Nat.le_trans le (le_skipWhile ..)
  have same : b.wordEnd i = a.wordEnd i := h.skipWhile le _
  simp only [Source.beginsName, h.charAt i le, same, h.has stops, h.slice le _ stops]

theorem hasWord (le : n ≤ i) (word : String) : b.hasWord word i = a.hasWord word i := by
  have after : n ≤ i + word.utf8ByteSize := Nat.le_add_right_of_le le
  rw [Source.hasWord, h.slice le _ after, h.charAt _ after, Source.hasWord]

/-- What stands on the line of an offset is the same in both texts. -/
theorem any_sameLine? (le : n ≤ i) {test test' : Nat → Bool} (same : ∀ j, n ≤ j → test' j = test j) :
    (b.sameLine? i).any test' = (a.sameLine? i).any test := by
  have gap : n ≤ a.skipBlank i := Nat.le_trans le (le_skipBlank a i)
  rw [Source.sameLine?, h.skipBlank le, h.hasLineBreak le _ gap, Source.sameLine?]
  split
  · rfl
  · exact same _ gap

theorem stringEnd? (le : n ≤ i) (quote : Char) (fuel : Nat) :
    b.stringEnd? quote fuel i = a.stringEnd? quote fuel i := by
  induction fuel generalizing i with
  | zero => rfl
  | succ fuel ih =>
    simp only [Source.stringEnd?, h.charAt i le, h.charAt (i + 1) (Nat.le_succ_of_le le)]
    split
    · rfl
    · split
      · rfl
      · split
        · split
          · exact ih (by omega)
          · rfl
        · exact ih (by omega)

theorem directiveEnd? (le : n ≤ i) : b.directiveEnd? i = a.directiveEnd? i := by
  simp only [Source.directiveEnd?, h.charAt i le, h.size, h.stringEnd? (Nat.le_succ_of_le le)]

theorem statementEndsAt (here : a.Placed n i) : b.statementEndsAt i = a.statementEndsAt i := by
  have next := here.skipBlank.le
  simp only [Source.statementEndsAt, h.skipBlank here.le, h.charAt _ next, h.hasLineBreak here.le _ next,
    h.has (Nat.le_succ_of_le next)]

end Agree

/-- A string that begins at a boundary ends at one. -/
theorem Placed.stringEnd {n i stop fuel : Nat} {a : Source} {quote : Char} (h : a.Placed n i)
    (ascii : quote.utf8Size = 1) (ends : a.stringEnd? quote fuel i = some stop) : a.Placed n stop ∧ i < stop := by
  induction fuel generalizing i with
  | zero => cases ends
  | succ fuel ih =>
    rw [stringEnd?] at ends
    split at ends
    · cases ends
    · next c here =>
      have past := c.utf8Size_pos
      split at ends
      · next same =>
        cases ends
        exact ⟨.succ h.le here (same ▸ ascii), Nat.lt_succ_self i⟩
      · split at ends
        · next backslash =>
          split at ends
          · next escaped there =>
            obtain ⟨placed, lt⟩ := ih (.next (Nat.le_succ_of_le h.le) there) ends
            exact ⟨placed, by omega⟩
          · cases ends
        · obtain ⟨placed, lt⟩ := ih (.next h.le here) ends
          exact ⟨placed, by omega⟩

theorem Placed.directiveEnd {n i stop : Nat} {a : Source} (h : a.Placed n i) (ends : a.directiveEnd? i = some stop) :
    a.Placed n stop ∧ i + 1 < stop := by
  rw [directiveEnd?] at ends
  split at ends
  · next c here =>
    split at ends
    · next quote =>
      have ascii : c.utf8Size = 1 := by rcases quote with rfl | rfl <;> rfl
      exact (Placed.succ h.le here ascii).stringEnd ascii ends
    · cases ends
  · cases ends

namespace Agree

variable {n : Nat} {a b : Source} (h : Agree n a b) {i : Nat}
include h

theorem strictDirective (here : a.Placed n i) (fuel : Nat) : b.strictDirective fuel i = a.strictDirective fuel i := by
  induction fuel generalizing i with
  | zero => rfl
  | succ fuel ih =>
    have start := here.skipBlank
    simp only [Source.strictDirective, h.skipBlank here.le, h.directiveEnd? start.le]
    split
    · rfl
    · next stop ends =>
      obtain ⟨placed, after⟩ := start.directiveEnd ends
      have next := placed.skipBlank
      have before : n ≤ stop - 1 := by have := start.le; omega
      rw [h.slice (Nat.le_succ_of_le start.le) _ before, h.statementEndsAt placed, h.skipBlank placed.le, h.has next.le]
      split
      · rfl
      · refine ih ?_
        split
        · next semicolon => exact .succ next.le (has_iff.mp semicolon) rfl
        · exact next

theorem opensStrict (here : a.Placed n i) (edition : Nat) : b.opensStrict edition i = a.opensStrict edition i := by
  rw [Source.opensStrict, h.size, h.strictDirective here, Source.opensStrict]

end Agree
end Source
end ScriptSyntax
