import ScriptSyntax.Proofs.Lexer.Lone

/-!
Separators between digits say nothing.  Without them a number has the same value, and so it has with one more of them
between two digits.
-/

namespace ScriptSyntax

open LexM

variable {html hashBang fresh fresh' strict : Bool} {P Q : List Char → Prop} {radix : Nat} {c d : Char}
  {a b u lit lit' text rest before after : List Char}
  {digits digits' : List Char} {n n' : Numeral}

/-! ### Numerals without separators -/

@[simp] theorem unseparated_nil : unseparated [] = [] := rfl

theorem unseparated_cons (other : c ≠ '_') : unseparated (c :: text) = c :: unseparated text :=
  List.filter_cons_of_pos (by simpa using other)

theorem unseparated_separator : unseparated ('_' :: text) = unseparated text := List.filter_cons_of_neg (by simp)

@[simp] theorem unseparated_unseparated (text : List Char) :
    unseparated (unseparated text) = unseparated text := by simp [unseparated]

theorem unseparated_eq_self (plain : '_' ∉ text) : unseparated text = text := by
  refine List.filter_eq_self.mpr fun c mem => ?_
  have other : c ≠ '_' := by
    rintro rfl
    exact plain mem
  simpa using other

/-- Where no separator begins the text, its first character stays. -/
theorem head?_unseparated (first : text.head? ≠ some '_') : (unseparated text).head? = text.head? := by
  cases text with
  | nil => rfl
  | cons c text => rw [unseparated_cons (by simpa using first), List.head?_cons, List.head?_cons]

theorem any_unseparated {inClass : Char → Bool} (other : inClass '_' = false) :
    (unseparated text).any inClass = text.any inClass := by
  induction text with
  | nil => rfl
  | cons c text ih =>
    by_cases separator : c = '_'
    · subst separator
      rw [unseparated_separator, ih, List.any_cons, other, Bool.false_or]
    · rw [unseparated_cons separator, List.any_cons, List.any_cons, ih]

theorem digitValues_unseparated (radix : Nat) (text : List Char) :
    digitValues radix (unseparated text) = digitValues radix text := by
  induction text with
  | nil => rfl
  | cons c text ih =>
    by_cases separator : c = '_'
    · subst separator
      rw [unseparated_separator, ih, digitValues, digitValues, List.filterMap_cons_none (digit?_separator radix)]
    · rw [unseparated_cons separator, digitValues, digitValues, List.filterMap_cons, List.filterMap_cons]
      simp only [digitValues] at ih
      rw [ih]

theorem DigitsOf.unseparated (fits : DigitsOf radix digits) : DigitsOf radix (unseparated digits) := by
  induction fits with
  | last digit =>
    rw [unseparated_cons (ne_separator_of_digit digit)]
    exact .last digit
  | next digit _ ih =>
    rw [unseparated_cons (ne_separator_of_digit digit)]
    exact .next digit ih
  | separated digit _ ih =>
    rw [unseparated_cons (ne_separator_of_digit digit), unseparated_separator]
    exact .next digit ih

namespace Numeral

/-- The numeral without its separators. -/
def unseparated : Numeral → Numeral
  | marked mark digits big => .marked mark (ScriptSyntax.unseparated digits) big
  | bigint digits => .bigint (ScriptSyntax.unseparated digits)
  | octal digits => .octal digits
  | decimal whole fraction exponent =>
    .decimal (ScriptSyntax.unseparated whole) (fraction.map ScriptSyntax.unseparated)
      (exponent.map fun e => { e with digits := ScriptSyntax.unseparated e.digits })

theorem spelling_unseparated (allowed : n.Allowed strict) :
    n.unseparated.spelling = ScriptSyntax.unseparated n.spelling := by
  cases allowed with
  | @marked mark radix digits big known fits =>
    have plain : mark ≠ '_' := by
      rintro rfl
      cases known
    cases big <;> simp [unseparated, spelling, ScriptSyntax.unseparated, plain]
  | bigint => simp [unseparated, spelling, ScriptSyntax.unseparated]
  | octal _ _ plain => exact (unseparated_eq_self plain).symm
  | @decimal whole fraction exponent fits fits' fits'' =>
    have signed {e : Exponent} (same : exponent = some e) : e.mark ≠ '_' ∧
        ScriptSyntax.unseparated e.sign = e.sign := by
      obtain ⟨mark, sign, -⟩ := fits'' e same
      refine ⟨by rintro same; simp [same] at mark, ?_⟩
      simp only [List.mem_cons, List.not_mem_nil, or_false] at sign
      obtain none | plus | minus := sign <;> simp [*, ScriptSyntax.unseparated]
    have point : fractionText (fraction.map ScriptSyntax.unseparated) =
        ScriptSyntax.unseparated (fractionText fraction) := by
      cases fraction <;> rfl
    cases exponent with
    | none => simp only [unseparated, spelling, Option.map_none, point, unseparated_append]; rfl
    | some e =>
      obtain ⟨mark, sign⟩ := signed rfl
      simp only [unseparated, spelling, Option.map_some, point, exponentText, unseparated_append,
        unseparated_cons mark, sign]

/-- Without its separators a numeral has the same value. -/
theorem value_unseparated (allowed : n.Allowed strict) : n.unseparated.value = n.value := by
  have spelled := spelling_unseparated allowed
  cases allowed with
  | @marked mark radix digits big known fits => cases big <;> simp [unseparated, value, digitValues_unseparated]
  | bigint => simp [unseparated, value]
  | octal => rfl
  | decimal =>
    rw [unseparated] at spelled ⊢
    rw [value, value, spelled, unseparated_unseparated]

theorem LeadingZero.unseparated_iff (fits : DigitsOf radix digits) :
    LeadingZero (ScriptSyntax.unseparated digits) ↔ LeadingZero digits := by
  cases fits with
  | last digit => rw [unseparated_eq_self (by simpa using (ne_separator_of_digit digit).symm)]
  | next digit more =>
    obtain ⟨c, t, rfl, other⟩ := more.head
    rw [unseparated_cons (ne_separator_of_digit digit), unseparated_cons (ne_separator_of_digit other)]
    simp [LeadingZero]
  | separated digit more =>
    obtain ⟨c, t, rfl, other⟩ := more.head
    rw [unseparated_cons (ne_separator_of_digit digit), unseparated_separator,
      unseparated_cons (ne_separator_of_digit other)]
    simp [LeadingZero]

theorem Allowed.unseparated (allowed : n.Allowed strict) : n.unseparated.Allowed strict := by
  cases allowed with
  | marked known fits => exact .marked known fits.unseparated
  | bigint fits first => exact .bigint fits.unseparated fun zero => first ((LeadingZero.unseparated_iff fits).mp zero)
  | octal sloppy zero plain fits => exact .octal sloppy zero plain fits
  | @decimal whole fraction exponent fits fits' fits'' =>
    refine .decimal ?_ ?_ ?_
    · obtain ⟨rfl, digits, mem, known⟩ | ⟨digits, leads⟩ := fits
      · exact .inl ⟨rfl, _, by rw [Option.mem_def.mp mem]; rfl, known.unseparated⟩
      · refine .inr ⟨digits.unseparated, fun zero => ?_⟩
        obtain ⟨sloppy, plain, other⟩ := leads ((LeadingZero.unseparated_iff digits).mp zero)
        rw [unseparated_eq_self plain]
        exact ⟨sloppy, plain, other⟩
    · rintro digits mem
      obtain ⟨known, inner, rfl⟩ := Option.mem_map.mp mem
      exact (fits' known inner).imp (by rintro rfl; rfl) DigitsOf.unseparated
    · rintro e mem
      obtain ⟨known, inner, rfl⟩ := Option.mem_map.mp mem
      obtain ⟨mark, sign, digits⟩ := fits'' known inner
      exact ⟨mark, sign, digits.unseparated⟩

end Numeral

/-! ### One more separator -/

/-- One separator is put between two digits that stand side by side. -/
def Separates (digits digits' : List Char) : Prop :=
  ∃ a c d b, c ≠ '_' ∧ d ≠ '_' ∧ digits = a ++ c :: d :: b ∧ digits' = a ++ c :: '_' :: d :: b

namespace Separates

theorem unseparated_eq (separates : Separates digits digits') : unseparated digits' = unseparated digits := by
  obtain ⟨a, c, d, b, first, -, rfl, rfl⟩ := separates
  rw [unseparated_append, unseparated_append, unseparated_cons first, unseparated_cons first, unseparated_separator]

theorem cases_cons (separates : Separates (c :: digits) digits') :
    (∃ d b, c ≠ '_' ∧ d ≠ '_' ∧ digits = d :: b ∧ digits' = c :: '_' :: d :: b) ∨ ∃ t, Separates digits t ∧
      digits' = c :: t := by
  obtain ⟨a, d, e, b, first, second, split, rfl⟩ := separates
  cases a with
  | nil =>
    obtain ⟨rfl, rfl⟩ := List.cons_eq_cons.mp split
    exact .inl ⟨e, b, first, second, rfl, rfl⟩
  | cons x a =>
    obtain ⟨rfl, rfl⟩ := List.cons_eq_cons.mp split
    exact .inr ⟨_, ⟨a, d, e, b, first, second, rfl, rfl⟩, rfl⟩

theorem fits (fits : DigitsOf radix digits) (separates : Separates digits digits') : DigitsOf radix digits' := by
  induction fits generalizing digits' with
  | last digit =>
    obtain ⟨d, b, -, -, none, -⟩ | ⟨t, ⟨a, c, d, b, -, -, none, -⟩, -⟩ := separates.cases_cons
    · cases none
    · simp at none
  | next digit more ih =>
    obtain ⟨d, b, -, -, rfl, rfl⟩ | ⟨t, inner, rfl⟩ := separates.cases_cons
    · exact .separated digit more
    · exact .next digit (ih inner)
  | separated digit more ih =>
    obtain ⟨d, b, -, other, same, -⟩ | ⟨t, inner, rfl⟩ := separates.cases_cons
    · obtain ⟨rfl, -⟩ := List.cons_eq_cons.mp same
      exact (other rfl).elim
    · obtain ⟨d, b, other, -⟩ | ⟨t, behind, rfl⟩ := inner.cases_cons
      · exact (other rfl).elim
      · exact .separated digit (ih behind)

theorem leadingZero (separates : Separates digits digits') (zero : LeadingZero digits') : LeadingZero digits := by
  obtain ⟨c, t, rfl⟩ := zero
  obtain ⟨a, d, e, b, -, -, rfl, split⟩ := separates
  match a with
  | [] => exact ⟨e, b, by rw [(List.cons_eq_cons.mp split).1]; rfl⟩
  | x :: a =>
    obtain ⟨rfl, -⟩ := List.cons_eq_cons.mp split
    cases a with
    | nil => exact ⟨d, _, rfl⟩
    | cons y a => exact ⟨y, _, rfl⟩

theorem head?_eq (separates : Separates digits digits') : digits'.head? = digits.head? := by
  obtain ⟨a, c, d, b, -, -, rfl, rfl⟩ := separates
  cases a <;> rfl

end Separates

namespace Numeral

/-- One separator is put between two digits of a run of the numeral.  Of the whole part this is allowed only where it
has no leading zero. -/
inductive Separates : Numeral → Numeral → Prop
  | marked {mark : Char} {digits digits' : List Char} {big : Bool} (separates : ScriptSyntax.Separates digits digits') :
    Separates (.marked mark digits big) (.marked mark digits' big)
  | bigint {digits digits' : List Char} (separates : ScriptSyntax.Separates digits digits') :
      Separates (.bigint digits) (.bigint digits')
  | whole {whole whole' : List Char} {fraction : Option (List Char)} {exponent : Option Exponent}
      (first : ¬ LeadingZero whole)
    (separates : ScriptSyntax.Separates whole whole') : Separates (.decimal whole fraction exponent)
      (.decimal whole' fraction exponent)
  | fraction {whole digits digits' : List Char} {exponent : Option Exponent}
      (separates : ScriptSyntax.Separates digits digits') :
    Separates (.decimal whole (some digits) exponent) (.decimal whole (some digits') exponent)
  | exponent {whole : List Char} {fraction : Option (List Char)} {mark : Char} {sign digits digits' : List Char}
    (separates : ScriptSyntax.Separates digits digits') :
    Separates (.decimal whole fraction (some ⟨mark, sign, digits⟩))
      (.decimal whole fraction (some ⟨mark, sign, digits'⟩))

namespace Separates

theorem unseparated_eq (separates : n.Separates n') : n'.unseparated = n.unseparated := by
  cases separates <;> next inner => simp [unseparated, inner.unseparated_eq]

theorem allowed (separates : n.Separates n') (allowed : n.Allowed strict) : n'.Allowed strict := by
  cases separates with
  | marked inner =>
    obtain ⟨known, fits⟩ := allowed
    exact .marked known (inner.fits fits)
  | bigint inner =>
    obtain _ | ⟨fits, first⟩ := allowed
    exact .bigint (inner.fits fits) fun zero => first (inner.leadingZero zero)
  | whole first inner =>
    obtain _ | _ | _ | ⟨fits, fits', fits''⟩ := allowed
    refine .decimal ?_ fits' fits''
    obtain ⟨rfl, -⟩ | ⟨digits, -⟩ := fits
    · obtain ⟨a, c, d, b, -, -, none, -⟩ := inner
      simp at none
    · exact .inr ⟨inner.fits digits, fun zero => (first (inner.leadingZero zero)).elim⟩
  | fraction inner =>
    obtain _ | _ | _ | ⟨fits, fits', fits''⟩ := allowed
    refine .decimal ?_ ?_ fits''
    · obtain ⟨rfl, digits, mem, known⟩ | digits := fits
      · obtain rfl := Option.some.inj mem
        exact .inl ⟨rfl, _, rfl, inner.fits known⟩
      · exact .inr digits
    · rintro digits ⟨⟩
      obtain rfl | known := fits' _ rfl
      · obtain ⟨a, c, d, b, -, -, none, -⟩ := inner
        simp at none
      · exact .inr (inner.fits known)
  | exponent inner =>
    obtain _ | _ | _ | ⟨fits, fits', fits''⟩ := allowed
    refine .decimal fits fits' ?_
    rintro e ⟨⟩
    obtain ⟨mark, sign, digits⟩ := fits'' _ rfl
    exact ⟨mark, sign, inner.fits digits⟩

/-- One more separator changes no value. -/
theorem value_eq (separates : n.Separates n') (allowed : n.Allowed strict) : n'.value = n.value := by
  rw [← value_unseparated (separates.allowed allowed), separates.unseparated_eq, value_unseparated allowed]

theorem head?_spelling (separates : n.Separates n') : n'.spelling.head? = n.spelling.head? := by
  cases separates with
  | marked => rfl
  | bigint inner => simp [spelling, List.head?_append, inner.head?_eq]
  | whole _ inner => simp [spelling, List.head?_append, inner.head?_eq]
  | fraction inner => simp [spelling, fractionText, List.head?_append]
  | exponent inner => simp [spelling, exponentText, List.head?_append]

end Separates
end Numeral

/-! ### Around the number -/

theorem Lone.mono (lone : Lone html hashBang P before lit after) (imp : ∀ t, P t → Q t) :
    Lone html hashBang Q before lit after := by
  obtain ⟨u, gap, fresh, fresh', rfl, opening, skips, skips'⟩ := lone
  exact ⟨u, gap, fresh, fresh', rfl, opening, skips.mono imp, skips'.mono imp⟩

/-- Another token that begins alike may stand there. -/
theorem Lone.replace (lone : Lone html hashBang P before lit after) (some : lit ≠ []) (same : lit'.head? = lit.head?) :
    Lone html hashBang P before lit' after := by
  have same : (lit' ++ after).head? = (lit ++ after).head? := by
    obtain ⟨c, t, rfl⟩ := List.exists_cons_of_ne_nil some
    rw [List.head?_append, same]
    rfl
  obtain ⟨u, gap, fresh, fresh', rfl, opening, skips, skips'⟩ := lone
  obtain ⟨t, split, replaced⟩ := skips.replace
  obtain rfl := List.append_cancel_right split
  refine ⟨u, gap, fresh, fresh', rfl, opening.congr ?_, replaced _ same, skips'⟩
  cases gap with
  | nil => exact same
  | cons => rfl

theorem breaksLine_unseparated : breaksLine (unseparated text) = breaksLine text := any_unseparated (by decide)

/-- Where the line ends it ends still. -/
theorem LineEnds.unseparated (ends : LineEnds rest) : LineEnds (unseparated rest) := by
  have first : rest.head? ≠ some '_' := fun first => absurd (ends '_' first) (by decide)
  rwa [LineEnds, head?_unseparated first]

/-- A comment is closed no earlier without the separators in it. -/
def ClosesAlike (body : List Char) : Prop := ¬ ['*', '/'] <:+: unseparated body

theorem GapPiece.unseparated (piece : GapPiece html fresh ClosesAlike rest u) (first : rest.head? ≠ some '_') :
    GapPiece html fresh (fun _ => True) (unseparated rest) (unseparated u) := by
  cases piece with
  | crlf => exact .crlf
  | @gap c isGap alone =>
    have other : c ≠ '_' := by
      rintro rfl
      exact absurd isGap (by decide)
    rw [unseparated_cons other]
    exact .gap isGap (by rwa [head?_unseparated first])
  | @block body holds whole =>
    have split : ScriptSyntax.unseparated ('/' :: '*' :: (body ++ ['*', '/'])) =
        '/' :: '*' :: (ScriptSyntax.unseparated body ++ ['*', '/']) := by
      simp [ScriptSyntax.unseparated]
    rw [split]
    exact .block trivial holds
  | @line mark body known inside ends =>
    have plain : ScriptSyntax.unseparated mark = mark := by cases known <;> rfl
    rw [unseparated_append, plain]
    exact .line known (breaksLine_unseparated.trans inside) ends.unseparated

theorem Skips.unseparated (skips : Skips html ClosesAlike fresh text fresh' rest) (first : rest.head? ≠ some '_') :
    Skips html (fun _ => True) fresh (unseparated text) fresh' (unseparated rest) := by
  induction skips with
  | refl => exact .refl
  | @step fresh' u rest _ piece ih =>
    have opens : (u ++ rest).head? ≠ some '_' := by
      obtain ⟨c, t, rfl, opens⟩ := piece.opens
      rintro same
      obtain rfl : c = '_' := by simpa using same
      exact absurd opens (by decide)
    have before := ih opens
    rw [unseparated_append] at before
    have step := before.step (piece.unseparated first)
    rwa [breaksLine_unseparated] at step

theorem Opening.unseparated (opening : Opening hashBang rest u) :
    Opening hashBang (unseparated rest) (unseparated u) := by
  cases opening with
  | nothing => exact .nothing
  | line known inside ends => exact .line known (breaksLine_unseparated.trans inside) ends.unseparated

/-- Without separators there are still only white space and comments around the number. -/
theorem Lone.unseparated (lone : Lone html hashBang ClosesAlike before lit after) (first : lit.head? ≠ some '_')
    (some : lit ≠ []) :
    Lone html hashBang (fun _ => True) (unseparated before) (unseparated lit) (unseparated after) := by
  obtain ⟨u, gap, fresh, fresh', rfl, opening, skips, skips'⟩ := lone
  have first : (lit ++ after).head? ≠ Option.some '_' := by
    obtain ⟨c, t, rfl⟩ := List.exists_cons_of_ne_nil some
    exact first
  refine ⟨ScriptSyntax.unseparated u, ScriptSyntax.unseparated gap, fresh, fresh', unseparated_append, ?_, ?_,
    skips'.unseparated (by simp)⟩
  · simpa only [unseparated_append] using opening.unseparated
  · simpa only [unseparated_append] using skips.unseparated first

/-! ### Texts of one number -/

/-- The text gives a number with the value and the end of the text. -/
def GivesNumber (o : Options) (text : List Char) (value : TokenValue) : Prop :=
  ∃ t e l, Setting.tokenize ⟨.ofString (String.ofList text), o, none⟩ = (.ok [t, e], l) ∧ t.kind = .num ∧
    t.value = value ∧ e.kind = .eof

theorem givesNumber_of_lone {o : Options} (late : 12 ≤ o.edition)
    (lone : Lone (!o.isModule) o.hashBangAllowed P before n.spelling after)
    (allowed : n.Allowed o.isModule) : GivesNumber o (before ++ (n.spelling ++ after)) n.value := by
  have at' := Source.textAt_ofString (String.ofList (before ++ (n.spelling ++ after)))
  rw [String.toList_ofList] at at'
  exact tokenize_lone (s := ⟨.ofString (String.ofList (before ++ (n.spelling ++ after))), o, none⟩) rfl
    late at' lone allowed

/-- The token is the numeral, written in the text between two others. -/
structure Numeral.At (n : Numeral) (strict : Bool) (text before after : List Char) (t : Token) : Prop where
  split : text = before ++ (n.spelling ++ after)
  start : t.start = width before
  stop : t.stop = width (before ++ n.spelling)
  allowed : n.Allowed strict

theorem append_inj_of_width (same : a ++ text = b ++ rest) (long : width a = width b) : a = b ∧ text = rest := by
  induction a generalizing b with
  | nil =>
    have short := length_le_width b
    obtain rfl : b = [] :=
      List.eq_nil_of_length_eq_zero (by rw [← long, width_nil] at short; exact Nat.le_zero.mp short)
    exact ⟨rfl, same⟩
  | cons c a ih =>
    cases b with
    | nil =>
      have := c.utf8Size_pos
      rw [width_cons, width_nil] at long
      omega
    | cons d b =>
      obtain ⟨rfl, tails⟩ := List.cons_eq_cons.mp same
      obtain ⟨rfl, rfl⟩ := ih tails (Nat.add_left_cancel (by simpa only [width_cons] using long))
      exact ⟨rfl, rfl⟩

/-- Where the token is, one text only is before it, one is its own, and one is behind it. -/
theorem Numeral.At.unique {before' after' : List Char} {t : Token} (h : n.At strict text before after t)
    (h' : n'.At strict text before' after' t) :
    before' = before ∧ n'.spelling = n.spelling ∧ after' = after := by
  obtain ⟨same, tails⟩ := append_inj_of_width (h'.split.symm.trans h.split) (h'.start.symm.trans h.start)
  have stops := h'.stop.symm.trans h.stop
  rw [same, width_append, width_append] at stops
  exact ⟨same, append_inj_of_width tails (Nat.add_left_cancel stops)⟩

/-- Nothing changes in a text of one number without its separators, unless a comment is closed earlier without them; nor
does it with one more separator between two digits of the number. -/
theorem tokenize_separators (text : String) (o : Options) (t e : Token) (l : Lexer) (late : 12 ≤ o.edition)
    (run : Setting.tokenize ⟨.ofString text, o, none⟩ = (.ok [t, e], l)) (number : t.kind = .num) :
    ((∀ c ∈ l.comments, c.kind = .block → ClosesAlike c.text.toList) →
      GivesNumber o (unseparated text.toList) t.value) ∧
    (∃ before n after, Numeral.At n o.isModule text.toList before after t) ∧
    ∀ before n after n', Numeral.At n o.isModule text.toList before after t → n.Separates n' →
      GivesNumber o (before ++ (n'.spelling ++ after)) t.value := by
  obtain ⟨before, n, after, split, lone, allowed, value, start, stop⟩ :=
    tokenize_numeral (s := ⟨.ofString text, o, none⟩) rfl late (Source.textAt_ofString text) run number
  have allowed : n.Allowed o.isModule := allowed
  have here : n.At o.isModule text.toList before after t := ⟨split, start, stop, allowed⟩
  obtain ⟨c, v, some, first⟩ := allowed.head
  refine ⟨fun closes => ?_, ⟨before, n, after, here⟩, fun before' m after' m' there separates => ?_⟩
  · have alike :=
      lone.mono fun body ⟨c, mem, kind, same⟩ => show ClosesAlike body by simpa [same] using closes c mem kind
    have other : n.spelling.head? ≠ Option.some '_' := by
      rw [some]
      rintro same
      obtain rfl : c = '_' := by simpa using same
      exact absurd first (by decide)
    have plain := alike.unseparated other (by simp [some])
    rw [← Numeral.spelling_unseparated allowed] at plain
    rw [split, unseparated_append, unseparated_append, ← Numeral.spelling_unseparated allowed, value,
      ← Numeral.value_unseparated allowed]
    exact givesNumber_of_lone late plain allowed.unseparated
  · obtain ⟨rfl, spelled, rfl⟩ := here.unique there
    rw [← spelled] at lone some
    -- Whatever numeral is written there, its value is that of the token.
    have same : m.value = t.value := by
      obtain ⟨t', e', l', run', -, value', -⟩ := givesNumber_of_lone late lone there.allowed
      rw [← there.split, String.ofList_toList, run] at run'
      cases run'
      exact value'.symm
    rw [← same, ← separates.value_eq there.allowed]
    exact givesNumber_of_lone late (lone.replace (by simp [some]) separates.head?_spelling)
      (separates.allowed there.allowed)

theorem tokenize_separators_commented :
    ∃ t e l, Setting.tokenize ⟨.ofString "/* a_b */ 1_000.25e1", {}, none⟩ = (.ok [t, e], l) ∧ t.kind = .num ∧
    GivesNumber {} "/* ab */ 1000.25e1".toList t.value ∧ GivesNumber {} "/* a_b */ 1_0_00.25e1".toList t.value ∧
      GivesNumber {} "/* a_b */ 1_000.2_5e1".toList t.value := by
  have kinds : (Setting.tokenize ⟨.ofString "/* a_b */ 1_000.25e1", {}, none⟩).1.toOption.map (List.map Token.kind) =
      some [.num, .eof] := by
    decide +kernel
  have extents : (Setting.tokenize ⟨.ofString "/* a_b */ 1_000.25e1", {}, none⟩).1.toOption.map
      (List.map fun t => (t.start, t.stop)) =
      some [(10, 20), (20, 20)] := by decide +kernel
  have comments : (Setting.tokenize ⟨.ofString "/* a_b */ 1_000.25e1", {}, none⟩).2.comments.map Comment.text =
    [" a_b "] := by decide +kernel
  obtain ⟨t, e, l, result, number, -⟩ := exists_pair kinds
  rw [result] at extents comments
  obtain ⟨start, stop⟩ : t.start = 10 ∧ t.stop = 20 := by
    simp only [Except.toOption, Option.map_some, List.map_cons, Option.some.injEq, List.cons.injEq,
      Prod.mk.injEq] at extents
    exact extents.1
  obtain ⟨c, noted⟩ : ∃ c, l.comments = [c] := List.length_eq_one_iff.mp (by simpa using congrArg List.length comments)
  have text : c.text = " a_b " := by simpa [noted] using comments
  obtain ⟨plain, -, separated⟩ := tokenize_separators "/* a_b */ 1_000.25e1" {} t e l (by decide) result number
  let n : Numeral := .decimal ['1', '_', '0', '0', '0'] (some ['2', '5']) (some ⟨'e', [], ['1']⟩)
  have here : n.At (Options.isModule {}) "/* a_b */ 1_000.25e1".toList "/* a_b */ ".toList [] t := by
    refine ⟨rfl, start, stop, .decimal (.inr ⟨?_, by simp [LeadingZero]⟩) ?_ ?_⟩
    · exact .separated rfl (.next rfl (.next rfl (.last rfl)))
    · rintro _ ⟨⟩
      exact .inr (.next rfl (.last rfl))
    · rintro _ ⟨⟩
      exact ⟨.inl rfl, by simp, .last rfl⟩
  have whole := separated _ n _ (.decimal ['1', '_', '0', '_', '0', '0'] _ _) here
    (.whole (by simp [LeadingZero]) ⟨['1', '_'], '0', '0', ['0'], by decide, by decide, rfl, rfl⟩)
  have fraction := separated _ n _ (.decimal _ (some ['2', '_', '5']) _) here
    (.fraction ⟨[], '2', '5', [], by decide, by decide, rfl, rfl⟩)
  refine ⟨t, e, l, result, number, plain ?_, whole, fraction⟩
  simp only [noted, List.mem_singleton, forall_eq, text]
  exact fun _ => show ¬ ['*', '/'] <:+: _ by decide

/-- A comment that is closed earlier without the separator in it. -/
theorem tokenize_separators_closed :
    ∃ t e l, Setting.tokenize ⟨.ofString "/**_/1*/2", {}, none⟩ = (.ok [t, e], l) ∧ t.kind = .num ∧ e.kind = .eof ∧
    ¬ GivesNumber {} (unseparated "/**_/1*/2".toList) t.value := by
  have kinds : (Setting.tokenize ⟨.ofString "/**_/1*/2", {}, none⟩).1.toOption.map (List.map Token.kind) =
    some [.num, .eof] := by decide +kernel
  have fails : (Setting.tokenize ⟨.ofString "/**/1*/2", {}, none⟩).1.isOk = false := by decide +kernel
  obtain ⟨t, e, l, result, number, ended⟩ := exists_pair kinds
  refine ⟨t, e, l, result, number, ended, ?_⟩
  rintro ⟨t', e', l', run, -⟩
  rw [show String.ofList (unseparated "/**_/1*/2".toList) = "/**/1*/2" by decide] at run
  rw [run] at fails
  cases fails

end ScriptSyntax
