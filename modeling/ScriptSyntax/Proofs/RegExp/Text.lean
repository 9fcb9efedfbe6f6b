import ScriptSyntax.Proofs.RegExp.Core.Grammar
import ScriptSyntax.Proofs.RegExp.Trail

/-!
Patterns as texts.  Where the cursor stands a text is still to be read, and how that text begins tells what each small
step does.  Characters of one code unit are read alike in all modes; others only where surrogate pairs are joined.
-/

namespace ScriptSyntax
namespace RegExp

variable {α β : Type} {d : Dialect} {p q r : Progress} {i : Nat} {joined : Bool} {c : Char} {text t u rest : List Char}

/-! ### Code units -/

@[simp] theorem codeUnits_nil : codeUnits [] = [] := rfl

theorem codeUnits_append (t u : List Char) : codeUnits (t ++ u) = codeUnits t ++ codeUnits u := List.flatMap_append

theorem codeUnits_cons (c : Char) (t : List Char) : codeUnits (c :: t) = codeUnits [c] ++ codeUnits t :=
  codeUnits_append [c] t

theorem codeUnits_narrow (small : c.toNat < 0x10000) : codeUnits [c] = [c.toNat] := by
  simp [codeUnits, small]

theorem codeUnits_wide (large : ¬ c.toNat < 0x10000) :
    codeUnits [c] = [0xd800 + (c.toNat - 0x10000) / 0x400, 0xdc00 + (c.toNat - 0x10000) % 0x400] := by
  simp [codeUnits, large]

/-- No character is a surrogate. -/
theorem not_surrogate (c : Char) : c.toNat < 0xd800 ∨ 0xdfff < c.toNat ∧ c.toNat < 0x110000 := by
  have valid : c.toNat.isValidChar := c.valid
  unfold Nat.isValidChar at valid
  omega

theorem length_le_codeUnits (t : List Char) : t.length ≤ (codeUnits t).length := by
  induction t with
  | nil => exact Nat.le_refl _
  | cons c t ih =>
    rw [codeUnits_cons, List.length_append, List.length_cons]
    have : 0 < (codeUnits [c]).length := by
      by_cases small : c.toNat < 0x10000
      · simp [codeUnits_narrow small]
      · simp [codeUnits_wide small]
    omega

/-- A narrow character is among the code units only where it is in the text. -/
theorem mem_of_mem_codeUnits (narrow : isNarrow c = true) (mem : c.toNat ∈ codeUnits t) : c ∈ t := by
  obtain ⟨b, inside, unit⟩ := List.mem_flatMap.1 mem
  have below := lt_of_isNarrow narrow
  split at unit
  · obtain rfl : c = b := Char.toNat_inj.1 (List.mem_singleton.1 unit)
    exact inside
  · simp only [List.mem_cons, List.not_mem_nil, or_false] at unit
    omega

/-- The character is read as one code: halves are joined, or it has none. -/
def Dialect.Whole (d : Dialect) (c : Char) : Prop := d.unicode = true ∨ isNarrow c = true

/-! ### The text at a code unit -/

/-- From the code unit on, the pattern is the text. -/
def Dialect.TextAt (d : Dialect) (i : Nat) (text : List Char) : Prop :=
  ∃ before, d.units.toList = before ++ codeUnits text ∧ before.length = i

/-- A character that is read takes its code units. -/
theorem Dialect.next_of_at? (stands : d.at? joined i = some c.toNat) :
    d.next joined i = i + (codeUnits [c]).length := by
  simp only [Dialect.next, stands]
  by_cases small : c.toNat < 0x10000
  · rw [if_neg (by omega), codeUnits_narrow small]
    rfl
  · rw [if_pos (by omega), codeUnits_wide small]
    rfl

namespace Dialect.TextAt

theorem past (at' : d.TextAt i (t ++ rest)) : d.TextAt (i + (codeUnits t).length) rest := by
  obtain ⟨before, units, rfl⟩ := at'
  exact ⟨before ++ codeUnits t, by rw [units, codeUnits_append, List.append_assoc], List.length_append⟩

theorem getElem? (at' : d.TextAt i text) (k : Nat) : d.units[i + k]? = (codeUnits text)[k]? := by
  obtain ⟨before, units, rfl⟩ := at'
  rw [← Array.getElem?_toList, units, List.getElem?_append_right (Nat.le_add_right ..), Nat.add_sub_cancel_left]

theorem size (at' : d.TextAt i text) : i + (codeUnits text).length = d.units.size := by
  obtain ⟨before, units, rfl⟩ := at'
  rw [← Array.length_toList, units, List.length_append]

/-- Fuel for each code unit left is fuel for each character left. -/
theorem length_lt (at' : d.TextAt i text) : text.length < d.units.size + 1 - i := by
  have size := at'.size
  have le := length_le_codeUnits text
  omega

theorem inner_length_lt (at' : d.TextAt i (t ++ (u ++ rest))) : u.length < d.units.size + 1 := by
  have lt := at'.length_lt
  simp only [List.length_append] at lt
  omega

theorem nil_of_size (at' : d.TextAt i text) (last : i = d.units.size) : text = [] := by
  have size := at'.size
  have le := length_le_codeUnits text
  exact List.length_eq_zero_iff.1 (by omega)

theorem at?_nil (at' : d.TextAt i []) : d.at? joined i = none := by
  have none : d.units[i]? = none := at'.getElem? 0
  simp only [Dialect.at?, none]

/-- A character of one code unit is read in every mode. -/
theorem at?_narrow (small : c.toNat < 0x10000) (at' : d.TextAt i (c :: text)) : d.at? joined i = some c.toNat := by
  have units := at'.getElem? 0
  rw [codeUnits_cons, codeUnits_narrow small] at units
  have first : d.units[i]? = some c.toNat := by simpa using units
  have range := not_surrogate c
  have high : isHighSurrogate c.toNat = false := by
    simp only [isHighSurrogate, Bool.and_eq_false_iff, decide_eq_false_iff_not]
    omega
  simp [Dialect.at?, first, high]

/-- Of another character only the first half is read, unless halves are joined. -/
theorem at?_wide (large : ¬ c.toNat < 0x10000) (at' : d.TextAt i (c :: text)) :
    d.at? joined i = some (if joined then c.toNat else 0xd800 + (c.toNat - 0x10000) / 0x400) := by
  have units := at'.getElem?
  rw [codeUnits_cons, codeUnits_wide large] at units
  have range := not_surrogate c
  have first : d.units[i]? = some (0xd800 + (c.toNat - 0x10000) / 0x400) := units 0
  have second : d.units[i + 1]? = some (0xdc00 + (c.toNat - 0x10000) % 0x400) := units 1
  have high : isHighSurrogate (0xd800 + (c.toNat - 0x10000) / 0x400) = true := by
    simp only [isHighSurrogate, Bool.and_eq_true, decide_eq_true_eq]
    omega
  have low : isLowSurrogate (0xdc00 + (c.toNat - 0x10000) % 0x400) = true := by
    simp only [isLowSurrogate, Bool.and_eq_true, decide_eq_true_eq]
    omega
  have whole : joinSurrogates (0xd800 + (c.toNat - 0x10000) / 0x400)
      (0xdc00 + (c.toNat - 0x10000) % 0x400) = c.toNat := by
    unfold joinSurrogates
    omega
  cases joined <;> simp [Dialect.at?, first, second, high, low, whole]

theorem at?_cons (at' : d.TextAt i (c :: text)) : d.at? true i = some c.toNat := by
  by_cases small : c.toNat < 0x10000
  · exact at'.at?_narrow small
  · exact at'.at?_wide small

/-- What stands at the code unit is the first character of the text. -/
theorem at? (at' : d.TextAt i text) : d.at? true i = text.head?.map Char.toNat := by
  cases text with
  | nil => exact at'.at?_nil
  | cons c text => exact at'.at?_cons

theorem next (at' : d.TextAt i (c :: text)) : d.next true i = i + (codeUnits [c]).length :=
  Dialect.next_of_at? at'.at?_cons

theorem next_nil (at' : d.TextAt i []) : d.next joined i = i := by
  simp only [Dialect.next, at'.at?_nil]

theorem at?_whole (whole : d.Whole c) (at' : d.TextAt i (c :: text)) : d.at? d.unicode i = some c.toNat := by
  obtain unicode | narrow := whole
  · rw [unicode, at'.at?_cons]
  · exact at'.at?_narrow (Nat.lt_trans (lt_of_isNarrow narrow) (by decide))

/-- A character is not read where the text begins with another. -/
theorem ne (at' : d.TextAt i text) (other : text.head? ≠ some c) : d.at? joined i ≠ some c.toNat := by
  cases text with
  | nil => simp [at'.at?_nil]
  | cons b text =>
    have apart : b.toNat ≠ c.toNat := fun same => other (congrArg some (Char.toNat_inj.1 same))
    by_cases small : b.toNat < 0x10000
    · simpa [at'.at?_narrow small] using apart
    · have range := not_surrogate b
      have range' := not_surrogate c
      rw [at'.at?_wide small]
      cases joined with
      | true => simpa using apart
      | false =>
        intro same
        have half : 0xd800 + (b.toNat - 0x10000) / 0x400 = c.toNat := Option.some.inj same
        omega

end Dialect.TextAt

/-- A literal is read from the start of its pattern. -/
theorem textAt_ofFlags {flags : List Char} {edition : Nat} : (Dialect.ofFlags text flags edition).TextAt 0 text :=
  ⟨[], by simp [Dialect.ofFlags], rfl⟩

/-! ### Moving along the text -/

/-- The cursor past a text. -/
def Progress.skip (p : Progress) (t : List Char) : Progress := { p with pos := p.pos + (codeUnits t).length }

namespace Progress

@[simp] theorem skip_nil : p.skip [] = p := rfl

@[simp] theorem skip_skip : (p.skip t).skip u = p.skip (t ++ u) := by
  simp only [skip, codeUnits_append, List.length_append, Nat.add_assoc]

@[simp] theorem skip_back : { p.skip t with pos := p.pos } = p := rfl

end Progress

theorem moveTo_skip : moveTo p.pos d (p.skip t) = .ok () p := rfl

theorem Dialect.TextAt.step (at' : d.TextAt p.pos (c :: rest)) : d.TextAt (p.skip [c]).pos rest := at'.past (t := [c])

theorem Dialect.TextAt.skip (at' : d.TextAt p.pos (t ++ rest)) : d.TextAt (p.skip t).pos rest := at'.past

theorem Dialect.TextAt.eat_other (at' : d.TextAt p.pos text) (other : text.head? ≠ some c) : eat c d p = .ok false p :=
  eat_missed (at'.ne other)

theorem eat_text (whole : d.Whole c) (at' : d.TextAt p.pos (c :: text)) : eat c d p = .ok true (p.skip [c]) := by
  rw [eat_run (at'.at?_whole whole), Dialect.next_of_at? (at'.at?_whole whole)]
  rfl

section

variable {c' : Char} (whole : d.Whole c)
include whole

theorem eatPair_text (whole' : d.Whole c') (at' : d.TextAt p.pos (c :: c' :: rest)) :
    eatPair c c' d p = .ok true (p.skip [c, c']) := by
  unfold eatPair
  rw [run_bind position_run, run_bind (eat_text whole at'), if_pos rfl, run_bind (eat_text whole' at'.step),
    Progress.skip_skip]
  rfl

theorem eatPair_other (at' : d.TextAt p.pos text) (other : ¬ [c, c'] <+: text) : eatPair c c' d p = .ok false p := by
  unfold eatPair
  rw [run_bind position_run]
  by_cases head : text.head? = some c
  · obtain ⟨rest, rfl⟩ := List.head?_eq_some_iff.1 head
    have missed : rest.head? ≠ some c' := by
      intro head'
      obtain ⟨rest', rfl⟩ := List.head?_eq_some_iff.1 head'
      exact other ⟨rest', rfl⟩
    rw [run_bind (eat_text whole at'), if_pos rfl, run_bind (at'.step.eat_other missed)]
    rfl
  · rw [run_bind (at'.eat_other head)]
    rfl

end

/-! ### Runs -/

/-- Codes of the class are read exactly where characters of the class stand. -/
def Dialect.Tells (d : Dialect) (inClass : Nat → Bool) : Prop := ∀ {i : Nat} {text : List Char}, d.TextAt i text →
  (d.at? d.unicode i).filter inClass = (text.head?.map Char.toNat).filter inClass

theorem tells_of_unicode (unicode : d.unicode = true) (inClass : Nat → Bool) : d.Tells inClass :=
  fun at' => by rw [unicode, at'.at?]

/-- Halves of characters are in no class of small codes. -/
theorem tells_of_lt {inClass : Nat → Bool} (small : ∀ code, inClass code = true → code < 0xd800) : d.Tells inClass := by
  intro i text at'
  have large {code : Nat} (le : 0xd800 ≤ code) : inClass code = false :=
    Bool.not_eq_true _ |>.mp fun is => Nat.not_lt.2 le (small code is)
  cases text with
  | nil => rw [at'.at?_nil]; rfl
  | cons c text =>
    by_cases narrow : c.toNat < 0x10000
    · rw [at'.at?_narrow narrow]; rfl
    · rw [at'.at?_wide narrow]
      cases d.unicode with
      | true => rfl
      | false =>
        have half : inClass (0xd800 + (c.toNat - 0x10000) / 0x400) = false := large (Nat.le_add_right ..)
        have whole : inClass c.toNat = false := large (by omega)
        simp [Option.filter, half, whole]

section

variable {inClass : Nat → Bool} (tells : d.Tells inClass)
include tells

theorem Dialect.Tells.at?_of_mem (at' : d.TextAt i (c :: text)) (is : inClass c.toNat = true) :
    d.at? d.unicode i = some c.toNat := by
  have same := tells at'
  simp only [List.head?_cons, Option.map_some, Option.filter_some, is, if_true] at same
  exact (Option.filter_eq_some_iff.1 same).1

theorem Dialect.Tells.not_mem (at' : d.TextAt i text) (other : ∀ c ∈ text.head?, inClass c.toNat = false) :
    ∀ code, d.at? d.unicode i = some code → inClass code = false := by
  intro code stands
  have same := tells at'
  rw [stands, Option.filter_some] at same
  cases is : inClass code with
  | false => rfl
  | true =>
    rw [is, if_pos rfl] at same
    obtain ⟨found, belongs⟩ := Option.filter_eq_some_iff.1 same.symm
    obtain ⟨c, head, rfl⟩ := Option.map_eq_some_iff.1 found
    cases (other c head).symm.trans belongs

theorem run_text {fuel : Nat} (at' : d.TextAt i text) (enough : text.length < fuel) :
    d.run inClass fuel i = ((text.takeWhile fun c => inClass c.toNat).map Char.toNat,
      i + (codeUnits (text.takeWhile fun c => inClass c.toNat)).length) := by
  induction fuel generalizing i text with
  | zero => exact absurd enough (Nat.not_lt_zero _)
  | succ fuel ih =>
    have stops (other : ∀ c ∈ text.head?, inClass c.toNat = false) : d.run inClass (fuel + 1) i = ([], i) := by
      rw [Dialect.run]
      cases stands : d.at? d.unicode i with
      | none => rfl
      | some code => simp [tells.not_mem at' other code stands]
    cases text with
    | nil => exact stops (by simp)
    | cons c text =>
      rw [List.takeWhile_cons]
      cases is : inClass c.toNat with
      | true =>
        have stands := tells.at?_of_mem at' is
        have later : d.TextAt (d.next d.unicode i) text := Dialect.next_of_at? stands ▸ at'.past (t := [c])
        simp only [Dialect.run, stands, is, if_true]
        rw [ih later (Nat.lt_of_succ_lt_succ enough), codeUnits_cons, List.length_append, ← Nat.add_assoc,
          Dialect.next_of_at? stands, List.map_cons]
      | false => exact stops (by simpa using is)

theorem eatRun_text (at' : d.TextAt p.pos text) :
    eatRun inClass d p = .ok ((text.takeWhile fun c => inClass c.toNat).map Char.toNat)
      (p.skip (text.takeWhile fun c => inClass c.toNat)) := by
  rw [eatRun_run, run_text tells at' (Nat.lt_of_lt_of_le at'.length_lt (Nat.sub_le ..))]
  rfl

end

/-! ### Decimal numbers -/

theorem takeWhile_append_stop {P : Char → Bool} (all : ∀ c ∈ t, P c = true) (stop : ∀ c ∈ rest.head?, P c = false) :
    (t ++ rest).takeWhile P = t := by
  rw [List.takeWhile_append_of_pos all]
  cases rest with
  | nil => simp
  | cons c rest => simp [stop c rfl]

theorem eatDecimal_text (at' : d.TextAt p.pos text) :
    eatDecimal d p = .ok (if text.takeWhile Alphabet.isDecimalDigit = [] then none
        else some (min (Core.numberIn (text.takeWhile Alphabet.isDecimalDigit)) maxNumber))
      (p.skip (text.takeWhile Alphabet.isDecimalDigit)) := by
  have digits : (fun c : Char => isDigitCode c.toNat) = Alphabet.isDecimalDigit := by
    funext c
    simp [isDigitCode, scalar?_toNat]
  unfold eatDecimal
  rw [run_bind (eatRun_text (tells_of_lt fun _ => lt_of_isDigitCode) at'), digits]
  cases found : text.takeWhile Alphabet.isDecimalDigit with
  | nil => rfl
  | cons c cs =>
    have value : numberOf 10 (((c :: cs).map Char.toNat).map (· - '0'.toNat)) =
        min (Core.numberIn (c :: cs)) maxNumber := by
      rw [numberOf_eq (by decide), List.map_map]
      rfl
    rw [if_neg (List.cons_ne_nil c cs), ← value]
    rfl

theorem number_takes (number : Core.IsNumber t) (stop : ∀ c ∈ rest.head?, Alphabet.isDecimalDigit c = false)
    (at' : d.TextAt p.pos (t ++ rest)) : eatDecimal d p = .ok (some (min (Core.numberIn t) maxNumber)) (p.skip t) := by
  rw [eatDecimal_text at', takeWhile_append_stop number.decimal stop, if_neg number.nonempty]

/-! ### Bounds in braces -/

/-- Two bounds in braces, as texts. -/
def bounds (low high : List Char) : List Char := '{' :: (low ++ ',' :: (high ++ ['}']))

/-- Two bounds are in order or a fault, as far as numbers count. -/
theorem bracedQuantifier_bounds {low high : List Char} (isLow : Core.IsNumber low) (isHigh : Core.IsNumber high)
    (at' : d.TextAt p.pos (bounds low high ++ rest)) : bracedQuantifier false d p =
    if min (Core.numberIn high) maxNumber < min (Core.numberIn low) maxNumber then
      .error .quantifierOutOfOrder (p.skip (bounds low high))
    else .ok true (p.skip (bounds low high)) := by
  have whole : ['{'] ++ (low ++ ([','] ++ (high ++ ['}']))) = bounds low high := rfl
  simp only [bounds, List.cons_append, List.append_assoc, List.nil_append] at at'
  have at1 := at'.step
  have at2 := at1.skip
  have at3 := at2.step
  have at4 := at3.skip
  unfold bracedQuantifier
  rw [run_bind position_run, run_bind (eat_text (.inr rfl) at'), if_pos rfl,
    run_bind (number_takes isLow (by simpa using (by decide : Alphabet.isDecimalDigit ',' = false)) at1)]
  show (eat ',' >>= _) d _ = _
  rw [run_bind (eat_text (.inr rfl) at2), if_pos rfl,
    run_bind (number_takes isHigh (by simpa using (by decide : Alphabet.isDecimalDigit '}' = false)) at3)]
  show (eat '}' >>= _) d _ = _
  rw [run_bind (eat_text (.inr rfl) at4), if_pos rfl, Progress.skip_skip, Progress.skip_skip, Progress.skip_skip,
    Progress.skip_skip, whole, Bool.not_false, Bool.and_true, Option.any_some]
  by_cases less : min (Core.numberIn high) maxNumber < min (Core.numberIn low) maxNumber
  · rw [if_pos less, if_pos (decide_eq_true less)]
    rfl
  · rw [if_neg less, if_neg (by simpa using less)]
    rfl

end RegExp
end ScriptSyntax
