import ScriptSyntax.Proofs.Tandem.Blank

/-!
Two lexers side by side read the same escapes, strings and templates.
-/

namespace ScriptSyntax

/-- A digit at an offset ends at a boundary. -/
theorem Source.Placed.digit {n i radix digit : Nat} {a : Source} (le : n ≤ i)
    (here : (a.charAt i).bind (Alphabet.digit? radix) = some digit) : a.Placed n (i + 1) := by
  obtain ⟨c, here, digit⟩ := Option.bind_eq_some_iff.mp here
  exact .succ le here (Alphabet.utf8Size_of_digit? digit)

/-- Octal digits from the one before `here` on keep at least that one. -/
theorem octalDigits_pos {a : Source} {here first : Nat}
    (is : (a.charAt (here - 1)).bind (Alphabet.digit? 8) = some first)
    {digits : List Nat} (same : digits = (([here - 1, here, here + 1].map fun i =>
      (a.charAt i).bind (Alphabet.digit? 8)).takeWhile Option.isSome).filterMap id) :
    0 < (if 255 < Number.natOfDigits 8 digits then digits.dropLast else digits).length := by
  obtain ⟨rest, rfl⟩ : ∃ rest, digits = first :: rest := by
    rw [same, List.map_cons, is, List.takeWhile_cons, Option.isSome_some, if_pos rfl]
    exact ⟨_, List.filterMap_cons_some rfl⟩
  cases rest with
  | nil =>
    obtain ⟨c, -, digit⟩ := Option.bind_eq_some_iff.mp is
    have small : Number.natOfDigits 8 [first] < 8 := by simpa [Number.natOfDigits] using Alphabet.digit?_lt digit
    rw [if_neg (by omega)]
    simp
  | cons second rest => split <;> simp

namespace Tandem

open LexM

variable {n : Nat} {a b : Source} {o : Options} {l k : Lexer}

/-- Two escapes that stand for one code, or are wrong in the same way. -/
inductive SameEscape (n : Nat) (a : Source) : Escape → Escape → Prop
  | code (code : Nat) : SameEscape n a (.code code) (.code code)
  | continuation : SameEscape n a .continuation .continuation
  | invalid {e f : SyntaxError} {excused : Bool} (same : SameFault n a e f) :
    SameEscape n a (.invalid e excused) (.invalid f excused)

/-! ### Escapes -/

theorem invalidEscape_agrees {P : Lexer → Prop} {pos : Nat} {fault : Fault} (placed : a.Placed n pos)
    (known : fault ≠ .invalidCharacterPosition) :
    (lexers n a b o).Agrees P (invalidEscape pos fault) (invalidEscape pos fault)
      fun x y _ => SameEscape n a x y ∧ ∀ code, x ≠ .code code :=
  fun l k state _ => by
    have same : k.inTemplate = l.inTemplate := by rw [state.lines]; rfl
    simp only [invalidEscape, Bind.bind, ReaderT.bind, EStateM.bind]
    refine .passes state ⟨?_, fun _ other => by cases other⟩
    rw [same]
    exact .invalid (.of .fatal placed known)

theorem code_agrees {P : Lexer → Prop} {code : Nat} :
    (lexers n a b o).Agrees P (pure (.code code)) (pure (.code code)) fun x y _ => SameEscape n a x y :=
  .pure fun _ _ => .code code

theorem hexDigits_agrees {count : Nat} :
    (lexers n a b o).Agrees (· = l) (hexDigits count) (hexDigits count)
      (Equal fun digits r => r.pos = l.pos + digits.length) := by
  induction count generalizing l with
  | zero => exact .pure fun _ same => ⟨rfl, by simp [same]⟩
  | succ count ih =>
    refine .look .peek ?_
    split
    · next digit here =>
      refine .given fun _ h => .advance (.digit h.sited.le here)
        (ih.step fun rest r after => .pure fun _ same => ⟨rfl, ?_⟩)
      simp only [same, after, List.length_cons]
      omega
    · exact .pure fun _ same => ⟨rfl, by simp [same]⟩

theorem readHex_agrees {count : Nat} :
    (lexers n a b o).Agrees (· = l) (readHex count) (readHex count) fun x y r =>
      SameEscape n a x y ∧ ∀ code, x = .code code → r.pos = l.pos + count := by
  refine .given fun _ h => .look .pos (hexDigits_agrees.step fun digits r after => .ite (fun _ => ?_) fun whole => ?_)
  · exact (invalidEscape_agrees h.sited.pos (by simp)).weaken fun x y _ ⟨same, other⟩ =>
      ⟨same, fun code is => (other code is).elim⟩
  · refine .pure fun _ same => ⟨.code _, fun _ _ => ?_⟩
    have length : digits.length = count := by simp_all
    rw [same, after, length]

theorem readCodePoint_agrees :
    (lexers n a b o).Agrees (· = l) readCodePoint readCodePoint fun x y _ => SameEscape n a x y := by
  refine .look .sees (.ite (fun brace => ?_) fun _ => readHex_agrees.weaken fun _ _ _ after => after.1)
  refine .look .edition (.ite (fun _ => .stops (.failAtToken (by simp))) fun _ => ?_)
  refine .pass (by simpa using brace) rfl (.given fun _ h => .look .pos (.source ?_))
  rw [h.texts.agree.find? h.sited.le fun j le => h.texts.agree.has le _]
  split
  · exact (invalidEscape_agrees h.sited.pos (by simp)).weaken fun _ _ _ after => after.1
  · next close found =>
    obtain ⟨le, -, closes⟩ := Source.find?_spec found
    refine readHex_agrees.each ?_
    rintro _ _ r ⟨_ | _ | same, last⟩
    · next code =>
      have here : a.charAt r.pos = some '\x7d' := by
        rw [last code rfl, Nat.add_sub_cancel' le]
        exact Source.has_iff.mp closes
      refine .pass here rfl (.ite (fun _ => ?_) fun _ => code_agrees)
      exact (invalidEscape_agrees h.sited.pos (by simp)).weaken fun _ _ _ after => after.1
    · exact .pure fun _ _ => .continuation
    · exact .pure fun _ _ => .invalid same

theorem readOctalEscape_agrees {inTemplate : Bool} {i : Nat} {c : Char} (start : a.charAt i = some '\\')
    (here : l.pos = i + 2) (le : n ≤ i) (first : a.charAt (i + 1) = some c) (octal : Alphabet.isOctalDigit c = true) :
    (lexers n a b o).Agrees (· = l) (readOctalEscape inTemplate) (readOctalEscape inTemplate) fun x y _ =>
      SameEscape n a x y := by
  refine .given fun k h => .source (.look .pos ?_)
  have chars (j : Nat) (near : l.pos - 1 ≤ j) : b.charAt j = a.charAt j := h.texts.agree.charAt j (by omega)
  have same : ([l.pos - 1, l.pos, l.pos + 1].map fun i => (b.charAt i).bind (Alphabet.digit? 8)) =
      [l.pos - 1, l.pos, l.pos + 1].map fun i => (a.charAt i).bind (Alphabet.digit? 8) := by
    simp only [List.map_cons, List.map_nil]
    rw [chars _ (Nat.le_refl _), chars _ (Nat.sub_le ..), chars (l.pos + 1) (by omega)]
  dsimp only
  rw [same]
  obtain ⟨digits, known⟩ : ∃ digits, digits = (([l.pos - 1, l.pos, l.pos + 1].map fun i =>
    (a.charAt i).bind (Alphabet.digit? 8)).takeWhile Option.isSome).filterMap id := ⟨_, rfl⟩
  rw [← known]
  obtain ⟨kept, is⟩ : ∃ kept, kept = if 255 < Number.natOfDigits 8 digits then digits.dropLast else digits := ⟨_, rfl⟩
  rw [← is]
  have pos : 0 < kept.length := by
    obtain ⟨digit, value⟩ := Alphabet.exists_digit_of_isOctalDigit octal
    have at_first : (a.charAt (l.pos - 1)).bind (Alphabet.digit? 8) = some digit := by
      rw [here, show i + 2 - 1 = i + 1 from rfl, first]
      exact value
    exact is ▸ octalDigits_pos at_first known
  have le_length : kept.length ≤ digits.length := by
    rw [is]
    split
    · simp [List.length_dropLast]
    · exact Nat.le_refl _
  have spans (j : Nat) (lt : j ≤ kept.length - 1) : a.Placed n (l.pos + j) := by
    induction j with
    | zero => exact h.sited.pos
    | succ j ih =>
      have digit := octalDigits_spec (known ▸ le_length) (i := j) lt
      exact .digit (ih (Nat.le_of_succ_le lt)).le (Option.isSome_iff_exists.mp digit).choose_spec
  refine .moveTo (spans _ (Nat.le_refl _)) (.look .sees (.look .sees (.get fun k h => ?_)))
  rw [show k.strict = l.strict by rw [h.lines]; rfl]
  refine .ite (fun _ => ?_) fun _ => code_agrees
  refine .look .pos ((invalidEscape_agrees ?_ ?_).weaken fun _ _ _ after => after.1)
  · rw [show l.pos + (kept.length - 1) - 1 - kept.length = i by omega]
    exact .of_charAt le start
  · split <;> simp

theorem readEscape_agrees {inTemplate : Bool} (start : a.charAt l.pos = some '\\') :
    (lexers n a b o).Agrees (· = l) (readEscape inTemplate) (readEscape inTemplate) fun x y _ =>
      SameEscape n a x y := by
  refine .given fun _ before => .pass start rfl (.look .peek ?_)
  dsimp only
  split
  · exact .failAtToken (by simp)
  · next c next =>
    refine .skip next ?_
    split
    case h_3 => exact readHex_agrees.weaken fun _ _ _ after => after.1
    case h_4 => exact readCodePoint_agrees
    case h_9 => exact Bond.Agrees.endCarriageReturn.step fun _ _ _ => .pure fun _ _ => .continuation
    case h_10 =>
      refine .ite (fun _ => .newLine (.pure fun _ _ => .continuation)) fun _ => .ite (fun eight => ?_) fun _ =>
        .ite (fun octal => ?_) fun _ => code_agrees
      · have placed : a.Placed n (l.pos + 1 + c.utf8Size - 1) := by
          rcases eight with rfl | rfl <;> exact .of_charAt (Nat.le_succ_of_le before.sited.le) next
        refine .get fun k h => ?_
        rw [show k.strict = l.strict by rw [h.lines]; rfl]
        refine .ite (fun _ => .look .pos ?_) fun _ => .ite (fun _ => .look .pos ?_) fun _ => code_agrees
        · exact (invalidEscape_agrees placed (by simp)).weaken fun _ _ _ after => after.1
        · exact (invalidEscape_agrees placed (by simp)).weaken fun _ _ _ after => after.1
      · obtain ⟨digit, value⟩ := Alphabet.exists_digit_of_isOctalDigit octal
        exact readOctalEscape_agrees start (by simp [(Alphabet.utf8Size_of_digit? value)]) before.sited.le next octal
    all_goals exact code_agrees

/-! ### Strings -/

theorem stringPass_agrees {quote : Char} {text : List Char} :
    (lexers n a b o).Agrees (· = l) (stringPass quote text) (stringPass quote text)
      (Equal (Turn (fun _ _ => True) fun _ r => a.charAt r.pos = some quote)) := by
  refine .get fun k h => ?_
  rw [show k.token.start = l.token.start by rw [h.lines]; rfl]
  refine .look .peek ?_
  split
  · exact .fail h.sited.start (by simp)
  · next c here =>
    refine .ite (fun closes => .pure fun _ same => ⟨rfl, show a.charAt _ = _ from same ▸ closes ▸ here⟩) fun _ =>
      .ite (fun slash => ?_) fun _ => ?_
    · refine (readEscape_agrees (slash ▸ here)).each ?_
      rintro _ _ r (_ | _ | same)
      · exact .pure fun _ _ => ⟨rfl, trivial⟩
      · exact .pure fun _ _ => ⟨rfl, trivial⟩
      · exact .throw same
    · refine .ite (fun _ => .look .edition
        (.ite (fun _ => .stops (.fail h.sited.start (by simp))) fun _ => ?_)) fun _ =>
        .ite (fun _ => .fail h.sited.start (by simp)) fun _ => .skip here (.pure fun _ _ => ⟨rfl, trivial⟩)
      exact .skip here (.newLine (.pure fun _ _ => ⟨rfl, trivial⟩))

theorem readString_agrees {quote : Char} (start : a.charAt l.pos = some quote) (ascii : quote.utf8Size = 1) :
    (lexers n a b o).Agrees (· = l) (readString quote) (readString quote) (Equal fun _ _ => True) := by
  refine .pass start ascii (Bond.Agrees.step (.repeatForward (fun _ _ _ => stringPass_agrees) trivial)
    fun text r closes => ?_)
  exact .pass closes ascii finish_agrees

/-! ### Templates -/

/-- Where a chunk ends, a backquote stands or what begins a substitution. -/
def AtChunkEnd (a : Source) (i : Nat) : Prop :=
  a.charAt i = some '\x60' ∨ a.charAt i = some '$' ∧ a.charAt (i + 1) = some '{'

theorem atChunkEnd_agrees :
    (lexers n a b o).Agrees (· = l) atChunkEnd atChunkEnd
      (Equal fun x r => (x = true → AtChunkEnd a l.pos) ∧ r = l) := by
  refine .look .peek ?_
  split
  · next here => exact .pure fun _ same => ⟨rfl, fun _ => .inl here, same⟩
  · next here => exact (Bond.Agrees.sees .seesAhead).weaken fun x _ _ ⟨same, looked, at'⟩ =>
      ⟨same, fun yes => .inr ⟨here, by simpa [looked] using yes⟩, at'⟩
  · exact .pure fun _ same => ⟨rfl, nofun, same⟩

theorem finishChunk_agrees {text : List Char} (ends : AtChunkEnd a l.pos) :
    (lexers n a b o).Agrees (· = l) (finishChunk text) (finishChunk text) (Equal fun _ _ => True) := by
  refine .get fun k h => ?_
  rw [show k.pos = l.pos by rw [h.lines]; rfl, show k.token.start = l.token.start by rw [h.lines]; rfl,
    show k.kind = l.kind by rw [h.lines]; rfl]
  refine .ite (fun _ => .look .sees (.ite (fun dollar => finishOperator_agrees ?_) fun plain =>
    finishOperator_agrees ?_)) fun _ =>
    finish_agrees
  · rcases ends with quote | ⟨-, brace⟩
    · simp [quote] at dollar
    · exact .succ (Nat.le_succ_of_le h.sited.le) brace rfl
  · rcases ends with quote | ⟨here, -⟩
    · exact .succ h.sited.le quote rfl
    · simp [here] at plain

theorem chunkPass_agrees {text : List Char} :
    (lexers n a b o).Agrees (· = l) (chunkPass text) (chunkPass text)
      (Equal (Turn (fun _ _ => True) fun _ _ => True)) := by
  refine atChunkEnd_agrees.step ?_
  rintro ends _ ⟨stands, rfl⟩
  refine .ite (fun yes => (finishChunk_agrees (stands yes)).step fun _ _ _ => .pure fun _ _ =>
    ⟨rfl, trivial⟩) fun _ => ?_
  refine .look .peek ?_
  split
  · exact .failAtToken (by simp)
  · next here =>
    refine (readEscape_agrees here).each ?_
    rintro _ _ r (_ | _ | same)
    · exact .pure fun _ _ => ⟨rfl, trivial⟩
    · exact .pure fun _ _ => ⟨rfl, trivial⟩
    · exact .ite (fun _ => .pure fun _ _ => ⟨rfl, trivial⟩) fun _ => .throw same
  · next here => exact .pass here rfl (Bond.Agrees.endCarriageReturn.step fun _ _ _ => .pure fun _ _ => ⟨rfl, trivial⟩)
  · next here =>
    refine .skip here (.ite (fun _ => .newLine ?_) fun _ => ?_)
    · exact .pure fun _ _ => ⟨rfl, trivial⟩
    · exact .pure fun _ _ => ⟨rfl, trivial⟩

theorem invalidChunkPass_agrees :
    (lexers n a b o).Agrees (· = l) (invalidChunkPass ⟨⟩) (invalidChunkPass ⟨⟩)
      (Equal (Turn (fun _ _ => True) fun _ _ => True)) := by
  refine atChunkEnd_agrees.step ?_
  rintro ends _ ⟨-, rfl⟩
  refine .ite (fun _ => finish_agrees.step fun _ _ _ => .pure fun _ _ => ⟨rfl, trivial⟩) fun _ => ?_
  refine .look .peek ?_
  split
  · exact .failAtToken (by simp)
  · next here =>
    refine .pass here rfl (.look .peek ?_)
    split
    · next escaped => exact .skip escaped (.pure fun _ _ => ⟨rfl, trivial⟩)
    · exact .pure fun _ _ => ⟨rfl, trivial⟩
  · next here => exact .pass here rfl (Bond.Agrees.endCarriageReturn.step fun _ _ _ => .pure fun _ _ => ⟨rfl, trivial⟩)
  · next here =>
    refine .skip here (.ite (fun _ => .newLine ?_) fun _ => ?_)
    · exact .pure fun _ _ => ⟨rfl, trivial⟩
    · exact .pure fun _ _ => ⟨rfl, trivial⟩

theorem insideTemplate_agrees {α : Type} {m : LexM α} {V : α → Prop}
    (h : ∀ l, (lexers n a b o).Agrees (· = l) m m (Equal fun x _ => V x)) :
    (lexers n a b o).Agrees (· = l) (insideTemplate m) (insideTemplate m) (Equal fun x _ => V x) := by
  rintro l k state rfl
  have ends := h _ { l with inTemplate := true } { k with inTemplate := true }
    (state.change (c := fun l => { l with inTemplate := true }) (fun _ => rfl) { state.sited with }) rfl
  simp only [insideTemplate]
  generalize m (setting a o) { l with inTemplate := true } = x at ends ⊢
  generalize m (setting b o) { k with inTemplate := true } = y at ends ⊢
  cases ends with
  | passes state value =>
    exact .passes (state.change (c := fun l => { l with inTemplate := false }) (fun _ => rfl)
      { state.sited with }) value
  | fails fault => exact .fails ⟨fault.1, { fault.2 with }⟩

theorem readChunk_agrees : (lexers n a b o).Agrees (· = l) readChunk readChunk (Equal fun _ _ => True) := by
  refine Bond.Agrees.step (.repeatForward (fun _ _ _ => chunkPass_agrees) trivial) fun whole r _ => ?_
  refine .ite (fun _ => .pure fun _ _ => ⟨rfl, trivial⟩) fun _ => ?_
  exact .repeatForward (fun _ _ _ => invalidChunkPass_agrees) trivial

theorem readTemplate_agrees : (lexers n a b o).Agrees (· = l) readTemplate readTemplate (Equal fun _ _ => True) :=
  insideTemplate_agrees fun _ => readChunk_agrees

end Tandem
end ScriptSyntax
