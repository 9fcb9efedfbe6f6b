import ScriptSyntax.Proofs.Lexer.Window

/-!
What a lexer reads of a token does not depend on the comments behind it, so the token is read again from a text that has
other comments there.
-/

namespace ScriptSyntax

open LexM
open Tandem (setting)

/-! ### Searches -/

/-- What passes a test in the second text passes it in the first one. -/
theorem Source.find?_none_of {a b : Source} {test test' : Nat → Bool} {offset : Nat} (size : b.size = a.size)
    (only : ∀ i, offset ≤ i → test' i = true → test i = true) (absent : a.find? test offset = none) :
    b.find? test' offset = none := by
  fun_induction Source.find? a test offset with
  | case1 => simp at absent
  | case2 offset inside fails ih =>
    have fails' : test' offset ≠ true := fun passes => fails (only offset (Nat.le_refl _) passes)
    rw [Source.find?, if_pos (size ▸ inside), if_neg fails']
    exact ih (fun i le => only i (Nat.le_of_succ_le le)) absent
  | case3 offset outside => rw [Source.find?, if_neg (size ▸ outside)]

/-- What the second text passes first is no earlier than what the first one does. -/
theorem Source.find?_some_of {a b : Source} {test test' : Nat → Bool} {offset found : Nat} (size : b.size = a.size)
    (only : ∀ i, offset ≤ i → test' i = true → test i = true) (there : a.find? test offset = some found)
    (passes : test' found = true) :
    b.find? test' offset = some found := by
  fun_induction Source.find? a test offset with
  | case1 offset inside =>
    obtain rfl := Option.some.inj there
    rw [Source.find?, if_pos (size ▸ inside), if_pos passes]
  | case2 offset inside fails ih =>
    have fails' : test' offset ≠ true := fun passes => fails (only offset (Nat.le_refl _) passes)
    rw [Source.find?, if_pos (size ▸ inside), if_neg fails']
    exact ih (fun i le => only i (Nat.le_of_succ_le le)) there
  | case3 => simp at there

theorem Source.find?_le_of {a b : Source} {test test' : Nat → Bool} {offset found found' : Nat} (size : b.size = a.size)
    (only : ∀ i, offset ≤ i → test' i = true → test i = true) (there : a.find? test offset = some found)
    (there' : b.find? test' offset = some found') : found ≤ found' := by
  obtain ⟨le, -, passes⟩ := find?_spec there'
  have passes := only found' le passes
  fun_induction Source.find? a test offset with
  | case1 offset inside =>
    obtain rfl := Option.some.inj there
    exact le
  | case2 offset inside fails ih =>
    have fails' : test' offset ≠ true := fun passes => fails (only offset (Nat.le_refl _) passes)
    rw [Source.find?, if_pos (size ▸ inside), if_neg fails'] at there'
    exact ih (fun i le => only i (Nat.le_of_succ_le le)) there there' (find?_spec there').1
  | case3 => simp at there

namespace Window

/-- The second lexer is some digits behind the first one. -/
structure Lags (w : Window) (l k : Lexer) : Prop where
  behind : ∃ n, w.Beside l { k with pos := k.pos + n } ∧
    ∀ i < n, ((w.second.charAt (k.pos + i)).bind (Alphabet.digit? 16)).isSome

theorem Beside.lags {w : Window} {l k : Lexer} (h : w.Beside l k) : w.Lags l k := ⟨0, h, nofun⟩

theorem Lags.inTemplate {w : Window} {l k : Lexer} (h : w.Lags l k) : k.inTemplate = l.inTemplate := by
  obtain ⟨n, beside, -⟩ := h
  exact beside.inTemplate

end Window

/-- Hexadecimal digits are read until another character stands there. -/
theorem hexDigits_stops {s : Setting} {count : Nat} {digits : List Nat} {l l' : Lexer}
    (run : Runs s (hexDigits count) l digits l') :
    l' = { l with pos := l.pos + digits.length } ∧ digits.length ≤ count ∧
      (∀ i < digits.length, ((s.source.charAt (l.pos + i)).bind (Alphabet.digit? 16)).isSome) ∧
      (digits.length < count → (s.source.charAt l'.pos).bind (Alphabet.digit? 16) = none) := by
  induction count generalizing l digits with
  | zero =>
    simp [hexDigits] at run
    obtain ⟨rfl, rfl⟩ := run
    simp
  | succ count ih =>
    simp only [hexDigits, Runs.bind_iff, Runs.peek_iff, Runs.exists_look] at run
    split at run
    · next digit found =>
      simp at run
      obtain ⟨rest, run, rfl⟩ := run
      obtain ⟨same, le, all, stop⟩ := ih run
      refine ⟨by simp only [same, List.length_cons, Nat.add_assoc,
        Nat.add_comm 1], Nat.succ_le_succ le, fun i lt => ?_, fun lt => stop (Nat.lt_of_succ_lt_succ lt)⟩
      cases i with
      | zero => simp [found]
      | succ i => simpa [Nat.add_assoc, Nat.add_comm 1 i] using all i (Nat.lt_of_succ_lt_succ lt)
    · next found =>
      simp at run
      obtain ⟨rfl, rfl⟩ := run
      simp [found]

/-- Digits that end before their count is reached end there too if more are allowed. -/
theorem hexDigits_more {s : Setting} {count more : Nat} {digits : List Nat} {l l' : Lexer}
    (run : Runs s (hexDigits count) l digits l')
    (short : digits.length < count) (le : count ≤ more) : Runs s (hexDigits more) l digits l' := by
  induction count generalizing l digits more with
  | zero => simp at short
  | succ count ih =>
    obtain ⟨more, rfl⟩ : ∃ n, more = n + 1 := ⟨more - 1, by omega⟩
    simp only [hexDigits, Runs.bind_iff, Runs.peek_iff, Runs.exists_look] at run ⊢
    split at run
    · next digit found =>
      simp at run
      obtain ⟨rest, run, rfl⟩ := run
      simpa using ih run (Nat.lt_of_succ_lt_succ short) (Nat.le_of_succ_le_succ le)
    · next found =>
      exact run

namespace Window.Echoes

variable {w : Window} {z : Nat} {l k : Lexer} (h : w.Beside l k) (z_le : z ≤ w.stop)
include h z_le

/-! ### Escapes -/

theorem hexDigits {count : Nat} : w.Echoes z l k (hexDigits count) (hexDigits count) w.Same := by
  induction count generalizing l k with
  | zero => exact .pure ⟨rfl, h⟩
  | succ count ih =>
    refine glance h z_le (by grind) (fun c mark => ?_) fun c here => ?_
    · rw [Option.bind_some, Option.bind_some, digit?_of_mark (.tail _ mark), digit?_of_mark (.head _)]
    · split
      · exact .advance h fun _ _ _ h => (ih h).step (fun _ => .pure) fun _ _ _ h => .pure ⟨rfl, h⟩
      · exact .pure ⟨rfl, h⟩

/-- Two escapes that stand for one code, or are both wrong. -/
inductive AlikeEscapes (w : Window) : Escape → Escape → Lexer → Lexer → Prop
  | same {e : Escape} {l k : Lexer} (beside : w.Beside l k) : AlikeEscapes w e e l k
  | wrong {e f : SyntaxError} {excused : Bool} {l k : Lexer} (lags : w.Lags l k) :
    AlikeEscapes w (.invalid e excused) (.invalid f excused) l k

omit h z_le in
theorem invalidEscape {n : Nat} {fault : Fault} (h : w.Beside l k) :
    w.Echoes z l k (invalidEscape n fault) (invalidEscape n fault) (AlikeEscapes w) := by
  refine .read (.get (.pure ?_))
  rw [h.inTemplate]
  exact .wrong h.lags

theorem readHex {count : Nat} : w.Echoes z l k (readHex count) (readHex count) (AlikeEscapes w) :=
  .pos h <| (hexDigits h z_le).step (by grind) fun _ _ _ h => .ite (fun _ => invalidEscape h) fun _ => .pure (.same h)

section Late

variable {close : Nat} {digits : List Nat} {m : Lexer}
  (run : Runs (setting w.first w.options) (LexM.hexDigits (close - l.pos)) l digits m) (inside : m.pos ≤ z)
include run inside

/-- The digits before a brace that only the first text has end before it. -/
theorem short_of_late (le : l.pos ≤ close) (closes : w.first.charAt close = some '\x7d')
    (late : w.second.charAt close ≠ some '\x7d') :
    digits.length < close - l.pos := by
  obtain ⟨rfl, short, -, -⟩ := hexDigits_stops run
  refine Nat.lt_of_le_of_ne short fun whole => ?_
  have before : close ≤ w.stop := by dsimp only at inside; omega
  obtain same | ⟨-, -, c, mark, here⟩ := w.charAt_or (Nat.le_trans h.le le) before
  · exact late (same.trans closes)
  · obtain rfl : c = '\x7d' := Option.some.inj (here.symm.trans closes)
    exact absurd mark (by decide)

theorem lags_of_late : w.Lags m k := by
  obtain ⟨rfl, -, all, -⟩ := hexDigits_stops run
  refine ⟨digits.length, h.move _, fun i lt => ?_⟩
  have same := w.inside (l.pos + i) (Nat.le_trans h.le (Nat.le_add_right ..)) (by dsimp only at inside; omega)
  rw [h.pos, same]
  exact all i lt

/-- A brace further on makes no difference to digits that end before. -/
theorem wrong_of_late (short : digits.length < close - l.pos) {more : Nat} (le : close - l.pos ≤ more) :
    ∃ f k', Runs (setting w.second w.options) (LexM.readHex more) k
      (.invalid f (m.inTemplate && decide (9 ≤ w.options.edition))) k' ∧ w.Beside m k' := by
  obtain ⟨digits', k', run', rfl, beside⟩ := hexDigits h z_le digits m (hexDigits_more run short le) inside
  refine ⟨(setting w.second w.options).fatal k.pos .badEscape, k', ?_, beside⟩
  simp only [LexM.readHex, Runs.bind_iff, Runs.pos_iff, Runs.exists_look]
  exact ⟨digits', k', run', by simp [show digits'.length ≠ more by omega, invalidEscape_iff, beside.inTemplate]; rfl⟩

end Late

/-- A code point in braces, behind the opening one.  The brace that the first lexer finds may be part of a comment. -/
theorem bracedCodePoint : w.Echoes z l k
    (do match w.first.find? (fun i => w.first.has i '\x7d') l.pos with
      | none => LexM.invalidEscape l.pos .badEscape
      | some close =>
        match ← LexM.readHex (close - l.pos) with
        | .code code =>
          advance 1
          if 0x10ffff < code then LexM.invalidEscape l.pos .codePointOutOfBounds else return .code code
        | other => return other)
    (do match w.second.find? (fun i => w.second.has i '\x7d') l.pos with
      | none => LexM.invalidEscape l.pos .badEscape
      | some close =>
        match ← LexM.readHex (close - l.pos) with
        | .code code =>
          advance 1
          if 0x10ffff < code then LexM.invalidEscape l.pos .codePointOutOfBounds else return .code code
        | other => return other) (AlikeEscapes w) := by
  have only (i : Nat) (le : l.pos ≤ i) (closes : w.second.has i '\x7d' = true) : w.first.has i '\x7d' = true :=
    Source.has_iff.mpr (w.charAt_of_second (Nat.le_trans h.le le) (by decide) (Source.has_iff.mp closes))
  cases found : w.first.find? (fun i => w.first.has i '\x7d') l.pos with
  | none =>
    rw [Source.find?_none_of w.size only found]
    exact invalidEscape h
  | some close =>
    obtain ⟨le, -, closes⟩ := Source.find?_spec found
    by_cases there : w.second.has close '\x7d' = true
    · rw [Source.find?_some_of w.size only found there]
      refine (readHex h z_le).bind (by rintro (_ | _ | _) <;> grind) fun e e' r t alike => ?_
      cases alike with
      | wrong lags => exact .pure (.wrong lags)
      | same h =>
        cases e with
        | code code => exact .advance h fun _ _ _ h => .ite (fun _ => invalidEscape h) fun _ => .pure (.same h)
        | continuation => exact .pure (.same h)
        | invalid => exact .pure (.same h)
    · intro v l' run inside
      obtain ⟨e, m, hex, rest⟩ := Runs.bind_iff.mp run
      have later : m.pos ≤ l'.pos := by
        refine Climbs.forward ?_ rest
        cases e <;> grind
      simp only [LexM.readHex, Runs.bind_iff, Runs.pos_iff, Runs.exists_look, Runs.ite_iff, invalidEscape_iff,
        Runs.pure_iff] at hex
      obtain ⟨digits, r, read, ends⟩ := hex
      obtain rfl : m = r := by
        rcases ends with ⟨-, -, same⟩ | ⟨-, -, same⟩ <;> exact same
      have short := short_of_late h z_le read (Nat.le_trans later inside) le (Source.has_iff.mp closes)
        (mt Source.has_iff.mpr there)
      obtain ⟨-, rfl, -⟩ :=
        ends.resolve_right fun whole => by simp [show digits.length ≠ close - l.pos by omega] at whole
      obtain ⟨rfl, rfl⟩ := Runs.pure_iff.mp rest
      cases found' : w.second.find? (fun i => w.second.has i '\x7d') l.pos with
      | none =>
        have lags := lags_of_late h z_le read inside
        refine ⟨_, k, invalidEscape_iff.mpr ⟨rfl, rfl⟩, ?_⟩
        rw [lags.inTemplate]
        exact .wrong lags
      | some close' =>
        have further := Source.find?_le_of w.size only found found'
        obtain ⟨f, k', run', beside⟩ := wrong_of_late h z_le read inside short (Nat.sub_le_sub_right further l.pos)
        exact ⟨_, k', Runs.bind_iff.mpr ⟨_, k', run', Runs.pure_iff.mpr ⟨rfl, rfl⟩⟩, .wrong beside.lags⟩

theorem readCodePoint : w.Echoes z l k readCodePoint readCodePoint (AlikeEscapes w) := by
  refine sees h z_le (by decide) (fun b => ?_) fun brace _ => .ite (fun _ => ?_) fun _ => readHex h z_le
  · refine .ite (.bind .edition fun _ => .ite (.bind .unexpected fun _ => ?_) ?_) .readHex
    all_goals
      refine .bind .advance fun _ => .bind .pos fun _ => .bind .source fun _ => ?_
      split
      · exact .invalidEscape
      · refine .bind .readHex fun e => ?_
        cases e <;> grind
  · exact .edition (.ite (fun _ => .fails (by simp)) fun _ => .advance h fun _ _ _ h =>
      .pos h (.source (bracedCodePoint h z_le)))

omit h z_le in
/-- Two digits are kept. -/
theorem two_le_octalDigits {s : Source} {i first second : Nat}
    (digit : (s.charAt i).bind (Alphabet.digit? 8) = some first)
    (next : (s.charAt (i + 1)).bind (Alphabet.digit? 8) = some second) : 2 ≤ (octalDigits s (i + 1)).length := by
  obtain ⟨_, -, first_lt⟩ := Option.bind_eq_some_iff.mp digit
  obtain ⟨_, -, second_lt⟩ := Option.bind_eq_some_iff.mp next
  have first_lt := Alphabet.digit?_lt first_lt
  have second_lt := Alphabet.digit?_lt second_lt
  have small : ¬ 255 < Number.natOfDigits 8 [first, second] := by
    simp only [Number.natOfDigits, List.foldl_cons, List.foldl_nil]
    omega
  unfold octalDigits
  simp only [List.map_cons, List.map_nil, Nat.add_sub_cancel, digit, next, List.takeWhile_cons,
    Option.isSome_some, if_true]
  cases last : (s.charAt (i + 1 + 1)).bind (Alphabet.digit? 8) with
  | none => simp [small]
  | some z =>
    simp only [Option.isSome_some, if_true, List.takeWhile_nil, List.filterMap_cons, id, List.filterMap_nil]
    split <;> simp

omit h in
theorem octalDigits {i first : Nat} (here : l.pos = i + 1) (le : w.start ≤ i)
    (digit : (w.first.charAt i).bind (Alphabet.digit? 8) = some first)
    (inside : l.pos + ((octalDigits w.first l.pos).length - 1) ≤ z) :
    octalDigits w.second l.pos = octalDigits w.first l.pos := by
  have same (j : Nat) (le_j : w.start ≤ j) (le_stop : j ≤ w.stop) :
      (w.second.charAt j).bind (Alphabet.digit? 8) = (w.first.charAt j).bind (Alphabet.digit? 8) :=
    w.glance (fun x => x.bind (Alphabet.digit? 8)) (fun c mark => by
      rw [Option.bind_some, Option.bind_some, digit?_of_mark (.tail _ mark), digit?_of_mark (.head _)]) le_j le_stop
  rw [here] at inside ⊢
  have first_same := same i le (by omega)
  have second_same := same (i + 1) (by omega) (by omega)
  unfold ScriptSyntax.octalDigits
  simp only [List.map_cons, List.map_nil, Nat.add_sub_cancel, first_same, second_same, digit, List.takeWhile_cons,
    Option.isSome_some, if_true]
  cases next : (w.first.charAt (i + 1)).bind (Alphabet.digit? 8) with
  | none => simp
  | some d =>
    have two := two_le_octalDigits digit next
    rw [same (i + 1 + 1) (by omega) (by omega)]

theorem readOctalEscape {inTemplate : Bool} {i first : Nat} (here : l.pos = i + 1) (le : w.start ≤ i)
    (digit : (w.first.charAt i).bind (Alphabet.digit? 8) = some first) :
    w.Echoes z l k (readOctalEscape inTemplate) (readOctalEscape inTemplate) (AlikeEscapes w) := by
  rw [readOctalEscape_eq]
  refine .source (.pos h ?_)
  dsimp only
  intro v l' run inside
  have reached : l.pos + ((ScriptSyntax.octalDigits w.first l.pos).length - 1) ≤ l'.pos := by
    obtain ⟨_, m, moves, rest⟩ := Runs.bind_iff.mp run
    obtain rfl := Runs.moveTo_iff.mp moves
    exact Climbs.forward (by grind) rest
  rw [octalDigits z_le here le digit (Nat.le_trans reached inside)]
  refine (?_ : w.Echoes z l k _ _ (AlikeEscapes w)) v l' run inside
  refine .alter h (fun _ => rfl) (Nat.le_add_right ..) rfl rfl fun r t _ h => ?_
  refine sees h z_le (by decide) (by grind) fun _ _ => sees h z_le (by decide) (by grind) fun _ _ => .get ?_
  rw [h.strict]
  refine .ite (fun _ => ?_) fun _ => .pure (.same h)
  exact .pos h (invalidEscape h)

theorem readEscape {inTemplate : Bool} :
    w.Echoes z l k (readEscape inTemplate) (readEscape inTemplate) (AlikeEscapes w) := by
  have le := h.le
  refine .advance h fun r t moved h => peek h z_le (fun c => ?_) (fun c here => ?_) fun c mark z_le =>
    skip_beyond z_le ?_
  · cases c with
    | none => grind
    | some c => exact .bind .skip fun _ => by split <;> grind
  · cases c with
    | none => exact .get (fails (by simp))
    | some c =>
      refine .skip h fun q u past h => ?_
      split
      case h_3 => exact readHex h z_le
      case h_4 => exact readCodePoint h z_le
      case h_9 => exact (endCarriageReturn h z_le).step (by grind) fun _ _ _ h => .pure (.same h)
      case h_10 =>
        refine .ite (fun _ => ?_) fun _ => .ite (fun eight => ?_) fun _ =>
          .ite (fun octal => ?_) fun _ => .pure (.same h)
        · exact .newLine h fun _ _ h => .pure (.same h)
        · refine .get ?_
          rw [h.strict]
          refine .ite (fun _ => ?_) fun _ => .ite (fun _ => ?_) fun _ => .pure (.same h)
          · exact .pos h (invalidEscape h)
          · exact .pos h (invalidEscape h)
        · obtain ⟨digit, value⟩ := Alphabet.exists_digit_of_isOctalDigit octal
          have ascii := (Alphabet.utf8Size_of_digit? value)
          have eighths : (w.first.charAt r.pos).bind (Alphabet.digit? 8) = some digit := by
            rw [here]
            exact value
          exact readOctalEscape h z_le (by simp [past, ascii]) (by omega) eighths
      all_goals exact .pure (.same h)
  · split <;> grind

/-! ### Strings -/

theorem stringPass {quote : Char} {text : List Char} (unmarked : quote ∉ commentMarks) :
    w.Echoes z l k (stringPass quote text) (stringPass quote text) (Turns w w.Same) := by
  refine .get (peek h z_le (fun c => ?_) (fun c here => ?_) fun c mark z_le => ?_)
  · cases c with
    | none => grind
    | some c =>
      refine .ite .pure (.ite (.bind .readEscape fun e => ?_) (by grind))
      cases e <;> grind
  · cases c with
    | none => exact fails (by simp)
    | some c =>
      refine .ite (fun _ => .pure ⟨rfl, h⟩) fun _ => .ite (fun _ => ?_) fun _ => .ite (fun _ => ?_) fun _ => ?_
      · refine (readEscape h z_le).bind (fun e => by cases e <;> grind) fun e e' r t alike => ?_
        cases alike with
        | wrong => exact fails (by simp)
        | same h =>
          cases e with
          | code => exact .pure ⟨rfl, h⟩
          | continuation => exact .pure ⟨rfl, h⟩
          | invalid => exact fails (by simp)
      · exact .edition (.ite (fun _ => fails (by simp)) fun _ => .skip h fun _ _ _ h =>
          .newLine h fun _ _ h => .pure ⟨rfl, h⟩)
      · exact .ite (fun _ => fails (by simp)) fun _ => .skip h fun _ _ _ h => .pure ⟨rfl, h⟩
  · have ne : c ≠ quote := fun same => unmarked (same ▸ mark)
    dsimp only
    rw [if_neg ne, if_neg (by rintro rfl; exact absurd mark (by decide)),
      if_neg (by rintro (rfl | rfl) <;> exact absurd mark (by decide)),
        if_neg (by simp [isLineTerminator_of_mark (.tail _ mark)])]
    refine skip_beyond z_le ?_
    exact .pure

theorem readString {quote : Char} (unmarked : quote ∉ commentMarks) :
    w.Echoes z l k (readString quote) (readString quote) w.Same := by
  refine .advance h fun _ _ _ h => (Echoes.repeatForward (Q := w.Same) h (by grind) fun _ _ _ h =>
    stringPass h z_le unmarked).step ?_ fun _ _ _ h => ?_
  · grind
  · exact .advance h fun _ _ _ h => finish h

/-! ### Words -/

theorem readWordEscape {atStart : Bool} : w.Echoes z l k (readWordEscape atStart) (readWordEscape atStart) w.Same := by
  refine .pos h (.alter h (fun _ => rfl) (Nat.le_refl _) rfl rfl fun _ _ _ h => .advance h fun _ _ _ h => ?_)
  refine sees h z_le (by decide) (fun b => ?_) fun _ _ =>
    .ite (fun _ => .advance h fun _ _ _ h => .read ?_) fun _ => fails (by simp)
  · refine .ite (.bind .advance fun _ => .bind .read fun _ => .bind .readCodePoint fun e => ?_)
      (.bind .pos fun _ => .fail_bind)
    cases e <;> grind
  · refine (readCodePoint h z_le).bind (fun e => by cases e <;> grind) fun e e' r t alike => ?_
    cases alike with
    | wrong => exact fails (by simp)
    | same h =>
      cases e with
      | code code =>
        rw [show (setting w.second w.options).astral = (setting w.first w.options).astral from rfl]
        dsimp only
        split
        · exact .pure ⟨rfl, h⟩
        · exact fails (by simp)
      | continuation => exact fails (by simp)
      | invalid => exact fails (by simp)

theorem wordPass {word : List Char} : w.Echoes z l k (wordPass word) (wordPass word) (Turns w w.Same) := by
  refine glance h z_le (fun c => by cases c <;> grind) (fun c mark => ?_) fun c here => ?_
  · have plain : c ≠ '\\' := by
      rintro rfl
      exact absurd mark (by decide)
    simp [isIdentifierPart_of_mark (.tail _ mark), isIdentifierPart_of_mark (.head _), plain]
  · cases c with
    | none => exact .pure ⟨rfl, h⟩
    | some c =>
      refine .read (.ite (fun _ => ?_) fun _ => .ite (fun _ => ?_) fun _ => ?_)
      · exact .skip h fun _ _ _ h => .pure ⟨rfl, h⟩
      · exact (readWordEscape h z_le).step (fun _ => .pure) fun _ _ _ h => .pure ⟨rfl, h⟩
      · exact .pure ⟨rfl, h⟩

theorem readWordText : w.Echoes z l k readWordText readWordText w.Same := by
  refine .alter h (fun _ => rfl) (Nat.le_refl _) rfl rfl fun _ _ _ h => ?_
  refine step (.repeatForward (Q := w.Same) h (fun _ => .wordPass) fun _ _ _ h => wordPass h z_le)
    (fun _ => .pure) fun _ _ _ h => ?_
  exact .pure ⟨rfl, h⟩

theorem readWord : w.Echoes z l k readWord readWord w.Same :=
  (readWordText h z_le).step (by grind) fun _ _ _ h => .read (finish h)

/-! ### Numbers -/

theorem digitPass {radix start : Nat} {legacy : Bool} {run : DigitRun} :
    w.Echoes z l k (digitPass radix start legacy run) (digitPass radix start legacy run) (Turns w w.Same) := by
  refine glance h z_le (fun c => ?_) (fun c mark => ?_) fun c here => ?_
  · cases c with
    | none => exact .pure
    | some c =>
      refine .bind .edition fun _ => .ite (.bind .pos fun _ => ?_) (by split <;> grind)
      exact .ite .failRecoverable_bind (.ite .failRecoverable_bind
        (.ite .failRecoverable_bind (.bind .advance fun _ => .pure)))
  · have plain : c ≠ '_' := by
      rintro rfl
      exact absurd mark (by decide)
    simp [digit?_of_mark (.tail _ mark), digit?_of_mark (.head _), plain]
  · cases c with
    | none => exact .pure ⟨rfl, h⟩
    | some c =>
      refine .edition (.ite (fun _ => .pos h ?_) fun _ => ?_)
      · refine .ite (fun _ => fails (by simp)) fun _ => .ite (fun _ => fails (by simp)) fun _ =>
          .ite (fun _ => fails (by simp)) fun _ => ?_
        exact .advance h fun _ _ _ h => .pure ⟨rfl, h⟩
      · cases Alphabet.digit? radix c with
        | some digit => exact .advance h fun _ _ _ h => .pure ⟨rfl, h⟩
        | none => exact .pure ⟨rfl, h⟩

theorem readDigits {radix : Nat} {maybeLegacy : Bool} :
    w.Echoes z l k (readDigits radix maybeLegacy) (readDigits radix maybeLegacy) w.Same := by
  have rest (start : Nat) (legacy : Bool) : w.Echoes z l k
      (do
        let run ← LexM.repeatForward {} (LexM.digitPass radix start legacy)
        if run.separatorLast then failRecoverable ((← pos) - 1) .separatorLast
        return if run.digits.isEmpty then none else some run.digits.reverse)
      (do
        let run ← LexM.repeatForward {} (LexM.digitPass radix start legacy)
        if run.separatorLast then failRecoverable ((← pos) - 1) .separatorLast
        return if run.digits.isEmpty then none else some run.digits.reverse) w.Same := by
    refine step (.repeatForward (Q := w.Same) h (fun _ => .digitPass) fun _ _ _ h => digitPass h z_le)
      (by grind) fun run r t h => ?_
    exact .ite (fun _ => fails (by simp)) fun _ => .pure ⟨rfl, h⟩
  refine .pos h ?_
  cases maybeLegacy with
  | false => exact rest _ _
  | true => exact sees h z_le (by decide) (by grind) fun _ _ => rest _ _

theorem checkNumberEnd : w.Echoes z l k checkNumberEnd checkNumberEnd w.Same := by
  refine .read (glance h z_le (fun c => ?_) (fun c mark => ?_) fun c here => ?_)
  · grind
  · simp [isIdentifierStart_of_mark (.tail _ mark), isIdentifierStart_of_mark (.head _)]
  · exact .ite (fun _ => fails (by simp)) fun _ => .pure ⟨rfl, h⟩

theorem bigintDigits {start : Nat} (le : w.start ≤ start) (le_pos : start ≤ l.pos) :
    w.Echoes z l k (bigintDigits start) (bigintDigits start) w.Same := by
  refine .source (.pos h ?_)
  intro v l' run inside
  obtain ⟨rfl, rfl⟩ := Runs.pure_iff.mp run
  rw [w.chars le le_pos (Nat.le_trans inside z_le)]
  exact ⟨_, k, Runs.pure_iff.mpr ⟨rfl, rfl⟩, rfl, h⟩

theorem readRadixNumber {radix : Nat} : w.Echoes z l k (readRadixNumber radix) (readRadixNumber radix) w.Same := by
  have le := h.le
  refine .pos h (.advance h fun r t moved h => stepOn .readDigits (readDigits h z_le)
    (fun x => ?_) fun digits q u past h => ?_)
  · cases x <;> grind
  cases digits with
  | none => exact .get (fails (by simp))
  | some digits =>
    refine .edition (sees h z_le (by decide) (by grind) fun _ _ => .ite (fun _ => ?_) fun _ => ?_)
    · exact (bigintDigits h z_le le (by omega)).step (by grind) fun _ _ _ h => .advance h fun _ _ _ h => finish h
    · exact (checkNumberEnd h z_le).step (by grind) fun _ _ _ h => finish h

theorem readFraction : w.Echoes z l k readFraction readFraction w.Same := by
  refine sees h z_le (by decide) (by grind) fun _ _ => .ite (fun _ => ?_) fun _ => .pure ⟨rfl, h⟩
  exact .advance h fun _ _ _ h => (readDigits h z_le).step (fun _ => .pure) fun _ _ _ h => .pure ⟨rfl, h⟩

theorem readExponent {start : Nat} : w.Echoes z l k (readExponent start) (readExponent start) w.Same := by
  have digitsClimb : Climbs (do if (← LexM.readDigits 10 false).isNone then fail start .invalidNumber) :=
    .bind .readDigits fun _ => .ite .fail .pure
  have signedClimbs (sign minus : Bool) : Climbs (do
      if sign || minus then advance 1
      if (← LexM.readDigits 10 false).isNone then fail start .invalidNumber) :=
        .ite (.bind .advance fun _ => digitsClimb) digitsClimb
  have digits {l k : Lexer} (h : w.Beside l k) : w.Echoes z l k
      (do if (← LexM.readDigits 10 false).isNone then fail start .invalidNumber)
      (do if (← LexM.readDigits 10 false).isNone then fail start .invalidNumber) w.Same :=
    (readDigits h z_le).step (by grind) fun _ _ _ h => .ite (fun _ => fails (by simp)) fun _ => .pure ⟨rfl, h⟩
  have signed {l k : Lexer} (h : w.Beside l k) (sign minus : Bool) : w.Echoes z l k
      (do
        if sign || minus then advance 1
        if (← LexM.readDigits 10 false).isNone then fail start .invalidNumber)
      (do
        if sign || minus then advance 1
        if (← LexM.readDigits 10 false).isNone then fail start .invalidNumber) w.Same :=
    .ite (fun _ => .advance h fun _ _ _ h => digits h) fun _ => digits h
  have rest (mark : Bool) : Climbs (if mark = true then do
        advance 1
        let sign ← LexM.sees '+'
        let minus ← LexM.sees '-'
        if sign || minus then advance 1
        if (← LexM.readDigits 10 false).isNone then fail start .invalidNumber
      else pure ()) :=
    .ite (.bind .advance fun _ => .bind .sees fun _ => .bind .sees fun _ => signedClimbs _ _) .pure
  refine sees h z_le (by decide) (fun b => .bind .sees fun _ => rest _) fun _ _ =>
    sees h z_le (by decide) (fun b => rest _) fun _ _ =>
    .ite (fun _ => ?_) fun _ => .pure ⟨rfl, h⟩
  refine .advance h fun _ _ _ h => sees h z_le (by decide)
    (fun b => .bind .sees fun _ => signedClimbs _ _) fun sign _ => ?_
  refine seesAhead h z_le (by decide) (fun v l' _ run => ?_) (fun _ => signed h sign true) fun _ => signed h sign false
  rw [Bool.or_true, if_pos rfl] at run
  obtain ⟨_, m, moved, run⟩ := Runs.bind_iff.mp run
  obtain rfl := Runs.advance_iff.mp moved
  exact Nat.lt_of_succ_le (digitsClimb.forward run)

theorem readNumber {startsWithDot : Bool} :
    w.Echoes z l k (readNumber startsWithDot) (readNumber startsWithDot) w.Same := by
  refine .pos h ?_
  have le := h.le
  -- The whole part is read or left out, and the rest is the same either way.
  have whole {m₀ m₁ : LexM Unit} (forward : Climbs m₀)
      (rest : ∀ r t, l.pos ≤ r.pos → w.Beside r t → w.Echoes z r t m₀ m₁ w.Same) :
      w.Echoes z l k
        (if startsWithDot = true then m₀
          else do
            if (← LexM.readDigits 10 true).isNone then
              fail l.pos .invalidNumber
              m₀
            else m₀)
        (if startsWithDot = true then m₁
          else do
            if (← LexM.readDigits 10 true).isNone then
              fail l.pos .invalidNumber
              m₁
            else m₁) w.Same := by
    refine .ite (fun _ => rest l k (Nat.le_refl _) h) fun _ =>
      stepOn .readDigits (readDigits h z_le) (by grind) fun _ r t later h => ?_
    exact .ite (fun _ => fails (by simp)) fun _ => rest r t later h
  refine whole ?_ fun r t later h => .source (.pos h (.pos h (.get (within ?_ fun reached => ?_))))
  · refine .bind .source fun _ => .bind .pos fun _ => .bind .pos fun _ => .bind .get fun _ => .ite .fail_bind ?_
    grind
  · refine .ite .fail_bind ?_
    grind
  have here (stop : Nat) (le_stop : r.pos ≤ stop) (reached : stop ≤ z) : w.second.chars l.pos stop =
    w.first.chars l.pos stop :=
    w.chars le (Nat.le_trans later le_stop) (Nat.le_trans reached z_le)
  have zero : w.second.has l.pos '0' = w.first.has l.pos '0' :=
    w.glance (· == some '0')
      (fun c mark => by rcases mark_cases (.tail _ mark) with rfl | rfl | rfl | rfl | rfl <;> rfl) le
      (Nat.le_trans later (Nat.le_trans reached z_le))
  dsimp only
  rw [h.strict, here r.pos (Nat.le_refl _) reached, zero]
  refine .ite (fun _ => fails (by simp)) fun _ =>
    .edition (sees h z_le (by decide) (by grind) fun _ _ => .ite (fun _ => ?_) fun _ => ?_)
  · refine (bigintDigits h z_le le later).step (by grind) fun _ _ _ h => .advance h fun _ _ _ h => ?_
    exact (checkNumberEnd h z_le).step (by grind) fun _ _ _ h => finish h
  · refine .ite (fun _ => (checkNumberEnd h z_le).step (by grind) fun _ _ _ h => finish h) fun _ => ?_
    refine stepOn .readFraction (readFraction h z_le) (by grind) fun _ _ _ after₁ h =>
      stepOn .readExponent (readExponent h z_le) (by grind) fun _ _ _ after₂ h => ?_
    refine stepOn .checkNumberEnd (checkNumberEnd h z_le) (by grind) fun _ q u after₃ h =>
      .pos h (within .finish fun reached => ?_)
    rw [here q.pos (by omega) reached]
    exact finish h

end Window.Echoes

/-! ### Whole tokens -/

section

variable {s : Setting} {u : Unit} {l l' : Lexer} {kind assign : TokenKind} {size : Nat}

theorem finishOperator_pos (plain : s.reader = none) (run : Runs s (finishOperator kind size) l u l') :
    l'.pos = l.pos + size := by
  simp [finishOperator] at run
  exact (finish_spec plain run).1

theorem readAssignable_pos (plain : s.reader = none) (run : Runs s (readAssignable kind assign size) l u l') :
    l.pos + size ≤ l'.pos := by
  simp [readAssignable] at run
  rcases run with ⟨-, run⟩ | ⟨-, run⟩
  · exact finishOperator_pos plain run ▸ Nat.le_succ _
  · exact finishOperator_pos plain run ▸ Nat.le_refl _

end

namespace Window.Echoes

variable {w : Window} {z : Nat} {l k : Lexer} (h : w.Beside l k) (z_le : z ≤ w.stop)
include h z_le

/-! ### Regular expressions -/

omit z_le in
theorem bodyPass (z_lt : z < w.stop) {start : Nat} {state : BodyState} :
    w.Echoes z l k (bodyPass start state) (bodyPass start state) (Turns w w.Same) := by
  refine peekInside h z_lt (fun c => by cases c <;> grind) fun c here => ?_
  cases c with
  | none => exact fails (by simp)
  | some c =>
    refine .ite (fun _ => fails (by simp)) fun _ => .ite (fun _ => ?_) fun _ =>
      .ite (fun _ => .pure ⟨rfl, h⟩) fun _ => ?_
    · exact .skip h fun _ _ _ h => .pure ⟨rfl, h⟩
    · exact .skip h fun _ _ _ h => .pure ⟨rfl, h⟩

theorem readRegExp : w.Echoes z l k readRegExp readRegExp w.Same := by
  intro u l' run inside
  have le := h.le
  obtain ⟨m, flags, n, body, word, unescaped, valid, run⟩ := Runs.readRegExp_iff.mp run
  have last : l'.pos = n.pos := (finish_spec rfl run).1
  have past : m.pos + 1 ≤ n.pos := (readWordText_forward word).pos_le
  have before : l.pos ≤ m.pos := (repeatForward_forward bodyPass_forward body).pos_le
  obtain ⟨_, m', body', rfl, h'⟩ := Echoes.repeatForward (z := z - 1) (Q := w.Same) h (fun _ => .bodyPass)
    (fun _ _ _ h => bodyPass h (by omega)) _ m body (by omega)
  obtain ⟨_, n', word', rfl, h''⟩ := readWordText (h'.move 1) z_le flags n word (by omega)
  obtain ⟨_, k', run', rfl, after⟩ := finish (z := z) h'' _ l' run inside
  have pattern : w.second.chars k.pos m'.pos = w.first.chars l.pos m.pos := by
    rw [h'.pos, h.pos, w.chars le before (by omega)]
  refine ⟨_, k', Runs.readRegExp_iff.mpr ⟨m', _, n', by rwa [h.pos], word', by rw [h''.containsEscape, unescaped],
    ?_, ?_⟩, rfl, after⟩
  · rw [pattern]
    exact valid
  · rw [pattern]
    exact run'

/-! ### Operators -/

theorem readSlash : w.Echoes z l k readSlash readSlash w.Same := by
  refine .get ?_
  rw [h.exprAllowed]
  refine .ite (fun _ => .advance h fun _ _ _ h => readRegExp h z_le) fun _ => ?_
  refine seesAhead h z_le (by decide) (fun v l' _ run => ?_) (fun _ => finishOperator h) fun _ => finishOperator h
  exact finishOperator_pos rfl run ▸ Nat.lt_succ_self _

theorem readAssignable {kind assign : TokenKind} {size : Nat} :
    w.Echoes z l k (readAssignable kind assign size) (readAssignable kind assign size) w.Same := by
  refine seesAhead h z_le (by decide) (fun v l' _ run => ?_) (fun _ => finishOperator h) fun _ => finishOperator h
  exact finishOperator_pos rfl run ▸ Nat.lt_succ_self _

section First

variable (started : l.pos < w.stop)
include started

omit z_le in
/-- A look behind the first character of the token, which is no mark. -/
theorem seesSecond {f₀ f₁ : Bool → LexM Unit} {c : Char} (other : c ∉ ' ' :: commentMarks)
    (next : ∀ b, (b = true → w.first.charAt (l.pos + 1) = some c) → w.Echoes z l k (f₀ b) (f₁ b) w.Same) :
    w.Echoes z l k (LexM.seesAhead 1 c >>= f₀) (LexM.seesAhead 1 c >>= f₁) w.Same :=
  seesPast h other (fun _ after before => absurd started (by omega)) next

theorem readStar : w.Echoes z l k readStar readStar w.Same :=
  .edition (seesSecond h started (by decide) fun _ _ => .ite (fun _ => readAssignable h z_le) fun _ =>
    readAssignable h z_le)

theorem readLogical {c : Char} {single singleAssign double doubleAssign : TokenKind} (other : c ∉ ' ' :: commentMarks) :
    w.Echoes z l k (readLogical c single singleAssign double doubleAssign)
      (readLogical c single singleAssign double doubleAssign) w.Same := by
  refine seesSecond h started other fun _ _ => .ite (fun _ => .edition (.ite (fun _ => ?_) fun _ => ?_)) fun _ =>
    readAssignable h z_le
  · exact readAssignable h z_le
  · exact finishOperator h

theorem readPlus : w.Echoes z l k readPlus readPlus w.Same :=
  seesSecond h started (by decide) fun _ _ => .ite (fun _ => finishOperator h) fun _ => readAssignable h z_le

theorem readBang : w.Echoes z l k readBang readBang w.Same :=
  seesSecond h started (by decide) fun _ _ => .ite (fun _ => readAssignable h z_le) fun _ => finishOperator h

theorem readEquals : w.Echoes z l k readEquals readEquals w.Same := by
  refine seesSecond h started (by decide) fun _ _ => .ite (fun _ => readAssignable h z_le) fun _ => .edition ?_
  exact seesSecond h started (by decide) fun _ _ => .ite (fun _ => finishOperator h) fun _ => finishOperator h

theorem readGreater : w.Echoes z l k readGreater readGreater w.Same := by
  refine seesSecond h started (by decide) fun _ second => .ite (fun _ => ?_) fun _ => readAssignable h z_le
  refine seesAhead h z_le (by decide) (fun v l' _ run => ?_) (fun _ => readAssignable h z_le) fun _ =>
    readAssignable h z_le
  exact readAssignable_pos rfl run

omit h z_le in
/-- Behind the second character of the token, if that is no mark either. -/
theorem unmarked_second {c : Char} (second : w.first.charAt (l.pos + 1) = some c) (other : c ∉ commentMarks) (i : Nat)
    (after : w.stop ≤ i) (before : i < l.pos + 2) (m : Char) (mark : m ∈ commentMarks) : w.first.charAt i ≠ some m := by
  obtain rfl : i = l.pos + 1 := by omega
  rw [second]
  rintro ⟨⟩
  exact other mark

omit h z_le started in
theorem blind_digit (c : Char) (mark : c ∈ commentMarks) :
    (some c).any Alphabet.isDecimalDigit = (some ' ').any Alphabet.isDecimalDigit := by
  simp only [Option.any_some, isDecimalDigit_of_mark (.tail _ mark), isDecimalDigit_of_mark (.head _)]

theorem readDot : w.Echoes z l k readDot readDot w.Same := by
  refine glancePast h (fun _ after before => absurd started (by omega))
    (fun c mark => by rw [blind_digit c mark]) fun c _ => ?_
  refine .ite (fun _ => readNumber h z_le) fun _ => .edition (seesSecond h started (by decide) fun b second => ?_)
  cases b with
  | false =>
    refine seesAny h (by decide) fun _ _ _ => ?_
    simp only [Bool.and_false, Bool.false_and]
    exact finishOperator h
  | true =>
    refine seesPast h (by decide) (unmarked_second started (second rfl) (by decide)) fun _ _ => ?_
    exact .ite (fun _ => finishOperator h) fun _ => finishOperator h

theorem readQuestion : w.Echoes z l k readQuestion readQuestion w.Same := by
  have rest : w.Echoes z l k
      (do
        if ← LexM.seesAhead 1 '?' then
          if 12 ≤ (← LexM.edition) then LexM.readAssignable .questionQuestion .questionQuestionEq 2
            else LexM.finishOperator .questionQuestion 2
        else LexM.finishOperator .question 1)
      (do
        if ← LexM.seesAhead 1 '?' then
          if 12 ≤ (← LexM.edition) then LexM.readAssignable .questionQuestion .questionQuestionEq 2
            else LexM.finishOperator .questionQuestion 2
        else LexM.finishOperator .question 1) w.Same := by
    refine seesSecond h started (by decide) fun _ _ =>
      .ite (fun _ => .edition (.ite (fun _ => ?_) fun _ => ?_)) fun _ => finishOperator h
    · exact readAssignable h z_le
    · exact finishOperator h
  refine .edition (.ite (fun _ => finishOperator h) fun _ => seesSecond h started (by decide) fun b second => ?_)
  cases b with
  | false =>
    refine charsAhead h ?_
    simp only [Bool.false_and]
    exact rest
  | true =>
    refine glancePast h (unmarked_second started (second rfl) (by decide))
      (fun c mark => by rw [blind_digit c mark]) fun _ _ => ?_
    exact .ite (fun _ => finishOperator h) fun _ => rest

omit started in
theorem readHash : w.Echoes z l k readHash readHash w.Same := by
  refine .edition (.ite (fun _ => fails (by simp)) fun _ => .advance h fun _ _ _ h =>
    peek h z_le (fun c => ?_) (fun c _ => ?_) fun c mark _ => ?_)
  · cases c <;> grind
  · cases c with
    | none => exact fails (by simp)
    | some c => exact .ite (fun _ => (readWordText h z_le).step (by grind) fun _ _ _ h =>
        finish h) fun _ => fails (by simp)
  · have plain : c ≠ '\\' := by
      rintro rfl
      exact absurd mark (by decide)
    exact fails (by simp [isIdentifierStart_of_mark (.tail _ mark), plain])

theorem readZero : w.Echoes z l k readZero readZero w.Same := by
  refine glancePast h (fun _ after before => absurd started (by omega)) (fun c mark => ?_) fun c _ => .edition ?_
  · have none {e : Nat} {c : Char} (mark : c ∈ ' ' :: commentMarks) : (some c).bind (radixMark? e) = none := by
      rcases mark_cases mark with rfl | rfl | rfl | rfl | rfl <;> rfl
    simp only [none (.tail _ mark), none (.head _)]
  · cases c.bind (radixMark? w.options.edition) with
    | some radix => exact readRadixNumber h z_le
    | none => exact readNumber h z_le

end First

/-! ### Templates -/

/-- A chunk ends in both texts where it ends in one. -/
theorem atChunkEnd : w.Echoes z l k atChunkEnd atChunkEnd fun x x' r t => x' = x ∧ r = l ∧ t = k := by
  refine within .atChunkEnd fun inside => peek h z_le (fun c => ?_) (fun c here => ?_) fun c mark _ => ?_
  · split <;> grind
  · split
    · exact .pure ⟨rfl, rfl, rfl⟩
    · next here =>
      refine glancePast (f := fun x => Pure.pure (x == some '{')) (g := fun x => Pure.pure (x == some '{')) h
        (fun i after before m mark => ?_)
        (fun d mark => ?_) fun _ _ => .pure ⟨rfl, rfl, rfl⟩
      · obtain rfl : i = l.pos := by omega
        rw [here]
        rintro ⟨⟩
        exact absurd mark (by decide)
      · rw [sees_of_mark (.tail _ mark) (by decide), sees_of_mark (.head _) (by decide)]
    · exact .pure ⟨rfl, rfl, rfl⟩
  · rcases mark_cases (.tail _ mark) with rfl | rfl | rfl | rfl | rfl <;> exact .pure ⟨rfl, rfl, rfl⟩

theorem finishChunk {text : List Char} : w.Echoes z l k (finishChunk text) (finishChunk text) w.Same := by
  refine .get ?_
  rw [h.pos, h.tokenStart, h.kind]
  refine .ite (fun _ => sees h z_le (by decide) (by grind) fun _ _ => .ite (fun _ => ?_) fun _ => ?_) fun _ => finish h
  · exact finishOperator h
  · exact finishOperator h

/-- How two chunks end: valid at one place, or invalid and some digits apart. -/
def ChunkEnds (w : Window) (valid valid' : Bool) (l k : Lexer) : Prop :=
  valid' = valid ∧ if valid then w.Beside l k else w.Lags l k

theorem chunkPass {text : List Char} :
    w.Echoes z l k (chunkPass text) (chunkPass text) (Turns w (ChunkEnds w)) := by
  refine (atChunkEnd h z_le).bind (fun _ => .ite (.bind .finishChunk fun _ => .pure) (.bind .peek fun c => ?_)) ?_
  · split <;> grind
  rintro ends _ r t ⟨rfl, rfl, rfl⟩
  refine .ite (fun _ => (finishChunk h z_le).step (fun _ => .pure) fun _ _ _ h => .pure ⟨rfl, h⟩) fun _ => ?_
  refine peek h z_le (fun c => ?_) (fun c here => ?_) fun c mark z_le => ?_
  · split <;> grind
  · split
    · exact .get (fails (by simp))
    · refine (readEscape h z_le).bind (fun e => by cases e <;> grind) fun e e' r t alike => ?_
      cases alike with
      | wrong lags => exact .ite (fun _ => .pure ⟨rfl, lags⟩) fun _ => fails (by simp)
      | same h =>
        cases e with
        | code => exact .pure ⟨rfl, h⟩
        | continuation => exact .pure ⟨rfl, h⟩
        | invalid => exact .ite (fun _ => .pure ⟨rfl, h.lags⟩) fun _ => fails (by simp)
    · exact .advance h fun _ _ _ h => (endCarriageReturn h z_le).step (fun _ => .pure) fun _ _ _ h => .pure ⟨rfl, h⟩
    · refine .skip h fun _ _ _ h => .ite (fun _ => .newLine h fun _ _ h => ?_) fun _ => ?_
      · exact .pure ⟨rfl, h⟩
      · exact .pure ⟨rfl, h⟩
  · rcases mark_cases (.tail _ mark) with rfl | rfl | rfl | rfl | rfl <;> exact skip_beyond z_le (by grind)

theorem invalidChunkPass : w.Echoes z l k (invalidChunkPass ⟨⟩) (invalidChunkPass ⟨⟩) (Turns w w.Same) := by
  refine (atChunkEnd h z_le).bind (fun _ => .ite (.bind .finish fun _ => .pure) (.bind .peek fun c => ?_)) ?_
  · split <;> grind
  rintro ends _ r t ⟨rfl, rfl, rfl⟩
  refine .ite (fun _ => (finish h).step (fun _ => .pure) fun _ _ _ h => .pure ⟨rfl, h⟩) fun _ => ?_
  refine peek h z_le (fun c => ?_) (fun c here => ?_) fun c mark z_le => ?_
  · split <;> grind
  · split
    · exact .get (fails (by simp))
    · refine .advance h fun _ _ _ h => peek h z_le (fun c => by cases c <;> grind)
        (fun c here => ?_) fun c mark z_le => ?_
      · cases c with
        | none => exact .pure ⟨rfl, h⟩
        | some c => exact .skip h fun _ _ _ h => .pure ⟨rfl, h⟩
      · exact skip_beyond z_le (by exact .pure)
    · exact .advance h fun _ _ _ h => (endCarriageReturn h z_le).step (fun _ => .pure) fun _ _ _ h => .pure ⟨rfl, h⟩
    · refine .skip h fun _ _ _ h => .ite (fun _ => .newLine h fun _ _ h => ?_) fun _ => ?_
      · exact .pure ⟨rfl, h⟩
      · exact .pure ⟨rfl, h⟩
  · rcases mark_cases (.tail _ mark) with rfl | rfl | rfl | rfl | rfl <;> exact skip_beyond z_le (by grind)

section Lag

variable {s : Setting} {u : Unit} {k' : Lexer}

omit h z_le in
/-- A digit of an invalid chunk is skipped. -/
theorem invalidChunkPass_digit (digit : ((s.source.charAt k.pos).bind (Alphabet.digit? 16)).isSome) :
    Runs s (LexM.invalidChunkPass ⟨⟩) k (.again ⟨⟩) { k with pos := k.pos + 1 } := by
  obtain ⟨value, digit⟩ := Option.isSome_iff_exists.mp digit
  obtain ⟨c, here, digit⟩ := Option.bind_eq_some_iff.mp digit
  have ascii := Alphabet.utf8Size_of_digit? digit
  have other {d : Char} (none : Alphabet.digit? 16 d = none) : c ≠ d := by
    rintro rfl
    simp [digit] at none
  have plain : Alphabet.isLineTerminator c = false := by
    simp [Alphabet.isLineTerminator, other (d := '\n') rfl, other (d := '\r') rfl, other (d := '\u2028') rfl,
      other (d := '\u2029') rfl]
  have quote := other (d := '\x60') rfl
  have dollar := other (d := '$') rfl
  have goesOn : Runs s LexM.atChunkEnd k false k := by
    refine Runs.bind_iff.mpr ⟨_, _, Runs.peek_iff.mpr ⟨rfl, rfl⟩, ?_⟩
    rw [here]
    split
    · next same => exact absurd (Option.some.inj same) quote
    · next same => exact absurd (Option.some.inj same) dollar
    · exact Runs.pure_iff.mpr ⟨rfl, rfl⟩
  refine Runs.bind_iff.mpr ⟨_, _, goesOn, Runs.bind_iff.mpr ⟨_, _, Runs.peek_iff.mpr ⟨rfl, rfl⟩, ?_⟩⟩
  rw [here]
  split
  · next none => cases none
  · next same => exact absurd (Option.some.inj same) (other rfl)
  · next same => exact absurd (Option.some.inj same) (other rfl)
  · next same =>
    cases same
    simp [plain, ascii]

omit h z_le in
/-- Digits that are skipped one by one take as many passes. -/
theorem lagging {n fuel : Nat} (digits : ∀ i < n, ((s.source.charAt (k.pos + i)).bind (Alphabet.digit? 16)).isSome)
    (run : Runs s (LexM.loop LexM.invalidChunkPass fuel ⟨⟩) { k with pos := k.pos + n } u k') :
    Runs s (LexM.loop LexM.invalidChunkPass (fuel + n) ⟨⟩) k u k' := by
  induction n generalizing k with
  | zero => exact run
  | succ n ih =>
    refine Runs.bind_iff.mpr ⟨_, _, invalidChunkPass_digit (digits 0 (Nat.succ_pos n)), ih (fun i lt => ?_) ?_⟩
    · simpa [Nat.add_assoc, Nat.add_comm 1 i] using digits (i + 1) (Nat.succ_lt_succ lt)
    · simpa [Nat.add_assoc, Nat.add_comm 1 n] using run

end Lag

omit h z_le in
theorem invalidChunk (z_le : z ≤ w.stop) (h : w.Lags l k) :
    w.Echoes z l k (LexM.repeatForward () LexM.invalidChunkPass)
      (LexM.repeatForward () LexM.invalidChunkPass) w.Same := by
  obtain ⟨n, beside, digits⟩ := h
  intro u l' run inside
  obtain ⟨u', k', run', same⟩ := Echoes.repeatForward (Q := w.Same) beside (fun _ => .invalidChunkPass)
    (fun _ _ _ h => invalidChunkPass h z_le) u l' run inside
  refine ⟨u', k', ?_, same⟩
  simp only [LexM.repeatForward, Runs.bind_iff, Runs.lexSource_iff, Runs.pos_iff, Runs.exists_look] at run' ⊢
  have fuel : (setting w.second w.options).source.size - k.pos + 2 =
      (setting w.second w.options).source.size - (k.pos + n) + 2 + n := by
    cases n with
    | zero => rfl
    | succ n =>
      obtain ⟨c, last, -⟩ :=
        Option.bind_eq_some_iff.mp (Option.isSome_iff_exists.mp (digits n (Nat.lt_succ_self n))).choose_spec
      have inside : k.pos + n < (setting w.second w.options).source.size := Source.lt_size_of_charAt last
      omega
  rw [fuel]
  exact lagging digits run'

theorem readChunk : w.Echoes z l k readChunk readChunk w.Same := by
  refine (Echoes.repeatForward (Q := ChunkEnds w) h (fun _ => .chunkPass) fun _ _ _ h => chunkPass h z_le).bind
    (by grind) fun valid valid' r t ends => ?_
  obtain ⟨rfl, ends⟩ := ends
  cases valid' with
  | true => exact .pure ⟨rfl, ends⟩
  | false => exact invalidChunk z_le ends

theorem readTemplate : w.Echoes z l k readTemplate readTemplate w.Same := by
  intro v l' run inside
  obtain ⟨r, chunk, rfl⟩ := Runs.insideTemplate_iff.mp run
  have raised := h.change (c := fun l => { l with inTemplate := true }) (fun _ => rfl) (Nat.le_refl _) rfl rfl
  obtain ⟨v', t, run', same, beside⟩ := readChunk raised z_le v r chunk inside
  refine ⟨v', _, Runs.insideTemplate_iff.mpr ⟨t, run', rfl⟩, same, ?_⟩
  exact beside.change (c := fun l => { l with inTemplate := false }) (fun _ => rfl) (Nat.le_refl _) rfl rfl

end Window.Echoes

/-! ### Tokens -/

/-- A token that the first step reads up to `z` at most is read by the second step. -/
def Window.Repeats (w : Window) (z : Nat) (l k : Lexer) (m₀ m₁ : LexM Bool) : Prop :=
  ∀ l', Runs (setting w.first w.options) m₀ l true l' → l'.pos ≤ z →
    ∃ k', Runs (setting w.second w.options) m₁ k true k' ∧ w.Beside l' k'

namespace Window.Repeats

variable {w : Window} {z : Nat} {l k : Lexer}

theorem token {m₀ m₁ : LexM Unit} (h : w.Echoes z l k m₀ m₁ w.Same) :
    w.Repeats z l k (do m₀; return true) (do m₁; return true) := by
  intro l' run inside
  obtain ⟨u, r, run, done⟩ := Runs.bind_iff.mp run
  obtain ⟨-, rfl⟩ := Runs.pure_iff.mp done
  obtain ⟨u', k', run', -, beside⟩ := h u l' run inside
  exact ⟨k', Runs.bind_iff.mpr ⟨u', k', run', Runs.pure_iff.mpr ⟨rfl, rfl⟩⟩, beside⟩

theorem ite {c : Prop} [Decidable c] {m₀ m₁ n₀ n₁ : LexM Bool} (yes : c → w.Repeats z l k m₀ m₁)
    (no : ¬ c → w.Repeats z l k n₀ n₁) :
    w.Repeats z l k (if c then m₀ else n₀) (if c then m₁ else n₁) := by
  split
  · next h => exact yes h
  · next h => exact no h

theorem fails {m₀ m₁ : LexM Bool} (never : ∀ l', ¬ Runs (setting w.first w.options) m₀ l true l') :
    w.Repeats z l k m₀ m₁ :=
  fun l' run => (never l' run).elim

variable (h : w.Beside l k) (z_le : z ≤ w.stop)
include h z_le

/-- No comment begins in the second text where a token of the first one does. -/
theorem readMinus (start : l.pos = w.start) : w.Repeats z l k readMinus readMinus := by
  intro l' run inside
  have seen {n : Nat} {c : Char} (other : c ≠ ' ') (there : w.second.charAt (k.pos + n) = some c) :
    w.first.charAt (l.pos + n) = some c :=
    w.charAt_of_second (Nat.le_trans h.le (Nat.le_add_right ..)) other (h.pos ▸ there)
  simp [LexM.readMinus, LexM.atClosingComment] at run
  rcases run with ⟨minus, r, open', run⟩ | ⟨other, run⟩
  · obtain rfl : r = l := by rcases open' with ⟨-, -, same⟩ | ⟨-, same⟩ <;> exact same
    obtain ⟨u, k', run', -, beside⟩ := Echoes.finishOperator (z := z) h _ l' run inside
    have past := finishOperator_pos rfl run
    refine ⟨k', ?_, beside⟩
    simp [LexM.readMinus, LexM.atClosingComment]
    refine .inl ⟨?_, k, ?_, run'⟩
    · rw [h.pos, w.inside _ (Nat.le_trans h.le (Nat.le_add_right ..)) (by omega), minus]
    · by_cases arrow : w.second.charAt (k.pos + 2) = some '>' ∧ (setting w.second w.options).inModule = false
      · refine .inl ⟨arrow, ?_, rfl⟩
        have lines := w.lines
        rw [← h.last, ← start] at lines
        rw [h.lastStop, h.pos, lines]
        rcases open' with ⟨-, apart, -⟩ | ⟨inModule, -⟩
        · exact apart
        · exact absurd (inModule (seen (by decide) arrow.1))
            (by simp [show (setting w.first w.options).inModule = false from arrow.2])
      · exact .inr ⟨fun there => by simpa [there] using arrow, rfl⟩
  · obtain ⟨u, k', run', -, beside⟩ := Echoes.readAssignable h z_le _ l' run inside
    refine ⟨k', ?_, beside⟩
    simp [LexM.readMinus]
    exact .inr ⟨fun there => other (seen (by decide) there), run'⟩

theorem readLess : w.Repeats z l k readLess readLess := by
  intro l' run inside
  have seen {n : Nat} {c : Char} (other : c ≠ ' ') (there : w.second.charAt (k.pos + n) = some c) :
    w.first.charAt (l.pos + n) = some c :=
    w.charAt_of_second (Nat.le_trans h.le (Nat.le_add_right ..)) other (h.pos ▸ there)
  simp [LexM.readLess] at run
  rcases run with ⟨less, run⟩ | ⟨other, open', run⟩
  · obtain ⟨u, k', run', -, beside⟩ := Echoes.readAssignable h z_le _ l' run inside
    have past := readAssignable_pos rfl run
    refine ⟨k', ?_, beside⟩
    simp [LexM.readLess]
    refine .inl ⟨?_, run'⟩
    rw [h.pos, w.inside _ (Nat.le_trans h.le (Nat.le_add_right ..)) (by omega), less]
  · obtain ⟨u, k', run', -, beside⟩ := Echoes.readAssignable h z_le _ l' run inside
    refine ⟨k', ?_, beside⟩
    simp [LexM.readLess]
    refine .inr ⟨fun there => other (seen (by decide) there), fun script bang first second => ?_, run'⟩
    exact open' script (seen (by decide) bang) (seen (by decide) first) (seen (by decide) second)

/-- A token is read again. -/
theorem readToken {c : Char} (start : l.pos = w.start) (started : l.pos < w.stop) :
    w.Repeats z l k (readToken c) (readToken c) := by
  refine show w.Repeats z l k (read >>= _) (read >>= _) from ite (fun _ => token (.readWord h z_le)) fun _ => ?_
  rw [show (setting w.second w.options).edition = (setting w.first w.options).edition from rfl]
  split
  case h_1 => exact token (.readDot h z_le started)
  case h_11 => exact token (.readZero h z_le started)
  case h_12 => exact token (.readString h z_le (by decide))
  case h_13 => exact token (.readString h z_le (by decide))
  case h_14 => exact token (.readSlash h z_le)
  case h_15 => exact token (.readAssignable h z_le)
  case h_16 => exact token (.readStar h z_le started)
  case h_17 => exact token (.readLogical h z_le started (by decide))
  case h_18 => exact token (.readLogical h z_le started (by decide))
  case h_19 => exact token (.readAssignable h z_le)
  case h_20 => exact token (.readPlus h z_le started)
  case h_21 => exact readMinus h z_le start
  case h_22 => exact readLess h z_le
  case h_23 => exact token (.readGreater h z_le started)
  case h_24 => exact token (.readEquals h z_le started)
  case h_25 => exact token (.readBang h z_le started)
  case h_26 => exact token (.readQuestion h z_le started)
  case h_28 => exact token (.readHash h z_le)
  case h_29 =>
    exact ite (fun _ => token (.readNumber h z_le)) fun _ =>
      ite (fun quote => token (.finishOperator h)) fun _ => fails (by simp)
  all_goals exact token (.finishOperator h)

end Window.Repeats
end ScriptSyntax
