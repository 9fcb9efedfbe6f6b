import ScriptSyntax.Proofs.Lexer.Opening
import ScriptSyntax.Proofs.Source.Text

/-!
Numbers, strings and regular expressions depend on their own text only.  What is read of one in a text is
read of it as a text of its own.
-/

namespace ScriptSyntax

open LexM

/-- A lexer in a text and one in an excerpt that begins at `p`, at one character. -/
structure Lexer.Excerpted (p : Nat) (l k : Lexer) : Prop where
  pos : l.pos = p + k.pos
  start : l.token.start = p + k.token.start
  escape : l.containsEscape = false → k.containsEscape = false
  strict : k.strict = true → l.strict = true

/-- The current token is the same in an excerpt, and ends at the cursor. -/
structure Lexer.Copied (p : Nat) (l k : Lexer) : Prop where
  kind : k.kind = l.kind
  value : k.value = l.value
  start : l.token.start = p + k.token.start
  stop : l.token.stop = p + k.token.stop
  pos : l.pos = p + k.pos
  ends : k.token.stop = k.pos

theorem finish_value {s : Setting} {kind : TokenKind} {value : TokenValue} {l l' : Lexer} {u : Unit}
    (plain : s.reader = none) (run : Runs s (finish kind value) l u l') : l'.value = value := by
  simp [finish, LexM.updateContext, plain] at run
  obtain ⟨contexts, exprAllowed, same⟩ := Cursor.sameToken_updateContext s.source s.edition l.kind
    { l.toCursor with
      kind, value, token := { l.token with stop := l.pos, stopPosition := l.position } }
  rw [same] at run
  rw [run]

/-- The backslash and the character after it are passed. -/
theorem readEscape_past {s : Setting} {inTemplate : Bool} {v : Escape} {l l' : Lexer}
    (run : Runs s (readEscape inTemplate) l v l') :
    l.pos + 1 < l'.pos := by
  simp only [readEscape, Runs.bind_iff, Runs.advance_iff, Runs.peek_iff, Runs.exists_unit, exists_eq_left,
    Runs.exists_look] at run
  split at run
  · simp at run
  · next c here =>
    simp only [Runs.bind_iff, Runs.skip_iff, Runs.exists_unit, exists_eq_left] at run
    refine Nat.lt_of_lt_of_le (m := l.pos + 1 + c.utf8Size) (Nat.lt_add_of_pos_right c.utf8Size_pos) ?_
    split at run
    case h_3 => exact (readHex_forward run).1.pos_le
    case h_4 => exact (readCodePoint_forward run).pos_le
    case h_9 =>
      simp at run
      exact (endCarriageReturn_forward run.1).pos_le
    case h_10 =>
      simp [invalidEscape_iff] at run
      rcases run with ⟨_, _, rfl⟩ | ⟨_, ⟨_, ⟨_, _, rfl⟩ | ⟨_, ⟨_, _, rfl⟩ | ⟨_, _, rfl⟩⟩⟩ | ⟨_,
        ⟨_, octal⟩ | ⟨_, _, rfl⟩⟩⟩ <;>
        first | exact Nat.le_refl _ | exact (readOctalEscape_forward octal).pos_le
    all_goals exact (Runs.pure_iff.mp run).2 ▸ Nat.le_refl _

theorem stringPass_moves {s : Setting} {quote : Char} {text next : List Char} {l l' : Lexer}
    (run : Runs s (stringPass quote text) l (.again next) l') : l.pos < l'.pos := by
  simp only [stringPass, Runs.bind_iff, Runs.get_iff, Runs.peek_iff, Runs.exists_look] at run
  split at run
  · simp at run
  · next c here =>
    simp at run
    rcases run with ⟨_, ⟨_, e, m, escape, run⟩ | ⟨_, ⟨_, _, _, rfl⟩ | ⟨_, _, _, rfl⟩⟩⟩
    · have past := readEscape_past escape
      obtain rfl : l' = m := by
        split at run <;> simp at run <;> exact run.2
      omega
    · exact Nat.lt_add_of_pos_right c.utf8Size_pos
    · exact Nat.lt_add_of_pos_right c.utf8Size_pos

section Excerpt

variable {p : Nat} {a e : Source} {o : Options} {l l' k : Lexer} {u : Unit}

namespace Lexer.Excerpted

theorem move (h : l.Excerpted p k) (n : Nat) :
    Lexer.Excerpted p { l with pos := l.pos + n } { k with pos := k.pos + n } :=
  { h with pos := by simp only [h.pos, Nat.add_assoc] }

theorem newLine (h : l.Excerpted p k) : Lexer.Excerpted p { l with line := l.line + 1, lineStart := l.pos }
    { k with line := k.line + 1, lineStart := k.pos } := { h with }

theorem sloppy (h : l.Excerpted p k) (sloppy : l.strict = false) : k.strict = false :=
  Bool.eq_false_iff.mpr fun strict => by simp [h.strict strict] at sloppy

end Lexer.Excerpted

/-- The step gives in the excerpt what it gives in the text. -/
def Repeats {α : Type} (p : Nat) (e : Source) (o : Options) (m : LexM α) (k : Lexer) (v : α) (l' : Lexer) : Prop :=
  ∃ k', Runs ⟨e, o, none⟩ m k v k' ∧ l'.Excerpted p k'

variable (x : a.Excerpt p e) (h : l.Excerpted p k)
include x h

theorem seen_excerpt (before : l.pos < p + e.size) : e.charAt k.pos = a.charAt l.pos := by
  rw [h.pos, x.charAt (by have := h.pos; omega)]

/-! ### Escapes -/

/-- What is absent in the text is absent in the excerpt. -/
theorem none_excerpt {α : Type} {f : Char → Option α} (none : (a.charAt l.pos).bind f = none) :
    (e.charAt k.pos).bind f = Option.none := by
  rcases x.charAt_or k.pos with same | ended
  · rwa [same, ← h.pos]
  · rw [ended]
    rfl

theorem not_seen_excerpt {c : Char} (other : a.charAt l.pos ≠ some c) : e.charAt k.pos ≠ some c := by
  rcases x.charAt_or k.pos with same | ended
  · rwa [same, ← h.pos]
  · simp [ended]

theorem hexDigits_excerpt {count : Nat} {digits : List Nat} (run : Runs ⟨a, o, none⟩ (hexDigits count) l digits l')
    (inside : l'.pos ≤ p + e.size) : Repeats p e o (hexDigits count) k digits l' := by
  induction count generalizing l k digits with
  | zero =>
    simp [hexDigits] at run
    obtain ⟨rfl, rfl⟩ := run
    exact ⟨k, by simp [hexDigits], h⟩
  | succ count ih =>
    simp only [hexDigits, Runs.bind_iff, Runs.peek_iff, Runs.exists_look] at run
    split at run
    · next digit found =>
      simp at run
      obtain ⟨rest, run, rfl⟩ := run
      have past : l.pos + 1 ≤ l'.pos := (hexDigits_forward run).1.pos_le
      obtain ⟨k', run', h'⟩ := ih (h.move 1) run
      have seen := seen_excerpt x h (Nat.lt_of_lt_of_le past inside)
      exact ⟨k', by simp [hexDigits, seen, found, run'], h'⟩
    · next found =>
      simp at run
      obtain ⟨rfl, rfl⟩ := run
      exact ⟨k, by simp [hexDigits, none_excerpt x h found], h⟩

theorem readHex_excerpt {count code : Nat} (run : Runs ⟨a, o, none⟩ (readHex count) l (.code code) l')
    (inside : l'.pos ≤ p + e.size) : Repeats p e o (readHex count) k (.code code) l' := by
  simp [readHex, invalidEscape_iff] at run
  obtain ⟨digits, read, whole, rfl⟩ := run
  obtain ⟨k', run', h'⟩ := hexDigits_excerpt x h read inside
  exact ⟨k', by simpa [readHex, invalidEscape_iff] using ⟨digits, run', whole, rfl⟩, h'⟩

theorem readCodePoint_excerpt {code : Nat} (run : Runs ⟨a, o, none⟩ readCodePoint l (.code code) l')
    (inside : l'.pos ≤ p + e.size) : Repeats p e o readCodePoint k (.code code) l' := by
  simp [readCodePoint] at run
  rcases run with ⟨brace, edition, run⟩ | ⟨digits, run⟩
  · split at run
    · simp [invalidEscape_iff] at run
    · next close found =>
      simp at run
      obtain ⟨escape, m, hex, run⟩ := run
      cases escape with
      | code code' =>
        simp [invalidEscape_iff] at run
        obtain ⟨small, rfl, rfl⟩ := run
        have last : m.pos = l.pos + 1 + (close - (l.pos + 1)) := readHex_pos hex
        have le := (Source.find?_spec found).1
        have pos := h.pos
        obtain ⟨j, rfl⟩ : ∃ j, close = p + j := Nat.exists_eq_add_of_le (by omega)
        simp only at inside
        have found' : e.find? (fun i => e.has i '\x7d') (k.pos + 1) = some j := by
          refine x.find? (f := fun i => a.has i '\x7d') (fun i inside => x.has inside _) ?_ (by omega)
          rw [← found, pos, Nat.add_assoc]
        obtain ⟨k', run', h'⟩ := readHex_excerpt x (h.move 1) hex (by omega)
        refine ⟨{ k' with pos := k'.pos + 1 }, ?_, h'.move 1⟩
        have seen := seen_excerpt x h (by omega)
        have edition' : 6 ≤ (⟨e, o, none⟩ : Setting).edition := edition
        simp [readCodePoint, seen, brace, edition', found']
        rw [show j - (k.pos + 1) = p + j - (l.pos + 1) by omega]
        exact ⟨_, k', run', by simp [Nat.not_lt.mpr small]⟩
      | continuation => simp at run
      | invalid => simp at run
  · obtain ⟨k', run', h'⟩ := readHex_excerpt x h run inside
    exact ⟨k', by simpa [readCodePoint, not_seen_excerpt x h digits] using run', h'⟩

/-- The digits of a legacy escape, the first of which stands before the offset. -/
def octalDigits (s : Source) (here : Nat) : List Nat :=
  let digits :=
    (([here - 1, here, here + 1].map fun i => (s.charAt i).bind (Alphabet.digit? 8)).takeWhile
      Option.isSome).filterMap id
  if 255 < Number.natOfDigits 8 digits then digits.dropLast else digits

omit h in
theorem octalDigits_excerpt {i first : Nat} (before : e.charAt i = a.charAt (p + i))
    (digit : (a.charAt (p + i)).bind (Alphabet.digit? 8) = some first)
    (inside : i + 1 + ((octalDigits a (p + (i + 1))).length - 1) < e.size) :
    octalDigits e (i + 1) = octalDigits a (p + (i + 1)) := by
  have same : ∀ j, j < e.size → e.charAt j = a.charAt (p + j) := fun j => x.charAt
  have second := same (i + 1) (by omega)
  unfold octalDigits at inside ⊢
  simp only [List.map_cons, List.map_nil, Nat.add_sub_cancel, before, digit, second, ← Nat.add_assoc,
    List.takeWhile_cons, Option.isSome_some, if_true] at inside ⊢
  cases next : (a.charAt (p + i + 1)).bind (Alphabet.digit? 8) with
  | none => simp
  | some d =>
    have third : e.charAt (i + 1 + 1) = a.charAt (p + i + 1 + 1) := by
      refine same (i + 1 + 1) ?_
      rw [next] at inside
      cases last : (a.charAt (p + i + 1 + 1)).bind (Alphabet.digit? 8) with
      | none =>
        obtain ⟨_, -, first_lt⟩ := Option.bind_eq_some_iff.mp digit
        obtain ⟨_, -, d_lt⟩ := Option.bind_eq_some_iff.mp next
        have first_lt := Alphabet.digit?_lt first_lt
        have d_lt := Alphabet.digit?_lt d_lt
        have small : ¬ 255 < Number.natOfDigits 8 [first, d] := by
          simp only [Number.natOfDigits, List.foldl_cons, List.foldl_nil]
          omega
        simp [last, small] at inside
        exact inside
      | some z =>
        simp only [last, Option.isSome_some, if_true, List.takeWhile_nil, List.filterMap_cons, id,
          List.filterMap_nil] at inside
        split at inside
        · simpa using inside
        · simp at inside
          omega
    rw [third]

omit x h in
theorem readOctalEscape_eq (inTemplate : Bool) : readOctalEscape inTemplate = (do
    let s ← source
    let here ← pos
    let digits := octalDigits s here
    moveTo (here + (digits.length - 1))
    let legacy := digits != [0] || (← sees '8') || (← sees '9')
    if legacy && ((← get).strict || inTemplate) then
      invalidEscape ((← pos) - 1 - digits.length) (if inTemplate then .octalInTemplate else .octalInStrictMode)
    else return .code (Number.natOfDigits 8 digits)) := rfl

omit h in
theorem readOctalEscape_excerpt {i d : Nat} {v : Escape} (valid : ∀ error excused, v ≠ .invalid error excused)
    (h : l.Excerpted p k) (here : k.pos = i + 1)
    (before : e.charAt i = a.charAt (p + i)) (digit : (a.charAt (p + i)).bind (Alphabet.digit? 8) = some d)
    (run : Runs ⟨a, o, none⟩ (readOctalEscape false) l v l') (inside : l'.pos < p + e.size) :
    Repeats p e o (readOctalEscape false) k v l' := by
  have pos := h.pos
  simp [readOctalEscape_eq, invalidEscape_iff] at run
  obtain ⟨_, rfl, rfl⟩ | ⟨legacy, rfl, rfl⟩ := run
  · exact (valid _ _ rfl).elim
  have same : octalDigits e k.pos = octalDigits a l.pos := by
    rw [pos, here]
    refine octalDigits_excerpt x before digit ?_
    rw [← here, ← pos]
    simp only at inside
    omega
  have h' := h.move ((octalDigits a l.pos).length - 1)
  refine ⟨_, ?_, h'⟩
  have last := seen_excerpt x h' inside
  simp only at last
  simpa [readOctalEscape_eq, invalidEscape_iff, same, last] using fun wrong => h.sloppy (legacy wrong)

theorem endCarriageReturn_excerpt (run : Runs ⟨a, o, none⟩ endCarriageReturn l u l') (inside : l'.pos < p + e.size) :
    Repeats p e o endCarriageReturn k u l' := by
  simp [endCarriageReturn] at run
  rcases run with ⟨feed, rfl⟩ | ⟨other, rfl⟩
  · have seen := seen_excerpt x h (by simp only at inside; omega)
    exact ⟨_, by simp [endCarriageReturn, seen, feed], (h.move 1).newLine⟩
  · exact ⟨_, by simp [endCarriageReturn, not_seen_excerpt x h other], h.newLine⟩

omit x h in
theorem readCodePoint_ne_continuation {s : Setting} {v : Escape} (run : Runs s readCodePoint l v l') :
    v ≠ .continuation := by
  have hex {count : Nat} {m m' : Lexer} {v : Escape} (run : Runs s (readHex count) m v m') : v ≠ .continuation := by
    simp [readHex, invalidEscape_iff] at run
    obtain ⟨_, _, -, ⟨-, rfl, -⟩ | ⟨-, rfl, -⟩⟩ := run <;> simp
  simp [readCodePoint] at run
  rcases run with ⟨_, _, run⟩ | ⟨_, run⟩
  · split at run
    · simp [invalidEscape_iff] at run
      simp [run.1]
    · simp at run
      obtain ⟨w, m, read, run⟩ := run
      split at run
      · simp [invalidEscape_iff] at run
        rcases run with ⟨_, rfl, _⟩ | ⟨_, rfl, _⟩ <;> simp
      · simp at run
        exact run.1 ▸ hex read
  · exact hex run

theorem readEscape_excerpt {v : Escape} (valid : ∀ error excused, v ≠ .invalid error excused)
    (run : Runs ⟨a, o, none⟩ (readEscape false) l v l') (inside : l'.pos < p + e.size) :
    Repeats p e o (readEscape false) k v l' := by
  have past := readEscape_past run
  simp only [readEscape, Runs.bind_iff, Runs.advance_iff, Runs.peek_iff, Runs.exists_unit, exists_eq_left,
    Runs.exists_look] at run
  split at run
  · simp at run
  · next c here =>
    simp only [Runs.bind_iff, Runs.skip_iff, Runs.exists_unit, exists_eq_left] at run
    have before := h.move 1
    have after := before.move c.utf8Size
    have seen : e.charAt (k.pos + 1) = a.charAt (l.pos + 1) := seen_excerpt x before (by dsimp only; omega)
    have found : e.charAt (k.pos + 1) = some c := seen.trans here
    simp only [Repeats, readEscape, Runs.bind_iff, Runs.advance_iff, Runs.peek_iff, Runs.exists_unit, exists_eq_left,
      Runs.exists_look, found, Runs.skip_iff]
    split at run
    case h_3 =>
      cases v with
      | code => exact readHex_excerpt x after run inside.le
      | continuation => simp [readHex, invalidEscape_iff] at run
      | invalid error => exact (valid error _ rfl).elim
    case h_4 =>
      cases v with
      | code => exact readCodePoint_excerpt x after run inside.le
      | continuation => exact (readCodePoint_ne_continuation run rfl).elim
      | invalid error => exact (valid error _ rfl).elim
    case h_9 =>
      simp at run
      obtain ⟨run, rfl⟩ := run
      obtain ⟨k', run', h'⟩ := endCarriageReturn_excerpt x after run inside
      exact ⟨k', by simpa using run', h'⟩
    case h_10 =>
      simp [invalidEscape_iff] at run
      rcases run with ⟨ends, rfl, rfl⟩ | ⟨no, ⟨eight, ⟨_, rfl, rfl⟩ | ⟨sloppy, rfl, rfl⟩⟩ | ⟨notEight,
        ⟨octal, run⟩ | ⟨plain, rfl, rfl⟩⟩⟩
      · exact ⟨_, by simp [ends], after.newLine⟩
      · exact (valid _ _ rfl).elim
      · exact ⟨_, by simp [no, eight, invalidEscape_iff, h.sloppy sloppy], after⟩
      · obtain ⟨digit, value⟩ := Alphabet.exists_digit_of_isOctalDigit octal
        have place : l.pos + 1 = p + (k.pos + 1) := before.pos
        obtain ⟨k', run', h'⟩ := readOctalEscape_excerpt (i := k.pos + 1) (d := digit) x valid after
          (by rw [(Alphabet.utf8Size_of_digit? value)]) (place ▸ seen) (by rw [← place, here]; exact value) run inside
        exact ⟨k', by simpa [no, notEight, octal] using run', h'⟩
      · exact ⟨_, by simp [no, notEight, plain], after⟩
    all_goals
      obtain ⟨rfl, rfl⟩ := Runs.pure_iff.mp run
      exact ⟨_, by simp, after⟩

/-! ### Repeating -/

section Repeating

variable {α β : Type} {f g : α → LexM (Pass α β)} {z : Nat}
  (le : ∀ {c l v l'}, Runs ⟨a, o, none⟩ (f c) l v l' → l.pos ≤ l'.pos)
  (lt : ∀ {c d l l'}, Runs ⟨a, o, none⟩ (f c) l (.again d) l' → l.pos < l'.pos)
  (each : ∀ {c l k v l'}, l.Excerpted p k → Runs ⟨a, o, none⟩ (f c) l v l' → l'.pos ≤ z → Repeats p e o (g c) k v l')

omit x h
include le lt each

theorem loop_excerpt (h : l.Excerpted p k) {fuel n : Nat} {c : α} {v : β}
    (run : Runs ⟨a, o, none⟩ (loop f fuel c) l v l')
    (inside : l'.pos ≤ z) (enough : z < l.pos + n) : Repeats p e o (loop g n c) k v l' := by
  have climbs {fuel : Nat} {c : α} {l : Lexer} (run : Runs ⟨a, o, none⟩ (loop f fuel c) l v l') : l.pos ≤ l'.pos := by
    obtain ⟨_, m, before, done⟩ := Runs.of_lexLoop (fun _ m => l.pos ≤ m.pos) (Nat.le_refl _)
      (fun before run => Nat.le_trans before (le run)) run
    exact Nat.le_trans before (le done)
  induction fuel generalizing l k c n with
  | zero => simp [loop] at run
  | succ fuel ih =>
    have past := climbs run
    obtain ⟨n, rfl⟩ : ∃ i, n = i + 1 := Nat.exists_eq_add_one.mpr (by omega)
    simp only [loop, Runs.bind_iff] at run
    obtain ⟨x, m, first, rest⟩ := run
    cases x with
    | again d =>
      have moved := lt first
      obtain ⟨k', first', h'⟩ := each h first (Nat.le_trans (climbs rest) inside)
      obtain ⟨k'', rest', h''⟩ := ih (n := n) h' rest (by omega)
      exact ⟨k'', by simpa only [loop, Runs.bind_iff] using ⟨_, k', first', rest'⟩, h''⟩
    | done y =>
      obtain ⟨rfl, rfl⟩ := Runs.pure_iff.mp rest
      obtain ⟨k', first', h'⟩ := each h first inside
      exact ⟨k', by simpa only [loop, Runs.bind_iff] using ⟨_, k', first', Runs.pure_iff.mpr ⟨rfl, rfl⟩⟩, h'⟩

theorem repeatForward_excerpt (h : l.Excerpted p k) (within : z ≤ p + e.size) {c : α} {v : β}
    (run : Runs ⟨a, o, none⟩ (repeatForward c f) l v l') (inside : l'.pos ≤ z) :
    Repeats p e o (repeatForward c g) k v l' := by
  have pos := h.pos
  simp only [repeatForward, Runs.bind_iff, Runs.lexSource_iff, Runs.pos_iff, Runs.exists_look] at run
  obtain ⟨k', run', h'⟩ := loop_excerpt le lt each h (n := e.size - k.pos + 2) run inside (by omega)
  exact ⟨k', by simpa [repeatForward] using run', h'⟩

end Repeating

/-! ### Strings -/

theorem stringPass_excerpt {quote : Char} {text : List Char} {v : Pass (List Char) (List Char)}
    (run : Runs ⟨a, o, none⟩ (stringPass quote text) l v l') (inside : l'.pos < p + e.size) :
    Repeats p e o (stringPass quote text) k v l' := by
  have past := (stringPass_forward run).pos_le
  have seen := seen_excerpt x h (Nat.lt_of_le_of_lt past inside)
  simp only [stringPass, Runs.bind_iff, Runs.get_iff, Runs.peek_iff, Runs.exists_look] at run
  split at run
  · simp at run
  · next c here =>
    have found : e.charAt k.pos = some c := seen.trans here
    simp only [Repeats, stringPass, Runs.bind_iff, Runs.get_iff, Runs.peek_iff, Runs.exists_look, found]
    simp only [Runs.ite_iff] at run
    rcases run with ⟨closes, run⟩ | ⟨no, ⟨slash, run⟩ | ⟨plain, ⟨breaks, run⟩ | ⟨inner, ⟨_, run⟩ | ⟨same, run⟩⟩⟩⟩
    · obtain ⟨rfl, rfl⟩ := Runs.pure_iff.mp run
      exact ⟨k, by simp [closes], h⟩
    · simp only [Runs.bind_iff] at run
      obtain ⟨escape, m, read, run⟩ := run
      obtain ⟨valid, rfl⟩ : (∀ error excused, escape ≠ .invalid error excused) ∧ m = l' := by
        cases escape <;> simp at run
        · exact ⟨by simp, run.2.symm⟩
        · exact ⟨by simp, run.2.symm⟩
      obtain ⟨k', read', h'⟩ := readEscape_excerpt x h valid read inside
      refine ⟨k', ?_, h'⟩
      rw [if_neg no, if_pos slash]
      refine Runs.bind_iff.mpr ⟨escape, k', read', ?_⟩
      cases escape with
      | invalid error => exact (valid error _ rfl).elim
      | _ => simpa using run
    · simp at run
      obtain ⟨edition, rfl, rfl⟩ := run
      have edition' : 10 ≤ (⟨e, o, none⟩ : Setting).edition := edition
      exact ⟨_, by simp [no, plain, breaks, edition'], (h.move _).newLine⟩
    · simp at run
    · simp at run
      obtain ⟨rfl, rfl⟩ := run
      exact ⟨_, by simp [no, plain, inner, same], h.move _⟩

omit x in
/-- A token that ends at the cursor is the same in both. -/
theorem finish_excerpt {kind : TokenKind} {value : TokenValue} (run : Runs ⟨a, o, none⟩ (finish kind value) l u l') :
    ∃ k', Runs ⟨e, o, none⟩ (finish kind value) k u k' ∧ l'.Copied p k' := by
  obtain ⟨k', run'⟩ : ∃ k', Runs ⟨e, o, none⟩ (finish kind value) k u k' := by simp [finish, LexM.updateContext]
  obtain ⟨pos, is, token, -⟩ := finish_spec rfl run
  obtain ⟨pos', is', token', -⟩ := finish_spec rfl run'
  exact ⟨k', run', is'.trans is.symm, (finish_value rfl run').trans
    (finish_value rfl run).symm, by simp only [token, token', h.start],
    by simp only [token, token', h.pos], by rw [pos, pos', h.pos], by rw [token', pos']⟩

theorem readString_excerpt {quote : Char} (run : Runs ⟨a, o, none⟩ (readString quote) l u l')
    (inside : l'.pos ≤ p + e.size) :
    ∃ k', Runs ⟨e, o, none⟩ (readString quote) k u k' ∧ l'.Copied p k' := by
  simp [readString] at run
  obtain ⟨text, m, passes, run⟩ := run
  have last : l'.pos = m.pos + 1 := (finish_spec rfl run).1
  obtain ⟨n, passes', h'⟩ := repeatForward_excerpt (z := p + e.size - 1) (fun run => (stringPass_forward run).pos_le)
    stringPass_moves (fun h run inside => stringPass_excerpt x h run (by omega)) (h.move 1) (by omega) passes (by omega)
  obtain ⟨k', run', copied⟩ := finish_excerpt (h'.move 1) run
  exact ⟨k', by simpa [readString] using ⟨text, n, passes', run'⟩, copied⟩

/-! ### Numbers -/

theorem digitPass_excerpt {radix i : Nat} {legacy : Bool} {d : DigitRun} {v : Pass DigitRun DigitRun}
    (run : Runs ⟨a, o, none⟩ (digitPass radix (p + i) legacy d) l v l') (inside : l'.pos ≤ p + e.size) :
    Repeats p e o (digitPass radix i legacy d) k v l' := by
  have pos := h.pos
  simp only [digitPass, Runs.bind_iff, Runs.peek_iff, Runs.exists_look] at run
  -- Where the run ends, the excerpt may end as well.
  have ended (same : v = .done d ∧ l' = l) (here : e.charAt k.pos = none) :
      Repeats p e o (digitPass radix i legacy d) k v l' := by
    obtain ⟨rfl, rfl⟩ := same
    exact ⟨k, by simp [digitPass, here], h⟩
  split at run
  · next here =>
    refine ended (Runs.pure_iff.mp run) ?_
    rcases x.charAt_or k.pos with same | none
    · rw [same, ← pos, here]
    · exact none
  · next c here =>
    have seen (moved : l.pos < l'.pos) : e.charAt k.pos = some c :=
      (seen_excerpt x h (Nat.lt_of_lt_of_le moved inside)).trans here
    simp at run
    rcases run with ⟨⟨rfl, edition⟩, plain, first, other, rfl, rfl⟩ | ⟨noSeparator, run⟩
    · have edition' : 12 ≤ (⟨e, o, none⟩ : Setting).edition := edition
      refine ⟨_, ?_, h.move 1⟩
      have other' : k.pos ≠ i := by omega
      simp [digitPass, seen (by simp), edition', plain, first, other']
    · have noSeparator' : c = '_' → (⟨e, o, none⟩ : Setting).edition < 12 := noSeparator
      cases digit : Alphabet.digit? radix c with
      | some n =>
        simp [digit] at run
        obtain ⟨rfl, rfl⟩ := run
        exact ⟨_, by simpa [digitPass, seen (by simp), digit] using noSeparator', h.move 1⟩
      | none =>
        simp [digit] at run
        rcases x.charAt_or k.pos with same | none
        · obtain ⟨rfl, rfl⟩ := run
          have found : e.charAt k.pos = some c := by rw [same, ← pos, here]
          exact ⟨k, by simpa [digitPass, found, digit] using noSeparator', h⟩
        · exact ended run none

omit x h in
theorem digitPass_moves {s : Setting} {radix start : Nat} {legacy : Bool} {d d' : DigitRun}
    (run : Runs s (digitPass radix start legacy d) l (.again d') l') : l.pos < l'.pos := by
  simp only [digitPass, Runs.bind_iff, Runs.peek_iff, Runs.exists_look] at run
  split at run
  · simp at run
  · next c here =>
    simp at run
    rcases run with ⟨_, _, _, _, _, rfl⟩ | ⟨_, run⟩
    · exact Nat.lt_succ_self _
    · split at run
      · simp at run
        exact run.1 ▸ Nat.lt_succ_self _
      · simp at run

theorem readDigits_excerpt {radix : Nat} {maybeLegacy : Bool} {digits : Option (List Nat)}
    (run : Runs ⟨a, o, none⟩ (readDigits radix maybeLegacy) l digits l') (inside : l'.pos ≤ p + e.size)
    (nonempty : maybeLegacy = true → l.pos < p + e.size) :
    Repeats p e o (readDigits radix maybeLegacy) k digits l' := by
  have passes {legacy : Bool} {d : DigitRun}
      (run : Runs ⟨a, o, none⟩ (repeatForward {} (digitPass radix l.pos legacy)) l d l') :
      Repeats p e o (repeatForward {} (digitPass radix k.pos legacy)) k d l' := by
    rw [h.pos] at run
    exact repeatForward_excerpt (fun run => (digitPass_forward run).pos_le) digitPass_moves
      (fun h run inside => digitPass_excerpt x h run inside) h (Nat.le_refl _) run inside
  simp [readDigits] at run
  rcases run with ⟨rfl, d, run, last, rfl⟩ | ⟨rfl, d, run, last, rfl⟩
  · obtain ⟨k', run', h'⟩ := passes run
    have seen := seen_excerpt x h (nonempty rfl)
    exact ⟨k', by simpa [readDigits, seen] using ⟨d, run', last, rfl⟩, h'⟩
  · obtain ⟨k', run', h'⟩ := passes run
    exact ⟨k', by simpa [readDigits] using ⟨d, run', last, rfl⟩, h'⟩

theorem none_of_excerpt {f : Char → Bool} (none : (a.charAt l.pos).any f = false) : (e.charAt k.pos).any f = false := by
  rcases x.charAt_or k.pos with same | ended
  · rwa [same, ← h.pos]
  · rw [ended]
    rfl

theorem readFraction_excerpt (run : Runs ⟨a, o, none⟩ readFraction l u l') (inside : l'.pos ≤ p + e.size) :
    Repeats p e o readFraction k u l' := by
  have past := (readFraction_forward run).pos_le
  simp [readFraction] at run
  rcases run with ⟨point, digits, run⟩ | ⟨other, rfl⟩
  · have moved : l.pos + 1 ≤ l'.pos := (readDigits_forward run).pos_le
    obtain ⟨k', run', h'⟩ := readDigits_excerpt x (h.move 1) run inside (by simp)
    have seen := seen_excerpt x h (Nat.lt_of_lt_of_le moved inside)
    exact ⟨k', by simpa [readFraction, seen, point] using ⟨digits, run'⟩, h'⟩
  · exact ⟨k, by simp [readFraction, not_seen_excerpt x h other], h⟩

theorem readExponent_excerpt {i j : Nat} (run : Runs ⟨a, o, none⟩ (readExponent i) l u l')
    (inside : l'.pos ≤ p + e.size) :
    Repeats p e o (readExponent j) k u l' := by
  simp [readExponent] at run
  rcases run with ⟨mark, ⟨sign, digits, run, found⟩ | ⟨noSign, digits, run, found⟩⟩ | ⟨other, rfl⟩
  · have moved : l.pos + 1 + 1 ≤ l'.pos := (readDigits_forward run).pos_le
    obtain ⟨k', run', h'⟩ := readDigits_excerpt x ((h.move 1).move 1) run inside (by simp)
    have seen := seen_excerpt x h (by omega)
    have next : e.charAt (k.pos + 1) = a.charAt (l.pos + 1) :=
      seen_excerpt x (h.move 1) (Nat.lt_of_lt_of_le moved inside)
    exact ⟨k', by simpa [readExponent, seen, mark, next, sign] using ⟨digits, run', found⟩, h'⟩
  · have moved : l.pos + 1 ≤ l'.pos := (readDigits_forward run).pos_le
    obtain ⟨k', run', h'⟩ := readDigits_excerpt x (h.move 1) run inside (by simp)
    have seen := seen_excerpt x h (by omega)
    have plus : e.charAt (k.pos + 1) ≠ some '+' := not_seen_excerpt x (h.move 1) noSign.1
    have minus : e.charAt (k.pos + 1) ≠ some '-' := not_seen_excerpt x (h.move 1) noSign.2
    exact ⟨k', by simpa [readExponent, seen, mark, plus, minus] using ⟨digits, run', found⟩, h'⟩
  · exact ⟨k, by simp [readExponent, not_seen_excerpt x h other.1, not_seen_excerpt x h other.2], h⟩

theorem chars_excerpt {i : Nat} (le : i ≤ e.size) (inside : l.pos ≤ p + e.size) :
    e.chars i k.pos = a.chars (p + i) l.pos := by
  rw [h.pos, x.chars le (by have := h.pos; omega)]

theorem readRadixNumber_excerpt {radix : Nat} (run : Runs ⟨a, o, none⟩ (readRadixNumber radix) l u l')
    (inside : l'.pos ≤ p + e.size) :
    ∃ k', Runs ⟨e, o, none⟩ (readRadixNumber radix) k u k' ∧ l'.Copied p k' := by
  have pos := h.pos
  simp [readRadixNumber, bigintDigits] at run
  obtain ⟨digits, m, read, run⟩ := run
  have past : l.pos + 2 ≤ m.pos := (readDigits_forward read).pos_le
  cases digits with
  | none => simp at run
  | some digits =>
    simp at run
    rcases run with ⟨⟨edition, big⟩, run⟩ | ⟨plain, ends, run⟩
    · have last : l'.pos = m.pos + 1 := (finish_spec rfl run).1
      obtain ⟨n, read', h'⟩ := readDigits_excerpt x (h.move 2) read (by omega) (by simp)
      obtain ⟨k', run', copied⟩ := finish_excerpt (h'.move 1) run
      have seen := seen_excerpt x h' (by omega)
      have edition' : 11 ≤ (⟨e, o, none⟩ : Setting).edition := edition
      refine ⟨k', ?_, copied⟩
      simp [readRadixNumber, bigintDigits]
      refine ⟨_, n, read', ?_⟩
      simpa [seen, big, edition', chars_excerpt x h' (i := k.pos) (by omega) (by omega), ← pos] using run'
    · have last : l'.pos = m.pos := (finish_spec rfl run).1
      obtain ⟨n, read', h'⟩ := readDigits_excerpt x (h.move 2) read (by omega) (by simp)
      obtain ⟨k', run', copied⟩ := finish_excerpt h' run
      refine ⟨k', ?_, copied⟩
      simp [readRadixNumber, bigintDigits]
      refine ⟨_, n, read', ?_⟩
      simp
      exact .inr ⟨fun edition => not_seen_excerpt x h' (plain edition), none_of_excerpt x h' ends, run'⟩

theorem numberRest_excerpt {i : Nat} {startsWithDot leadingZero : Bool} {whole : List Char} (le : i ≤ k.pos)
    (run : Runs ⟨a, o, none⟩ (numberRest a (p + i) startsWithDot leadingZero whole) l u l')
    (inside : l'.pos ≤ p + e.size) :
    ∃ k', Runs ⟨e, o, none⟩ (numberRest e i startsWithDot leadingZero whole) k u k' ∧ l'.Copied p k' := by
  have pos := h.pos
  simp [numberRest, bigintDigits] at run
  obtain ⟨sloppy, ⟨⟨⟨⟨rfl, rfl⟩, edition⟩, big⟩, ends, run⟩ | ⟨plain,
    ⟨⟨rfl, octal⟩, ends, run⟩ | ⟨decimal, m, fraction, n, exponent, ends, run⟩⟩⟩ := run
  · have last : l'.pos = l.pos + 1 := (finish_spec rfl run).1
    obtain ⟨k', run', copied⟩ := finish_excerpt (e := e) (h.move 1) run
    have seen := seen_excerpt x h (by omega)
    have edition' : 11 ≤ (⟨e, o, none⟩ : Setting).edition := edition
    have ends' := none_of_excerpt x (h.move 1) ends
    refine ⟨k', ?_, copied⟩
    simpa [numberRest, bigintDigits, edition', seen, big, chars_excerpt x h (i := i) (by omega) (by omega)]
      using ⟨ends', run'⟩
  · have last : l'.pos = l.pos := (finish_spec rfl run).1
    obtain ⟨k', run', copied⟩ := finish_excerpt (e := e) h run
    have ends' := none_of_excerpt x h ends
    refine ⟨k', ?_, copied⟩
    simp [numberRest]
    exact ⟨h.sloppy (sloppy rfl), .inl ⟨octal, ends', run'⟩⟩
  · have last : l'.pos = n.pos := (finish_spec rfl run).1
    have past := (readExponent_forward exponent).pos_le
    have before := (readFraction_forward fraction).pos_le
    obtain ⟨m', fraction', h'⟩ := readFraction_excerpt x h fraction (by omega)
    obtain ⟨n', exponent', h''⟩ := readExponent_excerpt (j := i) x h' exponent (by omega)
    obtain ⟨k', run', copied⟩ := finish_excerpt (e := e) h'' run
    have same := chars_excerpt x h'' (i := i) (by omega) (by omega)
    have ends' := none_of_excerpt x h'' ends
    refine ⟨k', ?_, copied⟩
    simp [numberRest, bigintDigits]
    refine ⟨fun zero => h.sloppy (sloppy zero), .inr ⟨fun zero dot edition =>
      not_seen_excerpt x h (plain zero dot edition), .inr ⟨decimal, m', fraction', n', exponent', ends', ?_⟩⟩⟩
    rwa [same]

theorem leadingZero_excerpt {i : Nat} (le : i ≤ k.pos) (inside : l.pos ≤ p + e.size) :
    (decide (2 ≤ l.pos - (p + i)) && a.has (p + i) '0') = (decide (2 ≤ k.pos - i) && e.has i '0') := by
  have pos := h.pos
  rw [show l.pos - (p + i) = k.pos - i by omega]
  by_cases long : 2 ≤ k.pos - i
  · rw [x.has (by omega)]
  · simp [long]

theorem readNumber_excerpt {startsWithDot : Bool} (first : l.pos < p + e.size)
    (run : Runs ⟨a, o, none⟩ (readNumber startsWithDot) l u l') (inside : l'.pos ≤ p + e.size) :
    ∃ k', Runs ⟨e, o, none⟩ (readNumber startsWithDot) k u k' ∧ l'.Copied p k' := by
  have rest {m n : Lexer} (h' : m.Excerpted p n) (le : k.pos ≤ n.pos)
      (run : Runs ⟨a, o, none⟩ (numberRest a l.pos startsWithDot (2 ≤ m.pos - l.pos && a.has l.pos '0')
        (a.chars l.pos m.pos)) m u l') :
      ∃ k', Runs ⟨e, o, none⟩ (numberRest e k.pos startsWithDot (2 ≤ n.pos - k.pos && e.has k.pos '0')
        (e.chars k.pos n.pos)) n u k' ∧
        l'.Copied p k' := by
    have past := (numberRest_finished rfl run).pos_le
    have pos := h.pos
    have pos' := h'.pos
    have same := chars_excerpt x h' (i := k.pos) (by omega) (by omega)
    rw [pos, ← same, leadingZero_excerpt x h' le (by omega)] at run
    exact numberRest_excerpt x h' le run inside
  have pos := h.pos
  rw [readNumber_eq] at run
  cases startsWithDot with
  | true =>
    simp at run
    obtain ⟨k', run', copied⟩ := rest h (Nat.le_refl _) (by simpa using run)
    exact ⟨k', by rw [readNumber_eq]; simpa using run', copied⟩
  | false =>
    simp at run
    obtain ⟨digits, m, read, some, run⟩ := run
    have le : l.pos ≤ m.pos := (readDigits_forward read).pos_le
    have past := (numberRest_finished rfl run).pos_le
    obtain ⟨n, read', h'⟩ := readDigits_excerpt x h read (Nat.le_trans past inside) fun _ => first
    have pos' := h'.pos
    obtain ⟨k', run', copied⟩ := rest h' (by omega) (by simpa using run)
    exact ⟨k', by rw [readNumber_eq]; simpa using ⟨digits, n, read', some, run'⟩, copied⟩

/-! ### Regular expressions -/

theorem bodyPass_excerpt {start start' : Nat} {state : BodyState} {v : Pass BodyState Unit}
    (run : Runs ⟨a, o, none⟩ (bodyPass start state) l v l') (inside : l'.pos < p + e.size) :
    Repeats p e o (bodyPass start' state) k v l' := by
  have past := (bodyPass_forward run).pos_le
  have seen := seen_excerpt x h (Nat.lt_of_le_of_lt past inside)
  simp only [bodyPass, Runs.bind_iff, Runs.peek_iff, Runs.exists_look] at run
  split at run
  · simp at run
  · next c here =>
    have found : e.charAt k.pos = some c := seen.trans here
    simp at run
    rcases run with ⟨inner, ⟨escaped, rfl, rfl⟩ | ⟨plain, ⟨ends, rfl, rfl⟩ | ⟨other, rfl, rfl⟩⟩⟩
    · exact ⟨_, by simp [bodyPass, found, inner, escaped], h.move _⟩
    · obtain ⟨rfl, outside⟩ := ends
      exact ⟨k, by simp [bodyPass, found, inner, plain, outside], h⟩
    · refine ⟨_, ?_, h.move _⟩
      simpa [bodyPass, found, inner, plain] using other

theorem readWordEscape_excerpt {atStart : Bool} {c : Char} (run : Runs ⟨a, o, none⟩ (readWordEscape atStart) l c l')
    (inside : l'.pos ≤ p + e.size) : Repeats p e o (readWordEscape atStart) k c l' := by
  simp [readWordEscape] at run
  obtain ⟨mark, v, m, code, run⟩ := run
  cases v with
  | code code' =>
    simp only at run
    split at run
    · next belongs =>
      obtain ⟨rfl, rfl⟩ := Runs.pure_iff.mp run
      have past : l.pos + 1 + 1 ≤ l'.pos := (readCodePoint_forward code).pos_le
      have opened : Lexer.Excerpted p { l with containsEscape := true } { k with containsEscape := true } :=
        { h with escape := by simp }
      obtain ⟨k', code', h'⟩ := readCodePoint_excerpt x ((opened.move 1).move 1) code inside
      have seen : e.charAt (k.pos + 1) = a.charAt (l.pos + 1) := seen_excerpt x (h.move 1) (by dsimp only; omega)
      refine ⟨k', ?_, h'⟩
      simp [readWordEscape, seen, mark]
      exact ⟨_, k', code', by simp only; rw [show (⟨e, o, none⟩ : Setting).astral =
        (⟨a, o, none⟩ : Setting).astral from rfl]; simp [belongs]⟩
    · simp at run
  | continuation => simp at run
  | invalid => simp at run

theorem wordPass_excerpt {word : List Char} {v : Pass (List Char) (List Char)}
    (run : Runs ⟨a, o, none⟩ (wordPass word) l v l')
    (inside : l'.pos ≤ p + e.size) : Repeats p e o (wordPass word) k v l' := by
  have pos := h.pos
  simp only [wordPass, Runs.bind_iff, Runs.peek_iff, Runs.exists_look] at run
  have ended (same : v = .done word ∧ l' = l) (here : e.charAt k.pos = none) :
      Repeats p e o (wordPass word) k v l' := by
    obtain ⟨rfl, rfl⟩ := same
    exact ⟨k, by simp [wordPass, here], h⟩
  split at run
  · next here =>
    refine ended (Runs.pure_iff.mp run) ?_
    rcases x.charAt_or k.pos with same | none
    · rw [same, ← pos, here]
    · exact none
  · next c here =>
    have seen (moved : l.pos < l'.pos) : e.charAt k.pos = some c :=
      (seen_excerpt x h (Nat.lt_of_lt_of_le moved inside)).trans here
    simp at run
    rcases run with ⟨part, rfl, rfl⟩ | ⟨other, ⟨rfl, d, escape, rfl⟩ | ⟨plain, rfl, rfl⟩⟩
    · have part' : Alphabet.isIdentifierPart (⟨e, o, none⟩ : Setting).astral c = true := part
      exact ⟨_, by simp [wordPass, seen (Nat.lt_add_of_pos_right c.utf8Size_pos), part'], h.move _⟩
    · have other' : Alphabet.isIdentifierPart (⟨e, o, none⟩ : Setting).astral '\\' = false := other
      obtain ⟨k', escape', h'⟩ := readWordEscape_excerpt x h escape inside
      exact ⟨k', by simpa [wordPass, seen (readWordEscape_forward here escape).2, other'] using escape', h'⟩
    · have other' : Alphabet.isIdentifierPart (⟨e, o, none⟩ : Setting).astral c = false := other
      rcases x.charAt_or k.pos with same | none
      · have found : e.charAt k.pos = some c := by rw [same, ← pos, here]
        exact ⟨k, by simp [wordPass, found, other', plain], h⟩
      · exact ended ⟨rfl, rfl⟩ none

omit x h in
theorem wordPass_moves {s : Setting} {word next : List Char} (run : Runs s (wordPass word) l (.again next) l') :
    l.pos < l'.pos :=
  (wordPass_forward run).2.resolve_right (by simp)

theorem readWordText_excerpt {word : String} (run : Runs ⟨a, o, none⟩ readWordText l word l')
    (inside : l'.pos ≤ p + e.size) :
    Repeats p e o readWordText k word l' := by
  simp [readWordText] at run
  obtain ⟨text, run, rfl⟩ := run
  have fresh : Lexer.Excerpted p { l with containsEscape := false } { k with containsEscape := false } :=
    { h with escape := fun _ => rfl }
  obtain ⟨k', run', h'⟩ := repeatForward_excerpt (fun run => (wordPass_forward run).1.pos_le) wordPass_moves
    (fun h run inside => wordPass_excerpt x h run inside) fresh (Nat.le_refl _) run inside
  exact ⟨k', by simpa [readWordText] using ⟨text, run', rfl⟩, h'⟩

omit x h in
theorem bodyPass_moves {s : Setting} {start : Nat} {state next : BodyState}
    (run : Runs s (bodyPass start state) l (.again next) l') :
    l.pos < l'.pos := by
  simp only [bodyPass, Runs.bind_iff, Runs.peek_iff, Runs.exists_look] at run
  split at run
  · simp at run
  · next c _ =>
    simp at run
    rcases run with ⟨_, ⟨_, _, rfl⟩ | ⟨_, _, _, rfl⟩⟩ <;> exact Nat.lt_add_of_pos_right c.utf8Size_pos

theorem readRegExp_excerpt (run : Runs ⟨a, o, none⟩ readRegExp l u l') (inside : l'.pos ≤ p + e.size) :
    ∃ k', Runs ⟨e, o, none⟩ readRegExp k u k' ∧ l'.Copied p k' := by
  have pos := h.pos
  obtain ⟨m, flags, n, body, word, unescaped, valid, run⟩ := Runs.readRegExp_iff.mp run
  have last : l'.pos = n.pos := (finish_spec rfl run).1
  have past : m.pos + 1 ≤ n.pos := (readWordText_forward word).pos_le
  have before : l.pos ≤ m.pos := (repeatForward_forward bodyPass_forward body).pos_le
  obtain ⟨m', body', h'⟩ :=
    repeatForward_excerpt (g := bodyPass k.pos) (z := p + e.size - 1) (fun run => (bodyPass_forward run).pos_le)
      bodyPass_moves (fun h run inside => bodyPass_excerpt x h run (by omega)) h (by omega) body (by omega)
  obtain ⟨n', word', h''⟩ := readWordText_excerpt x (h'.move 1) word (by omega)
  obtain ⟨k', run', copied⟩ := finish_excerpt (e := e) h'' run
  have pattern := chars_excerpt x h' (i := k.pos) (by omega) (by omega)
  rw [← pos] at pattern
  refine ⟨k', Runs.readRegExp_iff.mpr ⟨m', flags, n', body', word', h''.escape unescaped, ?_, ?_⟩, copied⟩
  · rw [pattern]
    exact valid
  · rw [pattern]
    exact run'

end Excerpt
end ScriptSyntax
