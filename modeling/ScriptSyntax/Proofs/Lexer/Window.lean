import ScriptSyntax.Proofs.Lexer.Alone
import ScriptSyntax.Proofs.Tandem.Blank
import ScriptSyntax.Proofs.Tandem.Lexer

/-!
Two texts with one token in common.  What stands behind the token may differ: where the first text has a comment the
second may have a space.  The second lexer echoes the first one as long as that one stays in the token, since no look
past the end of a token tells a comment from a space; and no step that reads part of a token takes the cursor back.
-/

namespace ScriptSyntax

/-! ### Steps that do not go back -/

/-- Where the step succeeds, the cursor has not gone back. -/
def Climbs {α : Type} (m : LexM α) : Prop := ∀ a o l v l', Runs (Tandem.setting a o) m l v l' → l.pos ≤ l'.pos

namespace Climbs

open LexM

variable {α β : Type} {m n : LexM α} {f : α → LexM β}

theorem forward (h : Climbs m) {a : Source} {o : Options} {l l' : Lexer} {v : α}
    (run : Runs (Tandem.setting a o) m l v l') : l.pos ≤ l'.pos :=
  h a o l v l' run

/-! ### Composed steps -/

@[grind ←] theorem pure {a : α} : Climbs (pure a : LexM α) :=
  fun _ _ _ _ _ run => (Runs.pure_iff.mp run).2 ▸ Nat.le_refl _

@[grind ←] theorem bind (first : Climbs m) (next : ∀ a, Climbs (f a)) : Climbs (m >>= f) := by
  intro a o l v l' run
  obtain ⟨x, r, run, rest⟩ := Runs.bind_iff.mp run
  exact Nat.le_trans (first a o l x r run) (next x a o r v l' rest)

@[grind ←] theorem read : Climbs (read : LexM Setting) := fun _ _ _ _ _ run => (Runs.read_iff.mp run).2 ▸ Nat.le_refl _

@[grind ←] theorem get : Climbs (get : LexM Lexer) := fun _ _ _ _ _ run => (Runs.get_iff.mp run).2 ▸ Nat.le_refl _

@[grind ←] theorem throw {e : SyntaxError} : Climbs (throw e : LexM α) := fun _ _ _ _ _ run => (Runs.throw_iff run).elim

theorem ite {c : Prop} [Decidable c] (yes : Climbs m) (no : Climbs n) : Climbs (if c then m else n) := by
  split
  · exact yes
  · exact no

theorem modify {g : Lexer → Lexer} (le : ∀ l, l.pos ≤ (g l).pos) : Climbs (modify g : LexM PUnit) :=
  fun _ _ l _ _ run => Runs.modify_iff.mp run ▸ le l

@[grind ←] theorem source : Climbs source := bind read fun _ => pure

@[grind ←] theorem edition : Climbs edition := bind read fun _ => pure

@[grind ←] theorem pos : Climbs pos := bind get fun _ => pure

@[grind ←] theorem fail {n : Nat} {fault : Fault} : Climbs (fail n fault : LexM α) := bind read fun _ => throw

@[grind ←] theorem unexpected : Climbs (unexpected : LexM α) := bind get fun _ => fail

/-- What comes after a failure is never run. -/
@[grind ←] theorem fail_bind {n : Nat} {fault : Fault} {f : α → LexM β} : Climbs (LexM.fail n fault >>= f) :=
  fun _ _ _ _ _ run => by simp at run

@[grind ←] theorem failRecoverable_bind {n : Nat} {fault : Fault} {f : α → LexM β} :
    Climbs (LexM.failRecoverable n fault >>= f) :=
  fun _ _ _ _ _ run => by simp at run

theorem loop {pass : α → LexM (Pass α β)} (each : ∀ a, Climbs (pass a)) (fuel : Nat) :
    ∀ a, Climbs (LexM.loop pass fuel a) := by
  induction fuel with
  | zero => exact fun _ => unexpected
  | succ fuel ih =>
    refine fun a => (each a).bind fun x => ?_
    cases x with
    | again next => exact ih next
    | done => exact pure

@[grind ←] theorem repeatForward {pass : α → LexM (Pass α β)} (each : ∀ a, Climbs (pass a)) {a : α} :
    Climbs (repeatForward a pass) :=
  bind source fun _ => bind pos fun _ => loop each _ a

/-! ### Looking and moving -/

@[grind ←] theorem charAhead {n : Nat} : Climbs (charAhead n) := bind source fun _ => bind pos fun _ => pure

@[grind ←] theorem peek : Climbs peek := charAhead

@[grind ←] theorem seesAhead {n : Nat} {c : Char} : Climbs (seesAhead n c) := bind charAhead fun _ => pure

@[grind ←] theorem sees {c : Char} : Climbs (sees c) := seesAhead

@[grind ←] theorem advance {n : Nat} : Climbs (advance n) := modify fun _ => Nat.le_add_right ..

@[grind ←] theorem skip {c : Char} : Climbs (skip c) := advance

@[grind ←] theorem newLine : Climbs newLine := modify fun _ => Nat.le_refl _

@[grind ←] theorem endCarriageReturn : Climbs endCarriageReturn := by grind [LexM.endCarriageReturn]

@[grind ←] theorem finish {kind : TokenKind} {value : TokenValue} : Climbs (finish kind value) :=
  fun _ _ _ _ _ run => Nat.le_of_eq (finish_spec rfl run).1.symm

@[grind ←] theorem finishOperator {kind : TokenKind} {size : Nat} : Climbs (finishOperator kind size) :=
  bind advance fun _ => finish

/-! ### Texts -/

@[grind ←] theorem invalidEscape {n : Nat} {fault : Fault} :
    Climbs (invalidEscape n fault) := by grind [LexM.invalidEscape]

@[grind ←] theorem hexDigits : ∀ {count : Nat}, Climbs (hexDigits count)
  | 0 => pure
  | count + 1 => by
    have ih : Climbs (LexM.hexDigits count) := hexDigits
    grind [LexM.hexDigits]

@[grind ←] theorem readHex {count : Nat} : Climbs (readHex count) := by grind [LexM.readHex]

@[grind ←] theorem readCodePoint : Climbs readCodePoint := by
  intro _ _ _ _ _ run
  exact (readCodePoint_forward run).pos_le

@[grind ←] theorem readOctalEscape {inTemplate : Bool} : Climbs (readOctalEscape inTemplate) := by
  intro _ _ _ _ _ run
  exact (readOctalEscape_forward run).pos_le

@[grind ←] theorem readEscape {inTemplate : Bool} : Climbs (readEscape inTemplate) := by
  intro _ _ _ _ _ run
  exact Nat.le_of_succ_le (Nat.le_of_lt (readEscape_past run))

@[grind ←] theorem stringPass {quote : Char} {text : List Char} : Climbs (stringPass quote text) := by
  refine bind get fun _ => bind peek fun _ => ?_
  split
  · exact fail
  · refine ite pure (ite (bind readEscape fun _ => ?_) (by grind))
    split
    · exact pure
    · exact pure
    · exact throw

@[grind ←] theorem atChunkEnd : Climbs atChunkEnd := by
  refine bind peek fun _ => ?_
  split
  · exact pure
  · exact seesAhead
  · exact pure

@[grind ←] theorem finishChunk {text : List Char} : Climbs (finishChunk text) := by grind [LexM.finishChunk]

@[grind ←] theorem chunkPass {text : List Char} : Climbs (chunkPass text) := by
  refine bind atChunkEnd fun _ => ite (bind finishChunk fun _ => pure) (bind peek fun _ => ?_)
  split <;> grind

@[grind ←] theorem invalidChunkPass {u : Unit} : Climbs (invalidChunkPass u) := by
  refine bind atChunkEnd fun _ => ite (bind finish fun _ => pure) (bind peek fun _ => ?_)
  split <;> grind

/-! ### Words, numbers and regular expressions -/

@[grind ←] theorem readWordEscape {atStart : Bool} : Climbs (readWordEscape atStart) := by
  refine bind pos fun _ => bind (modify fun _ => Nat.le_refl _) fun _ => bind advance fun _ => bind sees fun _ => ?_
  refine ite (bind advance fun _ => bind read fun _ => bind readCodePoint fun _ => ?_) (bind pos fun _ => fail_bind)
  split
  · split
    · exact pure
    · exact fail
  · exact fail
  · exact throw

@[grind ←] theorem wordPass {word : List Char} : Climbs (wordPass word) := by grind [LexM.wordPass]

@[grind ←] theorem readWordText : Climbs readWordText :=
  bind (modify fun _ => Nat.le_refl _) fun _ => bind (repeatForward fun _ => wordPass) fun _ => pure

@[grind ←] theorem digitPass {radix start : Nat} {legacy : Bool} {run : DigitRun} :
    Climbs (digitPass radix start legacy run) :=
  fun _ _ _ _ _ run => (digitPass_forward run).pos_le

@[grind ←] theorem readDigits {radix : Nat} {maybeLegacy : Bool} : Climbs (readDigits radix maybeLegacy) := by
  grind [LexM.readDigits]

@[grind ←] theorem checkNumberEnd : Climbs checkNumberEnd := by grind [LexM.checkNumberEnd]

@[grind ←] theorem bigintDigits {start : Nat} : Climbs (bigintDigits start) :=
  bind source fun _ => bind pos fun _ => pure

@[grind ←] theorem readFraction : Climbs readFraction := by grind [LexM.readFraction]

@[grind ←] theorem readExponent {start : Nat} : Climbs (readExponent start) :=
  fun _ _ _ _ _ run => (readExponent_forward run).pos_le

@[grind ←] theorem bodyPass {start : Nat} {state : BodyState} :
    Climbs (bodyPass start state) := by grind [LexM.bodyPass]

end Climbs

/-- Where the step succeeds, the cursor has moved on. -/
def Rises {α : Type} (m : LexM α) : Prop := ∀ a o l v l', Runs (Tandem.setting a o) m l v l' → l.pos < l'.pos

namespace Rises

open LexM

variable {α β : Type} {m n : LexM α} {f : α → LexM β}

theorem past (h : Rises m) {a : Source} {o : Options} {l l' : Lexer} {v : α}
    (run : Runs (Tandem.setting a o) m l v l') : l.pos < l'.pos :=
  h a o l v l' run

/-- The first step moves on. -/
theorem first (rises : Rises m) (next : ∀ a, Climbs (f a)) : Rises (m >>= f) := by
  intro a o l v l' run
  obtain ⟨x, r, run, rest⟩ := Runs.bind_iff.mp run
  exact Nat.lt_of_lt_of_le (rises a o l x r run) (next x a o r v l' rest)

/-- What comes after the first step moves on. -/
@[grind ←] theorem rest (climbs : Climbs m) (next : ∀ a, Rises (f a)) : Rises (m >>= f) := by
  intro a o l v l' run
  obtain ⟨x, r, run, rest⟩ := Runs.bind_iff.mp run
  exact Nat.lt_of_le_of_lt (climbs a o l x r run) (next x a o r v l' rest)

theorem ite {c : Prop} [Decidable c] (yes : Rises m) (no : Rises n) : Rises (if c then m else n) := by
  split
  · exact yes
  · exact no

theorem advance {d : Nat} (positive : 0 < d) : Rises (advance d) := by
  intro _ _ _ _ _ run
  obtain rfl := Runs.advance_iff.mp run
  exact Nat.lt_add_of_pos_right positive

@[grind ←] theorem fail {d : Nat} {fault : Fault} : Rises (fail d fault : LexM α) := fun _ _ _ _ _ run => by simp at run

@[grind ←] theorem finishOperator {kind : TokenKind} {size : Nat} (positive : 0 < size) :
    Rises (finishOperator kind size) :=
  first (advance positive) fun _ => .finish

@[grind ←] theorem readAssignable {kind assign : TokenKind} {size : Nat} (positive : 0 < size) :
    Rises (readAssignable kind assign size) := by
  grind [LexM.readAssignable]

theorem skipLineComment {marks : Nat} (positive : 0 < marks) : Rises (skipLineComment marks) := by
  intro a _ l _ _ run
  simp [LexM.skipLineComment, note] at run
  subst run
  exact Nat.lt_of_lt_of_le (Nat.lt_add_of_pos_right positive) (a.le_skipWhile _ (l.pos + marks))

theorem readStar : Rises readStar := by grind [LexM.readStar]

theorem readLogical {c : Char} {single singleAssign double doubleAssign : TokenKind} :
    Rises (readLogical c single singleAssign double doubleAssign) := by grind [LexM.readLogical]

theorem readPlus : Rises readPlus := by grind [LexM.readPlus]

theorem readGreater : Rises readGreater := by grind [LexM.readGreater]

theorem readEquals : Rises readEquals := by grind [LexM.readEquals]

theorem readBang : Rises readBang := by grind [LexM.readBang]

theorem readQuestion : Rises readQuestion := by grind [LexM.readQuestion]

theorem atClosingComment : Climbs atClosingComment := by grind [LexM.atClosingComment]

theorem readMinus : Rises readMinus := by
  refine rest .seesAhead fun _ => ite (rest atClosingComment fun _ => ite ?_ ?_) ?_
  · exact first (skipLineComment (by decide)) fun _ => .pure
  · exact first (finishOperator (by decide)) fun _ => .pure
  · exact first (readAssignable (by decide)) fun _ => .pure

theorem readLess : Rises readLess := by
  refine rest .seesAhead fun _ => ite ?_ (rest .read fun _ => rest .seesAhead fun _ => rest .seesAhead fun _ =>
    rest .seesAhead fun _ => ite ?_ ?_)
  · exact first (readAssignable (by decide)) fun _ => .pure
  · exact first (skipLineComment (by decide)) fun _ => .pure
  · exact first (readAssignable (by decide)) fun _ => .pure

theorem readHash : Rises readHash := by
  refine rest .edition fun _ => ite (rest .pos fun _ => fail)
    (first (advance (by decide)) fun _ => .bind .peek fun c => ?_)
  cases c <;> grind

theorem readWordEscape {atStart : Bool} : Rises (readWordEscape atStart) := by
  refine rest .pos fun _ => rest (.modify fun _ => Nat.le_refl _) fun _ => first (advance (by decide)) fun _ =>
    .bind .sees fun _ => ?_
  refine .ite (.bind .advance fun _ => .bind .read fun _ => .bind .readCodePoint fun e => ?_)
    (.bind .pos fun _ => .fail_bind)
  cases e <;> grind

end Rises

section Words

open LexM

variable {a : Source} {o : Options} {l l' : Lexer} {u : Unit} {c : Char}

/-- A word is not empty. -/
theorem readWord_moves (here : a.charAt l.pos = some c)
    (begins : (Alphabet.isIdentifierStart (Tandem.setting a o).astral c || decide (c = '\\')) = true)
    (run : Runs (Tandem.setting a o) readWord l u l') : l.pos < l'.pos := by
  obtain ⟨word, r, text, run⟩ := Runs.bind_iff.mp run
  refine Nat.lt_of_lt_of_le ?_ (Climbs.forward (.bind .read fun _ => .finish) run)
  simp [readWordText] at text
  obtain ⟨text, passes, -⟩ := text
  simp only [repeatForward, Runs.bind_iff, Runs.lexSource_iff, Runs.pos_iff, Runs.exists_look] at passes
  obtain ⟨x, m, pass, passes⟩ := Runs.bind_iff.mp passes
  simp only [wordPass, Runs.bind_iff, Runs.peek_iff, Runs.read_iff, Runs.exists_look, here, Runs.ite_iff, Runs.pure_iff,
    Runs.skip_iff] at pass
  have climbs (next : List Char) : Climbs (loop wordPass (a.size - l.pos + 1) next) := .loop (fun _ => .wordPass) _ next
  rcases pass with ⟨-, _, _, rfl, rfl, rfl⟩ | ⟨notPart, ⟨-, b, _, escape, rfl, rfl⟩ | ⟨plain, -⟩⟩
  · exact Nat.lt_of_lt_of_le (Nat.lt_add_of_pos_right c.utf8Size_pos) ((climbs [c]).forward passes)
  · exact Nat.lt_of_lt_of_le (Rises.readWordEscape.past escape) ((climbs [b]).forward passes)
  · have start : Alphabet.isIdentifierStart (Tandem.setting a o).astral c = true := by simpa [plain] using begins
    exact (notPart (Alphabet.isIdentifierPart_of_isIdentifierStart start)).elim

/-- A token that begins with a character is not empty, nor is a comment that looks like one. -/
theorem readToken_moves {b : Bool} (here : a.charAt l.pos = some c)
    (run : Runs (Tandem.setting a o) (readToken c) l b l') :
    l.pos < l'.pos := by
  have token {m : LexM Unit} (moves : ∀ l', Runs (Tandem.setting a o) m l ⟨⟩ l' → l.pos < l'.pos)
      (run : Runs (Tandem.setting a o) (do m; return true) l b l') : l.pos < l'.pos := by
    obtain ⟨_, r, run, done⟩ := Runs.bind_iff.mp run
    obtain ⟨-, rfl⟩ := Runs.pure_iff.mp done
    exact moves _ run
  have rises {m : LexM Unit} (rises : Rises m) (run : Runs (Tandem.setting a o) (do m; return true) l b l') :
    l.pos < l'.pos :=
    token (fun _ run => rises.past run) run
  have literal {d : Char} (here : a.charAt l.pos = some d)
      (run : Runs (Tandem.setting a o) (do literalReader d; return true) l b l') :
      l.pos < l'.pos := token (fun _ run => literalReader_moves rfl here run) run
  simp only [readToken, Runs.bind_iff, Runs.read_iff, Runs.exists_look, Runs.ite_iff] at run
  rcases run with ⟨word, run⟩ | ⟨_, run⟩
  · exact token (fun _ run => readWord_moves here word run) (Runs.bind_iff.mpr run)
  split at run
  case h_1 => exact literal here run
  case h_11 => exact literal here run
  case h_12 => exact literal here run
  case h_13 => exact literal here run
  case h_14 => exact literal here run
  case h_15 => exact rises (.readAssignable (by decide)) run
  case h_16 => exact rises .readStar run
  case h_17 => exact rises .readLogical run
  case h_18 => exact rises .readLogical run
  case h_19 => exact rises (.readAssignable (by decide)) run
  case h_20 => exact rises .readPlus run
  case h_21 => exact Rises.readMinus.past run
  case h_22 => exact Rises.readLess.past run
  case h_23 => exact rises .readGreater run
  case h_24 => exact rises .readEquals run
  case h_25 => exact rises .readBang run
  case h_26 => exact rises .readQuestion run
  case h_28 => exact rises .readHash run
  case h_29 =>
    simp only [Runs.ite_iff] at run
    rcases run with ⟨digit, run⟩ | ⟨_, ⟨_, run⟩ | ⟨_, run⟩⟩
    · exact token (fun _ run => readNumber_moves rfl run) run
    · exact rises (.finishOperator (by decide)) run
    · simp at run
  all_goals exact rises (.finishOperator (by decide)) run

end Words

/-! ### Marks of comments -/

open LexM Tandem

/-- The characters that comments begin with. -/
def commentMarks : List Char := ['/', '<', '-', '#']

section Marks

variable {c : Char} (mark : c ∈ ' ' :: commentMarks)
include mark

theorem mark_cases : c = ' ' ∨ c = '/' ∨ c = '<' ∨ c = '-' ∨ c = '#' := by
  simpa [commentMarks] using mark

theorem digit?_of_mark {radix : Nat} : Alphabet.digit? radix c = none := by
  have none : Alphabet.digitValue? c = none := by rcases mark_cases mark with rfl | rfl | rfl | rfl | rfl <;> rfl
  rw [Alphabet.digit?, none]
  rfl

theorem isIdentifierPart_of_mark {astral : Bool} : Alphabet.isIdentifierPart astral c = false := by
  rcases mark_cases mark with rfl | rfl | rfl | rfl | rfl <;> rfl

theorem isIdentifierStart_of_mark {astral : Bool} : Alphabet.isIdentifierStart astral c = false := by
  rcases mark_cases mark with rfl | rfl | rfl | rfl | rfl <;> rfl

theorem isDecimalDigit_of_mark : Alphabet.isDecimalDigit c = false := by
  rcases mark_cases mark with rfl | rfl | rfl | rfl | rfl <;> rfl

theorem isLineTerminator_of_mark : Alphabet.isLineTerminator c = false := by
  rcases mark_cases mark with rfl | rfl | rfl | rfl | rfl <;> rfl

theorem sees_of_mark {d : Char} (other : d ∉ ' ' :: commentMarks) : (some c == some d) = false :=
  beq_eq_false_iff_ne.mpr fun same => other (Option.some.inj same ▸ mark)

end Marks

/-- A token of two texts, from `start` to `stop`, after one that ended at `last`. -/
structure Window where
  first : Source
  second : Source
  options : Options
  start : Nat
  stop : Nat
  last : Nat
  size : second.size = first.size
  inside : ∀ i, start ≤ i → i < stop → second.charAt i = first.charAt i
  /-- A space may stand where a comment began before. -/
  past : ∀ i, stop ≤ i → second.charAt i = first.charAt i ∨
    second.charAt i = some ' ' ∧ ∃ j c, stop ≤ j ∧ j ≤ i ∧ first.charAt j = some c ∧ c ∈ commentMarks
  lines : second.hasLineBreak last start = first.hasLineBreak last start

namespace Window

variable (w : Window)

/-! ### The texts -/

/-- At the end of the token the texts differ only where a comment begins. -/
theorem charAt_or {i : Nat} (le : w.start ≤ i) (le_stop : i ≤ w.stop) : w.second.charAt i = w.first.charAt i ∨
    i = w.stop ∧ w.second.charAt i = some ' ' ∧ ∃ c ∈ commentMarks, w.first.charAt i = some c := by
  rcases Nat.lt_or_eq_of_le le_stop with inside | rfl
  · exact .inl (w.inside i le inside)
  · refine (w.past w.stop (Nat.le_refl _)).imp_right ?_
    rintro ⟨space, j, c, after, before, here, mark⟩
    obtain rfl := Nat.le_antisymm after before
    exact ⟨rfl, space, c, mark, here⟩

/-- Where no comment has begun before, a look that cannot tell a comment from a space sees the same in both texts. -/
theorem glancePast {β : Type} (g : Option Char → β) (blind : ∀ c ∈ commentMarks, g (some c) = g (some ' ')) {i : Nat}
    (le : w.start ≤ i)
    (unmarked : ∀ j, w.stop ≤ j → j < i → ∀ c ∈ commentMarks, w.first.charAt j ≠ some c) :
    g (w.second.charAt i) = g (w.first.charAt i) := by
  rcases Nat.lt_or_ge i w.stop with inside | past
  · rw [w.inside i le inside]
  · obtain same | ⟨space, j, c, after, before, here, mark⟩ := w.past i past
    · rw [same]
    · obtain rfl : j = i := (Nat.lt_or_eq_of_le before).resolve_left fun lt => unmarked j after lt c mark here
      rw [space, here, blind c mark]

theorem glance {β : Type} (g : Option Char → β) (blind : ∀ c ∈ commentMarks, g (some c) = g (some ' ')) {i : Nat}
    (le : w.start ≤ i) (le_stop : i ≤ w.stop) : g (w.second.charAt i) = g (w.first.charAt i) :=
  w.glancePast g blind le fun j after before => absurd le_stop (by omega)

/-- What stands in the second text stands in the first one, spaces aside. -/
theorem charAt_of_second {i : Nat} {c : Char} (le : w.start ≤ i) (other : c ≠ ' ') (here : w.second.charAt i = some c) :
    w.first.charAt i = some c := by
  rcases Nat.lt_or_ge i w.stop with inside | past
  · rw [← w.inside i le inside, here]
  · rcases w.past i past with same | ⟨space, -⟩
    · rw [← same, here]
    · rw [space] at here
      exact (other (Option.some.inj here).symm).elim

theorem isBoundary {i : Nat} (le : w.start ≤ i) (le_stop : i ≤ w.stop) :
    w.second.isBoundary i = w.first.isBoundary i := by
  rw [Source.isBoundary, Source.isBoundary, w.size, w.glance Option.isSome (fun _ _ => rfl) le le_stop]

theorem chars {i j : Nat} (le : w.start ≤ i) (le_j : i ≤ j) (le_stop : j ≤ w.stop) :
    w.second.chars i j = w.first.chars i j := by
  have extracts : (w.second.cells.extract i j).toList = (w.first.cells.extract i j).toList := by
    congr 1
    apply Array.ext_getElem?
    intro m
    have size : w.second.cells.size = w.first.cells.size := w.size
    simp only [Array.getElem?_extract, size]
    split
    · next inside => exact Source.cells_eq_of_charAt w.size (w.inside (i + m) (Nat.le_add_right_of_le le) (by omega))
    · rfl
  rw [Source.chars, w.isBoundary le (Nat.le_trans le_j le_stop), w.isBoundary (Nat.le_trans le le_j) le_stop,
    extracts, Source.chars]

/-! ### Lexers side by side -/

/-- Two lexers at one place of the token, which differ in what they know of lines and in what they left behind. -/
structure Beside (l k : Lexer) : Prop where
  lines : k = l.relined k
  le : w.start ≤ l.pos
  start : l.token.start = w.start
  last : l.last.stop = w.last

/-- The second step gives what the first one gave. -/
def Same {α : Type} (v v' : α) (l k : Lexer) : Prop := v' = v ∧ w.Beside l k

/-- As long as the first step does not get past `z`, the second step ends as the first one does. -/
def Echoes {α : Type} (z : Nat) (l k : Lexer) (m₀ m₁ : LexM α) (Q : α → α → Lexer → Lexer → Prop) : Prop :=
  ∀ v l', Runs (setting w.first w.options) m₀ l v l' → l'.pos ≤ z →
    ∃ v' k', Runs (setting w.second w.options) m₁ k v' k' ∧ Q v v' l' k'

variable {w}

namespace Beside

variable {l k : Lexer} (h : w.Beside l k)
include h

theorem pos : k.pos = l.pos := by rw [h.lines]; rfl

theorem tokenStart : k.token.start = l.token.start := by rw [h.lines]; rfl

theorem lastStop : k.last.stop = l.last.stop := by rw [h.lines]; rfl

theorem strict : k.strict = l.strict := by rw [h.lines]; rfl

theorem inTemplate : k.inTemplate = l.inTemplate := by rw [h.lines]; rfl

theorem kind : k.kind = l.kind := by rw [h.lines]; rfl

theorem exprAllowed : k.exprAllowed = l.exprAllowed := by rw [h.lines]; rfl

theorem containsEscape : k.containsEscape = l.containsEscape := by rw [h.lines]; rfl

/-- A change that tells no lines, and leaves the start of the token and the end of the last one. -/
theorem change {c : Lexer → Lexer} (same : ∀ x, c (l.relined x) = (c l).relined (c (l.relined x)))
    (le : l.pos ≤ (c l).pos)
    (start : (c l).token.start = l.token.start) (last : (c l).last.stop = l.last.stop) : w.Beside (c l) (c k) where
  lines := by
    have same := same k
    rwa [← h.lines] at same
  le := Nat.le_trans h.le le
  start := start.trans h.start
  last := last.trans h.last

theorem move (d : Nat) : w.Beside { l with pos := l.pos + d } { k with pos := k.pos + d } :=
  h.change (c := fun l => { l with pos := l.pos + d }) (fun _ => rfl) (Nat.le_add_right ..) rfl rfl

theorem line : w.Beside { l with line := l.line + 1, lineStart := l.pos }
    { k with line := k.line + 1, lineStart := k.pos } :=
  h.change (c := fun l => { l with line := l.line + 1, lineStart := l.pos }) (fun _ => rfl) (Nat.le_refl _) rfl rfl

end Beside

namespace Echoes

variable {α β : Type} {z : Nat} {l k : Lexer} {m₀ m₁ : LexM α} {f₀ f₁ : α → LexM β} {g₀ g₁ : PUnit → LexM β}
  {P : α → α → Lexer → Lexer → Prop} {Q : β → β → Lexer → Lexer → Prop}

/-! ### Composed steps -/

protected theorem pure {v v' : α} (ends : P v v' l k) : w.Echoes z l k (pure v) (pure v') P := by
  intro x l' run inside
  obtain ⟨rfl, rfl⟩ := Runs.pure_iff.mp run
  exact ⟨v', k, Runs.pure_iff.mpr ⟨rfl, rfl⟩, ends⟩

/-- A step that never succeeds. -/
theorem fails (never : ∀ v l', ¬ Runs (setting w.first w.options) m₀ l v l') : w.Echoes z l k m₀ m₁ P :=
  fun v l' run => (never v l' run).elim

/-- A step that begins beyond `z`, or would end there. -/
theorem beyond (past : ∀ v l', Runs (setting w.first w.options) m₀ l v l' → z < l'.pos) : w.Echoes z l k m₀ m₁ P :=
  fun v l' run inside => (Nat.not_lt.mpr inside (past v l' run)).elim

/-- The run begins inside the token if it ends there. -/
theorem within (climbs : Climbs m₀) (h : l.pos ≤ z → w.Echoes z l k m₀ m₁ P) : w.Echoes z l k m₀ m₁ P :=
  fun v l' run inside => h (Nat.le_trans (climbs.forward run) inside) v l' run inside

/-- Steps one after the other, where the first one ends before `y`. -/
theorem bindTo {y : Nat} (first : w.Echoes y l k m₀ m₁ P)
    (before : ∀ v r x l', Runs (setting w.first w.options) (f₀ v) r x l' → l'.pos ≤ z → r.pos ≤ y)
    (next : ∀ v v' r t, P v v' r t → w.Echoes z r t (f₀ v) (f₁ v') Q) : w.Echoes z l k (m₀ >>= f₀) (m₁ >>= f₁) Q := by
  intro x l' run inside
  obtain ⟨v, r, run, rest⟩ := Runs.bind_iff.mp run
  obtain ⟨v', t, run', ends⟩ := first v r run (before v r x l' rest inside)
  obtain ⟨x', k', rest', ends⟩ := next v v' r t ends x l' rest inside
  exact ⟨x', k', Runs.bind_iff.mpr ⟨v', t, run', rest'⟩, ends⟩

protected theorem bind (first : w.Echoes z l k m₀ m₁ P) (forward : ∀ v, Climbs (f₀ v))
    (next : ∀ v v' r t, P v v' r t → w.Echoes z r t (f₀ v) (f₁ v') Q) : w.Echoes z l k (m₀ >>= f₀) (m₁ >>= f₁) Q :=
  first.bindTo (fun v _ _ _ run inside => Nat.le_trans ((forward v).forward run) inside) next

/-- Steps one after the other, with one value of the first. -/
theorem step (first : w.Echoes z l k m₀ m₁ w.Same) (forward : ∀ v, Climbs (f₀ v))
    (next : ∀ v r t, w.Beside r t → w.Echoes z r t (f₀ v) (f₁ v) Q) : w.Echoes z l k (m₀ >>= f₀) (m₁ >>= f₁) Q := by
  refine first.bind forward fun v v' r t same => ?_
  obtain ⟨rfl, beside⟩ := same
  exact next v' r t beside

/-- As `step`, where the first step is known to go forward. -/
theorem stepOn (climbs : Climbs m₀) (first : w.Echoes z l k m₀ m₁ w.Same) (forward : ∀ v, Climbs (f₀ v))
    (next : ∀ v r t, l.pos ≤ r.pos → w.Beside r t → w.Echoes z r t (f₀ v) (f₁ v) Q) :
    w.Echoes z l k (m₀ >>= f₀) (m₁ >>= f₁) Q := by
  have first : w.Echoes z l k m₀ m₁ fun v v' r t => l.pos ≤ r.pos ∧ w.Same v v' r t := by
    intro v l' run inside
    obtain ⟨v', k', run', same⟩ := first v l' run inside
    exact ⟨v', k', run', climbs.forward run, same⟩
  refine first.bind forward fun v v' r t ends => ?_
  obtain ⟨le, rfl, beside⟩ := ends
  exact next v' r t le beside

theorem ite {c : Prop} [Decidable c] (yes : c → w.Echoes z l k m₀ m₁ P) {n₀ n₁ : LexM α}
    (no : ¬ c → w.Echoes z l k n₀ n₁ P) :
    w.Echoes z l k (if c then m₀ else n₀) (if c then m₁ else n₁) P := by
  split
  · next h => exact yes h
  · next h => exact no h

/-! ### Looking -/

protected theorem read {f₀ f₁ : Setting → LexM β}
    (next : w.Echoes z l k (f₀ (setting w.first w.options)) (f₁ (setting w.second w.options)) Q) :
    w.Echoes z l k (read >>= f₀) (read >>= f₁) Q := next

protected theorem source {f₀ f₁ : Source → LexM β} (next : w.Echoes z l k (f₀ w.first) (f₁ w.second) Q) :
    w.Echoes z l k (LexM.source >>= f₀) (LexM.source >>= f₁) Q := next

protected theorem edition {f₀ f₁ : Nat → LexM β}
    (next : w.Echoes z l k (f₀ w.options.edition) (f₁ w.options.edition) Q) :
    w.Echoes z l k (LexM.edition >>= f₀) (LexM.edition >>= f₁) Q := next

protected theorem get {f₀ f₁ : Lexer → LexM β} (next : w.Echoes z l k (f₀ l) (f₁ k) Q) :
    w.Echoes z l k (get >>= f₀) (get >>= f₁) Q := next

variable (h : w.Beside l k)
include h

protected theorem pos {f₀ f₁ : Nat → LexM β} (next : w.Echoes z l k (f₀ l.pos) (f₁ l.pos) Q) :
    w.Echoes z l k (LexM.pos >>= f₀) (LexM.pos >>= f₁) Q := by
  have looks : w.Echoes z l k (f₀ l.pos) (f₁ k.pos) Q := h.pos.symm ▸ next
  exact looks

/-- Each lexer looks at its own text. -/
theorem charsAhead {f g : Option Char → LexM β} {n : Nat}
    (next : w.Echoes z l k (f (w.first.charAt (l.pos + n))) (g (w.second.charAt (l.pos + n))) Q) :
    w.Echoes z l k (LexM.charAhead n >>= f) (LexM.charAhead n >>= g) Q := by
  have looks : w.Echoes z l k (f (w.first.charAt (l.pos + n))) (g (w.second.charAt (k.pos + n))) Q := h.pos.symm ▸ next
  exact looks

/-- A look that cannot tell a comment from a space. -/
theorem glance {f g : Option Char → LexM β} (z_le : z ≤ w.stop) (forward : ∀ c, Climbs (f c))
    (blind : ∀ c ∈ commentMarks, g (some c) = g (some ' '))
    (next : ∀ c, w.first.charAt l.pos = c → w.Echoes z l k (f c) (g c) Q) :
    w.Echoes z l k (LexM.peek >>= f) (LexM.peek >>= g) Q := by
  refine charsAhead h fun v l' run inside => ?_
  have le := Nat.le_trans (forward _ _ _ _ _ _ run) (Nat.le_trans inside z_le)
  rw [w.glance g blind (Nat.le_trans h.le (Nat.le_add_right ..)) le]
  exact next _ rfl v l' run inside

/-- Before a comment that the first lexer sees, the second one sees a space. -/
theorem peek {f₀ f₁ : Option Char → LexM β} (z_le : z ≤ w.stop) (forward : ∀ c, Climbs (f₀ c))
    (next : ∀ c, w.first.charAt l.pos = c → w.Echoes z l k (f₀ c) (f₁ c) Q)
    (mark : ∀ c ∈ commentMarks, z ≤ l.pos → w.Echoes z l k (f₀ (some c)) (f₁ (some ' ')) Q) :
    w.Echoes z l k (LexM.peek >>= f₀) (LexM.peek >>= f₁) Q := by
  refine charsAhead h fun v l' run inside => ?_
  have le := Nat.le_trans (forward _ _ _ _ _ _ run) (Nat.le_trans inside z_le)
  obtain same | ⟨at_stop, space, c, is_mark, here⟩ := w.charAt_or h.le le
  · rw [Nat.add_zero, same]
    exact next _ rfl v l' run inside
  · rw [Nat.add_zero] at run
    rw [here] at run
    rw [Nat.add_zero, space]
    exact mark c is_mark (by omega) v l' run inside

/-- Before the end of the token both lexers see the same. -/
theorem peekInside {f₀ f₁ : Option Char → LexM β} (z_lt : z < w.stop) (forward : ∀ c, Climbs (f₀ c))
    (next : ∀ c, w.first.charAt l.pos = c → w.Echoes z l k (f₀ c) (f₁ c) Q) :
    w.Echoes z l k (LexM.peek >>= f₀) (LexM.peek >>= f₁) Q := by
  refine charsAhead h fun v l' run inside => ?_
  have le : l.pos ≤ l'.pos := (forward _).forward run
  rw [w.inside (l.pos + 0) h.le (by omega)]
  exact next _ rfl v l' run inside

/-- A look past characters that are no mark of a comment. -/
theorem glancePast {f g : Option Char → LexM β} {n : Nat}
    (unmarked : ∀ i, w.stop ≤ i → i < l.pos + n → ∀ c ∈ commentMarks, w.first.charAt i ≠ some c)
    (blind : ∀ c ∈ commentMarks, g (some c) = g (some ' '))
    (next : ∀ c, w.first.charAt (l.pos + n) = c → w.Echoes z l k (f c) (g c) Q) :
    w.Echoes z l k (LexM.charAhead n >>= f) (LexM.charAhead n >>= g) Q := by
  refine charsAhead h ?_
  rw [w.glancePast g blind (Nat.le_trans h.le (Nat.le_add_right ..)) unmarked]
  exact next _ rfl

/-- What the second lexer sees, the first one sees. -/
theorem seesAny {f₀ f₁ : Bool → LexM β} {n : Nat} {c : Char} (other : c ≠ ' ')
    (next : ∀ b b', (b' = true → b = true) → w.Echoes z l k (f₀ b) (f₁ b') Q) :
    w.Echoes z l k (LexM.seesAhead n c >>= f₀) (LexM.seesAhead n c >>= f₁) Q :=
  charsAhead (f := fun x => f₀ (x == some c)) (g := fun x => f₁ (x == some c)) h <| next _ _ fun there =>
    beq_iff_eq.mpr (w.charAt_of_second (Nat.le_trans h.le (Nat.le_add_right ..)) other (beq_iff_eq.mp there))

theorem seesPast {f₀ f₁ : Bool → LexM β} {n : Nat} {c : Char} (other : c ∉ ' ' :: commentMarks)
    (unmarked : ∀ i, w.stop ≤ i → i < l.pos + n → ∀ m ∈ commentMarks, w.first.charAt i ≠ some m)
    (next : ∀ b, (b = true → w.first.charAt (l.pos + n) = some c) → w.Echoes z l k (f₀ b) (f₁ b) Q) :
    w.Echoes z l k (LexM.seesAhead n c >>= f₀) (LexM.seesAhead n c >>= f₁) Q := by
  refine glancePast (f := fun x => f₀ (x == some c)) (g := fun x => f₁ (x == some c)) h unmarked
    (fun d mark => ?_) fun x seen => ?_
  · rw [sees_of_mark (.tail _ mark) other, sees_of_mark (.head _) other]
  · exact next _ fun yes => seen.trans (beq_iff_eq.mp yes)

/-- What the first lexer sees before the end of the token, the second one sees too. -/
theorem seesAhead {f₀ f₁ : Bool → LexM β} {n : Nat} {c : Char} (z_le : z ≤ w.stop) (other : c ≠ ' ')
    (past : ∀ v l', w.first.charAt (l.pos + n) = some c → Runs (setting w.first w.options) (f₀ true) l v l' →
      l.pos + n < l'.pos)
    (yes : w.first.charAt (l.pos + n) = some c → w.Echoes z l k (f₀ true) (f₁ true) Q)
    (no : w.first.charAt (l.pos + n) ≠ some c → w.Echoes z l k (f₀ false) (f₁ false) Q) :
    w.Echoes z l k (LexM.seesAhead n c >>= f₀) (LexM.seesAhead n c >>= f₁) Q := by
  refine charsAhead (f := fun x => f₀ (x == some c)) (g := fun x => f₁ (x == some c)) h fun v l' run inside => ?_
  have le : w.start ≤ l.pos + n := Nat.le_trans h.le (Nat.le_add_right ..)
  by_cases here : w.first.charAt (l.pos + n) = some c
  · have run : Runs (setting w.first w.options) (f₀ true) l v l' := by simpa [here] using run
    have inside' := past v l' here run
    rw [w.inside _ le (by omega), here]
    simpa using yes here v l' run inside
  · have run : Runs (setting w.first w.options) (f₀ false) l v l' := by simpa [beq_eq_false_iff_ne.mpr here] using run
    have there : w.second.charAt (l.pos + n) ≠ some c := fun there => here (w.charAt_of_second le other there)
    simpa [beq_eq_false_iff_ne.mpr there] using no here v l' run inside

/-- A look at the cursor for a character that is no mark of a comment. -/
theorem sees {f₀ f₁ : Bool → LexM β} {c : Char} (z_le : z ≤ w.stop) (other : c ∉ ' ' :: commentMarks)
    (forward : ∀ b, Climbs (f₀ b))
    (next : ∀ b, (b = true → w.first.charAt l.pos = some c) → w.Echoes z l k (f₀ b) (f₁ b) Q) :
    w.Echoes z l k (LexM.sees c >>= f₀) (LexM.sees c >>= f₁) Q := by
  refine glance (f := fun x => f₀ (x == some c)) (g := fun x => f₁ (x == some c)) h z_le (fun _ => forward _)
    (fun d mark => ?_) fun x seen => ?_
  · rw [sees_of_mark (.tail _ mark) other, sees_of_mark (.head _) other]
  · exact next _ fun yes => seen.trans (beq_iff_eq.mp yes)

/-! ### Moving -/

/-- A change that tells no lines. -/
theorem alter {c : Lexer → Lexer} (same : ∀ x, c (l.relined x) = (c l).relined (c (l.relined x)))
    (le : l.pos ≤ (c l).pos) (start : (c l).token.start = l.token.start) (last : (c l).last.stop = l.last.stop)
    (next : ∀ r t, r = c l → w.Beside r t → w.Echoes z r t (g₀ ⟨⟩) (g₁ ⟨⟩) Q) :
    w.Echoes z l k (modify c >>= g₀) (modify c >>= g₁) Q :=
  next _ _ rfl (h.change same le start last)

protected theorem advance {d : Nat} (next : ∀ r t, r.pos = l.pos + d → w.Beside r t →
    w.Echoes z r t (g₀ ⟨⟩) (g₁ ⟨⟩) Q) :
    w.Echoes z l k (LexM.advance d >>= g₀) (LexM.advance d >>= g₁) Q := next _ _ rfl (h.move d)

protected theorem skip {c : Char} (next : ∀ r t, r.pos = l.pos + c.utf8Size → w.Beside r t →
    w.Echoes z r t (g₀ ⟨⟩) (g₁ ⟨⟩) Q) :
    w.Echoes z l k (LexM.skip c >>= g₀) (LexM.skip c >>= g₁) Q := .advance h next

omit h in
/-- A character beyond `z` is never passed. -/
theorem skip_beyond {c : Char} (z_le : z ≤ l.pos) (forward : Climbs (g₀ ⟨⟩)) {m₁ : LexM β} :
    w.Echoes z l k (LexM.skip c >>= g₀) m₁ Q := by
  refine beyond fun v l' run => ?_
  simp only [Runs.bind_iff, Runs.skip_iff, Runs.exists_unit, exists_eq_left] at run
  have later := forward _ _ _ _ _ run
  have := c.utf8Size_pos
  exact Nat.lt_of_lt_of_le (by dsimp only; omega) later

protected theorem newLine (next : ∀ r t, w.Beside r t → w.Echoes z r t (g₀ ⟨⟩) (g₁ ⟨⟩) Q) :
    w.Echoes z l k (LexM.newLine >>= g₀) (LexM.newLine >>= g₁) Q := next _ _ h.line

theorem endsLine : w.Echoes z l k LexM.newLine LexM.newLine w.Same := by
  intro u l' run _
  obtain rfl := Runs.newLine_iff.mp run
  exact ⟨⟨⟩, _, Runs.newLine_iff.mpr rfl, rfl, h.line⟩

theorem endCarriageReturn (z_le : z ≤ w.stop) :
    w.Echoes z l k LexM.endCarriageReturn LexM.endCarriageReturn w.Same := by
  refine sees h z_le (by decide) (by grind) fun b _ => ite (fun _ => ?_) fun _ => endsLine h
  exact .advance h fun _ _ _ h => endsLine h

/-- The end of a token. -/
theorem finish {kind : TokenKind} {value : TokenValue} :
    w.Echoes z l k (LexM.finish kind value) (LexM.finish kind value) w.Same := by
  -- The states between the end of the token and the update of the contexts.
  let ended (l : Lexer) : Lexer :=
    { l with kind, value, token := { l.token with stop := l.pos, stopPosition := l.position } }
  have before : w.Beside (ended l) (ended k) := h.change (fun _ => rfl) (Nat.le_refl _) rfl rfl
  have same : ((ended l).toCursor.relined (ended k).toCursor).lineBreakBefore w.second =
      (ended l).toCursor.lineBreakBefore w.first := by
    have lines := w.lines
    rw [← h.last, ← h.start] at lines
    exact lines
  have cursors : (ended k).toCursor = (ended l).toCursor.relined (ended k).toCursor :=
    congrArg Lexer.toCursor before.lines
  have updated : (ended k).toCursor.updateContext w.second w.options.edition l.kind =
      ((ended l).toCursor.updateContext w.first w.options.edition l.kind).relined (ended k).toCursor := by
    rw [← Cursor.relined_updateContext same, ← cursors]
  obtain ⟨contexts, exprAllowed, kept⟩ :=
    Cursor.sameToken_updateContext w.first w.options.edition l.kind (ended l).toCursor
  have after : w.Beside { ended l with toCursor := (ended l).toCursor.updateContext w.first w.options.edition l.kind }
      { ended k with toCursor := (ended k).toCursor.updateContext w.second w.options.edition k.kind } := by
    refine ⟨?_, ?_, ?_, ?_⟩
    · rw [h.kind, updated, before.lines]
      rfl
    · rw [kept]
      exact before.le
    · rw [kept]
      exact before.start
    · rw [kept]
      exact before.last
  intro u l' run _
  cases run
  exact ⟨⟨⟩, _, rfl, rfl, after⟩

theorem finishOperator {kind : TokenKind} {size : Nat} :
    w.Echoes z l k (LexM.finishOperator kind size) (LexM.finishOperator kind size) w.Same :=
  .advance h fun _ _ _ h => finish h

/-! ### Repeating -/

/-- How two passes end: they go on alike, or are done as `P` says. -/
def Turns (w : Window) (P : β → β → Lexer → Lexer → Prop) : Pass α β → Pass α β → Lexer → Lexer → Prop
  | .again a, .again a', l, k => w.Same a a' l k
  | .done v, .done v', l, k => P v v' l k
  | _, _, _, _ => False

omit h in
theorem loop {pass : α → LexM (Pass α β)} (forward : ∀ a, Climbs (pass a))
    (each : ∀ a r t, w.Beside r t → w.Echoes z r t (pass a) (pass a) (Turns w Q)) (fuel : Nat) (a : α)
    (h : w.Beside l k) :
    w.Echoes z l k (LexM.loop pass fuel a) (LexM.loop pass fuel a) Q := by
  induction fuel generalizing a l k with
  | zero => exact fails fun _ _ => Runs.lexUnexpected_iff
  | succ fuel ih =>
    refine (each a l k h).bind (fun x => ?_) fun x x' r t ends => ?_
    · cases x with
      | again a => exact .loop forward fuel a
      | done v => exact .pure
    · match x, x', ends with
      | .again a, .again _, ends => exact ends.1 ▸ ih a ends.2
      | .done v, .done v', ends => exact .pure ends

theorem repeatForward {pass : α → LexM (Pass α β)} {a : α} (forward : ∀ a, Climbs (pass a))
    (each : ∀ a r t, w.Beside r t → w.Echoes z r t (pass a) (pass a) (Turns w Q)) :
    w.Echoes z l k (LexM.repeatForward a pass) (LexM.repeatForward a pass) Q := by
  refine .source (.pos h ?_)
  rw [w.size]
  exact loop forward each _ a h

end Echoes
end Window
end ScriptSyntax
