import ScriptSyntax.Proofs.Lexer.Echo
import ScriptSyntax.Proofs.Lexer.Gap
import ScriptSyntax.Proofs.Lexer.Opening
import ScriptSyntax.Proofs.Source.Blanked
import ScriptSyntax.Proofs.Tandem.Offset

/-!
A text has the tokens that it has with its comments blanked out: a gap leaves alone in a lexer what the next token
depends on, and the token behind it is read from where the gap ends.
-/

namespace ScriptSyntax

open LexM

/-! ### Gaps -/

/-- What a gap leaves alone in a lexer. -/
def Lexer.frame (l : Lexer) : Lexer :=
  { l with
    pos := 0, line := 0, lineStart := 0, tokens := [], comments := []
    token := ⟨0, l.token.stop, default, default⟩
    last := ⟨l.last.start, l.last.stop, default, default⟩ }

section Frame

variable {s : Setting} {l l' : Lexer} {u : Unit}

theorem skipLineComment_frame {marks : Nat} (run : Runs s (skipLineComment marks) l u l') : l'.frame = l.frame := by
  simp [skipLineComment, note] at run
  subst run
  rfl

theorem skipBlockComment_frame (run : Runs s skipBlockComment l u l') : l'.frame = l.frame := by
  simp [skipBlockComment] at run
  split at run
  · simp at run
  · simp [note] at run
    obtain ⟨m, count, rfl⟩ := run
    obtain ⟨line, lineStart, rfl⟩ := countLines_same count
    rfl

theorem endCarriageReturn_frame (run : Runs s endCarriageReturn l u l') : l'.frame = l.frame := by
  simp [endCarriageReturn] at run
  rcases run with ⟨-, rfl⟩ | ⟨-, rfl⟩ <;> rfl

theorem skipBlankPass_frame {x : Pass Unit Unit} (run : Runs s skipBlankPass l x l') : l'.frame = l.frame := by
  simp only [skipBlankPass, Runs.bind_iff, Runs.peek_iff, Runs.exists_look] at run
  split at run
  · simp at run
    rw [run.2]
  · simp at run
    exact (endCarriageReturn_frame run.1).trans rfl
  · simp at run
    rcases run with ⟨-, run, -⟩ | ⟨-, ⟨-, run, -⟩ | ⟨-, -, rfl⟩⟩
    · exact skipBlockComment_frame run
    · exact skipLineComment_frame run
    · rfl
  · simp at run
    rcases run with ⟨-, rfl, rfl⟩ | ⟨-, ⟨-, rfl, rfl⟩ | ⟨-, rfl, rfl⟩⟩ <;> rfl

/-- The cursor comes to rest where the gap ends. -/
theorem skipBlank_rests (run : Runs s skipBlank l u l') : l'.frame = l.frame ∧ s.source.skipBlank l'.pos = l'.pos := by
  obtain ⟨_, m, before, done⟩ := Runs.of_repeatForward (fun _ m => m.frame = l.frame) rfl
    (fun before pass => (skipBlankPass_frame pass).trans before) run
  obtain ⟨-, rfl, ended⟩ := (skipBlankPass_spec done).resolve_left (by simp)
  exact ⟨before, ended⟩

/-- A comment that looks like a token leaves the frame alone. -/
theorem readToken_frame {c : Char} (run : Runs s (readToken c) l false l') : l'.frame = l.frame := by
  obtain ⟨-, run⟩ | ⟨-, run⟩ := readToken_passes run
  · simp [readMinus, atClosingComment] at run
    exact skipLineComment_frame run.2.2
  · simp [readLess] at run
    exact skipLineComment_frame run.2.2

end Frame

/-! ### The next token -/

/-- What the next token is read from: the cursor is moved over a gap, and then a token begins. -/
inductive Lexer.Reads (s : Setting) (l l' : Lexer) : Prop
  | template (inside : l.context = .templateText) (more : ¬ s.source.size ≤ l.pos)
      (read : Runs s readTemplate l.begin ⟨⟩ l') : Reads s l l'
  | ends {m : Lexer} (frame : m.frame = l.frame) (level : l.context = .templateText → m.pos = l.pos)
      (atEnd : s.source.size ≤ m.pos)
    (read : Runs s (finish .eof .none) m.begin ⟨⟩ l') : Reads s l l'
  | token {m : Lexer} {c : Char} (outside : l.context ≠ .templateText) (frame : m.frame = l.frame)
    (gap : s.source.skipBlank m.pos = m.pos) (here : s.source.charAt m.pos = some c)
      (read : Runs s (readToken c) m.begin true l') :
    Reads s l l'

section Next

variable {s : Setting} {l l' : Lexer} {u : Unit} (plain : s.reader = none)
include plain

theorem readPass_reads (run : Runs s (readPass ()) l (.done ()) l') : l.Reads s l' := by
  by_cases inside : l.context = .templateText
  · simp [readPass, readExtension, plain, inside, Context.keepsBlank] at run
    rcases run with ⟨atEnd, ended⟩ | ⟨more, template⟩
    · exact .ends rfl (fun _ => rfl) atEnd ended
    · exact .template inside (by simpa using more) template
  · simp [readPass, readExtension, plain, inside, Context.keepsBlank] at run
    obtain ⟨m, blank, run⟩ := run
    obtain ⟨frame, gap⟩ := skipBlank_rests blank
    rcases run with ⟨atEnd, ended⟩ | ⟨_, run⟩
    · exact .ends frame (fun h => (inside h).elim) atEnd ended
    · split at run
      · next c here =>
        simp at run
        exact .token inside frame gap here run
      · simp at run

/-- Only a comment outside a template makes another pass. -/
theorem readPass_again (run : Runs s (readPass ()) l (.again ()) l') :
    l.context ≠ .templateText ∧ l'.frame = l.frame := by
  by_cases inside : l.context = .templateText
  · simp [readPass, readExtension, plain, inside, Context.keepsBlank] at run
  · simp [readPass, readExtension, plain, inside, Context.keepsBlank] at run
    obtain ⟨m, blank, _, run⟩ := run
    split at run
    · simp at run
      exact ⟨inside, (readToken_frame (l := m.begin) run).trans (skipBlank_rests blank).1⟩
    · simp at run

theorem readNext_reads (run : Runs s readNext l u l') : l.Reads s l' := by
  obtain ⟨_, m, before, done⟩ :=
      Runs.of_repeatForward (fun _ m => m = l ∨ l.context ≠ .templateText ∧ m.frame = l.frame) (.inl rfl) (by
    rintro _ _ m n before pass
    obtain ⟨outside, frame⟩ := readPass_again plain pass
    rcases before with rfl | ⟨outside, same⟩
    · exact .inr ⟨outside, frame⟩
    · exact .inr ⟨outside, frame.trans same⟩) run
  have reads := readPass_reads plain done
  rcases before with rfl | ⟨outside, same⟩
  · exact reads
  · cases reads with
    | template inside =>
      have contexts : m.contexts = l.contexts := show m.frame.contexts = l.frame.contexts from same ▸ rfl
      rw [Cursor.context, contexts] at inside
      exact (outside inside).elim
    | ends frame _ atEnd read => exact .ends (frame.trans same) (fun inside => (outside inside).elim) atEnd read
    | token _ frame gap here read => exact .token outside (frame.trans same) gap here read

end Next

/-! ### A gap without comments -/

/-- White space is skipped character by character, but a line feed goes with the carriage return before it. -/
theorem skipBlankPass_gap {s : Setting} {k : Lexer} {c : Char} (here : s.source.charAt k.pos = some c)
    (gap : Alphabet.isGap c = true) :
    ∃ k', Runs s skipBlankPass k (.again ()) k' ∧ k'.frame = k.frame ∧
      (k'.pos = k.pos + c.utf8Size ∨ c = '\r' ∧ s.source.charAt (k.pos + 1) = some '\n' ∧ k'.pos = k.pos + 2) := by
  simp only [skipBlankPass, Runs.bind_iff, Runs.peek_iff, Runs.exists_look, here]
  split
  · next none => cases none
  · next same =>
    obtain rfl := Option.some.inj same
    by_cases feed : s.source.charAt (k.pos + 1) = some '\n'
    · refine ⟨{ k with pos := k.pos + 2, line := k.line + 1, lineStart := k.pos + 2 }, ?_, rfl, .inr ⟨rfl, feed, rfl⟩⟩
      simp [endCarriageReturn, feed]
    · refine ⟨{ k with pos := k.pos + 1, line := k.line + 1, lineStart := k.pos + 1 }, ?_, rfl, .inl rfl⟩
      simp [endCarriageReturn, feed]
  · next same =>
    obtain rfl := Option.some.inj same
    exact absurd gap (by decide)
  · next same =>
    obtain rfl := Option.some.inj same
    cases ends : Alphabet.isLineTerminator c with
    | true =>
      refine ⟨{ k with pos := k.pos + c.utf8Size, line := k.line + 1, lineStart := k.pos + c.utf8Size },
        ?_, rfl, .inl rfl⟩
      simp
    | false =>
      have blank : Alphabet.isBlank c = true := by simpa [Alphabet.isGap, ends] using gap
      refine ⟨{ k with pos := k.pos + c.utf8Size }, ?_, rfl, .inl rfl⟩
      simp [blank]

theorem skipBlankPass_stop {s : Setting} {k : Lexer} (stop : s.source.skipBlank k.pos = k.pos) :
    Runs s skipBlankPass k (.done ()) k := by
  cases pass : skipBlankPass s k with
  | error e k' =>
    have open' := (skipBlankPass_throws pass).2
    have ended : s.source.charAt k.pos = none := by rw [← stop, open', Source.charAt_size]
    have done : Runs s skipBlankPass k (.done ()) k := by
      simp only [skipBlankPass, Runs.bind_iff, Runs.peek_iff, Runs.exists_look, ended]
      exact Runs.pure_iff.mpr ⟨rfl, rfl⟩
    rw [show skipBlankPass s k = .ok (.done ()) k from done] at pass
    cases pass
  | ok x k' =>
    rcases skipBlankPass_spec pass with ⟨rfl, -, same⟩ | ⟨rfl, rfl, -⟩
    · have moves := (skipBlankPass_moves pass).1
      have later := s.source.le_skipBlank k'.pos
      rw [same, stop] at later
      exact absurd later (Nat.not_le_of_lt moves)
    · exact pass

/-- Where only white space stands before the end of the gap, the cursor gets there. -/
theorem skipBlank_clear {s : Setting} {k : Lexer} {j : Nat} (le : k.pos ≤ j) (first : s.source.isBoundary k.pos = true)
    (last : s.source.isBoundary j = true) (clear : ∀ i c, k.pos ≤ i → i < j → s.source.charAt i = some c →
      Alphabet.isGap c = true)
    (stop : s.source.skipBlank j = j) : ∃ k', Runs s skipBlank k ⟨⟩ k' ∧ k'.pos = j ∧ k'.frame = k.frame := by
  have loop (fuel : Nat) : ∀ k : Lexer, j - k.pos < fuel → k.pos ≤ j → s.source.isBoundary k.pos = true →
      (∀ i c, k.pos ≤ i → i < j → s.source.charAt i = some c → Alphabet.isGap c = true) →
      ∃ k', Runs s (LexM.loop (fun _ => skipBlankPass) fuel ()) k ⟨⟩ k' ∧ k'.pos = j ∧ k'.frame = k.frame := by
    induction fuel with
    | zero => exact fun _ enough => absurd enough (Nat.not_lt_zero _)
    | succ fuel ih =>
      intro k enough le first clear
      rcases Nat.lt_or_eq_of_le le with lt | rfl
      · obtain ⟨c, here⟩ :=
          Source.charAt_of_isBoundary first (Nat.lt_of_lt_of_le lt (Source.le_size_of_isBoundary last))
        obtain ⟨m, pass, frame, moved⟩ := skipBlankPass_gap here (clear k.pos c (Nat.le_refl _) lt here)
        have after : k.pos < m.pos ∧ m.pos ≤ j ∧ s.source.isBoundary m.pos = true := by
          have next := Source.next_le here lt last
          rcases moved with moved | ⟨rfl, feed, moved⟩
          · rw [moved]
            exact ⟨Nat.lt_add_of_pos_right c.utf8Size_pos, next, Source.isBoundary_next here⟩
          · -- The gap does not end between the two characters.
            have apart : k.pos + 1 ≠ j := by
              rintro rfl
              rw [Source.skipBlank_gap feed (by decide)] at stop
              have later := s.source.le_skipBlank (k.pos + 1 + '\n'.utf8Size)
              rw [stop] at later
              exact absurd later (Nat.not_le_of_lt (Nat.lt_add_of_pos_right (Char.utf8Size_pos _)))
            have next := Source.next_le feed (Nat.lt_of_le_of_ne next apart) last
            rw [moved]
            exact ⟨Nat.lt_add_of_pos_right (by decide), next, Source.isBoundary_next feed⟩
        obtain ⟨k', run, pos, same⟩ := ih m (by omega) after.2.1 after.2.2 fun i c le => clear i c (by omega)
        exact ⟨k', Runs.bind_iff.mpr ⟨_, m, pass, run⟩, pos, same.trans frame⟩
      · exact ⟨k, Runs.bind_iff.mpr ⟨_, k, skipBlankPass_stop stop, Runs.pure_iff.mpr ⟨rfl, rfl⟩⟩, rfl, rfl⟩
  have inside := Source.le_size_of_isBoundary last
  obtain ⟨k', run, after⟩ := loop (s.source.size - k.pos + 2) k (by omega) le first clear
  exact ⟨k', by simpa only [skipBlank, repeatForward, Runs.bind_iff, Runs.lexSource_iff, Runs.pos_iff,
    Runs.exists_look] using run, after⟩

open Tandem (setting)

/-! ### One token -/

section Pass

variable {s : Setting} {k m k' : Lexer} (plain : s.reader = none)
include plain

omit plain in
/-- One pass is enough where no comment looks like a token. -/
theorem readNext_of_pass (pass : Runs s (readPass ()) k (.done ()) k') : Runs s readNext k ⟨⟩ k' := by
  simp only [readNext, repeatForward, Runs.bind_iff, Runs.lexSource_iff, Runs.pos_iff, Runs.exists_look]
  exact Runs.bind_iff.mpr ⟨_, k', pass, Runs.pure_iff.mpr ⟨rfl, rfl⟩⟩

theorem readNext_of_template (inside : k.context = .templateText) (more : ¬ s.source.size ≤ k.pos)
    (read : Runs s readTemplate k.begin ⟨⟩ k') :
    Runs s readNext k ⟨⟩ k' := by
  refine readNext_of_pass ?_
  simp [readPass, readExtension, plain, inside, Context.keepsBlank]
  exact .inr ⟨by omega, read⟩

theorem readNext_of_eof (level : k.context = .templateText → m = k)
    (gap : k.context ≠ .templateText → Runs s skipBlank k ⟨⟩ m)
    (atEnd : s.source.size ≤ m.pos) (read : Runs s (finish .eof .none) m.begin ⟨⟩ k') : Runs s readNext k ⟨⟩ k' := by
  refine readNext_of_pass ?_
  by_cases inside : k.context = .templateText
  · obtain rfl := level inside
    simp [readPass, readExtension, plain, inside, Context.keepsBlank]
    exact .inl ⟨atEnd, read⟩
  · simp [readPass, readExtension, plain, inside, Context.keepsBlank]
    exact ⟨m, gap inside, .inl ⟨atEnd, read⟩⟩

theorem readNext_of_token {c : Char} (outside : k.context ≠ .templateText) (gap : Runs s skipBlank k ⟨⟩ m)
    (here : s.source.charAt m.pos = some c) (read : Runs s (readToken c) m.begin true k') :
    Runs s readNext k ⟨⟩ k' := by
  refine readNext_of_pass ?_
  have inside := Source.lt_size_of_charAt here
  simp [readPass, readExtension, plain, outside, Context.keepsBlank]
  refine ⟨m, gap, .inr ⟨inside, ?_⟩⟩
  rw [here]
  simp
  exact read

end Pass

namespace Window

variable {w : Window} {l l' k : Lexer} {u : Unit}

/-- Tokens that begin at one place, after the same. -/
theorem Beside.begin (frame : k.frame = l.frame) (pos : k.pos = l.pos) (start : l.pos = w.start)
    (last : l.last.stop = w.last) :
    w.Beside l.begin k.begin := by
  refine ⟨?_, Nat.le_of_eq start.symm, start, last⟩
  obtain ⟨⟨⟩⟩ := l
  obtain ⟨⟨⟩⟩ := k
  simp only [Lexer.frame, Lexer.mk.injEq, Cursor.mk.injEq, Extent.mk.injEq] at frame pos
  obtain ⟨⟨-, -, -, rfl, rfl, ⟨-, stop, -⟩, ⟨first, ends, -⟩, rfl, rfl, rfl⟩, rfl, rfl, -⟩ := frame
  subst pos
  simp only [Lexer.begin, Lexer.relined, Cursor.relined, ← stop, ← first, ← ends]

theorem frame_of_beside {l k : Lexer} (h : w.Beside l k) : k.frame = l.frame := by
  rw [h.lines]
  rfl

theorem lastOf {l m : Lexer} (frame : m.frame = l.frame) : l.last.stop = m.last.stop :=
  show l.frame.last.stop = m.frame.last.stop from frame ▸ rfl

/-- No gap and no comment begins where a token does. -/
theorem skipBlank_first {c : Char} (gap : w.first.skipBlank w.start = w.start) (here : w.first.charAt w.start = some c)
    (here' : w.second.charAt w.start = some c) : w.second.skipBlank w.start = w.start := by
  have notGap : Alphabet.isGap c = false := by
    by_contra isGap
    rw [Source.skipBlank_gap here (by simpa using isGap)] at gap
    have later := w.first.le_skipBlank (w.start + c.utf8Size)
    rw [gap] at later
    exact absurd later (Nat.not_le_of_lt (Nat.lt_add_of_pos_right c.utf8Size_pos))
  have plain := w.first.opensComment_skipBlank w.start
  rw [gap] at plain
  refine Source.skipBlank_stop here' notGap fun slash => ?_
  subst slash
  have absent (d : Char) (other : d ≠ ' ') (none : w.first.has (w.start + 1) d = false) :
      w.second.has (w.start + 1) d = false := by
    by_contra there
    have seen := w.charAt_of_second (Nat.le_succ _) other (Source.has_iff.mp (by simpa using there))
    rw [Source.has_iff.mpr seen] at none
    cases none
  have alone : w.first.has (w.start + 1) '/' = false ∧ w.first.has (w.start + 1) '*' = false := by
    simpa [Source.opensComment, Source.spells, Source.has, here] using plain
  exact ⟨absent '/' (by decide) alone.1, absent '*' (by decide) alone.2⟩

/-- The next token is read in the second text as in the first one, from a cursor that only white space parts from it. -/
theorem readNext (run : Runs (setting w.first w.options) LexM.readNext l u l') (start : l'.token.start = w.start)
    (stop : l'.pos = w.stop)
    (last : l.last.stop = w.last) (frame : k.frame = l.frame) (level : l.context = .templateText → k.pos = l.pos)
    (le : k.pos ≤ w.start) (boundary : w.second.isBoundary k.pos = true) (place : w.second.isBoundary w.start = true)
    (clear : ∀ i c, k.pos ≤ i → i < w.start → w.second.charAt i = some c → Alphabet.isGap c = true) :
    ∃ k', Runs (setting w.second w.options) LexM.readNext k ⟨⟩ k' ∧ w.Beside l' k' := by
  have context : k.context = l.context := by
    have contexts : k.contexts = l.contexts := show k.frame.contexts = l.frame.contexts from frame ▸ rfl
    rw [Cursor.context, Cursor.context, contexts]
  cases readNext_reads rfl run with
  | template inside more read =>
    have begins : l.pos = w.start := by
      rw [← start, (readTemplate_spec rfl (l := l.begin) read).1.start]
      rfl
    obtain ⟨_, k', read', -, beside⟩ :=
      Echoes.readTemplate (Beside.begin frame (level inside) begins last) (Nat.le_refl w.stop) _ l' read
        (Nat.le_of_eq stop)
    refine ⟨k', readNext_of_template rfl (context.trans inside) ?_ read', beside⟩
    show ¬ w.second.size ≤ k.pos
    rw [w.size, level inside]
    exact more
  | @ends m same at' atEnd read =>
    obtain ⟨-, -, token, -⟩ := finish_spec (s := setting w.first w.options) (l := m.begin) rfl read
    have begins : m.pos = w.start := by
      rw [← start, token]
      rfl
    have atStart : w.start = w.second.size :=
      Nat.le_antisymm (Source.le_size_of_isBoundary place) (w.size ▸ begins ▸ atEnd)
    obtain ⟨n, skips, pos, kept⟩ : ∃ n, ((k.context = .templateText → n = k) ∧
        (k.context ≠ .templateText → Runs (setting w.second w.options) skipBlank k ⟨⟩ n)) ∧ n.pos = m.pos ∧
          n.frame = m.frame := by
      by_cases inside : k.context = .templateText
      · have inside' := context.symm.trans inside
        exact ⟨k, ⟨fun _ => rfl, fun outside => (outside inside).elim⟩, (level inside').trans (at' inside').symm,
          frame.trans same.symm⟩
      · have ended : w.second.skipBlank w.start = w.start := Source.skipBlank_end (atStart ▸ w.second.charAt_size)
        obtain ⟨n, skips, pos, kept⟩ := skipBlank_clear (s := setting w.second w.options) le boundary place clear ended
        exact ⟨n, ⟨fun h => (inside h).elim, fun _ => skips⟩, pos.trans begins.symm, kept.trans (frame.trans same.symm)⟩
    obtain ⟨_, k', read', -, beside⟩ :=
      Echoes.finish (Beside.begin kept pos begins (lastOf same ▸ last)) _ l' read (Nat.le_of_eq stop)
    exact ⟨k', readNext_of_eof rfl skips.1 skips.2 (by rw [pos, begins, atStart]) read', beside⟩
  | @token m c outside same gap here read =>
    have begins : m.pos = w.start := by
      rw [← start, ((readToken_spec rfl (l := m.begin) here read).resolve_right (by simp)).2.start]
      rfl
    have started : m.pos < w.stop := stop ▸ readToken_moves (l := m.begin) here read
    have here' : w.second.charAt w.start = some c := by
      rw [w.inside w.start (Nat.le_refl _) (begins ▸ started), ← begins]
      exact here
    have stays : w.second.skipBlank w.start = w.start := skipBlank_first (begins ▸ gap) (begins ▸ here) here'
    obtain ⟨n, skips, pos, kept⟩ := skipBlank_clear (s := setting w.second w.options) le boundary place clear stays
    have beside : w.Beside m.begin n.begin :=
      Beside.begin (kept.trans (frame.trans same.symm)) (pos.trans begins.symm) begins (lastOf same ▸ last)
    obtain ⟨k', read', beside⟩ :=
      Repeats.readToken (c := c) beside (Nat.le_refl w.stop) begins started l' read (Nat.le_of_eq stop)
    exact ⟨k', readNext_of_token rfl (context ▸ outside) skips (pos ▸ here') read', beside⟩

end Window

/-! ### Whole texts -/

/-- Is the offset in one of the comments? -/
def hides (comments : List Comment) (i : Nat) : Bool := comments.any fun c => decide (c.start ≤ i ∧ i < c.stop)

/-- The text with the comments blanked out. -/
def withoutComments (text : String) (comments : List Comment) : String :=
  String.ofList (blanked (hides comments) 0 text.toList)

theorem hides_iff {comments : List Comment} {i : Nat} :
    hides comments i = true ↔ ∃ c ∈ comments, c.start ≤ i ∧ i < c.stop := by
  simp [hides]

/-- A comment begins with one of the marks. -/
theorem Comment.Spelled.mark {source : Source} {c : Comment} (spelled : c.Spelled source) :
    ∃ m ∈ commentMarks, source.charAt c.start = some m := by
  cases spelled with
  | block stop kind opens =>
    exact ⟨'/', .head _, (Source.spells_cons.mp opens).1⟩
  | line mark known kind opens =>
    have first : lineMarks.all (fun mark => mark.head?.any (commentMarks.contains ·)) = true := rfl
    have head := List.all_eq_true.mp first mark known
    cases mark with
    | nil => simp at head
    | cons m rest => exact ⟨m, by simpa using head, (Source.spells_cons.mp opens).1⟩

section Whole

variable {a b : Source} {comments : List Comment} {start stop last : Nat}

/-- Around a token outside all comments. -/
def Source.Blanked.window (h : Blanked (hides comments) a b) (o : Options) (spelled : ∀ c ∈ comments, c.Spelled a)
    (apart : ∀ c ∈ comments, stop ≤ c.start ∨ c.stop ≤ start) (le : start ≤ stop) (place : a.isBoundary start = true)
    (lastPlace : a.isBoundary last = true) : Window where
  first := a
  second := b
  options := o
  start := start
  stop := stop
  last := last
  size := h.size
  inside i le_i lt := by
    refine (h.charAt_or i).resolve_right ?_
    rintro ⟨-, j, c, here, le_j, lt_j, hidden⟩
    obtain ⟨d, mem, after_start, before_stop⟩ := hides_iff.mp hidden
    rcases apart d mem with before | after
    · omega
    · have := next_le here (by omega) place
      omega
  past i le_i := by
    refine (h.charAt_or i).imp_right ?_
    rintro ⟨space, j, c, here, le_j, lt_j, hidden⟩
    obtain ⟨d, mem, after_start, before_stop⟩ := hides_iff.mp hidden
    obtain ⟨m, is, opens⟩ := (spelled d mem).mark
    refine ⟨space, d.start, m, ?_, by omega, opens, is⟩
    refine (apart d mem).resolve_right fun after => ?_
    have := next_le here (show j < start by omega) place
    omega
  lines := h.hasLineBreak lastPlace place

/-- What no token takes up is white space or part of a comment. -/
theorem Account.isGap_or_hides {source : Source} (account : Account source start [] comments stop) (i : Nat)
    (le : start ≤ i) (lt : i < stop)
    (c : Char) (here : source.charAt i = some c) : Alphabet.isGap c = true ∨ hides comments i = true := by
  rcases account.covers.gaps i le lt with ⟨t, mem, -⟩ | ⟨d, mem, place⟩ | ⟨j, d, blank, gap, le_j, lt_j⟩
  · exact absurd mem (by simp)
  · exact .inr (hides_iff.mpr ⟨d, List.mem_reverse.mp mem, place⟩)
  · rcases Nat.lt_or_eq_of_le le_j with before | rfl
    · have := Source.next_le blank before (Source.isBoundary_of_charAt here)
      omega
    · rw [blank] at here
      exact .inl (Option.some.inj here ▸ gap)

/-- Nothing but white space and comments stands before the next token. -/
theorem readNext_gap {s : Setting} {l l' : Lexer} {u : Unit} (plain : s.reader = none) (run : Runs s readNext l u l') :
    ∃ added, l'.comments = added ++ l.comments ∧ ∀ i, l.pos ≤ i → i < l'.token.start → ∀ c, s.source.charAt i = some c →
      Alphabet.isGap c = true ∨ hides added i = true := by
  -- What was reported before makes no difference, so the read may begin with no reports.
  let l₀ : Lexer := { l with tokens := [], comments := [] }
  have ends := Detached.readNext plain l.tokens l.comments l.strict l.inTemplate l₀ l ⟨rfl, rfl, id⟩ trivial
  rw [show LexM.readNext s l = .ok u l' from run] at ends
  cases fresh : LexM.readNext s l₀ with
  | error e r =>
    rw [fresh] at ends
    cases ends
  | ok u' r =>
    rw [fresh] at ends
    obtain ⟨rfl, -⟩ : l' = r.after l.tokens l.comments ∧ _ := by
      cases ends with
      | passes state => exact state
    have read := readNext_fresh plain (u := u') fresh
    have account : Account s.source l.pos r.tokens r.comments r.token.start := read.account .nil
    rw [read.tokens] at account
    exact ⟨r.comments, rfl, account.isGap_or_hides⟩

/-- A lexer, and another one in the text with its comments blanked out, which may stand back in a gap. -/
structure Lexer.Trails (b : Source) (l k : Lexer) : Prop where
  frame : k.frame = l.frame
  start : k.token.start = l.token.start
  le : k.pos ≤ l.pos
  boundary : b.isBoundary k.pos = true
  level : l.context = .templateText → k.pos = l.pos
  clear : ∀ i c, k.pos ≤ i → i < l.pos → b.charAt i = some c → Alphabet.isGap c = true

/-- What a token says, and where it lies. -/
def Token.bare (t : Token) : TokenKind × TokenValue × Nat × Nat := (t.kind, t.value, t.start, t.stop)

namespace Lexer.Trails

variable {l l' k : Lexer} {o : Options} {u : Unit}

theorem currentToken (h : l.Trails b k) :
    ((setting b o).currentToken k.toCursor).bare = ((setting a o).currentToken l.toCursor).bare := by
  have kind : k.kind = l.kind := show k.frame.kind = l.frame.kind from h.frame ▸ rfl
  have value : k.value = l.value := show k.frame.value = l.frame.value from h.frame ▸ rfl
  have stop : k.token.stop = l.token.stop := show k.frame.token.stop = l.frame.token.stop from h.frame ▸ rfl
  simp only [Token.bare, Setting.currentToken, kind, value, h.start, stop]

theorem leave (h : l.Trails b k) : (l.leave (setting a o)).Trails b (k.leave (setting b o)) := by
  refine { h with frame := ?_ }
  have stop : k.token.stop = l.token.stop := show k.frame.token.stop = l.frame.token.stop from h.frame ▸ rfl
  have last (x : Lexer) (s : Setting) : (x.leave s).frame =
    { x.frame with last := ⟨x.token.start, x.token.stop, default, default⟩ } := rfl
  rw [last, last, h.frame, h.start, stop]

theorem readNext (h : l.Trails b k) (texts : Source.Blanked (hides comments) a b)
    (spelled : ∀ c ∈ comments, c.Spelled a)
    (run : Runs (setting a o) LexM.readNext l u l') (reported : l'.comments ⊆ comments)
    (apart : ∀ c ∈ comments, l'.token.stop ≤ c.start ∨ c.stop ≤ l'.token.start)
    (lastPlace : a.isBoundary l.last.stop = true) (bounds : l'.OnBoundaries a true) :
    ∃ k', Runs (setting b o) LexM.readNext k ⟨⟩ k' ∧ l'.Trails b k' ∧ k'.pos = l'.pos := by
  have fresh := readNext_fresh rfl run
  obtain ⟨added, all, gap⟩ := readNext_gap rfl run
  have clear (i : Nat) (c : Char) (le : k.pos ≤ i) (lt : i < l'.token.start)
      (here : b.charAt i = some c) : Alphabet.isGap c = true := by
    rcases Nat.lt_or_ge i l.pos with before | after
    · exact h.clear i c le before here
    · refine texts.isGap_of (fun d there => (gap i after lt d there).imp_right fun hidden => ?_) here
      obtain ⟨d, mem, place⟩ := hides_iff.mp hidden
      exact hides_iff.mpr ⟨d, reported (all ▸ List.mem_append_left _ mem), place⟩
  let w := texts.window o spelled apart fresh.start_le bounds.start.boundary lastPlace
  obtain ⟨k', run', beside⟩ :=
    Window.readNext (w := w) run rfl fresh.stop.symm rfl h.frame h.level (Nat.le_trans h.le fresh.pos_le) h.boundary
    (texts.isBoundary bounds.start.boundary) clear
  refine ⟨k', run', ?_, beside.pos⟩
  exact
    { frame := Window.frame_of_beside beside
      start := beside.tokenStart
      le := Nat.le_of_eq beside.pos
      boundary := beside.pos ▸ texts.isBoundary bounds.pos.boundary
      level := fun _ => beside.pos
      clear := fun i c le lt => absurd (beside.pos ▸ le) (Nat.not_le_of_lt lt) }

end Lexer.Trails

theorem next_iff {s : Setting} {l l' : Lexer} {u : Unit} : Runs s next l u l' ↔ Runs s readNext (l.leave s) u l' := by
  simp [next, Lexer.leave]

/-- Reports stay, and the current token is one of those that are given in the end. -/
theorem loop_keeps {s : Setting} {fuel : Nat} {found tokens : List Token} {l l' : Lexer} (plain : s.reader = none)
    (run : Runs s (loop tokenPass fuel found) l tokens l') :
    l.comments ⊆ l'.comments ∧ found ⊆ tokens ∧ s.currentToken l.toCursor ∈ tokens := by
  induction fuel generalizing found l with
  | zero => simp [loop] at run
  | succ fuel ih =>
    obtain ⟨x, m, pass, rest⟩ := Runs.bind_iff.mp run
    simp [tokenPass] at pass
    rcases pass with ⟨-, rfl, rfl⟩ | ⟨-, moved, rfl⟩
    · obtain ⟨rfl, rfl⟩ := Runs.pure_iff.mp rest
      exact ⟨fun _ => id, fun t mem => by simp [mem], by simp⟩
    · obtain ⟨comments, found, -⟩ := ih rest
      obtain ⟨added, all, -⟩ := readNext_gap plain (next_iff.mp moved)
      refine ⟨fun c mem => comments (all ▸ List.mem_append_right _ mem), fun t mem =>
        found (.tail _ mem), found (.head _)⟩

/-- The texts are read to their ends side by side. -/
theorem Lexer.Trails.loop {o : Options} {fuel : Nat} {found found' tokens : List Token} {l k l' : Lexer}
    (h : l.Trails b k) (texts : Source.Blanked (hides l'.comments) a b) (spelled : ∀ c ∈ l'.comments, c.Spelled a)
    (apart : ∀ t ∈ tokens, ∀ c ∈ l'.comments, t.stop ≤ c.start ∨ c.stop ≤ t.start)
    (bounds : ∀ l, (setting a o).Reaches 0 true l → l.OnBoundaries a true) (reaches : (setting a o).Reaches 0 true l)
    (same : found'.map Token.bare = found.map Token.bare)
    (run : Runs (setting a o) (LexM.loop tokenPass fuel found) l tokens l') :
    ∃ tokens' k', Runs (setting b o) (LexM.loop tokenPass fuel found') k tokens' k' ∧
      tokens'.map Token.bare = tokens.map Token.bare := by
  induction fuel generalizing found found' l k with
  | zero => simp [LexM.loop] at run
  | succ fuel ih =>
    have kind : k.kind = l.kind := show k.frame.kind = l.frame.kind from h.frame ▸ rfl
    have tokens' : ((setting b o).currentToken k.toCursor :: found').map Token.bare =
        ((setting a o).currentToken l.toCursor :: found).map Token.bare := by
      rw [List.map_cons, List.map_cons, h.currentToken, same]
    obtain ⟨x, m, pass, rest⟩ := Runs.bind_iff.mp run
    simp [tokenPass] at pass
    rcases pass with ⟨ended, rfl, rfl⟩ | ⟨more, moved, rfl⟩
    · obtain ⟨rfl, rfl⟩ := Runs.pure_iff.mp rest
      refine ⟨((setting b o).currentToken k.toCursor :: found').reverse, k,
        Runs.bind_iff.mpr ⟨.done _, k, ?_, Runs.pure_iff.mpr ⟨rfl, rfl⟩⟩, ?_⟩
      · simp [tokenPass]
        exact kind.trans ended
      · rw [List.map_reverse, tokens', ← List.map_reverse, List.reverse_cons]
    · have reached : (setting a o).Reaches 0 true m :=
        ((Tandem.next_visits rfl reaches).leaves ⟨true, reaches⟩ (.passes moved)).2 _ rfl
      obtain ⟨reported, -, mem⟩ := loop_keeps rfl rest
      have moved' : Runs (setting a o) LexM.readNext (l.leave (setting a o)) ⟨⟩ m := next_iff.mp moved
      obtain ⟨n, read, trails, -⟩ :=
        h.leave.readNext texts spelled moved' reported (apart _ mem) (bounds l reaches).stop.boundary (bounds m reached)
      obtain ⟨tokens', k', run', bare⟩ := ih trails reached tokens' rest
      refine ⟨tokens', k', Runs.bind_iff.mpr ⟨.again _, n, ?_, run'⟩, bare⟩
      simp [tokenPass]
      exact ⟨fun ended => more (kind.symm.trans ended), next_iff.mpr read⟩

/-- What opens a text that other programs read too. -/
def Setting.OpensWithComment (s : Setting) : Prop :=
  s.options.hashBangAllowed = true ∧ s.source.charAt 0 = some '#' ∧ s.source.charAt 1 = some '!'

/-- The frame of a lexer that has read nothing. -/
def Setting.firstFrame (s : Setting) : Lexer :=
  { pos := 0, lineStart := 0, line := 0, kind := .eof, value := .none, token := ⟨0, 0, default, default⟩,
    last := ⟨0, 0, default, default⟩
    contexts := [.blockBraces], exprAllowed := true, containsEscape := false, strict := s.inModule }

/-- A new lexer is at the start of the text, or behind the comment that opens it. -/
theorem lexerAt_cases (s : Setting) : ∃ l : Lexer, l.pos = 0 ∧ l.frame = s.firstFrame ∧
    (¬ s.OpensWithComment ∧ s.lexerAt 0 = l ∨ s.OpensWithComment ∧
      Runs s (LexM.skipLineComment 2) l ⟨⟩ (s.lexerAt 0)) := by
  simp only [Setting.lexerAt, Nat.zero_min, decide_true, Bool.true_and]
  split
  · next opens =>
    simp only [Bool.and_eq_true, Source.has_iff] at opens
    obtain ⟨⟨allowed, mark⟩, bang⟩ := opens
    generalize base : Lexer.mk _ _ _ _ _ = l
    obtain ⟨l', run, -, -⟩ := skipHashBang_spec (s := s) (l := l) (by simp [← base, mark, bang])
    rw [show (ReaderT.run (LexM.skipLineComment 2) s).run l = .ok ⟨⟩ l' from run]
    exact ⟨l, by rw [← base], by rw [← base]; rfl, .inr ⟨⟨allowed, mark, bang⟩, run⟩⟩
  · next plain =>
    refine ⟨_, rfl, rfl, .inl ⟨?_, rfl⟩⟩
    rintro ⟨allowed, mark, bang⟩
    simp [allowed, Source.has, mark, bang] at plain

theorem lexerAt_frame (s : Setting) : (s.lexerAt 0).frame = s.firstFrame := by
  obtain ⟨l, -, frame, ⟨-, same⟩ | ⟨-, run⟩⟩ := lexerAt_cases s
  · rw [same, frame]
  · rw [skipLineComment_frame run, frame]

/-- Where the text is opened by a comment, the new lexer reports it. -/
theorem lexerAt_hides {s : Setting} (opens : s.OpensWithComment) : hides (s.lexerAt 0).comments 0 = true := by
  obtain ⟨l, pos, -, ⟨plain, -⟩ | ⟨-, run⟩⟩ := lexerAt_cases s
  · exact (plain opens).elim
  · simp [skipLineComment, note] at run
    have after := s.source.le_skipWhile (fun c => !Alphabet.isLineTerminator c) (l.pos + 2)
    rw [run]
    exact hides_iff.mpr ⟨_, .head _, Nat.le_of_eq pos, by dsimp only; omega⟩

theorem lexerAt_pos {s : Setting} (plain : ¬ s.OpensWithComment) : (s.lexerAt 0).pos = 0 := by
  obtain ⟨l, pos, -, ⟨-, same⟩ | ⟨opens, -⟩⟩ := lexerAt_cases s
  · rw [same, pos]
  · exact (plain opens).elim

theorem lexerAt_trails {o : Options} (texts : Source.Blanked (hides comments) a b) (start : b.isBoundary 0 = true)
    (reported : ((setting a o).lexerAt 0).comments ⊆ comments) :
    ((setting a o).lexerAt 0).Trails b ((setting b o).lexerAt 0) := by
  have begins := (setting a o).lexerAt_begins 0
  have begins' := (setting b o).lexerAt_begins 0
  rw [Nat.zero_min] at begins begins'
  have seen {i : Nat} {c : Char} (other : c ≠ ' ') (here : b.charAt i = some c) : a.charAt i = some c := by
    rcases texts.charAt_or i with same | ⟨space, -⟩
    · rw [← same, here]
    · rw [here] at space
      exact (other (Option.some.inj space)).elim
  have pos : ((setting b o).lexerAt 0).pos = 0 := by
    refine lexerAt_pos ?_
    rintro ⟨allowed, mark, bang⟩
    have mark' : a.charAt 0 = some '#' := seen (by decide) mark
    obtain ⟨d, mem, place⟩ := hides_iff.mp (lexerAt_hides (s := setting a o) ⟨allowed, mark', seen (by decide) bang⟩)
    have hidden : hides comments 0 = true := hides_iff.mpr ⟨d, reported mem, place⟩
    have space := texts.blank (n := 0) mark' (by simp [hidden, Alphabet.isLineTerminator]) (Char.utf8Size_pos _)
    rw [Nat.add_zero, show b.charAt 0 = some '#' from mark] at space
    cases space
  have account := begins.account
  rw [begins.tokens] at account
  refine
    { frame := (lexerAt_frame (setting b o)).trans (lexerAt_frame (setting a o)).symm
      start := begins'.token.trans begins.token.symm
      le := Nat.le_trans (Nat.le_of_eq pos) (Nat.zero_le _)
      boundary := (congrArg b.isBoundary pos).trans start
      level := fun inside => ?_
      clear := fun i c _ lt here => ?_ }
  · have contexts : ((setting a o).lexerAt 0).contexts = [.blockBraces] :=
      show ((setting a o).lexerAt 0).frame.contexts = _ by rw [lexerAt_frame]; rfl
    simp [Cursor.context, contexts] at inside
  · refine texts.isGap_of (fun d there =>
      (account.isGap_or_hides i (Nat.zero_le i) lt d there).imp_right fun hidden => ?_) here
    obtain ⟨e, mem, place⟩ := hides_iff.mp hidden
    exact hides_iff.mpr ⟨e, reported mem, place⟩

end Whole

theorem tokenize_iff {s : Setting} {tokens : List Token} {l : Lexer} :
    s.tokenize = (.ok tokens, l) ↔ Runs s allTokens (s.lexerAt 0) tokens l := by
  simp only [Setting.tokenize, Setting.runLexer, Runs]
  rw [show (ReaderT.run allTokens s).run (s.lexerAt 0) = allTokens s (s.lexerAt 0) from rfl]
  cases allTokens s (s.lexerAt 0) <;> simp

/-- The comments of a text say nothing about its tokens: with all their characters blanked out but those that end a
line, the tokens are what they were and where they were. -/
theorem tokenize_withoutComments (text : String) (o : Options) (tokens : List Token) (l : Lexer)
    (run : (setting (.ofString text) o).tokenize = (.ok tokens, l)) :
    ∃ tokens' l', (setting (.ofString (withoutComments text l.comments)) o).tokenize = (.ok tokens', l') ∧
      tokens'.map Token.bare = tokens.map Token.bare := by
  have covers := (Setting.tokenize_tokenized rfl run).covers
  have texts := Source.blanked_ofString (hides l.comments) text
  have bounds := (offsets_onBoundary text o).1 true
  have spelled : ∀ c ∈ l.comments, c.Spelled (.ofString text) :=
    fun c mem => covers.spelled c (List.mem_reverse.mpr mem)
  have apart : ∀ t ∈ tokens, ∀ c ∈ l.comments, t.stop ≤ c.start ∨ c.stop ≤ t.start :=
    fun t here c mem => covers.apart t here c (List.mem_reverse.mpr mem)
  have read := tokenize_iff.mp run
  simp [allTokens] at read
  obtain ⟨m, first, rest⟩ := read
  have begins := (setting (.ofString text) o).lexerAt_begins 0
  obtain ⟨reported, -, mem⟩ := loop_keeps rfl rest
  obtain ⟨added, all, -⟩ := readNext_gap rfl first
  have trails := lexerAt_trails (o := o) texts (Source.textAt_ofString _).isBoundary fun c mem =>
    reported (all ▸ List.mem_append_right _ mem)
  have reached : (setting (.ofString text) o).Reaches 0 true m :=
    ((Tandem.readNext_visits rfl).leaves ⟨true, .start⟩ (.passes first)).2 _ rfl
  obtain ⟨n, first', trails, pos⟩ := trails.readNext texts spelled first reported (apart _ mem)
    (by rw [begins.last.2]; exact (Source.textAt_ofString text).isBoundary) (bounds m reached)
  obtain ⟨tokens', k', rest', same⟩ := trails.loop texts spelled apart bounds reached rfl rest
  refine ⟨tokens', k', tokenize_iff.mpr ?_, same⟩
  simp [allTokens]
  refine ⟨n, first', ?_⟩
  rw [show (Source.ofString (withoutComments text l.comments)).size = _ from texts.size, pos]
  exact rest'

/-- A text with all kinds of comments. -/
def commented : String := "#! x\n<!-- a\nlet r = /* é\n */ --> b\n\x60a$\x7b /k/g // c\n\x7d\x60"

theorem tokenize_withoutComments_commented :
    ∃ tokens l tokens' l', (setting (.ofString commented) {}).tokenize = (.ok tokens, l) ∧
    withoutComments commented l.comments = "    \n      \nlet r =      \n         \n\x60a$\x7b /k/g     \n\x7d\x60" ∧
    (setting (.ofString (withoutComments commented l.comments)) {}).tokenize = (.ok tokens', l') ∧
      tokens'.map Token.bare = tokens.map Token.bare := by
  have blank : withoutComments commented (setting (.ofString commented) {}).tokenize.2.comments =
      "    \n      \nlet r =      \n         \n\x60a$\x7b /k/g     \n\x7d\x60" := by decide +kernel
  cases run : (setting (.ofString commented) {}).tokenize.1 with
  | error =>
    have reads : (setting (.ofString commented) {}).tokenize.1.isOk = true := by decide +kernel
    simp [run, Except.isOk, Except.toBool] at reads
  | ok tokens =>
    obtain ⟨tokens', l', run', same⟩ := tokenize_withoutComments commented {} tokens _ (Prod.ext run rfl)
    exact ⟨tokens, _, tokens', l', Prod.ext run rfl, blank, run', same⟩

end ScriptSyntax
