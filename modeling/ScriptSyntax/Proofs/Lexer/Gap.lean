import ScriptSyntax.Proofs.Lexer.Forward

/-!
Two ways over a gap.  The lexer skips white space and comments one by one, and a look ahead finds where they end; a
comment that is left open stops the first at the comment and takes the second to the end of the text.
-/

namespace ScriptSyntax

open LexM

/-! ### Runs that fail -/

/-- The step fails from `l` with the fault `e`, and leaves `l'` behind. -/
def Throws {α : Type} (s : Setting) (m : LexM α) (l : Lexer) (e : SyntaxError) (l' : Lexer) : Prop :=
  m s l = .error e l'

namespace Throws

variable {α β : Type} {s : Setting} {l l' : Lexer} {e : SyntaxError} {m n : LexM α}

@[simp] theorem pure_iff {a : α} : ¬ Throws s (pure a) l e l' := nofun

@[simp] theorem bind_iff {f : α → LexM β} :
    Throws s (m >>= f) l e l' ↔ Throws s m l e l' ∨ ∃ a r, Runs s m l a r ∧ Throws s (f a) r e l' := by
  simp only [Throws, Runs, bind, ReaderT.bind, EStateM.bind]
  cases m s l <;> simp [and_assoc]

@[simp] theorem map_iff {f : α → β} : Throws s (f <$> m) l e l' ↔ Throws s m l e l' := by
  rw [map_eq_pure_bind]
  simp only [bind_iff, pure_iff, and_false, exists_false, or_false]

@[simp] theorem ite_iff {c : Prop} [Decidable c] :
    Throws s (if c then m else n) l e l' ↔ c ∧ Throws s m l e l' ∨ ¬ c ∧ Throws s n l e l' := by
  by_cases h : c <;> simp [h]

@[simp] theorem read_iff : ¬ Throws s (read : LexM Setting) l e l' := nofun

@[simp] theorem get_iff : ¬ Throws s (get : LexM Lexer) l e l' := nofun

@[simp] theorem modify_iff {f : Lexer → Lexer} : ¬ Throws s (modify f : LexM PUnit) l e l' := nofun

@[simp] theorem source_iff : ¬ Throws s source l e l' := nofun

@[simp] theorem pos_iff : ¬ Throws s pos l e l' := nofun

@[simp] theorem peek_iff : ¬ Throws s peek l e l' := nofun

@[simp] theorem seesAhead_iff {distance : Nat} {c : Char} : ¬ Throws s (seesAhead distance c) l e l' := nofun

@[simp] theorem advance_iff {distance : Nat} : ¬ Throws s (advance distance) l e l' := nofun

@[simp] theorem skip_iff {c : Char} : ¬ Throws s (skip c) l e l' := nofun

@[simp] theorem newLine_iff : ¬ Throws s newLine l e l' := nofun

@[simp] theorem fail_iff {pos : Nat} {fault : Fault} :
    Throws s (fail pos fault : LexM α) l e l' ↔ e = s.fatal pos fault ∧ l' = l := by
  simp only [fail, bind_iff, read_iff, false_or, Runs.read_iff, Runs.exists_look]
  exact ⟨fun run => by cases run; exact ⟨rfl, rfl⟩, by rintro ⟨rfl, rfl⟩; rfl⟩

theorem insideTemplate_iff : Throws s (insideTemplate m) l e l' ↔
    ∃ k, Throws s m { l with inTemplate := true } e k ∧ l' = { k with inTemplate := false } := by
  simp only [Throws, insideTemplate]
  cases m s { l with inTemplate := true } <;> simp [eq_comm]

end Throws

/-! ### Gaps -/

variable {s : Setting} {l l' : Lexer} {e : SyntaxError}

/-- An open block comment reaches to the end of the text. -/
theorem Source.skipBlank_open {source : Source} {offset : Nat} (h : source.spells offset ['/', '*'] = true)
    (opens : source.findCommentEnd? (offset + 2) = none) : source.skipBlank offset = source.size := by
  simp only [spells_cons, spells_nil, and_true] at h
  rw [skipBlank]
  split
  · next none => simp [h.1] at none
  · next d here =>
    obtain rfl : d = '/' := by simpa [h.1] using here.symm
    rw [if_neg (by decide), if_neg (by simp [has, h.2]), if_pos (by simp [has, h.2])]
    split
    · next closes => simp [opens] at closes
    · rfl

/-- How a run over a gap ends, where `source.skipBlank` finds the end of the gap. -/
inductive Lexer.SkipsGap (source : Source) (l : Lexer) : EStateM.Result SyntaxError Lexer Unit → Prop
  | stops {l' : Lexer} (stop : l'.pos = source.skipBlank l.pos) : SkipsGap source l (.ok ⟨⟩ l')
  | opens {e : SyntaxError} {l' : Lexer} (fault : e.fault = .unterminatedComment)
      (reaches : source.skipBlank l.pos = source.size) :
    SkipsGap source l (.error e l')

/-- Only a comment that is left open stops a pass. -/
theorem skipBlankPass_throws (throws : Throws s skipBlankPass l e l') :
    e.fault = .unterminatedComment ∧ s.source.skipBlank l.pos = s.source.size := by
  simp only [skipBlankPass, Throws.bind_iff, Throws.peek_iff, false_or, Runs.peek_iff, Runs.exists_look] at throws
  split at throws
  · simp at throws
  · simp [endCarriageReturn, sees] at throws
  · next seen =>
    simp [skipBlockComment, skipLineComment, textFrom, note, moveTo] at throws
    obtain ⟨star, throws⟩ := throws
    split at throws
    · next opens =>
      obtain ⟨rfl, -⟩ := Throws.fail_iff.mp throws
      exact ⟨rfl, Source.skipBlank_open (by simp [seen, star]) opens⟩
    · simp [countLines] at throws
  · simp at throws

theorem skipBlockComment_moves {u : Unit} (run : Runs s skipBlockComment l u l') : l.pos < l'.pos := by
  simp [skipBlockComment] at run
  split at run
  · simp at run
  · next stop found =>
    have past := (Source.findCommentEnd?_spec found).1
    simp [note] at run
    obtain ⟨m, count, rfl⟩ := run
    obtain ⟨line, lineStart, rfl⟩ := countLines_same count
    exact show l.pos < stop + 2 by omega

/-- A pass that goes on has moved forward inside the text. -/
theorem skipBlankPass_moves (run : Runs s skipBlankPass l (.again ()) l') :
    l.pos < l'.pos ∧ l'.pos ≤ s.source.size := by
  obtain ⟨-, skipped, -⟩ := (skipBlankPass_spec run).resolve_right (by simp)
  simp only [skipBlankPass, Runs.bind_iff, Runs.peek_iff, Runs.exists_look] at run
  split at run
  · simp at run
  · next seen =>
    refine ⟨?_, skipped.inside (Nat.le_of_lt (Source.lt_size_of_charAt seen))⟩
    simp [endCarriageReturn] at run
    obtain ⟨-, rfl⟩ | ⟨-, rfl⟩ := run
    · exact Nat.lt_add_of_pos_right (Nat.succ_pos 1)
    · exact Nat.lt_add_one _
  · next seen =>
    refine ⟨?_, skipped.inside (Nat.le_of_lt (Source.lt_size_of_charAt seen))⟩
    simp at run
    obtain ⟨star, block⟩ | ⟨-, slash, line⟩ := run
    · exact skipBlockComment_moves block
    · simp [skipLineComment, note] at line
      subst line
      exact Nat.lt_of_lt_of_le (Nat.lt_add_of_pos_right (Nat.succ_pos 1)) (Source.le_skipWhile ..)
  · next c _ _ seen =>
    refine ⟨?_, skipped.inside (Nat.le_of_lt (Source.lt_size_of_charAt seen))⟩
    simp at run
    obtain ⟨-, rfl⟩ | ⟨-, -, rfl⟩ := run
    · exact Nat.lt_add_of_pos_right c.utf8Size_pos
    · exact Nat.lt_add_of_pos_right c.utf8Size_pos

theorem loop_skipsGap {fuel : Nat} (enough : s.source.size - l.pos < fuel) :
    l.SkipsGap s.source (loop (fun _ => skipBlankPass) fuel () s l) := by
  induction fuel generalizing l with
  | zero => omega
  | succ fuel ih =>
    simp only [loop, bind, ReaderT.bind, EStateM.bind]
    cases pass : skipBlankPass s l with
    | error e l' => exact .opens (skipBlankPass_throws pass).1 (skipBlankPass_throws pass).2
    | ok x l' =>
      obtain ⟨rfl, -, same⟩ | ⟨rfl, rfl, stop⟩ := skipBlankPass_spec pass
      · obtain ⟨moves, inside⟩ := skipBlankPass_moves pass
        have rest := ih (l := l') (by omega)
        show l.SkipsGap s.source (loop (fun _ => skipBlankPass) fuel () s l')
        generalize loop (fun _ => skipBlankPass) fuel () s l' = y at rest ⊢
        cases rest with
        | stops stop => exact .stops (stop.trans same)
        | opens fault reaches => exact .opens fault (same.symm.trans reaches)
      · exact .stops stop.symm

/-- The lexer and a look ahead get over a gap to the same place; there is no other way for the lexer to fail than at
a comment that is left open, and then the look ahead reaches the end of the text. -/
theorem skipBlank_skipsGap (s : Setting) (l : Lexer) : l.SkipsGap s.source (LexM.skipBlank s l) :=
  loop_skipsGap (l := l) (Nat.lt_add_of_pos_right (Nat.succ_pos 1))

end ScriptSyntax
