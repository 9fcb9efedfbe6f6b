import ScriptSyntax.Token
import ScriptSyntax.Proofs.Source.Offset
import ScriptSyntax.Lexer.Stream
import ScriptSyntax.Proofs.Run

/-!
How tokens, comments and white space make up a text.  An account lists the pieces from an offset on, one after the
other; what is asked of the tokens and comments of a text follows from it by induction.

The steps of the lexer inside a token or a gap move the cursor forward inside the text, and leave the tokens read before
alone.
-/

namespace ScriptSyntax

namespace Comment

/-! ### Accounts -/

/-- What opens a comment that reaches to the end of its line. -/
def lineMarks : List (List Char) := [['/', '/'], ['<', '!', '-', '-'], ['-', '-', '>'], ['#', '!']]

/-- A comment is written where it says. -/
inductive Spelled (source : Source) (c : Comment) : Prop
  | block (stop : Nat) (kind : c.kind = .block) (opens : source.spells c.start ['/', '*'] = true)
      (closes : source.findCommentEnd? (c.start + 2) = some stop) (ends : c.stop = stop + 2)
      (text : c.text = source.slice (c.start + 2) stop)
  | line (mark : List Char) (known : mark ∈ lineMarks) (kind : c.kind = .line)
      (opens : source.spells c.start mark = true)
      (ends : c.stop = source.skipWhile (fun c => !Alphabet.isLineTerminator c) (c.start + mark.length))
      (text : c.text = source.slice (c.start + mark.length) c.stop)

theorem Spelled.lt {source : Source} {c : Comment} (spelled : c.Spelled source) : c.start < c.stop := by
  cases spelled with
  | block stop _ _ closes ends _ =>
    have := (Source.findCommentEnd?_spec closes).1
    omega
  | line mark known _ _ ends _ =>
    have positive : 0 < mark.length := (by decide : ∀ m ∈ lineMarks, 0 < m.length) mark known
    have := source.le_skipWhile (fun c => !Alphabet.isLineTerminator c) (c.start + mark.length)
    omega

end Comment

/-- From `start` up to an offset the text is made up of tokens, comments, both latest first, and white
space. -/
inductive Account (source : Source) (start : Nat) : List Token → List Comment → Nat → Prop
  | nil : Account source start [] [] start
  | blank {tokens : List Token} {comments : List Comment} {stop : Nat} {c : Char}
      (before : Account source start tokens comments stop) (here : source.charAt stop = some c)
      (gap : Alphabet.isGap c = true) : Account source start tokens comments (stop + c.utf8Size)
  | comment {tokens : List Token} {comments : List Comment} {c : Comment}
      (before : Account source start tokens comments c.start) (spelled : c.Spelled source) :
      Account source start tokens (c :: comments) c.stop
  | token {tokens : List Token} {comments : List Comment} {t : Token}
      (before : Account source start tokens comments t.start) (le : t.start ≤ t.stop) :
      Account source start (t :: tokens) comments t.stop

/-- Tokens and comments in the order of the text, which leave out no more than white space between two
offsets. -/
structure Covers (source : Source) (start stop : Nat) (tokens : List Token) (comments : List Comment) :
    Prop where
  tokens_ordered : tokens.Pairwise fun a b => a.stop ≤ b.start
  comments_ordered : comments.Pairwise fun a b => a.stop ≤ b.start
  apart : ∀ t ∈ tokens, ∀ c ∈ comments, t.stop ≤ c.start ∨ c.stop ≤ t.start
  spelled : ∀ c ∈ comments, c.Spelled source
  gaps : ∀ i, start ≤ i → i < stop → (∃ t ∈ tokens, t.start ≤ i ∧ i < t.stop) ∨
    (∃ c ∈ comments, c.start ≤ i ∧ i < c.stop) ∨
      ∃ j c, source.charAt j = some c ∧ Alphabet.isGap c = true ∧ j ≤ i ∧ i < j + c.utf8Size

namespace Account

variable {source : Source} {start stop : Nat} {tokens : List Token} {comments : List Comment}

/-- The pieces lie between the ends of the account. -/
theorem within (account : Account source start tokens comments stop) :
    start ≤ stop ∧ (∀ t ∈ tokens, t.stop ≤ stop) ∧ ∀ c ∈ comments, c.stop ≤ stop := by
  induction account with
  | nil => simp
  | @blank _ _ _ c _ _ _ ih =>
    obtain ⟨le, ts, cs⟩ := ih
    exact ⟨Nat.le_add_right_of_le le, fun t mem => Nat.le_add_right_of_le (ts t mem),
      fun c mem => Nat.le_add_right_of_le (cs c mem)⟩
  | @comment _ _ c _ spelled ih =>
    obtain ⟨le, ts, cs⟩ := ih
    have later := Nat.le_of_lt spelled.lt
    refine ⟨Nat.le_trans le later, fun t mem => Nat.le_trans (ts t mem) later, ?_⟩
    simpa using fun c mem => Nat.le_trans (cs c mem) later
  | @token _ _ t _ t_le ih =>
    obtain ⟨le, ts, cs⟩ := ih
    refine ⟨Nat.le_trans le t_le, ?_, fun c mem => Nat.le_trans (cs c mem) t_le⟩
    simpa using fun t mem => Nat.le_trans (ts t mem) t_le

theorem covers (account : Account source start tokens comments stop) :
    Covers source start stop tokens.reverse comments.reverse := by
  induction account with
  | nil =>
    exact ⟨.nil, .nil, by simp, by simp, fun i le lt => absurd (Nat.lt_of_le_of_lt le lt) (Nat.lt_irrefl _)⟩
  | @blank tokens comments stop c before here gap ih =>
    refine { ih with gaps := fun i le lt => ?_ }
    rcases Nat.lt_or_ge i stop with earlier | later
    · exact ih.gaps i le earlier
    · exact .inr (.inr ⟨stop, c, here, gap, later, lt⟩)
  | @comment tokens comments c before spelled ih =>
    obtain ⟨-, ts, cs⟩ := before.within
    simp only [List.reverse_cons]
    refine
      { tokens_ordered := ih.tokens_ordered
        comments_ordered := List.pairwise_append.mpr ⟨ih.comments_ordered, List.pairwise_singleton _ _, ?_⟩
        apart := fun t here d mem => ?_
        spelled := by simpa [or_imp, forall_and, spelled] using ih.spelled
        gaps := fun i le lt => ?_ }
    · simpa using cs
    · rcases List.mem_append.mp mem with mem | mem
      · exact ih.apart t here d mem
      · obtain rfl := List.mem_singleton.mp mem
        exact .inl (ts t (List.mem_reverse.mp here))
    · rcases Nat.lt_or_ge i c.start with earlier | later
      · refine (ih.gaps i le earlier).imp_right (.imp_left ?_)
        rintro ⟨d, mem, place⟩
        exact ⟨d, List.mem_append_left _ mem, place⟩
      · exact .inr (.inl ⟨c, by simp, later, lt⟩)
  | @token tokens comments t before t_le ih =>
    obtain ⟨-, ts, cs⟩ := before.within
    simp only [List.reverse_cons]
    refine
      { tokens_ordered := List.pairwise_append.mpr ⟨ih.tokens_ordered, List.pairwise_singleton _ _, ?_⟩
        comments_ordered := ih.comments_ordered
        apart := fun u mem d here => ?_
        spelled := ih.spelled
        gaps := fun i le lt => ?_ }
    · simpa using ts
    · rcases List.mem_append.mp mem with mem | mem
      · exact ih.apart u mem d here
      · obtain rfl := List.mem_singleton.mp mem
        exact .inr (cs d (List.mem_reverse.mp here))
    · rcases Nat.lt_or_ge i t.start with earlier | later
      · refine (ih.gaps i le earlier).imp_left ?_
        rintro ⟨u, mem, place⟩
        exact ⟨u, List.mem_append_left _ mem, place⟩
      · exact .inl ⟨t, by simp, later, lt⟩

end Account

namespace Runs

open LexM

variable {α β : Type} {s : Setting} {l l' : Lexer}

/-! ### Single steps -/

instance : Succeeds LexM.source (fun s _ => s.source) (fun _ l => l) := ⟨fun _ _ => rfl⟩

@[simp] theorem lexSource_iff {x : Source} : Runs s LexM.source l x l' ↔ x = s.source ∧ l' = l := by
  rw [succeeds_iff]

instance : Succeeds LexM.edition (fun s _ => s.edition) (fun _ l => l) := ⟨fun _ _ => rfl⟩

@[simp] theorem lexEdition_iff {n : Nat} : Runs s LexM.edition l n l' ↔ n = s.edition ∧ l' = l := by
  rw [succeeds_iff]

instance : Succeeds pos (fun _ l => l.pos) (fun _ l => l) := ⟨fun _ _ => rfl⟩

@[simp] theorem pos_iff {n : Nat} : Runs s pos l n l' ↔ n = l.pos ∧ l' = l := by
  rw [succeeds_iff]

instance {n : Nat} : Succeeds (charAhead n) (fun s l => s.source.charAt (l.pos + n)) (fun _ l => l) := ⟨fun _ _ => rfl⟩

@[simp] theorem charAhead_iff {n : Nat} {c : Option Char} :
    Runs s (charAhead n) l c l' ↔ c = s.source.charAt (l.pos + n) ∧ l' = l := by
  rw [succeeds_iff]

instance : Succeeds peek (fun s l => s.source.charAt l.pos) (fun _ l => l) := ⟨fun _ _ => rfl⟩

@[simp] theorem peek_iff {c : Option Char} :
    Runs s peek l c l' ↔ c = s.source.charAt l.pos ∧ l' = l := by
  rw [succeeds_iff]

instance {n : Nat} {c : Char} :
    Succeeds (seesAhead n c) (fun s l => s.source.charAt (l.pos + n) == some c) (fun _ l => l) := ⟨fun _ _ => rfl⟩

@[simp] theorem seesAhead_iff {n : Nat} {c : Char} {b : Bool} :
    Runs s (seesAhead n c) l b l' ↔ b = (s.source.charAt (l.pos + n) == some c) ∧ l' = l := by
  rw [succeeds_iff]

instance {c : Char} : Succeeds (sees c) (fun s l => s.source.charAt l.pos == some c) (fun _ l => l) := ⟨fun _ _ => rfl⟩

@[simp] theorem sees_iff {c : Char} {b : Bool} :
    Runs s (sees c) l b l' ↔ b = (s.source.charAt l.pos == some c) ∧ l' = l := by
  rw [succeeds_iff]

instance {start : Nat} :
    Succeeds (textFrom start) (fun s l => s.source.slice start l.pos) (fun _ l => l) := ⟨fun _ _ => rfl⟩

@[simp] theorem lexFail_iff {pos : Nat} {fault : Fault} {a : α} :
    ¬ Runs s (LexM.fail pos fault) l a l' := by
  simp [LexM.fail]

@[simp] theorem lexFailRecoverable_iff {pos : Nat} {fault : Fault} {a : α} :
    ¬ Runs s (LexM.failRecoverable pos fault) l a l' := by
  simp [LexM.failRecoverable]

@[simp] theorem lexUnexpected_iff {a : α} : ¬ Runs s LexM.unexpected l a l' := by
  simp [LexM.unexpected]

instance {pos : Nat} : Succeeds (moveTo pos) (fun _ _ => ⟨⟩) (fun _ l => { l with pos }) := ⟨fun _ _ => rfl⟩

@[simp] theorem moveTo_iff {pos : Nat} {u : PUnit} :
    Runs s (moveTo pos) l u l' ↔ l' = { l with pos } :=
  succeeds_iff.trans (and_iff_right rfl)

instance {n : Nat} : Succeeds (advance n) (fun _ _ => ⟨⟩) (fun _ l => { l with pos := l.pos + n }) := ⟨fun _ _ => rfl⟩

@[simp] theorem advance_iff {n : Nat} {u : PUnit} :
    Runs s (advance n) l u l' ↔ l' = { l with pos := l.pos + n } :=
  succeeds_iff.trans (and_iff_right rfl)

instance {c : Char} : Succeeds (skip c) (fun _ _ => ⟨⟩) (fun _ l => { l with pos := l.pos + c.utf8Size }) :=
  ⟨fun _ _ => rfl⟩

@[simp] theorem skip_iff {c : Char} {u : PUnit} :
    Runs s (skip c) l u l' ↔ l' = { l with pos := l.pos + c.utf8Size } :=
  succeeds_iff.trans (and_iff_right rfl)

instance : Succeeds newLine (fun _ _ => ⟨⟩) (fun _ l => { l with line := l.line + 1, lineStart := l.pos }) :=
  ⟨fun _ _ => rfl⟩

@[simp] theorem newLine_iff {u : PUnit} :
    Runs s newLine l u l' ↔ l' = { l with line := l.line + 1, lineStart := l.pos } :=
  succeeds_iff.trans (and_iff_right rfl)

section Repeating

variable {pass : α → LexM (Pass α β)} {a : α} {b : β}

theorem of_lexLoop (Inv : α → Lexer → Prop) {fuel : Nat} (start : Inv a l)
    (again : ∀ {a b l l'}, Inv a l → Runs s (pass a) l (.again b) l' → Inv b l')
    (run : Runs s (LexM.loop pass fuel a) l b l') :
    ∃ last m, Inv last m ∧ Runs s (pass last) m (.done b) l' := by
  induction fuel generalizing a l with
  | zero => simp [LexM.loop] at run
  | succ fuel ih =>
    simp only [LexM.loop, bind_iff] at run
    obtain ⟨step, m, first, rest⟩ := run
    cases step with
    | again next => exact ih (again start first) rest
    | done result =>
      obtain ⟨rfl, rfl⟩ := pure_iff.mp rest
      exact ⟨a, l, start, first⟩

theorem of_repeatForward (Inv : α → Lexer → Prop) (start : Inv a l)
    (again : ∀ {a b l l'}, Inv a l → Runs s (pass a) l (.again b) l' → Inv b l')
    (run : Runs s (repeatForward a pass) l b l') :
    ∃ last m, Inv last m ∧ Runs s (pass last) m (.done b) l' := by
  simp only [repeatForward, bind_iff, lexSource_iff, pos_iff, exists_look] at run
  exact of_lexLoop Inv start again run

end Repeating

/-! ### Steps inside a template -/

theorem insideTemplate_iff {m : LexM α} {a : α} : Runs s (insideTemplate m) l a l' ↔
    ∃ k, Runs s m { l with inTemplate := true } a k ∧ l' = { k with inTemplate := false } := by
  simp only [Runs, insideTemplate]
  cases m s { l with inTemplate := true } <;> simp [eq_comm]

end Runs

/-! ### Moving forward -/

/-- The cursor moved forward inside the text, and no token began or ended. -/
structure Lexer.Forward (source : Source) (l l' : Lexer) : Prop where
  pos_le : l.pos ≤ l'.pos
  inside : l.pos ≤ source.size → l'.pos ≤ source.size
  kind : l'.kind = l.kind
  token : l'.token = l.token
  last : l'.last = l.last
  tokens : l'.tokens = l.tokens
  comments : l'.comments = l.comments
  contexts : l'.contexts = l.contexts
  inTemplate : l'.inTemplate = l.inTemplate

namespace Lexer.Forward

variable {source : Source} {l m n : Lexer}

theorem refl (l : Lexer) : Forward source l l := ⟨Nat.le_refl _, id, rfl, rfl, rfl, rfl, rfl, rfl, rfl⟩

theorem trans (first : Forward source l m) (second : Forward source m n) : Forward source l n :=
  ⟨Nat.le_trans first.pos_le second.pos_le, fun h => second.inside (first.inside h),
    second.kind.trans first.kind, second.token.trans first.token, second.last.trans first.last,
    second.tokens.trans first.tokens, second.comments.trans first.comments,
    second.contexts.trans first.contexts, second.inTemplate.trans first.inTemplate⟩

end Lexer.Forward

/-- The cursor moved forward over white space and comments, and no token was left behind. -/
structure Lexer.Skipped (source : Source) (l l' : Lexer) : Prop where
  pos_le : l.pos ≤ l'.pos
  inside : l.pos ≤ source.size → l'.pos ≤ source.size
  last : l'.last = l.last
  tokens : l'.tokens = l.tokens
  contexts : l'.contexts = l.contexts
  exprAllowed : l'.exprAllowed = l.exprAllowed
  account : ∀ {start : Nat}, Account source start l.tokens l.comments l.pos →
    Account source start l'.tokens l'.comments l'.pos

namespace Lexer.Skipped

variable {source : Source} {l m n : Lexer}

theorem refl (l : Lexer) : Skipped source l l := ⟨Nat.le_refl _, id, rfl, rfl, rfl, rfl, id⟩

theorem trans (first : Skipped source l m) (second : Skipped source m n) : Skipped source l n :=
  ⟨Nat.le_trans first.pos_le second.pos_le, fun h => second.inside (first.inside h),
    second.last.trans first.last, second.tokens.trans first.tokens,
    second.contexts.trans first.contexts, second.exprAllowed.trans first.exprAllowed,
    fun h => second.account (first.account h)⟩

end Lexer.Skipped

section Steps

open LexM

variable {s : Setting} {l l' : Lexer} {u : Unit}

theorem advance_inside {n : Nat} (inside : l.pos + n ≤ s.source.size) :
    l.Forward s.source { l with pos := l.pos + n } :=
  ⟨Nat.le_add_right .., fun _ => inside, rfl, rfl, rfl, rfl, rfl, rfl, rfl⟩

theorem skip_forward {c : Char} (seen : s.source.charAt l.pos = some c) :
    l.Forward s.source { l with pos := l.pos + c.utf8Size } :=
  advance_inside (Source.charAt_extent seen)

theorem advance_forward {c : Char} (seen : s.source.charAt l.pos = some c) :
    l.Forward s.source { l with pos := l.pos + 1 } :=
  advance_inside (Source.lt_size_of_charAt seen)

theorem newLine_forward : l.Forward s.source { l with line := l.line + 1, lineStart := l.pos } :=
  ⟨Nat.le_refl _, id, rfl, rfl, rfl, rfl, rfl, rfl, rfl⟩

theorem escape_forward {containsEscape : Bool} :
    l.Forward s.source { l with containsEscape } :=
  ⟨Nat.le_refl _, id, rfl, rfl, rfl, rfl, rfl, rfl, rfl⟩

theorem endCarriageReturn_forward (run : Runs s endCarriageReturn l u l') :
    l.Forward s.source l' := by
  simp [endCarriageReturn] at run
  rcases run with ⟨seen, rfl⟩ | ⟨-, rfl⟩
  · exact (advance_forward seen).trans newLine_forward
  · exact newLine_forward

/-- Passes that each move forward do so together. -/
theorem repeatForward_forward {α β : Type} {pass : α → LexM (Pass α β)} {a : α} {b : β}
    (each : ∀ {a x l l'}, Runs s (pass a) l x l' → l.Forward s.source l')
    (run : Runs s (repeatForward a pass) l b l') : l.Forward s.source l' := by
  obtain ⟨last, m, before, done⟩ := Runs.of_repeatForward (fun _ => l.Forward s.source) (.refl l)
    (fun before run => before.trans (each run)) run
  exact before.trans (each done)

/-! ### Gaps -/

theorem Lexer.Skipped.line {l m : Lexer} (skipped : l.Skipped s.source m) {line lineStart : Nat} :
    l.Skipped s.source { m with line, lineStart } :=
  ⟨skipped.pos_le, skipped.inside, skipped.last, skipped.tokens, skipped.contexts, skipped.exprAllowed,
    skipped.account⟩

/-- A character of white space is skipped. -/
theorem skip_skipped {c : Char} (seen : s.source.charAt l.pos = some c)
    (gap : Alphabet.isGap c = true) : l.Skipped s.source { l with pos := l.pos + c.utf8Size } :=
  ⟨Nat.le_add_right .., fun _ => Source.charAt_extent seen, rfl, rfl, rfl, rfl,
    fun before => before.blank seen gap⟩

theorem skipCarriageReturn_spec (seen : s.source.charAt l.pos = some '\r')
    (run : Runs s endCarriageReturn { l with pos := l.pos + 1 } u l') :
    l.Skipped s.source l' ∧ s.source.skipBlank l'.pos = s.source.skipBlank l.pos := by
  have first := skip_skipped seen (by decide)
  have target := Source.skipBlank_gap seen (by decide)
  simp [endCarriageReturn] at run
  rcases run with ⟨feed, rfl⟩ | ⟨-, rfl⟩
  · have second := skip_skipped (l := { l with pos := l.pos + 1 }) feed (by decide)
    exact ⟨(first.trans second).line, target ▸ (Source.skipBlank_gap feed (by decide)).symm⟩
  · exact ⟨first.line, target.symm⟩

theorem countLines_same {start : Nat} (run : Runs s (countLines start) l u l') :
    ∃ line lineStart, l' = { l with line, lineStart } := by
  simp [countLines] at run
  subst run
  split
  · exact ⟨l.line, l.lineStart, rfl⟩
  · exact ⟨_, _, rfl⟩

theorem skipBlockComment_spec (opens : s.source.spells l.pos ['/', '*'] = true)
    (run : Runs s skipBlockComment l u l') :
    l.Skipped s.source l' ∧ s.source.skipBlank l'.pos = s.source.skipBlank l.pos := by
  simp [skipBlockComment] at run
  split at run
  · simp at run
  · next stop found =>
    obtain ⟨le, inside⟩ := Source.findCommentEnd?_spec found
    simp at run
    obtain ⟨m, count, run⟩ := run
    obtain ⟨line, lineStart, rfl⟩ := countLines_same count
    simp [note] at run
    subst run
    refine ⟨⟨show l.pos ≤ stop + 2 by omega, fun _ => inside, rfl, rfl, rfl, rfl, fun before => ?_⟩, ?_⟩
    · exact .comment (c := ⟨.block, s.source.slice (l.pos + 2) stop, l.pos, stop + 2, _, _⟩) before
        (.block stop rfl opens found rfl rfl)
    · exact (Source.skipBlank_block opens found).symm

theorem skipLineComment_spec {mark : List Char} (known : mark ∈ Comment.lineMarks)
    (opens : s.source.spells l.pos mark = true)
    (run : Runs s (skipLineComment mark.length) l u l') :
    l.Skipped s.source l' ∧
      l'.pos = s.source.skipWhile (fun c => !Alphabet.isLineTerminator c) (l.pos + mark.length) := by
  simp [skipLineComment, note] at run
  subst run
  have le := s.source.le_skipWhile (fun c => !Alphabet.isLineTerminator c) (l.pos + mark.length)
  refine ⟨⟨Nat.le_trans (Nat.le_add_right ..) le, fun inside => ?_, rfl, rfl, rfl, rfl, fun before => ?_⟩, rfl⟩
  · exact Source.skipWhile_le_size (Source.spells_inside inside opens)
  · exact .comment (c := ⟨.line, _, l.pos, _, _, _⟩) before (.line mark known rfl opens rfl rfl)

/-- A pass skips a piece of the gap, or it stands at the end of the gap. -/
theorem skipBlankPass_spec {x : Pass Unit Unit} (run : Runs s skipBlankPass l x l') :
    (x = .again () ∧ l.Skipped s.source l' ∧ s.source.skipBlank l'.pos = s.source.skipBlank l.pos) ∨
      (x = .done () ∧ l' = l ∧ s.source.skipBlank l.pos = l.pos) := by
  simp only [skipBlankPass, Runs.bind_iff, Runs.peek_iff, Runs.exists_look] at run
  split at run
  · next seen =>
    simp at run
    exact .inr ⟨run.1, run.2, Source.skipBlank_end seen⟩
  · next seen =>
    simp at run
    exact .inl ⟨run.2, skipCarriageReturn_spec seen run.1⟩
  · next seen =>
    simp at run
    rcases run with ⟨star, run, rfl⟩ | ⟨notStar, ⟨slash, run, rfl⟩ | ⟨notSlash, rfl, rfl⟩⟩
    · exact .inl ⟨rfl, skipBlockComment_spec (by simp [Source.spells, Source.has, seen, star]) run⟩
    · have opens : s.source.spells l.pos ['/', '/'] = true := by
        simp [Source.spells, Source.has, seen, slash]
      obtain ⟨skipped, pos⟩ := skipLineComment_spec (by decide) opens run
      exact .inl ⟨rfl, skipped, pos ▸ (Source.skipBlank_line opens).symm⟩
    · have notComment := And.intro (Bool.eq_false_iff.mpr fun h => notSlash (Source.has_iff.mp h))
        (Bool.eq_false_iff.mpr fun h => notStar (Source.has_iff.mp h))
      exact .inr ⟨rfl, rfl, Source.skipBlank_stop seen (by decide) fun _ => notComment⟩
  · next c _ notSlash seen =>
    simp at run
    rcases run with ⟨ends, rfl, rfl⟩ | ⟨notEnd, ⟨blank, rfl, rfl⟩ | ⟨notBlank, rfl, rfl⟩⟩
    · have gap : Alphabet.isGap c = true := by simp [Alphabet.isGap, ends]
      exact .inl ⟨rfl, (skip_skipped seen gap).line, (Source.skipBlank_gap seen gap).symm⟩
    · have gap : Alphabet.isGap c = true := by simp [Alphabet.isGap, blank]
      exact .inl ⟨rfl, skip_skipped seen gap, (Source.skipBlank_gap seen gap).symm⟩
    · have notGap : Alphabet.isGap c = false := by simp [Alphabet.isGap, notEnd, notBlank]
      exact .inr ⟨rfl, rfl, Source.skipBlank_stop seen notGap fun slash => (notSlash slash).elim⟩

/-- The lexer skips to where a look ahead finds the end of the gap. -/
theorem skipBlank_spec (run : Runs s skipBlank l u l') :
    l.Skipped s.source l' ∧ l'.pos = s.source.skipBlank l.pos := by
  obtain ⟨_, m, ⟨skipped, target⟩, done⟩ := Runs.of_repeatForward
    (fun _ m => l.Skipped s.source m ∧ s.source.skipBlank m.pos = s.source.skipBlank l.pos)
    ⟨.refl l, rfl⟩ (by
      rintro _ _ m n ⟨before, target⟩ run
      obtain ⟨-, skipped, same⟩ := (skipBlankPass_spec run).resolve_right (by simp)
      exact ⟨before.trans skipped, same.trans target⟩) run
  obtain ⟨-, rfl, ended⟩ := (skipBlankPass_spec done).resolve_left (by simp)
  exact ⟨skipped, ended.symm.trans target⟩

/-! ### Escapes -/

theorem hexDigits_forward {count : Nat} {digits : List Nat} (run : Runs s (hexDigits count) l digits l') :
    l.Forward s.source l' ∧ l'.pos ≤ l.pos + count := by
  induction count generalizing l digits with
  | zero =>
    simp [hexDigits] at run
    exact run.2 ▸ ⟨.refl _, Nat.le_refl _⟩
  | succ count ih =>
    simp only [hexDigits, Runs.bind_iff, Runs.peek_iff, Runs.exists_look] at run
    split at run
    · next digit found =>
      obtain ⟨c, seen, -⟩ := Option.bind_eq_some_iff.mp found
      simp at run
      obtain ⟨rest, run, -⟩ := run
      obtain ⟨forward, le⟩ := ih run
      exact ⟨(advance_forward seen).trans forward, by simp at le; omega⟩
    · simp at run
      exact run.2 ▸ ⟨.refl _, Nat.le_add_right ..⟩

theorem invalidEscape_iff {pos : Nat} {fault : Fault} {e : Escape} :
    Runs s (invalidEscape pos fault) l e l' ↔
      e = .invalid (s.fatal pos fault) (l.inTemplate && decide (9 ≤ s.edition)) ∧ l' = l := by
  simp [invalidEscape]

theorem readHex_forward {count : Nat} {e : Escape} (run : Runs s (readHex count) l e l') :
    l.Forward s.source l' ∧ l'.pos ≤ l.pos + count := by
  simp [readHex, invalidEscape_iff] at run
  obtain ⟨digits, m, digitsRun, ⟨_, _, rfl⟩ | ⟨_, _, rfl⟩⟩ := run <;> exact hexDigits_forward digitsRun

theorem hexDigits_pos {count : Nat} {digits : List Nat} (run : Runs s (hexDigits count) l digits l') :
    l'.pos = l.pos + digits.length := by
  induction count generalizing l digits with
  | zero =>
    simp [hexDigits] at run
    obtain ⟨rfl, rfl⟩ := run
    rfl
  | succ count ih =>
    simp only [hexDigits, Runs.bind_iff, Runs.peek_iff, Runs.exists_look] at run
    split at run
    · simp at run
      obtain ⟨rest, run, rfl⟩ := run
      rw [ih run, List.length_cons]
      dsimp only
      omega
    · simp at run
      obtain ⟨rfl, rfl⟩ := run
      rfl

/-- A code is read from all of its digits. -/
theorem readHex_pos {count code : Nat} (run : Runs s (readHex count) l (.code code) l') : l'.pos = l.pos + count := by
  simp [readHex, invalidEscape_iff] at run
  obtain ⟨digits, read, ⟨-, length⟩, -⟩ := run
  rw [hexDigits_pos read, length]

theorem readCodePoint_forward {e : Escape} (run : Runs s readCodePoint l e l') :
    l.Forward s.source l' := by
  simp [readCodePoint] at run
  rcases run with ⟨seen, _, run⟩ | ⟨_, run⟩
  · have brace := advance_forward seen
    split at run
    · simp [invalidEscape_iff] at run
      exact run.2 ▸ brace
    · next close found =>
      obtain ⟨le, lt, _⟩ := Source.find?_spec found
      simp at run
      obtain ⟨e', m, hex, run⟩ := run
      obtain ⟨forward, bound⟩ := readHex_forward hex
      split at run
      · have after : m.Forward s.source { m with pos := m.pos + 1 } :=
          ⟨Nat.le_add_right .., fun _ => by simp at bound ⊢; omega, rfl, rfl, rfl, rfl, rfl, rfl, rfl⟩
        simp [invalidEscape_iff] at run
        rcases run with ⟨_, _, rfl⟩ | ⟨_, _, rfl⟩ <;> exact (brace.trans forward).trans after
      · simp at run
        exact run.2 ▸ brace.trans forward
  · exact (readHex_forward run).1

/-- After the first digit of a legacy escape come the others. -/
theorem octalDigits_spec {source : Source} {here n i : Nat}
    (le : n ≤ ((([here - 1, here, here + 1].map fun i =>
      (source.charAt i).bind (Alphabet.digit? 8)).takeWhile Option.isSome).filterMap id).length)
    (lt : i < n - 1) : ((source.charAt (here + i)).bind (Alphabet.digit? 8)).isSome = true := by
  have bound {m : Nat} {digits : List (Option Nat)} (short : digits.length ≤ m)
      (le : n ≤ (digits.filterMap id).length) : n ≤ m :=
    Nat.le_trans le (Nat.le_trans (List.length_filterMap_le ..) short)
  simp only [List.map_cons, List.map_nil, List.takeWhile_cons, List.takeWhile_nil] at le
  split at le
  · split at le
    · next second =>
      have three : n ≤ 3 := bound (by split <;> simp) le
      obtain rfl | rfl : i = 0 ∨ i = 1 := by omega
      · exact second
      · split at le
        · next third => exact third
        · have : n ≤ 2 := bound (by simp) le
          omega
    · have : n ≤ 1 := bound (by simp) le
      omega
  · have : n = 0 := by simpa using le
    omega

/-- The octal digits of a legacy escape lie in the text. -/
theorem octalDigits_inside {source : Source} {here : Nat} (inside : here ≤ source.size) {n : Nat}
    (le : n ≤ ((([here - 1, here, here + 1].map fun i =>
      (source.charAt i).bind (Alphabet.digit? 8)).takeWhile Option.isSome).filterMap id).length) :
    here + (n - 1) ≤ source.size := by
  cases count : n - 1 with
  | zero => exact inside
  | succ i =>
    have digit := octalDigits_spec le (i := i) (by omega)
    obtain ⟨c, seen, -⟩ := Option.bind_eq_some_iff.mp (Option.isSome_iff_exists.mp digit).choose_spec
    exact Source.lt_size_of_charAt seen

theorem readOctalEscape_forward {inTemplate : Bool} {e : Escape}
    (run : Runs s (readOctalEscape inTemplate) l e l') : l.Forward s.source l' := by
  simp only [readOctalEscape, Runs.bind_iff, Runs.lexSource_iff, Runs.pos_iff, Runs.exists_look] at run
  obtain ⟨_, m, move, rest⟩ := run
  obtain rfl : l' = m := by
    simp [invalidEscape_iff] at rest
    rcases rest with ⟨_, _, same⟩ | ⟨_, _, same⟩ <;> exact same
  obtain rfl := Runs.moveTo_iff.mp move
  refine ⟨Nat.le_add_right .., fun inside => octalDigits_inside inside ?_, rfl, rfl, rfl, rfl, rfl,
    rfl, rfl⟩
  split
  · exact by simp [List.length_dropLast]
  · exact Nat.le_refl _

theorem readEscape_forward {inTemplate : Bool} {e : Escape} {c : Char}
    (seen : s.source.charAt l.pos = some c)
    (run : Runs s (readEscape inTemplate) l e l') : l.Forward s.source l' := by
  simp only [readEscape, Runs.bind_iff, Runs.advance_iff, Runs.peek_iff, Runs.exists_unit,
    exists_eq_left, Runs.exists_look] at run
  have backslash := advance_forward seen
  split at run
  · simp at run
  · next c seen =>
    simp only [Runs.bind_iff, Runs.skip_iff, Runs.exists_unit, exists_eq_left] at run
    have escaped := backslash.trans (skip_forward seen)
    split at run
    case h_3 => exact escaped.trans (readHex_forward run).1
    case h_4 => exact escaped.trans (readCodePoint_forward run)
    case h_9 =>
      simp at run
      exact escaped.trans (endCarriageReturn_forward run.1)
    case h_10 =>
      simp [invalidEscape_iff] at run
      rcases run with ⟨_, _, rfl⟩ | ⟨_, ⟨_, ⟨_, _, rfl⟩ | ⟨_, ⟨_, _, rfl⟩ | ⟨_, _, rfl⟩⟩⟩ | ⟨_,
        ⟨_, octal⟩ | ⟨_, _, rfl⟩⟩⟩
      · exact escaped.trans newLine_forward
      · exact escaped
      · exact escaped
      · exact escaped
      · exact escaped.trans (readOctalEscape_forward octal)
      · exact escaped
    all_goals exact (Runs.pure_iff.mp run).2 ▸ escaped

/-! ### Excused escapes -/

/-- An invalid escape is excused in the text of a template, if the edition allows it. -/
def LexM.Escape.FitsPlace (s : Setting) (inside : Bool) : Escape → Prop
  | .invalid _ excused => excused = (inside && decide (9 ≤ s.edition))
  | _ => True

theorem readHex_fitsPlace {count : Nat} {e : Escape} (run : Runs s (readHex count) l e l') :
    e.FitsPlace s l.inTemplate := by
  simp [readHex, invalidEscape_iff] at run
  obtain ⟨digits, m, digitsRun, ⟨-, rfl, -⟩ | ⟨-, rfl, -⟩⟩ := run
  · exact congrArg (· && _) (hexDigits_forward digitsRun).1.inTemplate
  · trivial

theorem readCodePoint_fitsPlace {e : Escape} (run : Runs s readCodePoint l e l') : e.FitsPlace s l.inTemplate := by
  simp [readCodePoint] at run
  rcases run with ⟨_, _, run⟩ | ⟨_, run⟩
  · split at run
    · simp [invalidEscape_iff] at run
      exact run.1 ▸ rfl
    · simp at run
      obtain ⟨e', m, hex, run⟩ := run
      have same := (readHex_forward hex).1.inTemplate
      split at run
      · simp [invalidEscape_iff] at run
        rcases run with ⟨_, rfl, -⟩ | ⟨_, rfl, -⟩
        · exact congrArg (· && _) same
        · trivial
      · simp at run
        have fits := readHex_fitsPlace hex
        exact run.1 ▸ fits
  · exact readHex_fitsPlace run

theorem readOctalEscape_fitsPlace {inTemplate : Bool} {e : Escape} (run : Runs s (readOctalEscape inTemplate) l e l') :
    e.FitsPlace s l.inTemplate := by
  simp only [readOctalEscape, Runs.bind_iff, Runs.lexSource_iff, Runs.pos_iff, Runs.exists_look] at run
  obtain ⟨_, m, move, rest⟩ := run
  obtain rfl := Runs.moveTo_iff.mp move
  simp [invalidEscape_iff] at rest
  rcases rest with ⟨_, rfl, -⟩ | ⟨_, rfl, -⟩
  · rfl
  · trivial

theorem readEscape_fitsPlace {inTemplate : Bool} {e : Escape} (run : Runs s (readEscape inTemplate) l e l') :
    e.FitsPlace s l.inTemplate := by
  simp only [readEscape, Runs.bind_iff, Runs.advance_iff, Runs.peek_iff, Runs.exists_unit,
    exists_eq_left, Runs.exists_look] at run
  split at run
  · simp at run
  · next c seen =>
    simp only [Runs.bind_iff, Runs.skip_iff, Runs.exists_unit, exists_eq_left] at run
    split at run
    case h_3 =>
      have fits := readHex_fitsPlace run
      exact fits
    case h_4 =>
      have fits := readCodePoint_fitsPlace run
      exact fits
    case h_9 =>
      simp at run
      exact run.2 ▸ trivial
    case h_10 =>
      simp [invalidEscape_iff] at run
      rcases run with ⟨_, rfl, _⟩ | ⟨_, ⟨_, ⟨_, rfl, _⟩ | ⟨_, ⟨_, rfl, _⟩ | ⟨_, rfl, _⟩⟩⟩ | ⟨_,
        ⟨_, octal⟩ | ⟨_, rfl, _⟩⟩⟩
      · trivial
      · rfl
      · rfl
      · trivial
      · have fits := readOctalEscape_fitsPlace octal
        exact fits
      · trivial
    all_goals exact (Runs.pure_iff.mp run).1 ▸ trivial

/-! ### Words -/

theorem readWordEscape_forward {atStart : Bool} {c b : Char} (seen : s.source.charAt l.pos = some b)
    (run : Runs s (readWordEscape atStart) l c l') : l.Forward s.source l' ∧ l.pos < l'.pos := by
  simp [readWordEscape] at run
  obtain ⟨mark, e, m, code, run⟩ := run
  have marked : l.Forward s.source { l with containsEscape := true } := escape_forward
  have before := (marked.trans (advance_forward seen)).trans (advance_forward mark)
  have escape := before.trans (readCodePoint_forward code)
  have past : l.pos + 1 + 1 ≤ m.pos := (readCodePoint_forward code).pos_le
  split at run
  · split at run
    · obtain ⟨-, rfl⟩ := Runs.pure_iff.mp run
      exact ⟨escape, by omega⟩
    · simp at run
  · simp at run
  · simp at run

theorem wordPass_forward {word : List Char} {x : Pass (List Char) (List Char)}
    (run : Runs s (wordPass word) l x l') :
    l.Forward s.source l' ∧ (l.pos < l'.pos ∨ x = .done word) := by
  simp only [wordPass, Runs.bind_iff, Runs.peek_iff, Runs.exists_look] at run
  split at run
  · obtain ⟨rfl, rfl⟩ := Runs.pure_iff.mp run
    exact ⟨.refl _, .inr rfl⟩
  · next c seen =>
    simp at run
    rcases run with ⟨_, _, rfl⟩ | ⟨_, ⟨_, _, escape, _⟩ | ⟨_, rfl, rfl⟩⟩
    · exact ⟨skip_forward seen, .inl (Nat.lt_add_of_pos_right c.utf8Size_pos)⟩
    · obtain ⟨forward, past⟩ := readWordEscape_forward seen escape
      exact ⟨forward, .inl past⟩
    · exact ⟨.refl _, .inr rfl⟩

theorem readWordText_forward {word : String} (run : Runs s readWordText l word l') :
    l.Forward s.source l' := by
  simp [readWordText] at run
  obtain ⟨_, run, _⟩ := run
  exact escape_forward.trans (repeatForward_forward (fun pass => (wordPass_forward pass).1) run)

/-- A word that is not empty is moved past. -/
theorem readWordText_past {word : String} (run : Runs s readWordText l word l') (some : word ≠ "") :
    l.pos < l'.pos := by
  simp [readWordText] at run
  obtain ⟨read, passes, rfl⟩ := run
  obtain ⟨last, m, ⟨le, before⟩, done⟩ := Runs.of_repeatForward
    (fun read m => l.pos ≤ m.pos ∧ (l.pos < m.pos ∨ read = [])) (by simp) (by
      rintro _ _ m n ⟨le, -⟩ pass
      rcases (wordPass_forward pass).2 with past | same
      · exact ⟨by omega, .inl (by omega)⟩
      · cases same) passes
  rcases (wordPass_forward done).2 with past | same
  · exact Nat.lt_of_le_of_lt le past
  · cases same
    rcases before with before | rfl
    · exact Nat.lt_of_lt_of_le before (wordPass_forward done).1.pos_le
    · exact (some rfl).elim

/-! ### Numbers -/

theorem digitPass_forward {radix start : Nat} {legacy : Bool} {digits : DigitRun}
    {x : Pass DigitRun DigitRun} (run : Runs s (digitPass radix start legacy digits) l x l') :
    l.Forward s.source l' := by
  simp only [digitPass, Runs.bind_iff, Runs.peek_iff, Runs.exists_look] at run
  split at run
  · exact (Runs.pure_iff.mp run).2 ▸ .refl _
  · next c seen =>
    simp at run
    rcases run with ⟨_, _, _, _, _, rfl⟩ | ⟨_, run⟩
    · exact advance_forward seen
    · split at run
      · simp at run
        exact run.1 ▸ advance_forward seen
      · exact (Runs.pure_iff.mp run).2 ▸ .refl _

theorem readDigits_forward {radix : Nat} {maybeLegacy : Bool} {digits : Option (List Nat)}
    (run : Runs s (readDigits radix maybeLegacy) l digits l') : l.Forward s.source l' := by
  simp [readDigits] at run
  rcases run with ⟨_, _, passes, _⟩ | ⟨_, _, passes, _⟩
  · exact repeatForward_forward digitPass_forward passes
  · exact repeatForward_forward digitPass_forward passes

@[simp] theorem Runs.checkNumberEnd_iff :
    Runs s checkNumberEnd l u l' ↔
      (s.source.charAt l.pos).any (Alphabet.isIdentifierStart s.astral) = false ∧ l' = l := by
  simp +contextual [checkNumberEnd]

theorem readFraction_forward (run : Runs s readFraction l u l') : l.Forward s.source l' := by
  simp [readFraction] at run
  rcases run with ⟨seen, _, digits⟩ | ⟨_, rfl⟩
  · exact (advance_forward seen).trans (readDigits_forward digits)
  · exact .refl _

theorem readExponent_forward {start : Nat} (run : Runs s (readExponent start) l u l') :
    l.Forward s.source l' := by
  simp [readExponent] at run
  rcases run with ⟨mark, ⟨sign, _, digits, _⟩ | ⟨_, _, digits, _⟩⟩ | ⟨_, rfl⟩
  · have signed : l.Forward s.source { l with pos := l.pos + 1 + 1 } :=
      advance_inside (n := 2) (sign.elim Source.lt_size_of_charAt Source.lt_size_of_charAt)
    exact signed.trans (readDigits_forward digits)
  · exact (mark.elim advance_forward advance_forward).trans (readDigits_forward digits)
  · exact .refl _

/-! ### Texts -/

theorem stringPass_forward {quote : Char} {text : List Char} {x : Pass (List Char) (List Char)}
    (run : Runs s (stringPass quote text) l x l') : l.Forward s.source l' := by
  simp only [stringPass, Runs.bind_iff, Runs.get_iff, Runs.peek_iff, Runs.exists_look] at run
  split at run
  · simp at run
  · next c seen =>
    simp at run
    rcases run with ⟨_, _, rfl⟩ | ⟨_, ⟨_, e, m, escape, run⟩ | ⟨_, ⟨_, _, _, rfl⟩ | ⟨_, _, _, rfl⟩⟩⟩
    · exact .refl _
    · have forward := readEscape_forward seen escape
      split at run
      · exact (Runs.pure_iff.mp run).2 ▸ forward
      · exact (Runs.pure_iff.mp run).2 ▸ forward
      · simp at run
    · exact (skip_forward seen).trans newLine_forward
    · exact skip_forward seen

/-- The body of a string ends before its quote. -/
theorem stringPass_done {quote : Char} {text found : List Char}
    (run : Runs s (stringPass quote text) l (.done found) l') :
    l' = l ∧ s.source.charAt l.pos = some quote := by
  simp only [stringPass, Runs.bind_iff, Runs.get_iff, Runs.peek_iff, Runs.exists_look] at run
  split at run
  · simp at run
  · next c seen =>
    simp at run
    rcases run with ⟨rfl, _, same⟩ | ⟨_, _, e, m, _, run⟩
    · exact ⟨same, seen⟩
    · split at run <;> simp at run

theorem bodyPass_forward {start : Nat} {state : BodyState} {x : Pass BodyState Unit}
    (run : Runs s (bodyPass start state) l x l') : l.Forward s.source l' := by
  simp only [bodyPass, Runs.bind_iff, Runs.peek_iff, Runs.exists_look] at run
  split at run
  · simp at run
  · next c seen =>
    simp at run
    rcases run with ⟨_, ⟨_, _, rfl⟩ | ⟨_, ⟨_, _, rfl⟩ | ⟨_, _, rfl⟩⟩⟩
    · exact skip_forward seen
    · exact .refl _
    · exact skip_forward seen

/-- The body of a regular expression ends before a slash. -/
theorem bodyPass_done {start : Nat} {state : BodyState}
    (run : Runs s (bodyPass start state) l (.done ()) l') :
    l' = l ∧ s.source.charAt l.pos = some '/' := by
  simp only [bodyPass, Runs.bind_iff, Runs.peek_iff, Runs.exists_look] at run
  split at run
  · simp at run
  · next c seen =>
    simp at run
    obtain ⟨_, _, ⟨rfl, _⟩, same⟩ := run
    exact ⟨same, seen⟩

end Steps
end ScriptSyntax
