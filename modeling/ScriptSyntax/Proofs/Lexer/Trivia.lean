import ScriptSyntax.Proofs.Chain.Token

/-!
What lies between tokens, as a text: line breaks, white space and comments, piece by piece.  The lexer gets over such
pieces on its way to the next token, and over nothing else.
-/

namespace ScriptSyntax

open LexM

/-! ### Pieces -/

def breaksLine (text : List Char) : Bool := text.any Alphabet.isLineTerminator

/-- If the text goes on, the line ends there. -/
def LineEnds (text : List Char) : Prop := ∀ c ∈ text.head?, Alphabet.isLineTerminator c = true

/-- What opens a comment up to the end of its line.  Only scripts know the marks of HTML, and one of them only where no
token stands before it on its line. -/
inductive LineMark (html fresh : Bool) : List Char → Prop
  | slashes : LineMark html fresh ['/', '/']
  | opens (allowed : html = true) : LineMark html fresh ['<', '!', '-', '-']
  | closes (allowed : html = true) (first : fresh = true) : LineMark html fresh ['-', '-', '>']

theorem LineMark.narrow {html fresh : Bool} {mark : List Char} (known : LineMark html fresh mark) :
    ∀ c ∈ mark, c.utf8Size = 1 := by
  cases known <;> simp only [List.forall_mem_cons]
  case slashes => exact ⟨rfl, rfl, by simp⟩
  case opens => exact ⟨rfl, rfl, rfl, rfl, by simp⟩
  case closes => exact ⟨rfl, rfl, rfl, by simp⟩

/-- A line break, a character of white space or a comment, before the text `rest`.  Of the text inside a block comment
`P` holds. -/
inductive GapPiece (html fresh : Bool) (P : List Char → Prop) (rest : List Char) : List Char → Prop
  | crlf : GapPiece html fresh P rest ['\r', '\n']
  | gap {c : Char} (isGap : Alphabet.isGap c = true) (alone : c = '\r' → rest.head? ≠ some '\n') :
      GapPiece html fresh P rest [c]
  | block {body : List Char} (holds : P body) (whole : ¬ ['*', '/'] <:+: body) :
      GapPiece html fresh P rest ('/' :: '*' :: (body ++ ['*', '/']))
  | line {mark body : List Char} (known : LineMark html fresh mark) (inside : breaksLine body = false)
      (ends : LineEnds rest) :
    GapPiece html fresh P rest (mark ++ body)

variable {html fresh fresh' : Bool} {P Q : List Char → Prop} {c : Char} {u text rest rest' : List Char}

theorem breaksLine_append : breaksLine (u ++ rest) = (breaksLine u || breaksLine rest) := List.any_append

namespace GapPiece

theorem opens (piece : GapPiece html fresh P rest u) :
    ∃ c t, u = c :: t ∧ (Alphabet.isGap c = true ∨ c = '/' ∨ c = '<' ∨ c = '-') := by
  cases piece with
  | crlf => exact ⟨_, _, rfl, .inl (by decide)⟩
  | gap isGap => exact ⟨_, _, rfl, .inl isGap⟩
  | block => exact ⟨_, _, rfl, by simp⟩
  | line known => cases known <;> exact ⟨_, _, rfl, by simp⟩

theorem width_pos (piece : GapPiece html fresh P rest u) : 0 < width u := by
  obtain ⟨c, t, rfl, -⟩ := piece.opens
  have := c.utf8Size_pos
  rw [width_cons]
  omega

/-- Only the next character behind a piece matters to it. -/
theorem congr (piece : GapPiece html fresh P rest u) (same : rest'.head? = rest.head?) :
    GapPiece html fresh P rest' u := by
  cases piece with
  | crlf => exact .crlf
  | gap isGap alone => exact .gap isGap (same ▸ alone)
  | block holds whole => exact .block holds whole
  | line known inside ends => exact .line known inside (by rwa [LineEnds, same])

theorem mono (piece : GapPiece html fresh P rest u) (imp : ∀ t, P t → Q t) : GapPiece html fresh Q rest u := by
  cases piece with
  | crlf => exact .crlf
  | gap isGap alone => exact .gap isGap alone
  | block holds whole => exact .block (imp _ holds) whole
  | line known inside ends => exact .line known inside ends

end GapPiece

/-- The text goes on with pieces, and `rest` is behind them; `fresh` says whether a line begins before the text, and
`fresh'` whether one does before `rest`. -/
inductive Skips (html : Bool) (P : List Char → Prop) (fresh : Bool) (text : List Char) : Bool → List Char → Prop
  | refl : Skips html P fresh text fresh text
  | step {fresh' : Bool} {u rest : List Char} (before : Skips html P fresh text fresh' (u ++ rest))
      (piece : GapPiece html fresh' P rest u) :
    Skips html P fresh text (fresh' || breaksLine u) rest

namespace Skips

theorem mono (skips : Skips html P fresh text fresh' rest) (imp : ∀ t, P t → Q t) :
    Skips html Q fresh text fresh' rest := by
  induction skips with
  | refl => exact .refl
  | step _ piece ih => exact .step ih (piece.mono imp)

/-- What is behind the pieces may be replaced by what begins alike. -/
theorem replace (skips : Skips html P fresh text fresh' rest) :
    ∃ t, text = t ++ rest ∧ ∀ rest', rest'.head? = rest.head? → Skips html P fresh (t ++ rest') fresh' rest' := by
  induction skips with
  | refl => exact ⟨[], rfl, fun _ _ => .refl⟩
  | @step fresh' u rest _ piece ih =>
    obtain ⟨t, split, again⟩ := ih
    refine ⟨t ++ u, by rw [split, List.append_assoc], fun rest' same => ?_⟩
    obtain ⟨c, v, rfl, -⟩ := piece.opens
    rw [List.append_assoc]
    exact .step (again _ rfl) (piece.congr same)

/-- No piece begins with a hash. -/
theorem head_ne (skips : Skips html P fresh text fresh' rest)
    (other : Alphabet.isGap c = false ∧ c ≠ '/' ∧ c ≠ '<' ∧ c ≠ '-')
    (first : rest.head? ≠ some c) : text.head? ≠ some c := by
  induction skips with
  | refl => exact first
  | step _ piece ih =>
    refine ih ?_
    obtain ⟨d, v, rfl, opens⟩ := piece.opens
    rintro same
    obtain rfl : d = c := by simpa using same
    simp [other] at opens

end Skips

/-! ### Comments in a source -/

namespace Source

variable {s : Source} {test : Nat → Bool} {offset stop : Nat} {body : List Char}

theorem find?_before (found : s.find? test offset = some stop) : ∀ i, offset ≤ i → i < stop → test i = false := by
  fun_induction find? s test offset with
  | case1 offset _ passes =>
    intro i le lt
    have := Option.some.inj found
    omega
  | case2 offset _ fails ih =>
    intro i le lt
    rcases Nat.eq_or_lt_of_le le with rfl | past
    · simpa using fails
    · exact ih found i past lt
  | case3 => cases found

theorem find?_first (le : offset ≤ stop) (inside : stop < s.size) (passes : test stop = true)
    (before : ∀ i, offset ≤ i → i < stop → test i = false) :
    s.find? test offset = some stop := by
  fun_induction find? s test offset with
  | case1 offset _ first =>
    refine congrArg some (Nat.le_antisymm le (Nat.le_of_not_lt fun lt => ?_))
    rw [before offset (Nat.le_refl _) lt] at first
    cases first
  | case2 offset _ fails ih =>
    have other : offset ≠ stop := by
      rintro rfl
      exact fails passes
    exact ih (Nat.lt_of_le_of_ne le other) fun i past => before i (Nat.le_of_lt past)
  | case3 offset outside => exact absurd (Nat.lt_of_le_of_lt le inside) outside

namespace TextAt

/-- A comment ends where its first terminator is. -/
theorem findCommentEnd? (at' : s.TextAt offset (body ++ '*' :: '/' :: rest)) (whole : ¬ ['*', '/'] <:+: body) :
    s.findCommentEnd? offset = some (offset + width body) := by
  have star : s.charAt (offset + width body) = some '*' := at'.past.charAt
  have slash : s.charAt (offset + width body + 1) = some '/' := at'.past.step.charAt
  refine find?_first (Nat.le_add_right ..) (lt_size_of_charAt star)
    (by simp [Source.has, star, slash]) fun i le lt => ?_
  by_contra found
  obtain ⟨star', slash'⟩ : s.charAt i = some '*' ∧ s.charAt (i + 1) = some '/' := by simpa [Source.has] using found
  obtain ⟨t, more, split, rfl⟩ := at'.split (isBoundary_of_charAt star') le
  have more' : s.TextAt (offset + width t) more := (split ▸ at').past
  obtain ⟨v, rfl, -⟩ | ⟨v, rfl, rfl⟩ := List.append_eq_append_iff.mp split
  · rw [width_append] at lt
    omega
  cases v with
  | nil => simp at lt
  | cons d v =>
    obtain rfl : '*' = d := Option.some.inj (star'.symm.trans more'.charAt)
    have next := slash'.symm.trans (show s.charAt (offset + width t + 1) = _ from more'.step.charAt)
    cases v with
    | nil => simp at next
    | cons e v =>
      obtain rfl : '/' = e := by simpa using next
      exact whole ⟨t, v, by simp⟩

theorem split_comment (at' : s.TextAt offset text) (found : s.findCommentEnd? offset = some stop) :
    ∃ body rest, text = body ++ '*' :: '/' :: rest ∧ ¬ ['*', '/'] <:+: body := by
  obtain ⟨le, -, ends⟩ := find?_spec found
  obtain ⟨star, slash⟩ : s.charAt stop = some '*' ∧ s.charAt (stop + 1) = some '/' := by simpa [Source.has] using ends
  obtain ⟨body, more, rfl, rfl⟩ := at'.split (isBoundary_of_charAt star) le
  have more' := at'.past
  rw [more'.charAt] at star
  obtain ⟨more, rfl⟩ := List.head?_eq_some_iff.mp star
  have next : s.charAt (offset + width body + 1) = _ := more'.step.charAt
  rw [slash] at next
  obtain ⟨rest, rfl⟩ := List.head?_eq_some_iff.mp next.symm
  refine ⟨body, rest, rfl, ?_⟩
  rintro ⟨t, v, rfl⟩
  have early : s.TextAt (offset + width t) ('*' :: '/' :: (v ++ '*' :: '/' :: rest)) := by
    refine past (t := t) ?_
    simpa using at'
  have absent := find?_before found (offset + width t) (Nat.le_add_right ..) (by simp [width_append, Char.utf8Size_pos])
  have slash : s.charAt (offset + width t + 1) = some '/' := early.step.charAt
  simp [Source.has, early.charAt, slash] at absent

/-- A mark of narrow characters stands at the offset if the text begins with it. -/
theorem spells_iff {mark : List Char} (at' : s.TextAt offset text) (narrow : ∀ c ∈ mark, c.utf8Size = 1) :
    s.spells offset mark = true ↔ ∃ rest, text = mark ++ rest := by
  induction mark generalizing offset text with
  | nil => simp
  | cons c mark ih =>
    rw [spells_cons, at'.charAt, List.head?_eq_some_iff]
    constructor
    · rintro ⟨⟨text, rfl⟩, more⟩
      obtain ⟨rest, rfl⟩ := (ih (narrow c (.head _) ▸ at'.step) fun d mem => narrow d (.tail _ mem)).mp more
      exact ⟨rest, rfl⟩
    · rintro ⟨rest, rfl⟩
      exact ⟨⟨_, rfl⟩, (ih (narrow c (.head _) ▸ at'.step) fun d mem => narrow d (.tail _ mem)).mpr ⟨rest, rfl⟩⟩

end TextAt
end Source

/-! ### One pass over a piece -/

/-- The text is that of a block comment among the comments. -/
def NotedIn (comments : List Comment) (body : List Char) : Prop :=
  ∃ c ∈ comments, c.kind = .block ∧ c.text = String.ofList body

/-- The cursor is moved over the piece; comments are noted at most. -/
structure Lexer.Passes (u : List Char) (l l' : Lexer) : Prop where
  pos : l'.pos = l.pos + width u
  comments : l.comments ⊆ l'.comments

variable {s : Setting} {l l' m : Lexer} {mark : List Char}

theorem skipLineComment_over (at' : s.source.TextAt l.pos (mark ++ (body ++ rest))) (inside : breaksLine body = false)
    (ends : LineEnds rest) :
    ∃ l', Runs s (skipLineComment (width mark)) l ⟨⟩ l' ∧ Lexer.Passes (mark ++ body) l l' := by
  have stop : s.source.skipWhile (fun c => !Alphabet.isLineTerminator c) (l.pos + width mark) =
    l.pos + width mark + width body :=
    at'.past.skipWhile (by simpa [breaksLine] using inside) (by simpa [LineEnds] using ends)
  refine ⟨_, by simp [skipLineComment, note]; rfl, ?_, List.subset_cons_self ..⟩
  rw [width_append, ← Nat.add_assoc]
  exact stop

/-- A text goes on up to the end of its line. -/
theorem exists_line (text : List Char) :
    ∃ body rest, text = body ++ rest ∧ breaksLine body = false ∧ LineEnds rest := by
  refine ⟨text.takeWhile (fun c => !Alphabet.isLineTerminator c), _, List.takeWhile_append_dropWhile.symm,
    ?_, fun c mem => ?_⟩
  · simp only [breaksLine, List.any_eq_false]
    exact fun c mem => by simpa using List.mem_takeWhile_imp mem
  · have stop := List.head?_dropWhile_not (fun c => !Alphabet.isLineTerminator c) text
    rw [mem] at stop
    simpa using stop

theorem skipBlockComment_over (at' : s.source.TextAt l.pos ('/' :: '*' :: (body ++ '*' :: '/' :: rest)))
    (whole : ¬ ['*', '/'] <:+: body) :
    ∃ l', Runs s skipBlockComment l ⟨⟩ l' ∧ Lexer.Passes ('/' :: '*' :: (body ++ ['*', '/'])) l l' ∧
      NotedIn l'.comments body := by
  have inside : s.source.TextAt (l.pos + 2) (body ++ '*' :: '/' :: rest) := at'.step.step
  obtain ⟨m, counts⟩ : ∃ m, Runs s (countLines l.pos) { l with pos := l.pos + 2 + width body + 2 } ⟨⟩ m := by
    simp [countLines]
  obtain ⟨line, lineStart, rfl⟩ := countLines_same counts
  refine ⟨_, by simp [skipBlockComment, inside.findCommentEnd? whole, note]; exact ⟨_, counts, rfl⟩, ⟨?_,
    List.subset_cons_self ..⟩, ?_⟩
  · have star : '*'.utf8Size = 1 := rfl
    have slash : '/'.utf8Size = 1 := rfl
    simp only [width_append, width_cons, width_nil]
    omega
  · exact ⟨_, .head _, rfl, inside.slice⟩

theorem skipBlockComment_opens {u : Unit} (at' : s.source.TextAt l.pos ('/' :: '*' :: text))
    (run : Runs s skipBlockComment l u l') :
    ∃ body rest, text = body ++ '*' :: '/' :: rest ∧ ¬ ['*', '/'] <:+: body := by
  simp [skipBlockComment] at run
  split at run
  · simp at run
  · next stop found =>
    have inside : s.source.TextAt (l.pos + 2) text := at'.step.step
    exact inside.split_comment found

/-- A pass is over a piece. -/
theorem skipBlankPass_over (at' : s.source.TextAt l.pos text) (run : Runs s skipBlankPass l (.again ()) l') :
    ∃ u rest, text = u ++ rest ∧ Lexer.Passes u l l' ∧ GapPiece html fresh (NotedIn l'.comments) rest u := by
  cases text with
  | nil => simp [skipBlankPass, at'.charAt_nil] at run
  | cons c text =>
    simp only [skipBlankPass, Runs.bind_iff, Runs.peek_iff, Runs.exists_look, at'.charAt_cons] at run
    split at run
    · next none => cases none
    · next same =>
      obtain rfl := Option.some.inj same
      simp [endCarriageReturn, show s.source.charAt (l.pos + 1) = text.head? from at'.step.charAt] at run
      obtain ⟨feed, rfl⟩ | ⟨alone, rfl⟩ := run
      · obtain ⟨rest, rfl⟩ := List.head?_eq_some_iff.mp feed
        exact ⟨['\r', '\n'], rest, rfl, ⟨rfl, List.Subset.refl _⟩, .crlf⟩
      · exact ⟨['\r'], text, rfl, ⟨rfl, List.Subset.refl _⟩, .gap (by decide) fun _ => alone⟩
    · next same =>
      obtain rfl := Option.some.inj same
      have next : s.source.charAt (l.pos + 1) = text.head? := at'.step.charAt
      simp [next] at run
      obtain ⟨star, run⟩ | ⟨-, slash, run⟩ := run
      · obtain ⟨text, rfl⟩ := List.head?_eq_some_iff.mp star
        obtain ⟨body, rest, rfl, whole⟩ := skipBlockComment_opens at' run
        obtain ⟨k, run', passes, noted⟩ := skipBlockComment_over at' whole
        cases run.symm.trans run'
        exact ⟨_, rest, by simp, passes, .block noted whole⟩
      · obtain ⟨text, rfl⟩ := List.head?_eq_some_iff.mp slash
        obtain ⟨body, rest, rfl, inside, ends⟩ := exists_line text
        obtain ⟨k, run', passes⟩ :=
          skipLineComment_over (show s.source.TextAt l.pos (['/', '/'] ++ (body ++ rest)) from at') inside ends
        cases run.symm.trans run'
        exact ⟨_, rest, by simp, passes, .line .slashes inside ends⟩
    · next other _ same =>
      obtain rfl := Option.some.inj same
      simp at run
      obtain ⟨ends, rfl⟩ | ⟨-, blank, rfl⟩ := run
      · exact ⟨[c], text, rfl, ⟨by simp, List.Subset.refl _⟩, .gap (by simp [Alphabet.isGap, ends]) fun return' =>
          (other (by rw [return'])).elim⟩
      · exact ⟨[c], text, rfl, ⟨by simp, List.Subset.refl _⟩, .gap (by simp [Alphabet.isGap, blank]) fun return' =>
          (other (by rw [return'])).elim⟩

/-- The piece does not begin as the marks of HTML do, which look like tokens. -/
def GapPiece.IsPlain (u : List Char) : Prop := ∀ c ∈ u.head?, c ≠ '<' ∧ c ≠ '-'

theorem GapPiece.pass (piece : GapPiece html fresh P rest u) (at' : s.source.TextAt l.pos (u ++ rest))
    (ordinary : IsPlain u) :
    ∃ l', Runs s skipBlankPass l (.again ()) l' ∧ l'.pos = l.pos + width u := by
  cases piece with
  | crlf =>
    have feed : s.source.charAt (l.pos + 1) = some '\n' := at'.step.charAt
    exact ⟨{ l with pos := l.pos + 2, line := l.line + 1, lineStart := l.pos + 2 }, by simp [skipBlankPass, at'.charAt,
      endCarriageReturn, feed], rfl⟩
  | @gap c isGap alone =>
    obtain ⟨l', run, -, pos | ⟨rfl, feed, -⟩⟩ := skipBlankPass_gap at'.charAt isGap
    · exact ⟨l', run, by simpa using pos⟩
    · have next : s.source.charAt (l.pos + 1) = rest.head? := at'.step.charAt
      exact (alone rfl (next.symm.trans feed)).elim
  | block holds whole =>
    have star : s.source.charAt (l.pos + 1) = some '*' := at'.step.charAt
    obtain ⟨l', run, passes, -⟩ := skipBlockComment_over (l := l) (by simpa using at') whole
    exact ⟨l', by simp [skipBlankPass, at'.charAt, star, run], passes.pos⟩
  | @line mark body known inside ends =>
    cases known with
    | slashes =>
      have slash : s.source.charAt (l.pos + 1) = some '/' := at'.step.charAt
      rw [List.append_assoc] at at'
      obtain ⟨l', run, passes⟩ := skipLineComment_over at' inside ends
      have run : Runs s (skipLineComment 2) l ⟨⟩ l' := run
      exact ⟨l', by simpa [skipBlankPass, at'.charAt, slash] using run, passes.pos⟩
    | opens => simp [IsPlain] at ordinary
    | closes => simp [IsPlain] at ordinary

/-! ### Passes over pieces one after the other -/

section Repeating

variable {α β : Type} {pass : α → LexM (Pass α β)} {a a' : α} {b : β}

/-- More fuel changes nothing. -/
theorem Runs.loop_more {n k : Nat} (run : Runs s (loop pass n a) l b l') (le : n ≤ k) :
    Runs s (loop pass k a) l b l' := by
  induction n generalizing k a l with
  | zero => simp [loop] at run
  | succ n ih =>
    obtain ⟨k, rfl⟩ := Nat.exists_eq_add_of_le' (Nat.lt_of_succ_le le)
    simp only [loop, Runs.bind_iff] at run ⊢
    obtain ⟨step, m, first, rest⟩ := run
    refine ⟨step, m, first, ?_⟩
    cases step with
    | again next => exact ih rest (Nat.le_of_succ_le_succ le)
    | done result => exact rest

theorem Runs.repeatForward_again (first : Runs s (pass a) l (.again a') m) (moves : l.pos < m.pos)
    (inside : l.pos < s.source.size)
    (rest : Runs s (repeatForward a' pass) m b l') : Runs s (repeatForward a pass) l b l' := by
  simp only [repeatForward, Runs.bind_iff, Runs.lexSource_iff, Runs.pos_iff, Runs.exists_look] at rest ⊢
  rw [show s.source.size - l.pos + 2 = s.source.size - l.pos + 1 + 1 from rfl]
  exact Runs.bind_iff.mpr ⟨_, m, first, Runs.loop_more rest (by omega)⟩

end Repeating

/-- From the one cursor the next token is read as from the other. -/
def Leads (s : Setting) (l m : Lexer) : Prop := ∀ l', Runs s readNext m ⟨⟩ l' → Runs s readNext l ⟨⟩ l'

theorem leads_of_gap (plain : s.reader = none) (outside : l.context ≠ .templateText) (context : m.context = l.context)
    (moves : l.pos ≤ m.pos) (gap : ∀ k, Runs s skipBlank m ⟨⟩ k → Runs s skipBlank l ⟨⟩ k) :
    Leads s l m := by
  intro l' run
  have pass {x : Pass Unit Unit} {k : Lexer} (first : Runs s (readPass ()) m x k) : Runs s (readPass ()) l x k := by
    simp [readPass, readExtension, plain, outside, context ▸ outside, Context.keepsBlank] at first ⊢
    obtain ⟨k', blank, rest⟩ := first
    exact ⟨k', gap k' blank, rest⟩
  simp only [readNext, repeatForward, Runs.bind_iff, Runs.lexSource_iff, Runs.pos_iff, Runs.exists_look] at run ⊢
  refine Runs.loop_more ?_ (show s.source.size - m.pos + 2 ≤ s.source.size - l.pos + 2 by omega)
  simp only [loop, Runs.bind_iff] at run ⊢
  obtain ⟨step, k, first, rest⟩ := run
  exact ⟨step, k, pass first, rest⟩

/-! ### Before a text -/

/-- The cursor stands before the text.  Past the last token there is some text behind it, and `fresh` says whether a
line begins there. -/
def Lexer.Faces (s : Setting) (fresh : Bool) (text : List Char) (l : Lexer) : Prop :=
  ∃ t, s.source.TextAt l.last.stop (t ++ text) ∧ l.pos = l.last.stop + width t ∧
    fresh = (l.last.stop == 0 || breaksLine t)

namespace Lexer.Faces

theorem textAt (faces : l.Faces s fresh text) : s.source.TextAt l.pos text := by
  obtain ⟨t, at', pos, -⟩ := faces
  exact pos ▸ at'.past

theorem fresh_eq (faces : l.Faces s fresh text) :
    fresh = (l.last.stop == 0 || s.source.hasLineBreak l.last.stop l.pos) := by
  obtain ⟨t, at', pos, fresh⟩ := faces
  rw [fresh, pos, at'.hasLineBreak, breaksLine]

theorem past (faces : l.Faces s fresh (u ++ rest)) (frame : m.frame = l.frame) (pos : m.pos = l.pos + width u) :
    m.Faces s (fresh || breaksLine u) rest := by
  obtain ⟨t, at', before, fresh⟩ := faces
  have last : m.last.stop = l.last.stop := show m.frame.last.stop = l.frame.last.stop from frame ▸ rfl
  refine ⟨t ++ u, by rwa [last, List.append_assoc], ?_, ?_⟩
  · rw [pos, before, last, width_append, Nat.add_assoc]
  · rw [fresh, last, breaksLine_append, Bool.or_assoc]

end Lexer.Faces

theorem Lexer.context_of_frame (frame : m.frame = l.frame) : m.context = l.context := by
  have contexts : m.contexts = l.contexts := show m.frame.contexts = l.frame.contexts from frame ▸ rfl
  rw [Cursor.context, Cursor.context, contexts]

theorem skipBlank_of_pass {k : Lexer} (pass : Runs s skipBlankPass l (.again ()) m) (run : Runs s skipBlank m ⟨⟩ k) :
    Runs s skipBlank l ⟨⟩ k := by
  obtain ⟨moves, inside⟩ := skipBlankPass_moves pass
  exact Runs.repeatForward_again pass moves (Nat.lt_of_lt_of_le moves inside) run

section Plain

variable (plain : s.reader = none)
include plain

/-- A comment that looks like a token is a pass of its own. -/
theorem readPass_comment (outside : l.context ≠ .templateText) (here : s.source.charAt l.pos = some c)
    (stays : s.source.skipBlank l.pos = l.pos)
    (read : Runs s (readToken c) l.begin false m) : Runs s (readPass ()) l (.again ()) m := by
  have inside := Source.lt_size_of_charAt here
  have blank : Runs s skipBlank l ⟨⟩ l := Runs.of_first_pass (skipBlankPass_stop stays)
  simp [readPass, readExtension, plain, outside, Context.keepsBlank]
  refine ⟨l, blank, inside, ?_⟩
  rw [here]
  simp
  exact read

/-- Over a piece the lexer gets on its way to the next token. -/
theorem GapPiece.leads (piece : GapPiece (!s.inModule) fresh P rest u) (outside : l.context ≠ .templateText)
    (faces : l.Faces s fresh (u ++ rest)) :
    ∃ m, Leads s l m ∧ m.Faces s (fresh || breaksLine u) rest ∧ m.frame = l.frame := by
  have at' := faces.textAt
  by_cases ordinary : IsPlain u
  · obtain ⟨m, run, pos⟩ := piece.pass at' ordinary
    have frame := skipBlankPass_frame run
    have moves := (skipBlankPass_moves run).1
    exact ⟨m, leads_of_gap plain outside (Lexer.context_of_frame frame) (Nat.le_of_lt moves) fun _ =>
      skipBlank_of_pass run,
      faces.past frame pos, frame⟩
  have moves := piece.width_pos
  -- The comments left are read like tokens.
  have comment {c : Char} {marks : Nat} (here : s.source.charAt l.pos = some c)
      (stays : s.source.skipBlank l.pos = l.pos)
      (reads : ∀ k, Runs s (skipLineComment marks) l.begin ⟨⟩ k → Runs s (readToken c) l.begin false k)
      (passes : ∃ k, Runs s (skipLineComment marks) l.begin ⟨⟩ k ∧ Lexer.Passes u l.begin k) :
      ∃ m, Leads s l m ∧ m.Faces s (fresh || breaksLine u) rest ∧ m.frame = l.frame := by
    obtain ⟨k, run, passes⟩ := passes
    have read := reads k run
    have frame : k.frame = l.frame := readToken_frame (l := l.begin) read
    have pos : k.pos = l.pos + width u := passes.pos
    refine ⟨k, fun l' next => Runs.repeatForward_again (readPass_comment plain outside here stays read) (by omega)
      (Source.lt_size_of_charAt here) next,
      faces.past frame pos, frame⟩
  cases piece with
  | crlf => exact (ordinary (by simp [IsPlain])).elim
  | gap isGap =>
    refine (ordinary fun d mem => ?_).elim
    obtain rfl : _ = d := by simpa using mem
    constructor <;> (rintro rfl; exact absurd isGap (by decide))
  | block => exact (ordinary (by simp [IsPlain])).elim
  | @line mark body known inside ends =>
    rw [List.append_assoc] at at'
    have passes := skipLineComment_over (l := l.begin) at' inside ends
    have seen := (at'.spells_iff known.narrow).mpr ⟨_, rfl⟩
    cases known with
    | slashes => exact (ordinary (by simp [IsPlain])).elim
    | opens html =>
      have script : s.inModule = false := by simpa using html
      simp at seen
      refine comment seen.1 (Source.skipBlank_stop seen.1 (by decide) (by simp)) (fun k run => ?_) passes
      have run : Runs s (skipLineComment 4) l.begin ⟨⟩ k := run
      simpa [readToken, Alphabet.isIdentifierStart, readLess, Lexer.begin, seen, script] using run
    | closes html first =>
      have script : s.inModule = false := by simpa using html
      have fresh := faces.fresh_eq.symm.trans first
      simp at seen fresh
      refine comment seen.1 (Source.skipBlank_stop seen.1 (by decide) (by simp)) (fun k run => ?_) passes
      have run : Runs s (skipLineComment 3) l.begin ⟨⟩ k := run
      simpa [readToken, Alphabet.isIdentifierStart, readMinus, atClosingComment, Lexer.begin, seen,
        script, fresh] using run

/-- Over all the pieces the lexer gets. -/
theorem Skips.leads (skips : Skips (!s.inModule) P fresh text fresh' rest) (outside : l.context ≠ .templateText)
    (faces : l.Faces s fresh text) :
    ∃ m, Leads s l m ∧ m.Faces s fresh' rest ∧ m.frame = l.frame := by
  induction skips with
  | refl => exact ⟨l, fun _ => id, faces, rfl⟩
  | step _ piece ih =>
    obtain ⟨m, leads, faces, frame⟩ := ih
    obtain ⟨n, leads', faces', frame'⟩ := piece.leads plain (Lexer.context_of_frame frame ▸ outside) faces
    exact ⟨n, fun l' run => leads l' (leads' l' run), faces', frame'.trans frame⟩

end Plain

/-! ### Over nothing but pieces -/

/-- From before the text the cursor got over pieces, and stands before `rest` now. -/
structure Lexer.Over (s : Setting) (fresh : Bool) (text : List Char) (l m : Lexer) (fresh' : Bool)
    (rest : List Char) : Prop where
  skips : Skips (!s.inModule) (NotedIn m.comments) fresh text fresh' rest
  faces : m.Faces s fresh' rest
  frame : m.frame = l.frame
  comments : l.comments ⊆ m.comments

section Over

variable {k : Lexer}

theorem Lexer.Over.step (reach : l.Over s fresh text m fresh' (u ++ rest))
    (piece : GapPiece (!s.inModule) fresh' (NotedIn k.comments) rest u)
    (passes : Lexer.Passes u m k) (frame : k.frame = m.frame) :
    l.Over s fresh text k (fresh' || breaksLine u) rest where
  skips := .step (reach.skips.mono fun _ ⟨c, mem, noted⟩ => ⟨c, passes.comments mem, noted⟩) piece
  faces := reach.faces.past frame passes.pos
  frame := frame.trans reach.frame
  comments := List.Subset.trans reach.comments passes.comments

theorem skipBlank_stays_over (reach : l.Over s fresh text m fresh' rest) (run : Runs s skipBlank m ⟨⟩ k) :
    ∃ fresh' rest, l.Over s fresh text k fresh' rest := by
  obtain ⟨_, n, before, done⟩ :=
    Runs.of_repeatForward (fun _ n => ∃ fresh' rest, l.Over s fresh text n fresh' rest) ⟨_, _, reach⟩
    (by
      rintro _ _ m n ⟨fresh', rest, reach⟩ pass
      obtain ⟨u, rest, rfl, passes, piece⟩ := skipBlankPass_over reach.faces.textAt pass
      exact ⟨_, rest, reach.step piece passes (skipBlankPass_frame pass)⟩) run
  obtain ⟨-, rfl, -⟩ := (skipBlankPass_spec done).resolve_left (by simp)
  exact before

/-- A comment that looks like a token is a piece. -/
theorem readToken_over (faces : m.Faces s fresh' rest) (here : s.source.charAt m.pos = some c)
    (run : Runs s (readToken c) m.begin false k) :
    ∃ u rest', rest = u ++ rest' ∧ Lexer.Passes u m k ∧ GapPiece (!s.inModule) fresh' (NotedIn k.comments) rest' u := by
  have line {mark text : List Char} (known : LineMark (!s.inModule) fresh' mark) (split : rest = mark ++ text)
      (run : Runs s (skipLineComment (width mark)) m.begin ⟨⟩ k) :
      ∃ u rest', rest = u ++ rest' ∧ Lexer.Passes u m k ∧
        GapPiece (!s.inModule) fresh' (NotedIn k.comments) rest' u := by
    obtain ⟨body, rest', rfl, inside, ends⟩ := exists_line text
    obtain ⟨k', run', passes⟩ := skipLineComment_over (l := m.begin) (split ▸ faces.textAt) inside ends
    cases run.symm.trans run'
    exact ⟨mark ++ body, rest', by rw [split, List.append_assoc], ⟨passes.pos,
      passes.comments⟩, .line known inside ends⟩
  obtain ⟨rfl, passes⟩ | ⟨rfl, passes⟩ := readToken_passes run
  · simp [readMinus, atClosingComment] at passes
    obtain ⟨dash, ⟨⟨angle, script⟩, fresh⟩, run⟩ := passes
    have known : LineMark (!s.inModule) fresh' ['-', '-', '>'] :=
      .closes (by simp [script]) (faces.fresh_eq.trans (by simp; exact fresh))
    obtain ⟨text, split⟩ := (faces.textAt.spells_iff known.narrow).mp (by simp; exact ⟨here, dash, angle⟩)
    exact line known split run
  · simp [readLess] at passes
    obtain ⟨_, ⟨⟨⟨script, bang⟩, dash⟩, dash'⟩, run⟩ := passes
    have known : LineMark (!s.inModule) fresh' ['<', '!', '-', '-'] := .opens (by simp [script])
    obtain ⟨text, split⟩ := (faces.textAt.spells_iff known.narrow).mp (by simp; exact ⟨here, bang, dash, dash'⟩)
    exact line known split run

theorem readPass_over (plain : s.reader = none) (outside : l.context ≠ .templateText)
    (reach : l.Over s fresh text m fresh' rest)
    (run : Runs s (readPass ()) m (.again ()) k) : ∃ fresh' rest, l.Over s fresh text k fresh' rest := by
  have outside : m.context ≠ .templateText := Lexer.context_of_frame reach.frame ▸ outside
  simp [readPass, readExtension, plain, outside, Context.keepsBlank] at run
  obtain ⟨n, blank, _, run⟩ := run
  obtain ⟨fresh', rest, reach⟩ := skipBlank_stays_over reach blank
  split at run
  · next c here =>
    simp at run
    obtain ⟨u, rest, rfl, passes, piece⟩ := readToken_over reach.faces here run
    exact ⟨_, rest, reach.step piece passes (readToken_frame (l := n.begin) run)⟩
  · simp at run

/-- The next token is read from behind the pieces, if there is one. -/
theorem readNext_over (plain : s.reader = none) (outside : l.context ≠ .templateText) (faces : l.Faces s fresh text)
    (run : Runs s readNext l ⟨⟩ l') : ∃ m fresh' rest, l.Over s fresh text m fresh' rest ∧
      (rest = [] ∧ Runs s (finish .eof .none) m.begin ⟨⟩ l' ∨ ∃ c, rest.head? = some c ∧
        Runs s (readToken c) m.begin true l') := by
  obtain ⟨_, n, ⟨fresh', rest, reach⟩, done⟩ :=
    Runs.of_repeatForward (fun _ n => ∃ fresh' rest, l.Over s fresh text n fresh' rest)
    ⟨fresh, text, .refl, faces, rfl, List.Subset.refl _⟩
      (fun ⟨_, _, reach⟩ pass => readPass_over plain outside reach pass) run
  have outside : n.context ≠ .templateText := Lexer.context_of_frame reach.frame ▸ outside
  simp [readPass, readExtension, plain, outside, Context.keepsBlank] at done
  obtain ⟨m, blank, done⟩ := done
  obtain ⟨fresh', rest, reach⟩ := skipBlank_stays_over reach blank
  refine ⟨m, fresh', rest, reach, ?_⟩
  obtain ⟨atEnd, ended⟩ | ⟨_, done⟩ := done
  · have size := reach.faces.textAt.size
    have short := length_le_width rest
    exact .inl ⟨List.eq_nil_of_length_eq_zero (by omega), ended⟩
  · split at done
    · next c here =>
      simp at done
      exact .inr ⟨c, reach.faces.textAt.charAt.symm.trans here, done⟩
    · simp at done

end Over

end ScriptSyntax
