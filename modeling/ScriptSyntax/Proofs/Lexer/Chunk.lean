import ScriptSyntax.Proofs.Lexer.CommentFree
import ScriptSyntax.Proofs.Lexer.Escape
import ScriptSyntax.Proofs.Parser.Subscript

/-!
The chunks of a template.  A scan that knows nothing of escapes but that a backslash takes the character after it along
finds where a chunk ends; the lexer ends it there, whether the escapes in it are valid or not.
-/

namespace ScriptSyntax

open LexM

/-! ### Where a chunk ends -/

/-- Does a text begin with what ends a chunk: a backquote, or a dollar sign and a brace? -/
def endsChunk : List Char → Bool
  | '\x60' :: _ => true
  | '$' :: '{' :: _ => true
  | _ => false

/-- The text up to the first backquote, or dollar sign and brace, that no backslash takes along. -/
def chunk? : List Char → Option (List Char)
  | [] | ['\\'] => none
  | '\\' :: c :: rest => (chunk? rest).map fun t => '\\' :: c :: t
  | c :: rest => if endsChunk (c :: rest) then some [] else (chunk? rest).map (c :: ·)

/-- Does the scan come to a last backslash, with nothing to take along? -/
def dangles : List Char → Bool
  | [] => false
  | ['\\'] => true
  | '\\' :: _ :: rest => dangles rest
  | _ :: rest => dangles rest

/-! ### What a chunk stands for -/

/-- What the first character or escape of a chunk stands for, and what comes after it.  None if it is an escape that is
not valid. -/
def chunkStep? : List Char → Option (List Char × List Char)
  | [] => none
  | '\\' :: rest => escape? false rest
  | '\r' :: '\n' :: rest => some (['\n'], rest)
  | '\r' :: rest => some (['\n'], rest)
  | c :: rest => some ([c], rest)

theorem chunkStep?_lt {text : List Char} {x : List Char × List Char} (read : chunkStep? text = some x) :
    x.2.length < text.length := by
  unfold chunkStep? at read
  split at read
  · cases read
  · exact Nat.lt_succ_of_lt (escape?_lt read)
  all_goals
    cases read
    simp

/-- What the chunk at the start of a text stands for, up to where it ends or the text does.  None if an escape in it is
not valid. -/
def cook? (text : List Char) : Option (List Char) :=
  if endsChunk text ∨ text = [] ∨ text = ['\\'] then some []
  else
    match _step : chunkStep? text with
    | some (read, rest) => (cook? rest).map (read ++ ·)
    | none => none
termination_by text.length
decreasing_by exact chunkStep?_lt _step

example : cook? ['a', '\\', 'n', '\r', '\n', '$', '\x60'] = some ['a', '\n', '\n', '$'] := by decide +kernel

/-! ### Characters that a scan passes one by one -/

variable {c : Char} {p text rest : List Char}

theorem chunk?_cons (other : c ≠ '\\') :
    chunk? (c :: rest) = if endsChunk (c :: rest) then some [] else (chunk? rest).map (c :: ·) := by
  rw [chunk?]
  · exact fun same => (other same).elim
  · exact fun _ _ same => (other same).elim

theorem dangles_cons (other : c ≠ '\\') : dangles (c :: rest) = dangles rest := by
  rw [dangles]
  · exact fun same => (other same).elim
  · exact fun _ _ same => (other same).elim

theorem endsChunk_idle (idle : c ≠ '\x60' ∧ c ≠ '$') : endsChunk (c :: rest) = false := by
  unfold endsChunk
  split <;> simp_all

theorem endsChunk_dollar : endsChunk ('$' :: rest) = (rest.head? == some '{') := by
  cases rest with
  | nil => rfl
  | cons d rest =>
    by_cases brace : d = '{'
    · subst brace
      rfl
    · simp [endsChunk, brace]

theorem chunk?_idle (idle : ∀ c ∈ p, IdleInChunk c) : chunk? (p ++ rest) = (chunk? rest).map (p ++ ·) := by
  induction p with
  | nil => simp
  | cons c p ih =>
    obtain ⟨plain, open', dollar⟩ := idle c (.head _)
    rw [List.cons_append, chunk?_cons plain, endsChunk_idle ⟨open', dollar⟩, ih fun d mem => idle d (.tail _ mem)]
    simp [Function.comp_def]

theorem dangles_idle (idle : ∀ c ∈ p, IdleInChunk c) : dangles (p ++ rest) = dangles rest := by
  induction p with
  | nil => rfl
  | cons c p ih => rw [List.cons_append, dangles_cons (idle c (.head _)).1, ih fun d mem => idle d (.tail _ mem)]

/-- A scan of `text` goes on at `rest`. -/
structure ScansOn (text rest : List Char) : Prop where
  passes : ∃ p, p ≠ [] ∧ text = p ++ rest ∧ chunk? text = (chunk? rest).map (p ++ ·)
  dangles : dangles text = dangles rest

/-- A backslash takes one character along, and idle ones may follow. -/
theorem ScansOn.escape (idle : ∀ c ∈ p, IdleInChunk c) : ScansOn ('\\' :: c :: (p ++ rest)) rest := by
  refine ⟨⟨'\\' :: c :: p, by simp, by simp, ?_⟩, ?_⟩
  · rw [chunk?, chunk?_idle idle]
    simp [Function.comp_def]
  · rw [ScriptSyntax.dangles, dangles_idle idle]

theorem ScansOn.idle {d : Char} (idle : ∀ c ∈ d :: p, IdleInChunk c) : ScansOn (d :: p ++ rest) rest :=
  ⟨⟨d :: p, by simp, rfl, chunk?_idle idle⟩, dangles_idle idle⟩

/-- A dollar sign with no brace after it is passed too. -/
theorem ScansOn.char (other : c ≠ '\\') (more : endsChunk (c :: rest) = false) : ScansOn (c :: rest) rest :=
  ⟨⟨[c], by simp, rfl, by simp [chunk?_cons other, more]⟩, dangles_cons other⟩

theorem ScansOn.length_lt (h : ScansOn text rest) : rest.length < text.length := by
  obtain ⟨p, some, rfl, -⟩ := h.passes
  have := List.length_pos_iff.mpr some
  simp only [List.length_append]
  omega

variable {s : Setting} {l l' : Lexer}

/-! ### Passes -/

theorem atChunkEnd_iff (at' : s.source.TextAt l.pos text) {b : Bool} :
    Runs s atChunkEnd l b l' ↔ b = endsChunk text ∧ l' = l := by
  simp only [atChunkEnd, Runs.bind_iff, Runs.peek_iff, Runs.exists_look, at'.charAt]
  split
  · next head =>
    obtain ⟨rest, rfl⟩ := List.head?_eq_some_iff.mp head
    exact Runs.pure_iff
  · next head =>
    obtain ⟨rest, rfl⟩ := List.head?_eq_some_iff.mp head
    have next : s.source.charAt (l.pos + 1) = rest.head? := at'.step.charAt
    rw [Runs.seesAhead_iff, next, endsChunk_dollar]
  · next notQuote notDollar =>
    rw [Runs.pure_iff]
    cases text with
    | nil => rfl
    | cons c rest => rw [endsChunk_idle ⟨by rintro rfl; exact notQuote rfl, by rintro rfl; exact notDollar rfl⟩]

/-- A carriage return takes a line feed along. -/
theorem carriageReturn_reads (at' : s.source.TextAt l.pos ('\r' :: text)) :
    ∃ l' rest, Runs s endCarriageReturn { l with pos := l.pos + 1 } ⟨⟩ l' ∧ s.source.TextAt l'.pos rest ∧
      (text = rest ∧ rest.head? ≠ some '\n' ∨ text = '\n' :: rest) := by
  have after : s.source.TextAt (l.pos + 1) text := at'.step
  have next := after.charAt
  by_cases feed : text.head? = some '\n'
  · obtain ⟨text, rfl⟩ := List.head?_eq_some_iff.mp feed
    refine ⟨{ l with pos := l.pos + 1 + 1, line := l.line + 1, lineStart := l.pos + 1 + 1 }, text, ?_,
      after.step, .inr rfl⟩
    simp [endCarriageReturn, next]
  · refine ⟨{ l with pos := l.pos + 1, line := l.line + 1, lineStart := l.pos + 1 }, text, ?_, after, .inl ⟨rfl, feed⟩⟩
    simp [endCarriageReturn, next, feed]

/-- A pass over a character or an escape. -/
theorem chunkPass_reads (known : 6 ≤ s.edition) (inside : l.inTemplate = true) (at' : s.source.TextAt l.pos text)
    (more : ¬ (endsChunk text ∨ text = [] ∨ text = ['\\']))
    (before : List Char) : ∃ rest l', ScansOn text rest ∧ s.source.TextAt l'.pos rest ∧
      ((∃ read, chunkStep? text = some (read, rest) ∧
        Runs s (chunkPass before) l (.again (read.reverse ++ before)) l') ∨
        chunkStep? text = none ∧ (9 ≤ s.edition → Runs s (chunkPass before) l (.done false) l')) := by
  obtain ⟨goesOn, some, last⟩ : endsChunk text = false ∧ text ≠ [] ∧ text ≠ ['\\'] := by simpa [not_or] using more
  obtain ⟨c, text, rfl⟩ := List.exists_cons_of_ne_nil some
  have here : s.source.charAt l.pos = Option.some c := at'.charAt_cons
  have chunkEnd : Runs s atChunkEnd l false l := (atChunkEnd_iff at').mpr ⟨goesOn.symm, rfl⟩
  by_cases escape : c = '\\'
  · subst escape
    obtain ⟨d, text, rfl⟩ := List.exists_cons_of_ne_nil (l := text) (by rintro rfl; exact last rfl)
    obtain ⟨v, l', p, rest, run, rfl, idle, after, value⟩ :=
      readEscape_reads known (show false = !(l.strict || true) by simp) at'
    refine ⟨rest, l', .escape idle, after, ?_⟩
    have fits := readEscape_fitsPlace run
    obtain n | _ | ⟨error, excused⟩ := v
    on_goal 1 => refine .inl ⟨_, value, ?_⟩
    on_goal 2 => refine .inl ⟨_, value, ?_⟩
    on_goal 3 =>
      refine .inr ⟨value, fun late => ?_⟩
      obtain rfl : excused = true := by simpa [Escape.FitsPlace, inside, late] using fits
    all_goals
      simp only [chunkPass, Runs.bind_iff]
      refine ⟨false, l, chunkEnd, ?_⟩
      simp [here]
      exact ⟨_, l', run, by simp [*]⟩
  · by_cases carriage : c = '\r'
    · subst carriage
      obtain ⟨l', rest, run, after, line⟩ := carriageReturn_reads at'
      have pass : Runs s (chunkPass before) l (.again ('\n' :: before)) l' := by
        simp only [chunkPass, Runs.bind_iff]
        refine ⟨false, l, chunkEnd, ?_⟩
        simpa [here] using run
      obtain ⟨rfl, other⟩ | rfl := line
      · refine ⟨text, l', .char escape goesOn, after, .inl ⟨['\n'], ?_, pass⟩⟩
        rw [chunkStep?]
        rintro rest rfl
        exact other rfl
      · exact ⟨rest, l', .idle (d := '\r') (p := ['\n']) (by simp [IdleInChunk]), after, .inl ⟨['\n'], rfl, pass⟩⟩
    · obtain ⟨l', pos, run⟩ : ∃ l' : Lexer, l'.pos = l.pos + c.utf8Size ∧
          Runs s (chunkPass before) l (.again (c :: before)) l' := by
        by_cases ends : Alphabet.isLineTerminator c
        · refine ⟨{ l with pos := l.pos + c.utf8Size, line := l.line + 1, lineStart := l.pos + c.utf8Size }, rfl, ?_⟩
          simp only [chunkPass, Runs.bind_iff]
          refine ⟨false, l, chunkEnd, ?_⟩
          simp [here, ends]
        · refine ⟨{ l with pos := l.pos + c.utf8Size }, rfl, ?_⟩
          simp only [chunkPass, Runs.bind_iff]
          refine ⟨false, l, chunkEnd, ?_⟩
          simp [here, ends]
      refine ⟨text, l', .char escape goesOn, pos ▸ at'.step, .inl ⟨[c], ?_, run⟩⟩
      rw [chunkStep?]
      · exact escape
      · exact fun _ same => (carriage same).elim
      · exact carriage

/-- What a piece of a chunk is, a scan passes: the lexer does on the text alone. -/
theorem chunkStep?_scans {x : List Char × List Char} (more : ¬ (endsChunk text ∨ text = [] ∨ text = ['\\']))
    (read : chunkStep? text = some x) :
    ScansOn text x.2 := by
  have at' := Source.textAt_ofString (String.ofList text)
  rw [String.toList_ofList] at at'
  obtain ⟨rest, -, scans, -, ⟨read', same, -⟩ | ⟨none, -⟩⟩ :=
    chunkPass_reads (s := ⟨.ofString (String.ofList text), {}, none⟩)
    (l := { Setting.lexerAt ⟨.ofString (String.ofList text), {}, none⟩ 0 with pos := 0, inTemplate := true })
    (show 6 ≤ ({} : Options).edition by decide) rfl at' more []
  · cases read.symm.trans same
    exact scans
  · cases none.symm.trans read

/-! ### Loops -/

theorem chunk?_ends (ends : endsChunk text) : chunk? text = some [] := by
  unfold endsChunk at ends
  split at ends
  · rw [chunk?_cons (by decide)]
    rfl
  · rw [chunk?_cons (by decide)]
    rfl
  · cases ends

theorem cook?_end (ends : endsChunk text ∨ text = [] ∨ text = ['\\']) :
    cook? text = some [] := by rw [cook?, if_pos ends]

theorem cook?_step (more : ¬ (endsChunk text ∨ text = [] ∨ text = ['\\'])) :
    cook? text = (chunkStep? text).bind fun x => (cook? x.2).map (x.1 ++ ·) := by
  rw [cook?, if_neg more]
  split <;> simp [*]

/-- How the passes over a chunk end: at its end, at the end of the text, or at an escape that is not valid,
which editions before the ninth do not allow. -/
inductive ChunkLoop (s : Setting) (fuel : Nat) (l : Lexer) (text before : List Char) : Prop
  | valid {cooked t : List Char} {m : Lexer} (cooks : cook? text = some cooked) (ends : chunk? text = some t)
      (forward : l.Forward s.source m)
    (pos : m.pos = l.pos + width t)
    (run : ∀ l', Runs s (finishChunk (cooked.reverse ++ before)) m ⟨⟩ l' →
      Runs s (loop chunkPass fuel before) l true l')
  | opens {cooked : List Char} {m : Lexer} (cooks : cook? text = some cooked) (none : chunk? text = none)
    (throws : Throws s (loop chunkPass fuel before) l
      (s.fatal l.token.start (if dangles text then .unterminatedString else .unterminatedTemplate)) m)
  | rejected (wrong : cook? text = none) (early : ¬ 9 ≤ s.edition)
  | invalid {p rest : List Char} {m : Lexer} (wrong : cook? text = none)
      (run : Runs s (loop chunkPass fuel before) l false m)
    (forward : l.Forward s.source m) (at' : s.source.TextAt m.pos rest) (split : text = p ++ rest)
    (chunk : chunk? text = (chunk? rest).map (p ++ ·))

theorem loop_chunk (plain : s.reader = none) (known : 6 ≤ s.edition) (inside : l.inTemplate = true)
    (at' : s.source.TextAt l.pos text)
    {fuel : Nat} (enough : text.length < fuel) (before : List Char) : ChunkLoop s fuel l text before := by
  induction fuel generalizing l text before with
  | zero => omega
  | succ fuel ih =>
    by_cases stop : endsChunk text ∨ text = [] ∨ text = ['\\']
    · have cooks := cook?_end stop
      obtain ends | rfl | rfl := stop
      · refine .valid cooks (chunk?_ends ends) (.refl l) rfl fun l' run => ?_
        have chunkEnd : Runs s atChunkEnd l true l := (atChunkEnd_iff at').mpr ⟨ends.symm, rfl⟩
        simp only [loop, chunkPass, Runs.bind_iff]
        exact ⟨.done true, l', ⟨true, l, chunkEnd, by simpa using run⟩, Runs.pure_iff.mpr ⟨rfl, rfl⟩⟩
      · have chunkEnd : Runs s atChunkEnd l false l := (atChunkEnd_iff at').mpr ⟨rfl, rfl⟩
        have none : s.source.charAt l.pos = none := at'.charAt
        refine .opens cooks rfl (m := l) ?_
        simp only [loop, chunkPass, Throws.bind_iff]
        exact .inl (.inr ⟨false, l, chunkEnd, by simp [none, dangles]⟩)
      · have chunkEnd : Runs s atChunkEnd l false l := (atChunkEnd_iff at').mpr ⟨rfl, rfl⟩
        have here : s.source.charAt l.pos = some '\\' := at'.charAt
        have none : s.source.charAt (l.pos + 1) = none := at'.step.charAt
        refine .opens cooks rfl (m := { l with pos := l.pos + 1 }) ?_
        simp only [loop, chunkPass, Throws.bind_iff]
        exact .inl (.inr ⟨false, l, chunkEnd, by simp [here, none, readEscape, dangles]⟩)
    · obtain ⟨rest, m, scans, after, ⟨read, step, run⟩ | ⟨step, run⟩⟩ := chunkPass_reads known inside at' stop before
      · have forward := ((chunkPass_spec plain run).resolve_left (by simp)).2
        have shorter := scans.length_lt
        obtain ⟨p, -, rfl, chunk⟩ := scans.passes
        have moved := at'.moved after
        have cooks : cook? (p ++ rest) = (cook? rest).map (read ++ ·) := by rw [cook?_step stop, step]; rfl
        have again {b : Bool} {l' : Lexer} (next : Runs s (loop chunkPass fuel (read.reverse ++ before)) m b l') :
            Runs s (loop chunkPass (fuel + 1) before) l b l' := by
          simp only [loop, Runs.bind_iff]
          exact ⟨_, m, run, next⟩
        cases ih (forward.inTemplate.trans inside) after (by omega) (read.reverse ++ before) with
        | @valid cooked t n cooks' ends forward' pos run' =>
          have whole : cook? (p ++ rest) = some (read ++ cooked) := by rw [cooks, cooks']; rfl
          refine .valid whole (t := p ++ t) (by rw [chunk, ends]; rfl) (forward.trans forward') ?_
            fun l' finish => again (run' l' (by simpa using finish))
          rw [pos, moved, width_append, Nat.add_assoc]
        | @opens cooked n cooks' none throws =>
          have whole : cook? (p ++ rest) = some (read ++ cooked) := by rw [cooks, cooks']; rfl
          refine .opens whole (by rw [chunk, none]; rfl) (m := n) ?_
          rw [← forward.token, scans.dangles]
          simp only [loop, Throws.bind_iff]
          exact .inr ⟨_, m, run, throws⟩
        | rejected wrong early => exact .rejected (by rw [cooks, wrong]; rfl) early
        | @invalid q rest' n wrong run' forward' at'' split chunk' =>
          refine .invalid (p := p ++ q) (by rw [cooks, wrong]; rfl) (again run') (forward.trans forward') at''
            (by rw [split, List.append_assoc]) ?_
          rw [chunk, chunk', Option.map_map]
          congr 1
          funext t
          exact (List.append_assoc ..).symm
      · have wrong : cook? text = none := by rw [cook?_step stop, step]; rfl
        by_cases late : 9 ≤ s.edition
        · have forward := ((chunkPass_spec plain (run late)).resolve_left (by simp)).2
          obtain ⟨p, -, split, chunk⟩ := scans.passes
          refine .invalid wrong ?_ forward after split chunk
          simp only [loop, Runs.bind_iff]
          exact ⟨_, m, run late, Runs.pure_iff.mpr ⟨rfl, rfl⟩⟩
        · exact .rejected wrong late

/-- Behind an escape that is not valid a pass takes one character along, whatever comes after a backslash. -/
theorem invalidChunkPass_reads (at' : s.source.TextAt l.pos text) (goesOn : endsChunk text = false) (some : text ≠ []) :
    ∃ p rest l', Runs s (invalidChunkPass ()) l (.again ()) l' ∧ s.source.TextAt l'.pos rest ∧ p ≠ [] ∧
      text = p ++ rest ∧
      chunk? text = (chunk? rest).map (p ++ ·) := by
  have chunkEnd : Runs s atChunkEnd l false l := (atChunkEnd_iff at').mpr ⟨goesOn.symm, rfl⟩
  have scanned {rest : List Char} {l' : Lexer} (scans : ScansOn text rest)
      (run : Runs s (invalidChunkPass ()) l (.again ()) l')
      (after : s.source.TextAt l'.pos rest) : ∃ p rest l', Runs s (invalidChunkPass ()) l (.again ()) l' ∧
        s.source.TextAt l'.pos rest ∧
        p ≠ [] ∧ text = p ++ rest ∧ chunk? text = (chunk? rest).map (p ++ ·) := by
    obtain ⟨p, some, split, chunk⟩ := scans.passes
    exact ⟨p, rest, l', run, after, some, split, chunk⟩
  obtain ⟨c, text, rfl⟩ := List.exists_cons_of_ne_nil some
  have here : s.source.charAt l.pos = Option.some c := at'.charAt_cons
  by_cases escape : c = '\\'
  · subst escape
    have after : s.source.TextAt (l.pos + 1) text := at'.step
    cases text with
    | nil =>
      refine ⟨['\\'], [], { l with pos := l.pos + 1 }, ?_, after, by simp, rfl, rfl⟩
      have none : s.source.charAt (l.pos + 1) = none := after.charAt
      simp only [invalidChunkPass, Runs.bind_iff]
      refine ⟨false, l, chunkEnd, ?_⟩
      simp [here, none]
    | cons d text =>
      have next : s.source.charAt (l.pos + 1) = Option.some d := after.charAt_cons
      obtain ⟨l', pos, run⟩ : ∃ l' : Lexer, l'.pos = l.pos + 1 + d.utf8Size ∧
          Runs s (invalidChunkPass ()) l (.again ()) l' := by
        refine ⟨{ l with pos := l.pos + 1 + d.utf8Size }, rfl, ?_⟩
        simp only [invalidChunkPass, Runs.bind_iff]
        refine ⟨false, l, chunkEnd, ?_⟩
        simp [here, next]
      exact scanned (.escape (p := []) nofun) run (pos ▸ after.step)
  · by_cases carriage : c = '\r'
    · subst carriage
      obtain ⟨l', rest, run, after, line⟩ := carriageReturn_reads at'
      have pass : Runs s (invalidChunkPass ()) l (.again ()) l' := by
        simp only [invalidChunkPass, Runs.bind_iff]
        refine ⟨false, l, chunkEnd, ?_⟩
        simpa [here] using run
      obtain ⟨rfl, -⟩ | rfl := line
      · exact scanned (.char escape goesOn) pass after
      · exact scanned (.idle (d := '\r') (p := ['\n']) (by simp [IdleInChunk])) pass after
    · obtain ⟨l', pos, run⟩ : ∃ l' : Lexer, l'.pos = l.pos + c.utf8Size ∧
          Runs s (invalidChunkPass ()) l (.again ()) l' := by
        by_cases ends : Alphabet.isLineTerminator c
        · refine ⟨{ l with pos := l.pos + c.utf8Size, line := l.line + 1, lineStart := l.pos + c.utf8Size }, rfl, ?_⟩
          simp only [invalidChunkPass, Runs.bind_iff]
          refine ⟨false, l, chunkEnd, ?_⟩
          simp [here, ends]
        · refine ⟨{ l with pos := l.pos + c.utf8Size }, rfl, ?_⟩
          simp only [invalidChunkPass, Runs.bind_iff]
          refine ⟨false, l, chunkEnd, ?_⟩
          simp [here, ends]
      exact scanned (.char escape goesOn) run (pos ▸ at'.step)

/-- How the passes over the rest of an invalid chunk end. -/
inductive InvalidChunkLoop (s : Setting) (fuel : Nat) (l : Lexer) (text : List Char) : Prop
  | ends {t : List Char} {m : Lexer} (ends : chunk? text = some t) (forward : l.Forward s.source m)
      (pos : m.pos = l.pos + width t)
    (run : ∀ l', Runs s (finish .invalidTemplate .none) m ⟨⟩ l' → Runs s (loop invalidChunkPass fuel ()) l ⟨⟩ l')
  | opens {m : Lexer} (none : chunk? text = none)
      (throws : Throws s (loop invalidChunkPass fuel ()) l (s.fatal l.token.start .unterminatedTemplate) m)

theorem loop_invalidChunk (plain : s.reader = none) (at' : s.source.TextAt l.pos text) {fuel : Nat}
    (enough : text.length < fuel) :
    InvalidChunkLoop s fuel l text := by
  induction fuel generalizing l text with
  | zero => omega
  | succ fuel ih =>
    by_cases ends : endsChunk text
    · refine .ends (chunk?_ends ends) (.refl l) rfl fun l' run => ?_
      have chunkEnd : Runs s atChunkEnd l true l := (atChunkEnd_iff at').mpr ⟨ends.symm, rfl⟩
      simp only [loop, invalidChunkPass, Runs.bind_iff]
      exact ⟨.done (), l', ⟨true, l, chunkEnd, by simpa using run⟩, Runs.pure_iff.mpr ⟨rfl, rfl⟩⟩
    by_cases empty : text = []
    · subst empty
      have chunkEnd : Runs s atChunkEnd l false l := (atChunkEnd_iff at').mpr ⟨rfl, rfl⟩
      have none : s.source.charAt l.pos = none := at'.charAt
      refine .opens rfl (m := l) ?_
      simp only [loop, invalidChunkPass, Throws.bind_iff]
      exact .inl (.inr ⟨false, l, chunkEnd, by simp [none]⟩)
    obtain ⟨p, rest, m, run, after, some, rfl, chunk⟩ := invalidChunkPass_reads at' (by simpa using ends) empty
    have forward := ((invalidChunkPass_spec plain run).resolve_left (by simp)).2
    have moved := at'.moved after
    have positive := List.length_pos_iff.mpr some
    rw [List.length_append] at enough
    cases ih after (by omega) with
    | @ends t n ends forward' pos run' =>
      refine .ends (t := p ++ t) (by rw [chunk, ends]; rfl) (forward.trans forward') ?_ fun l' finish => ?_
      · rw [pos, moved, width_append, Nat.add_assoc]
      · simp only [loop, Runs.bind_iff]
        exact ⟨_, m, run, run' l' finish⟩
    | @opens n none throws =>
      refine .opens (by rw [chunk, none]; rfl) (m := n) ?_
      rw [← forward.token]
      simp only [loop, Throws.bind_iff]
      exact .inr ⟨_, m, run, throws⟩

/-! ### Chunks -/

/-- Where the chunk ends the text goes on with what ends it. -/
theorem chunk?_split {t : List Char} (found : chunk? text = some t) :
    ∃ rest, text = t ++ rest ∧ endsChunk rest = true := by
  fun_induction chunk? text generalizing t with
  | case1 | case2 => cases found
  | case3 c text ih =>
    obtain ⟨t, inner, rfl⟩ := Option.map_eq_some_iff.mp found
    obtain ⟨rest, rfl, ends⟩ := ih inner
    exact ⟨rest, rfl, ends⟩
  | case4 c text _ _ ends =>
    cases found
    exact ⟨_, rfl, ends⟩
  | case5 c text _ _ goesOn ih =>
    obtain ⟨t, inner, rfl⟩ := Option.map_eq_some_iff.mp found
    obtain ⟨rest, rfl, ends⟩ := ih inner
    exact ⟨rest, rfl, ends⟩

/-- A character of a chunk that is no backslash. -/
theorem chunk?_tail {t : List Char} (found : chunk? (c :: text) = some (c :: t)) (other : c ≠ '\\') :
    endsChunk (c :: text) = false ∧ chunk? text = some t := by
  rw [chunk?_cons other] at found
  split at found
  · cases found
  · next goesOn =>
    obtain ⟨t, inner, same⟩ := Option.map_eq_some_iff.mp found
    cases same
    exact ⟨by simpa using goesOn, inner⟩

theorem cook?_tail {read rest : List Char} (goesOn : endsChunk (c :: text) = false) (other : c ≠ '\\')
    (step : chunkStep? (c :: text) = some (read, rest)) : cook? (c :: text) = (cook? rest).map (read ++ ·) := by
  rw [cook?_step (by simp [goesOn, other]), step]
  rfl

/-- A chunk with no backslash in it stands for itself, with every line break a line feed. -/
theorem cook?_plain {t : List Char} (ends : endsChunk rest = true) (found : chunk? (t ++ rest) = some t)
    (noEscape : '\\' ∉ t) :
    cook? (t ++ rest) = some (normalizeLineBreaks t) := by
  fun_induction normalizeLineBreaks t with
  | case1 t ih =>
    rw [List.cons_append, List.cons_append] at found ⊢
    obtain ⟨goesOn, inner⟩ := chunk?_tail found (by decide)
    obtain ⟨-, inner⟩ := chunk?_tail inner (by decide)
    have read : chunkStep? ('\r' :: '\n' :: (t ++ rest)) = some (['\n'], t ++ rest) := rfl
    rw [cook?_tail goesOn (by decide) read, ih inner (by simp_all)]
    rfl
  | case2 t notFeed ih =>
    rw [List.cons_append] at found ⊢
    obtain ⟨goesOn, inner⟩ := chunk?_tail found (by decide)
    have read : chunkStep? ('\r' :: (t ++ rest)) = some (['\n'], t ++ rest) := by
      rw [chunkStep?]
      intro after same
      cases t with
      | nil =>
        rw [List.nil_append] at same
        subst same
        cases ends
      | cons c t => exact notFeed t (by rw [(List.cons_eq_cons.mp same).1])
    rw [cook?_tail goesOn (by decide) read, ih inner (by simp_all)]
    rfl
  | case3 c t _ notReturn ih =>
    rw [List.cons_append] at found ⊢
    have other : c ≠ '\\' := by rintro rfl; simp at noEscape
    obtain ⟨goesOn, inner⟩ := chunk?_tail found other
    have read : chunkStep? (c :: (t ++ rest)) = some ([c], t ++ rest) := by
      rw [chunkStep?]
      · exact other
      · exact fun _ same => (notReturn same).elim
      · exact notReturn
    rw [cook?_tail goesOn other read, ih inner (by simp_all)]
    rfl
  | case4 => exact cook?_end (.inl ends)

/-- The current token is the chunk `t`; `cooked` is what it stands for, if it is valid. -/
structure Lexer.AtChunk (l : Lexer) (start : Nat) (t : List Char) (cooked : Option (List Char)) : Prop where
  starts : l.token.start = start
  stops : l.token.stop = start + width t
  pos : l.pos = start + width t
  kind : l.kind = if cooked.isSome then .template else .invalidTemplate
  value : l.value = cooked.elim .none fun cooked => .string (String.ofList cooked)

/-- How the lexer gets over a chunk. -/
def ReadsChunk (s : Setting) (step : LexM Unit) (l : Lexer) (text : List Char) : Prop :=
  match chunk? text with
  | some t => ∃ l', Runs s step l ⟨⟩ l' ∧ l'.AtChunk l.pos t (cook? text)
  | none => ∃ m, Throws s step l
    (s.fatal l.pos (if dangles text ∧ (cook? text).isSome then .unterminatedString else .unterminatedTemplate)) m

/-- The passes of a loop are enough for a text. -/
theorem Source.TextAt.enough {source : Source} {start : Nat} (at' : source.TextAt start text) :
    text.length < source.size - start + 2 := by
  have size := at'.size
  have le := length_le_width text
  omega

theorem Throws.repeatForward_iff {α β : Type} {pass : α → LexM (Pass α β)} {a : α} {e : SyntaxError} :
    Throws s (repeatForward a pass) l e l' ↔ Throws s (loop pass (s.source.size - l.pos + 2) a) l e l' := by
  simp [repeatForward]

theorem Runs.repeatForward_iff {α β : Type} {pass : α → LexM (Pass α β)} {a : α} {b : β} :
    Runs s (repeatForward a pass) l b l' ↔ Runs s (loop pass (s.source.size - l.pos + 2) a) l b l' := by
  simp [repeatForward]

/-- A lexer that ends a chunk where the text says. -/
theorem finish_atChunk (plain : s.reader = none) {m : Lexer} {t : List Char} (cooked : Option (List Char))
    (start : m.token.start = l.pos) (pos : m.pos = l.pos + width t)
    (run : Runs s (finish (if cooked.isSome then .template else .invalidTemplate)
      (cooked.elim .none fun cooked => .string (String.ofList cooked))) m ⟨⟩ l') :
    l'.AtChunk l.pos t cooked := by
  obtain ⟨pos', kind, token, -⟩ := finish_spec plain run
  exact ⟨by rw [token]; exact start, by rw [token]; exact pos, pos'.trans pos, kind, finish_value plain run⟩

theorem readChunk_chunk (plain : s.reader = none) (known : 6 ≤ s.edition) (inside : l.inTemplate = true)
    (late : cook? text = none → 9 ≤ s.edition)
    (at' : s.source.TextAt l.pos text) (first : endsChunk text → l.kind ≠ .template ∧ l.kind ≠ .invalidTemplate) :
    ReadsChunk s readChunk l.begin text := by
  unfold ReadsChunk
  cases loop_chunk (l := l.begin) plain known inside at' at'.enough [] with
  | @valid cooked t m cooks ends forward pos run =>
    rw [ends, cooks]
    have start : m.token.start = l.begin.pos := congrArg Extent.start forward.token
    obtain ⟨l', finished⟩ := Runs.exists_finish plain .template (.string (String.ofList cooked)) m
    refine ⟨l', ?_, finish_atChunk plain (some cooked) start pos finished⟩
    have notEmpty : ¬ (m.pos = m.token.start ∧ (m.kind = .template ∨ m.kind = .invalidTemplate)) := by
      rintro ⟨same, kinds⟩
      have empty : t = [] := List.eq_nil_of_length_eq_zero (by have := length_le_width t; omega)
      obtain ⟨rest, rfl, stop⟩ := chunk?_split ends
      obtain ⟨notTemplate, notInvalid⟩ := first (by simpa [empty] using stop)
      rw [forward.kind] at kinds
      exact kinds.elim notTemplate notInvalid
    have chunk : Runs s (finishChunk (cooked.reverse ++ [])) m ⟨⟩ l' := by
      simp only [finishChunk, Runs.bind_iff, Runs.get_iff, Runs.exists_look, if_neg notEmpty]
      simpa using finished
    simp only [readChunk, Runs.bind_iff]
    exact ⟨true, l', Runs.repeatForward_iff.mpr (run l' chunk), by simp⟩
  | @opens cooked m cooks none throws =>
    rw [none, cooks]
    refine ⟨m, ?_⟩
    simp only [readChunk, Throws.bind_iff, Throws.repeatForward_iff]
    simp only [Option.isSome_some, and_true]
    exact .inl throws
  | rejected wrong early => exact (early (late wrong)).elim
  | @invalid p rest m wrong run forward at'' split chunk =>
    rw [wrong]
    have start : m.token.start = l.begin.pos := congrArg Extent.start forward.token
    have moved := (split ▸ at').moved at''
    have reads {n : Lexer} (run' : Runs s (loop invalidChunkPass (s.source.size - m.pos + 2) ()) m ⟨⟩ n) :
        Runs s readChunk l.begin ⟨⟩ n := by
      simp only [readChunk, Runs.bind_iff]
      exact ⟨false, m, Runs.repeatForward_iff.mpr run, by simpa [Runs.repeatForward_iff] using run'⟩
    cases loop_invalidChunk plain at'' at''.enough with
    | @ends t n ends forward' pos run' =>
      obtain ⟨l', finished⟩ := Runs.exists_finish plain .invalidTemplate .none n
      rw [chunk, ends]
      refine ⟨l', reads (run' l' finished), finish_atChunk plain none ?_ ?_ finished⟩
      · rw [forward'.token, start]
      · rw [pos, moved, width_append, Nat.add_assoc]
        rfl
    | @opens n none throws =>
      rw [chunk, none]
      refine ⟨n, ?_⟩
      simp only [readChunk, Throws.bind_iff]
      refine .inr ⟨false, m, Runs.repeatForward_iff.mpr run, ?_⟩
      simpa [Throws.repeatForward_iff, start] using throws

/-- A chunk is read with the lexer marked as inside a template. -/
theorem readTemplate_chunk (plain : s.reader = none) (known : 6 ≤ s.edition) (late : cook? text = none → 9 ≤ s.edition)
    (at' : s.source.TextAt l.pos text) (first : endsChunk text → l.kind ≠ .template ∧ l.kind ≠ .invalidTemplate) :
    ReadsChunk s readTemplate l.begin text := by
  have chunk := readChunk_chunk (l := { l with inTemplate := true }) plain known rfl late at' first
  unfold ReadsChunk at chunk ⊢
  split at chunk
  · obtain ⟨l', run, atChunk⟩ := chunk
    exact ⟨_, Runs.insideTemplate_iff.mpr ⟨l', run, rfl⟩, { atChunk with }⟩
  · obtain ⟨m, throws⟩ := chunk
    exact ⟨_, Throws.insideTemplate_iff.mpr ⟨m, throws, rfl⟩⟩

/-- The chunk of a template as a node of the tree. -/
theorem templateElement_chunk {p q : Parser} {start : Nat} {t : List Char} {cooked : Option (List Char)} {tagged : Bool}
    {e : TemplateElement}
    (at' : s.source.TextAt start (t ++ rest)) (chunk : p.lexer.AtChunk start t cooked)
    (run : Runs s (Grammar.templateElement tagged) p e q) :
    e.raw = String.ofList (normalizeLineBreaks t) ∧ e.cooked = cooked.map String.ofList := by
  have text : s.source.chars p.lexer.token.start p.lexer.token.stop = t := by rw [chunk.starts, chunk.stops, at'.chars]
  simp only [Grammar.templateElement, Runs.bind_iff, Runs.startNode_iff, Runs.lexer_iff, Runs.source_iff,
    Runs.exists_look, text, chunk.kind,
    chunk.value] at run
  cases cooked with
  | none =>
    simp at run
    obtain ⟨-, -, rfl⟩ := run
    exact ⟨rfl, rfl⟩
  | some cooked =>
    simp at run
    obtain ⟨-, rfl⟩ := run
    exact ⟨rfl, rfl⟩

theorem readsChunk_readNext (plain : s.reader = none) (inside : l.context = .templateText) (some : text ≠ [])
    (at' : s.source.TextAt l.pos text)
    (template : ReadsChunk s readTemplate l.begin text) : ReadsChunk s readNext l text := by
  have positive := List.length_pos_iff.mpr some
  have more : ¬ s.source.size ≤ l.pos := by
    have size := at'.size
    have le := length_le_width text
    omega
  unfold ReadsChunk at template ⊢
  split at template
  · obtain ⟨l', run, chunk⟩ := template
    exact ⟨l', readNext_of_template plain inside more run, chunk⟩
  · obtain ⟨m, throws⟩ := template
    have pass {e : SyntaxError} (throws : Throws s readTemplate l.begin e m) : Throws s readNext l e m := by
      have pass : Throws s (readPass ()) l e m := by
        simp [readPass, readExtension, plain, inside, Context.keepsBlank]
        exact .inr ⟨by omega, throws⟩
      simp only [readNext, Throws.repeatForward_iff, loop, Throws.bind_iff]
      exact .inl pass
    exact ⟨m, pass throws⟩

/-- The lexer ends a chunk of a template where a scan finds its end that knows of escapes only that a backslash takes
the character after it along.  The token is a chunk that stands for a text if every escape in it is valid, and an
invalid one otherwise.  With no end there is a fault at the start of the chunk: a template is left open, or, where valid
escapes lead up to a last backslash, a string is.  The node of a chunk without a backslash stands for what is written.
-/
theorem readNext_chunk (plain : s.reader = none) (known : 9 ≤ s.edition) (inside : l.context = .templateText)
    (some : text ≠ [])
    (at' : s.source.TextAt l.pos text) (first : endsChunk text → l.kind ≠ .template ∧ l.kind ≠ .invalidTemplate) :
    ReadsChunk s readNext l text ∧
      ∀ {p q : Parser} {t : List Char} {tagged : Bool} {e : TemplateElement}, chunk? text = .some t →
        p.lexer.AtChunk l.pos t (cook? text) →
        Runs s (Grammar.templateElement tagged) p e q → e.raw = String.ofList (normalizeLineBreaks t) ∧
          e.cooked = (cook? text).map String.ofList ∧ ('\\' ∉ t → e.cooked = .some e.raw) := by
  have template := readTemplate_chunk plain (by omega) (fun _ => known) at' first
  refine ⟨readsChunk_readNext plain inside some at' template, ?_⟩
  intro p q t tagged e found chunk run
  obtain ⟨rest, rfl, ends⟩ := chunk?_split found
  obtain ⟨raw, cooked⟩ := templateElement_chunk at' chunk run
  refine ⟨raw, cooked, fun noEscape => ?_⟩
  rw [raw, cooked, cook?_plain ends found noEscape]
  rfl

/-- A letter, a line break of two characters and a dollar sign between backquotes. -/
theorem readNext_chunk_letters : ∃ l l' p e q, Runs ⟨.ofString "\x60a\r\n$\x60", {}, none⟩ readNext l ⟨⟩ l' ∧
    l'.AtChunk 1 ['a', '\r', '\n', '$'] (some ['a', '\n', '$']) ∧ p.lexer = l' ∧
      Runs ⟨.ofString "\x60a\r\n$\x60", {}, none⟩ (Grammar.templateElement false) p e q ∧ e.cooked = some e.raw := by
  have found : chunk? ['a', '\r', '\n', '$', '\x60'] = some ['a', '\r', '\n', '$'] := by decide +kernel
  have cooks : cook? ['a', '\r', '\n', '$', '\x60'] = some ['a', '\n', '$'] := by decide +kernel
  have text := (Source.textAt_ofString "\x60a\r\n$\x60").step
  generalize setting : Setting.mk (.ofString "\x60a\r\n$\x60") {} none = s
  generalize opened : (s.runLexer (s.lexerAt 0) readNext).2 = l
  generalize after : (s.runLexer l readNext).2 = l'
  have place : l.pos = 1 ∧ l.context = .templateText ∧ l.kind = .backQuote := by
    rw [← opened, ← setting]
    decide +kernel
  have element : (EStateM.run' (Grammar.templateElement false s) { s.parserAt 0 with lexer := l' }).isSome = true := by
    rw [← after, ← opened, ← setting]
    decide +kernel
  obtain ⟨pos, inside, kind⟩ := place
  have at' : s.source.TextAt l.pos ['a', '\r', '\n', '$', '\x60'] := by
    rw [← setting, pos]
    exact text
  obtain ⟨chunk, node⟩ :=
    readNext_chunk (by rw [← setting]) (by rw [← setting]; decide) inside (by simp) at' (by simp [kind])
  obtain ⟨m, run, token⟩ : ∃ m, Runs s readNext l ⟨⟩ m ∧ m.AtChunk l.pos _ _ := by
    unfold ReadsChunk at chunk
    rw [found] at chunk
    exact chunk
  obtain rfl : l' = m := by
    rw [← after, Setting.runLexer, show (ReaderT.run readNext s).run l = .ok ⟨⟩ m from run]
  cases tree : Grammar.templateElement false s { s.parserAt 0 with lexer := l' } with
  | error =>
    rw [EStateM.run', EStateM.run, tree] at element
    cases element
  | ok e q =>
    obtain ⟨-, -, plain⟩ := node found (p := { s.parserAt 0 with lexer := l' }) token tree
    exact ⟨l, l', _, e, q, run, cooks ▸ pos ▸ token, rfl, tree, plain (by decide)⟩

end ScriptSyntax
