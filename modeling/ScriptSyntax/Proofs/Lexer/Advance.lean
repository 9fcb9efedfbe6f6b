import ScriptSyntax.Proofs.Lexer.Items
import ScriptSyntax.Proofs.Lexer.Spelling

/-!
How many tokens a text has.  Each takes up some of the text, but for an empty chunk of a template, and behind that
stands a token that does; so the steps from token to token end, after no more than two for each byte.  So do the loops
that read a token: each pass that goes on moves the cursor forward, and the bytes left bound the passes.
-/

namespace ScriptSyntax

open LexM

/-! ### Tokens -/

/-- Tokens of a text from an offset on: each begins no earlier than the one before it ends and takes up some of the
text.  Only an empty chunk of a template takes up nothing, and a token that does comes next. -/
inductive Advancing (size : Nat) : Nat → List Token → Prop
  | nil {pos : Nat} : Advancing size pos []
  | token {pos : Nat} {t : Token} {rest : List Token} (after : pos ≤ t.start) (some : t.start < t.stop)
      (inside : t.stop ≤ size)
    (next : Advancing size t.stop rest) : Advancing size pos (t :: rest)
  | chunk {pos : Nat} {t t' : Token} {rest : List Token} (kind : t.kind = .template) (value : t.value = .string "")
      (after : pos ≤ t.start)
    (empty : t.start = t.stop) (after' : t.stop ≤ t'.start) (some : t'.start < t'.stop) (inside : t'.stop ≤ size)
    (next : Advancing size t'.stop rest) : Advancing size pos (t :: t' :: rest)

/-- Two tokens for each byte are enough. -/
theorem Advancing.length_le {size pos : Nat} {tokens : List Token} (advancing : Advancing size pos tokens) :
    tokens.length ≤ 2 * (size - pos) := by
  induction advancing with
  | nil => exact Nat.zero_le _
  | token after some inside _ ih =>
    rw [List.length_cons]
    omega
  | chunk _ _ after empty after' some inside _ ih =>
    rw [List.length_cons, List.length_cons]
    omega

variable {s : Setting} {l l' k : Lexer} {step : LexM Token} {text : List Char}

/-- Does what stands at an offset end a chunk? -/
def Source.EndsChunk (source : Source) (offset : Nat) : Prop :=
  source.charAt offset = some '\x60' ∨ source.charAt offset = some '$' ∧ source.charAt (offset + 1) = some '{'

/-- The current token is an empty chunk, and the cursor stands before what ends it. -/
structure Lexer.Stalls (s : Setting) (l : Lexer) : Prop where
  kind : l.kind = .template
  value : l.value = .string ""
  empty : l.token.start = l.token.stop
  stop : l.token.stop = l.pos
  inside : l.context = .templateText
  ends : s.source.EndsChunk l.pos

/-! ### Templates -/

theorem atChunkEnd_true_iff : Runs s atChunkEnd l true l' ↔ s.source.EndsChunk l.pos ∧ l' = l := by
  simp only [atChunkEnd, Source.EndsChunk, Runs.bind_iff, Runs.peek_iff, Runs.exists_look]
  split
  · next here => simp [here]
  · next here =>
    rw [Runs.seesAhead_iff, eq_comm, beq_iff_eq, here]
    simp
  · next notQuote notDollar =>
    have more : ¬ (s.source.charAt l.pos = some '\x60' ∨ s.source.charAt l.pos = some '$' ∧
      s.source.charAt (l.pos + 1) = some '{') :=
      fun ends => ends.elim notQuote fun dollar => notDollar dollar.1
    simp [more]

/-- A pass ends the chunk, or it moves forward. -/
theorem chunkPass_cases {x : Pass (List Char) Bool} (run : Runs s (chunkPass text) l x l') :
    (x = .done true ∧ s.source.EndsChunk l.pos ∧ Runs s (finishChunk text) l ⟨⟩ l') ∨
      (x ≠ .done true ∧ l.pos < l'.pos) := by
  simp only [chunkPass, Runs.bind_iff, Runs.ite_iff] at run
  obtain ⟨b, m, chunkEnd, ⟨rfl, run⟩ | ⟨-, c, m', look, run⟩⟩ := run
  · obtain ⟨ends, rfl⟩ := atChunkEnd_true_iff.mp chunkEnd
    simp at run
    exact .inl ⟨run.2, ends, run.1⟩
  · obtain ⟨rfl, -⟩ := atChunkEnd_spec chunkEnd
    obtain ⟨rfl, rfl⟩ := Runs.peek_iff.mp look
    right
    split at run
    · simp at run
    · simp at run
      obtain ⟨e, n, escape, run⟩ := run
      have past := readEscape_past escape
      obtain ⟨other, rfl⟩ : x ≠ .done true ∧ l' = n := by
        split at run
        · simp [Runs.pure_iff.mp run]
        · simp [Runs.pure_iff.mp run]
        · simp at run
          simp [run.2]
      exact ⟨other, by omega⟩
    · simp at run
      obtain ⟨run, rfl⟩ := run
      exact ⟨by simp, (endCarriageReturn_forward run).pos_le⟩
    · next c _ _ _ =>
      have past := c.utf8Size_pos
      simp at run
      obtain ⟨-, rfl, rfl⟩ | ⟨-, rfl, rfl⟩ := run <;> exact ⟨by simp, Nat.lt_add_of_pos_right past⟩

/-! ### Loops -/

namespace LexM

/-- The passes of a loop up to one that is done or fails, however many it takes; `n` of them go on. -/
inductive Rounds {α β : Type} (s : Setting) (pass : α → LexM (Pass α β)) :
    α → Lexer → Nat → EStateM.Result SyntaxError Lexer β → Prop
  | ends {a : α} {b : β} {l l' : Lexer} : pass a s l = .ok (.done b) l' → Rounds s pass a l 0 (.ok b l')
  | fails {a : α} {e : SyntaxError} {l l' : Lexer} : pass a s l = .error e l' → Rounds s pass a l 0 (.error e l')
  | next {a b : α} {l l' : Lexer} {n : Nat} {r : EStateM.Result SyntaxError Lexer β} :
    pass a s l = .ok (.again b) l' → Rounds s pass b l' n r → Rounds s pass a l (n + 1) r

/-- A pass that goes on has moved forward, and not out of the text. -/
def MovesOn {α β : Type} (s : Setting) (pass : α → LexM (Pass α β)) : Prop :=
  ∀ {a b l l'}, Runs s (pass a) l (.again b) l' → l.pos < l'.pos ∧ (l.pos ≤ s.source.size → l'.pos ≤ s.source.size)

section Rounds

variable {α β : Type} {pass : α → LexM (Pass α β)}

/-- There is one way to take passes. -/
theorem Rounds.unique {a : α} {n m : Nat} {r t : EStateM.Result SyntaxError Lexer β} (rounds : Rounds s pass a l n r)
    (rounds' : Rounds s pass a l m t) : m = n ∧ t = r := by
  induction rounds generalizing m with
  | ends first | fails first =>
    cases rounds' with
    | ends first' | fails first' | next first' =>
      cases first.symm.trans first'
      try exact ⟨rfl, rfl⟩
  | next first _ ih =>
    cases rounds' with
    | ends first' | fails first' => cases first.symm.trans first'
    | next first' rest' =>
      cases first.symm.trans first'
      obtain ⟨rfl, rfl⟩ := ih rest'
      exact ⟨rfl, rfl⟩

/-- The bytes that are left bound the passes, so a loop with more passes than that ends of itself. -/
theorem loop_rounds (moves : MovesOn s pass) (inside : l.pos ≤ s.source.size) {fuel : Nat}
    (enough : s.source.size - l.pos < fuel)
    (a : α) : ∃ n ≤ s.source.size - l.pos, Rounds s pass a l n (loop pass fuel a s l) := by
  induction fuel generalizing a l with
  | zero => omega
  | succ fuel ih =>
    simp only [loop, bind, ReaderT.bind, EStateM.bind]
    cases first : pass a s l with
    | error e l' => exact ⟨0, Nat.zero_le _, .fails first⟩
    | ok x l' =>
      cases x with
      | done b => exact ⟨0, Nat.zero_le _, .ends first⟩
      | again b =>
        obtain ⟨past, within⟩ := moves first
        have inside' := within inside
        obtain ⟨n, few, rounds⟩ := ih inside' (by omega) b
        exact ⟨n + 1, by omega, .next first rounds⟩

end Rounds

/-- The loops that reading a token goes through, with what they carry along and what they give. -/
inductive Loop : Type → Type → Type 1
  | gap : Loop Unit Unit
  | word : Loop (List Char) (List Char)
  | digits (radix start : Nat) (legacy : Bool) : Loop DigitRun DigitRun
  | string (quote : Char) : Loop (List Char) (List Char)
  | chunk : Loop (List Char) Bool
  | invalidChunk : Loop Unit Unit
  | body (start : Nat) : Loop BodyState Unit
  | token : Loop Unit Unit

namespace Loop

variable {α β : Type}

def pass : Loop α β → α → LexM (Pass α β)
  | gap => fun _ => skipBlankPass
  | word => wordPass
  | digits radix start legacy => digitPass radix start legacy
  | string quote => stringPass quote
  | chunk => chunkPass
  | invalidChunk => invalidChunkPass
  | body start => bodyPass start
  | token => readPass

/-- The loop under its bound. -/
def whole : Loop α β → α → LexM β
  | gap => fun _ => skipBlank
  | token => fun _ => readNext
  | loop => (repeatForward · loop.pass)

end Loop
end LexM

theorem invalidChunkPass_moves (run : Runs s (invalidChunkPass ()) l (.again ()) l') : l.pos < l'.pos := by
  simp only [invalidChunkPass, Runs.bind_iff, Runs.ite_iff] at run
  obtain ⟨b, m, chunkEnd, ⟨-, run⟩ | ⟨-, c, m', look, run⟩⟩ := run
  · simp at run
  obtain ⟨rfl, -⟩ := atChunkEnd_spec chunkEnd
  obtain ⟨rfl, rfl⟩ := Runs.peek_iff.mp look
  split at run
  · simp at run
  · simp at run
    split at run
    · next c _ =>
      simp at run
      rw [run]
      exact Nat.lt_of_lt_of_le (Nat.lt_add_one _) (Nat.le_add_right _ c.utf8Size)
    · simp at run
      exact run ▸ Nat.lt_add_one _
  · simp at run
    exact (endCarriageReturn_forward run).pos_le
  · next c _ _ _ =>
    simp at run
    obtain ⟨-, rfl⟩ | ⟨-, rfl⟩ := run <;> exact Nat.lt_add_of_pos_right c.utf8Size_pos

section Plain

variable (plain : s.reader = none)
include plain

/-- Only a comment that looked like a token makes the reading of a token go on. -/
theorem readPass_moves (run : Runs s (readPass ()) l (.again ()) l') : l.pos < l'.pos := by
  obtain ⟨source, options, reader⟩ := s
  obtain rfl : reader = none := plain
  by_cases inside : l.context = .templateText
  · simp [readPass, readExtension, inside, Context.keepsBlank] at run
  · simp [readPass, readExtension, inside, Context.keepsBlank] at run
    obtain ⟨m, gap, -, read⟩ := run
    split at read
    · next c here =>
      simp at read
      have moved : m.pos < l'.pos := readToken_moves (l := m.begin) here read
      exact Nat.lt_of_le_of_lt (skipBlank_spec gap).1.pos_le moved
    · simp at read

theorem LexM.Loop.movesOn {α β : Type} (each : Loop α β) : MovesOn s each.pass := by
  intro a b l l' run
  cases each with
  | gap => exact ⟨(skipBlankPass_moves run).1, fun _ => (skipBlankPass_moves run).2⟩
  | word => exact ⟨wordPass_moves run, (wordPass_forward run).1.inside⟩
  | digits => exact ⟨digitPass_moves run, (digitPass_forward run).inside⟩
  | string => exact ⟨stringPass_moves run, (stringPass_forward run).inside⟩
  | chunk =>
    obtain ⟨-, past⟩ := (chunkPass_cases run).resolve_left (by simp)
    obtain ⟨-, forward⟩ := (chunkPass_spec plain run).resolve_left (by simp)
    exact ⟨past, forward.inside⟩
  | invalidChunk =>
    obtain ⟨-, forward⟩ := (invalidChunkPass_spec plain run).resolve_left (by simp)
    exact ⟨invalidChunkPass_moves run, forward.inside⟩
  | body => exact ⟨bodyPass_moves run, (bodyPass_forward run).inside⟩
  | token =>
    obtain ⟨-, skipped⟩ := (readPass_spec plain run).resolve_left (by simp)
    exact ⟨readPass_moves plain run, skipped.inside⟩

/-- Each loop ends of itself, after no more passes that go on than there are bytes left, in the way it does under its
bound. -/
theorem LexM.Loop.ends {α β : Type} (each : Loop α β) (a : α) (inside : l.pos ≤ s.source.size) :
    ∃ n ≤ s.source.size - l.pos, ∀ k r, Rounds s each.pass a l k r ↔ k = n ∧ r = each.whole a s l := by
  have bounded : each.whole a s l = loop each.pass (s.source.size - l.pos + 2) a s l := by cases each <;> rfl
  have enough : s.source.size - l.pos < s.source.size - l.pos + 2 := by omega
  obtain ⟨n, few, rounds⟩ := loop_rounds (each.movesOn plain) inside enough a
  rw [← bounded] at rounds
  refine ⟨n, few, fun k r => ⟨rounds.unique, ?_⟩⟩
  rintro ⟨rfl, rfl⟩
  exact rounds

end Plain

/-! ### Empty chunks -/

section Plain

variable (plain : s.reader = none)
include plain

/-- At its end a chunk is finished, or the mark behind it, if the chunk was before. -/
theorem finishChunk_advances (start : l.token.start = l.pos) (inside : l.context = .templateText)
    (ends : s.source.EndsChunk l.pos) (run : Runs s (finishChunk []) l ⟨⟩ l') : l.pos < l'.pos ∨ l'.Stalls s := by
  simp [finishChunk, finishOperator] at run
  obtain ⟨-, ⟨-, run⟩ | ⟨-, run⟩⟩ | ⟨-, run⟩ := run
  · exact .inl ((finish_spec plain run).1 ▸ Nat.lt_add_of_pos_right (Nat.succ_pos 1))
  · exact .inl ((finish_spec plain run).1 ▸ Nat.lt_add_one _)
  · obtain ⟨pos, kind, token, -⟩ := finish_spec plain run
    have part := (finish_template plain inside rfl run).chunk (.inl kind)
    exact .inr ⟨kind, finish_value plain run, by rw [token, start], by rw [token, pos], part, pos ▸ ends⟩

/-- A chunk takes up some of the text, or it is empty and stops where it began. -/
theorem readChunk_advances (inside : l.context = .templateText) (run : Runs s readChunk l.begin ⟨⟩ l') :
    l.pos < l'.pos ∨ l'.Stalls s := by
  simp [readChunk] at run
  -- Either the cursor has left the start, or the first pass ends the chunk.
  have chunks {b : Bool} {m : Lexer} (passes : Runs s (repeatForward [] chunkPass) l.begin b m) :
      l.pos < m.pos ∨ b = true ∧ m.Stalls s := by
    obtain ⟨text, n, before, done⟩ :=
      Runs.of_repeatForward (fun text n => text = [] ∧ n = l.begin ∨ l.pos < n.pos) (.inl ⟨rfl, rfl⟩)
      (by
        rintro text next m n before pass
        obtain ⟨-, moves⟩ := (chunkPass_cases pass).resolve_left (by simp)
        obtain ⟨-, rfl⟩ | past := before
        · exact .inr moves
        · exact .inr (Nat.lt_trans past moves)) passes
    have forward : n.pos ≤ m.pos := (chunkPass_spec plain done).elim (fun h => h.2.1.pos_le) fun h => h.2.pos_le
    obtain ⟨rfl, rfl⟩ | past := before
    · obtain ⟨same, ends, finish⟩ | ⟨-, moves⟩ := chunkPass_cases done
      · cases same
        exact (finishChunk_advances plain (l := l.begin) rfl inside ends finish).imp_right fun stalls => ⟨rfl, stalls⟩
      · exact .inl moves
    · exact .inl (Nat.lt_of_lt_of_le past forward)
  obtain ⟨m, valid, invalid⟩ | valid := run
  · have past := (chunks valid).resolve_right (by simp)
    obtain ⟨-, n, before, done⟩ := Runs.of_repeatForward (fun _ n => m.pos ≤ n.pos) (Nat.le_refl _)
      (fun before pass => Nat.le_trans before ((invalidChunkPass_spec plain pass).resolve_left
        (by simp)).2.pos_le) invalid
    have forward := ((invalidChunkPass_spec plain done).resolve_right (by simp)).2.1.pos_le
    exact .inl (Nat.lt_of_lt_of_le past (Nat.le_trans before forward))
  · exact (chunks valid).imp_right And.right

theorem readTemplate_advances (inside : l.context = .templateText) (run : Runs s readTemplate l.begin ⟨⟩ l') :
    l.pos < l'.pos ∨ l'.Stalls s := by
  obtain ⟨k, chunk, rfl⟩ := Runs.insideTemplate_iff.mp run
  exact (readChunk_advances plain (l := { l with inTemplate := true }) inside chunk).imp_right fun stalls =>
    { stalls with }

/-! ### From one token to the next -/

/-- A token that is not the end takes up some of the text, or it is an empty chunk. -/
theorem readNext_advances (run : Runs s readNext l ⟨⟩ l') :
    l'.kind = .eof ∨ l'.token.start < l'.token.stop ∨ l'.Stalls s := by
  have token {m : Lexer} {c : Char} (here : s.source.charAt m.pos = some c)
      (read : Runs s (readToken c) m.begin true l') :
      l'.token.start < l'.token.stop := by
    obtain ⟨-, finished⟩ := (readToken_spec plain (l := m.begin) here read).resolve_right (by simp)
    obtain ⟨source, options, reader⟩ := s
    obtain rfl : reader = none := plain
    rw [finished.start, finished.stop]
    exact readToken_moves (l := m.begin) here read
  have chunk {m : Lexer} (inside : m.context = .templateText) (read : Runs s readTemplate m.begin ⟨⟩ l') :
      l'.token.start < l'.token.stop ∨ l'.Stalls s := by
    have finished := (readTemplate_spec plain read).1
    rw [finished.start, finished.stop]
    exact readTemplate_advances plain inside read
  obtain ⟨_, m, -, done⟩ := Runs.of_repeatForward (fun _ _ => True) trivial (fun _ _ => trivial) run
  by_cases inside : m.context = .templateText
  · simp [readPass, readExtension, plain, inside, Context.keepsBlank] at done
    obtain ⟨-, ended⟩ | ⟨-, read⟩ := done
    · exact .inl (finish_spec plain ended).2.1
    · exact .inr (chunk inside read)
  · simp [readPass, readExtension, plain, inside, Context.keepsBlank] at done
    obtain ⟨n, -, ⟨-, ended⟩ | ⟨-, read⟩⟩ := done
    · exact .inl (finish_spec plain ended).2.1
    · split at read
      · next here =>
        simp at read
        exact .inr (.inl (token here read))
      · simp at read

/-- Behind an empty chunk the mark that ends it is read. -/
theorem Lexer.Stalls.next (stalls : l.Stalls s) :
    ∃ l', Runs s readNext (l.leave s) ⟨⟩ l' ∧ l'.kind ≠ .eof ∧ l'.token.start < l'.token.stop := by
  let m : Lexer := { (l.leave s).begin with inTemplate := true }
  have operator (kind : TokenKind) (size : Nat) (other : kind ≠ .eof) (positive : 0 < size)
      (ends : ∀ k, Runs s (finishOperator kind size) m ⟨⟩ k → Runs s (finishChunk []) m ⟨⟩ k) :
      ∃ l', Runs s readNext (l.leave s) ⟨⟩ l' ∧ l'.kind ≠ .eof ∧ l'.token.start < l'.token.stop := by
    obtain ⟨k, finished⟩ := Runs.exists_finish plain kind .none { m with pos := m.pos + size }
    obtain ⟨-, same, token, -⟩ := finish_spec plain finished
    have operator : Runs s (finishOperator kind size) m ⟨⟩ k := by simpa [finishOperator] using finished
    have pass : Runs s (chunkPass []) m (.done true) k := by
      simp only [chunkPass, Runs.bind_iff]
      exact ⟨true, _, atChunkEnd_true_iff.mpr ⟨stalls.ends, rfl⟩, by simpa using ends k operator⟩
    have chunk : Runs s readChunk m ⟨⟩ k := by
      simp [readChunk]
      exact .inr (Runs.of_first_pass pass)
    have read : Runs s readTemplate (l.leave s).begin ⟨⟩ { k with inTemplate := false } :=
      Runs.insideTemplate_iff.mpr ⟨k, chunk, rfl⟩
    have more : ¬ s.source.size ≤ l.pos := by
      obtain here | ⟨here, -⟩ := stalls.ends <;> exact Nat.not_le_of_lt (Source.lt_size_of_charAt here)
    refine ⟨_, readNext_of_template plain stalls.inside more read, same ▸ other, ?_⟩
    show k.token.start < k.token.stop
    rw [token]
    exact Nat.lt_add_of_pos_right positive
  obtain quote | ⟨dollar, -⟩ := stalls.ends
  · refine operator .backQuote 1 (by decide) (by decide) fun k run => ?_
    have other : s.source.charAt l.pos ≠ some '$' := by simp [quote]
    simp [finishChunk]
    exact .inl ⟨⟨rfl, .inl stalls.kind⟩, .inr ⟨other, run⟩⟩
  · refine operator .dollarBraceL 2 (by decide) (by decide) fun k run => ?_
    simp [finishChunk]
    exact .inl ⟨⟨rfl, .inl stalls.kind⟩, .inl ⟨dollar, run⟩⟩

/-! ### Whole texts -/

/-- What steps give up to the end of the text or the first fault, if enough of them are taken. -/
def ReadsOn (s : Setting) (step : LexM Token) (l : Lexer) : Prop :=
  ∃ (tokens : List Token) (last : Except SyntaxError Token), (∀ t ∈ tokens, t.kind ≠ .eof) ∧
    (∀ t, last = .ok t → t.kind = .eof) ∧
    Advancing s.source.size l.pos tokens ∧
    ∀ fuel, 2 * (s.source.size - l.pos) < fuel → (s.tokenItems step fuel l).1 = tokens.map .ok ++ [last]

theorem readsOn (inside : l.pos ≤ s.source.size) (pos : k.pos = l.pos)
    (reads : ∀ t l', Runs s step l t l' ↔ Runs s readNext k ⟨⟩ l' ∧ t = s.currentToken l'.toCursor) :
    ReadsOn s step l := by
  generalize left : s.source.size - l.pos = n
  induction n using Nat.strong_induction_on generalizing step l k with
  | _ n ih =>
  cases ran : step s l with
  | error e m =>
    have throws : Throws s step l e m := ran
    refine ⟨[], .error e, by simp, by simp, .nil, fun fuel enough => ?_⟩
    obtain ⟨fuel, rfl⟩ := Nat.exists_eq_add_one.mpr (Nat.zero_lt_of_lt enough)
    rw [tokenItems_throws throws]
    rfl
  | ok t m =>
    have run : Runs s step l t m := ran
    obtain ⟨read, same⟩ := (reads t m).mp run
    have kind : t.kind = m.kind := by rw [same]; rfl
    have start : t.start = m.token.start := by rw [same]; rfl
    have stop : t.stop = m.token.stop := by rw [same]; rfl
    have fresh := readNext_fresh plain read
    have inside' : m.pos ≤ s.source.size := fresh.inside (pos ▸ inside)
    have after : l.pos ≤ t.start := start ▸ pos ▸ fresh.pos_le
    have ends : t.stop = m.pos := stop.trans fresh.stop
    have moved : l.pos ≤ m.pos := Nat.le_trans after (start ▸ fresh.stop ▸ fresh.start_le)
    by_cases ended : t.kind = .eof
    · refine ⟨[], .ok t, by simp, ?_, .nil, fun fuel enough => ?_⟩
      · rintro _ ⟨⟩
        exact ended
      · obtain ⟨fuel, rfl⟩ := Nat.exists_eq_add_one.mpr (Nat.zero_lt_of_lt enough)
        rw [tokenItems_ended run ended]
        rfl
    obtain some | stalls := (readNext_advances plain read).resolve_left (kind ▸ ended)
    · have some : t.start < t.stop := by rwa [start, stop]
      obtain ⟨tokens, last, others, final, advancing, items⟩ :=
        ih (s.source.size - m.pos) (by omega) (k := m.leave s) inside' rfl (fun _ _ => nextToken_iff) rfl
      refine ⟨t :: tokens, last, by simpa [ended] using others, final, .token after some (by omega) (ends ▸
        advancing), fun fuel enough => ?_⟩
      obtain ⟨fuel, rfl⟩ := Nat.exists_eq_add_one.mpr (Nat.zero_lt_of_lt enough)
      rw [tokenItems_more run ended, items fuel (by omega)]
      rfl
    · obtain ⟨m', read', other', some'⟩ := stalls.next plain
      have fresh' := readNext_fresh plain read'
      have inside'' : m'.pos ≤ s.source.size := fresh'.inside inside'
      have after' : m.pos ≤ m'.token.start := fresh'.pos_le
      have ends' : m'.token.stop = m'.pos := fresh'.stop
      have run' : Runs s nextToken m (s.currentToken m'.toCursor) m' := nextToken_iff.mpr ⟨read', rfl⟩
      obtain ⟨tokens, last, others, final, advancing, items⟩ :=
        ih (s.source.size - m'.pos) (by omega) (k := m'.leave s) inside'' rfl (fun _ _ => nextToken_iff) rfl
      refine ⟨t :: s.currentToken m'.toCursor :: tokens, last, ?_, final, ?_, fun fuel enough => ?_⟩
      · rintro _ (_ | ⟨_, _ | ⟨_, mem⟩⟩)
        · exact ended
        · exact other'
        · exact others _ mem
      · have value : t.value = .string "" := by rw [same]; exact stalls.value
        have bound : m'.token.stop ≤ s.source.size := ends' ▸ inside''
        have next : Advancing s.source.size m'.token.stop tokens := ends' ▸ advancing
        exact .chunk (kind ▸ stalls.kind) value after (by rw [start, stop, stalls.empty])
          (ends ▸ after') some' bound next
      · obtain ⟨fuel, rfl⟩ := Nat.exists_eq_add_of_le' (show 2 ≤ fuel by omega)
        rw [tokenItems_more run ended, tokenItems_more run' other', items fuel (by omega)]
        rfl

/-! ### All tokens at once -/

section All

variable {fuel : Nat} {rest found : List Token} {last : Except SyntaxError Token}

omit plain

theorem runLexer_of_runs {α : Type} {m : LexM α} {a : α} (run : Runs s m l a l') : s.runLexer l m = (.ok a, l') := by
  rw [Setting.runLexer, show (ReaderT.run m s).run l = .ok a l' from run]

theorem runLexer_of_throws {α : Type} {m : LexM α} {e : SyntaxError} (throws : Throws s m l e l') :
    s.runLexer l m = (.error e, l') := by
  rw [Setting.runLexer, show (ReaderT.run m s).run l = .error e l' from throws]

theorem loop_tokenPass_throws_iff {e : SyntaxError} :
    Throws s (loop tokenPass (fuel + 1) found) l e l' ↔ l.kind ≠ .eof ∧ (Throws s readNext (l.leave s) e l' ∨
      ∃ m, Runs s readNext (l.leave s) ⟨⟩ m ∧
        Throws s (loop tokenPass fuel (s.currentToken l.toCursor :: found)) m e l') := by
  have kind : (s.currentToken l.toCursor).kind = l.kind := rfl
  simp only [loop, tokenPass, Throws.bind_iff, Runs.bind_iff, Runs.read_iff, Runs.get_iff, Runs.exists_look, kind]
  by_cases ended : l.kind = .eof
  · simp [ended]
  · simp [ended, next, Lexer.leave]

/-- The loop over all tokens gives what the steps from token to token give, or fails as they do. -/
theorem runLexer_items (more : l.kind ≠ .eof) (final : ∀ t, last = .ok t → t.kind = .eof)
    (items : (s.tokenItems nextToken fuel l).1 = rest.map .ok ++ [last]) :
    (s.runLexer l (loop tokenPass (fuel + 1) found)).1 =
      last.map fun t => found.reverse ++ s.currentToken l.toCursor :: (rest ++ [t]) := by
  induction fuel generalizing l rest found with
  | zero => simp [Setting.tokenItems] at items
  | succ fuel ih =>
    cases ran : nextToken s l with
    | error e m =>
      have throws : Throws s nextToken l e m := ran
      rw [tokenItems_throws throws] at items
      cases rest <;> simp at items
      subst items
      rw [runLexer_of_throws (loop_tokenPass_throws_iff.mpr ⟨more, .inl (nextToken_throws_iff.mp throws)⟩)]
      rfl
    | ok t m =>
      have run : Runs s nextToken l t m := ran
      obtain ⟨read, rfl⟩ := nextToken_iff.mp run
      have step : (s.runLexer l (loop tokenPass (fuel + 1 + 1) found)).1 =
          (s.runLexer m (loop tokenPass (fuel + 1) (s.currentToken l.toCursor :: found))).1 := by
        cases ran : loop tokenPass (fuel + 1) (s.currentToken l.toCursor :: found) s m with
        | ok tokens k => 
          rw [runLexer_of_runs ran, runLexer_of_runs (loop_tokenPass_iff.mpr (.inr ⟨more, m, read, ran⟩))]
        | error e k => 
          rw [runLexer_of_throws ran, runLexer_of_throws (loop_tokenPass_throws_iff.mpr ⟨more, .inr ⟨m, read, ran⟩⟩)]
      rw [step]
      by_cases ended : m.kind = .eof
      · rw [tokenItems_ended run ended] at items
        cases rest <;> simp at items
        subst items
        rw [runLexer_of_runs (loop_tokenPass_iff.mpr (.inl ⟨ended, rfl, rfl⟩))]
        simp [Except.map]
      · rw [tokenItems_more run ended] at items
        cases rest with
        | nil =>
          obtain ⟨same, -⟩ := List.cons_eq_cons.mp items
          exact (ended (final _ same.symm)).elim
        | cons t rest =>
          simp only [List.map_cons, List.cons_append, List.cons.injEq, Except.ok.injEq] at items
          obtain ⟨rfl, items⟩ := items
          simp [ih ended items]

end All

/-- All tokens at once are the tokens one by one, unless one of them is at fault. -/
theorem tokenize_of_items {tokens : List Token} {last : Except SyntaxError Token}
    (final : ∀ t, last = .ok t → t.kind = .eof) (items : ∀ fuel, 2 * s.source.size < fuel →
      (s.tokenItems firstToken fuel (s.lexerAt 0)).1 = tokens.map .ok ++ [last]) :
    s.tokenize.1 = last.map (tokens ++ [·]) := by
  cases ran : readNext s (s.lexerAt 0) with
  | error e m =>
    have stream := items (2 * s.source.size + 4) (by omega)
    rw [tokenItems_throws (firstToken_throws_iff.mpr ran)] at stream
    cases tokens <;> simp at stream
    subst stream
    rw [(tokens_throws ran).1]
    rfl
  | ok _ m =>
    have read : Runs s readNext (s.lexerAt 0) ⟨⟩ m := ran
    have first : Runs s firstToken (s.lexerAt 0) (s.currentToken m.toCursor) m := firstToken_iff.mpr ⟨read, rfl⟩
    have loops : s.tokenize.1 = (s.runLexer m (loop tokenPass (2 * (s.source.size - m.pos) + 3 + 1) [])).1 := by
      cases ran : loop tokenPass (2 * (s.source.size - m.pos) + 3 + 1) [] s m with
      | ok all k =>
        have whole : Runs s allTokens (s.lexerAt 0) all k := by
          simp only [allTokens, Runs.bind_iff, Runs.lexSource_iff, Runs.pos_iff, Runs.exists_look, Runs.exists_unit]
          exact ⟨m, read, ran⟩
        rw [Setting.tokenize, runLexer_of_runs whole, runLexer_of_runs ran]
      | error e k =>
        have whole : Throws s allTokens (s.lexerAt 0) e k := by
          simp only [allTokens, Throws.bind_iff, Runs.lexSource_iff, Runs.pos_iff, Runs.exists_look, Runs.exists_unit]
          exact .inr ⟨m, read, .inr (.inr ran)⟩
        rw [Setting.tokenize, runLexer_of_throws whole, runLexer_of_throws ran]
    rw [loops]
    by_cases ended : m.kind = .eof
    · have stream := items (2 * s.source.size + 4) (by omega)
      rw [tokenItems_ended first ended] at stream
      cases tokens <;> simp at stream
      subst stream
      rw [runLexer_of_runs (loop_tokenPass_iff.mpr (.inl ⟨ended, rfl, rfl⟩))]
      rfl
    · have inside : m.pos ≤ s.source.size := (readNext_fresh plain read).inside (s.lexerAt_begins 0).pos_le
      obtain ⟨rest, last', -, -, -, steps⟩ := readsOn plain (k := m.leave s) inside rfl fun _ _ => nextToken_iff
      have stream := items (2 * s.source.size + 2) (by omega)
      rw [tokenItems_more first ended] at stream
      dsimp only at stream
      rw [steps _ (by omega), ← List.cons_append, ← List.map_cons (f := Except.ok)] at stream
      obtain ⟨same, same'⟩ := List.append_inj' stream rfl
      obtain rfl := List.map_injective_iff.mpr (fun _ _ => Except.ok.inj) same
      obtain rfl := List.singleton_injective same'
      have enough : 2 * (s.source.size - m.pos) < 2 * (s.source.size - m.pos) + 3 := by omega
      rw [runLexer_items ended final (steps _ enough)]
      rfl

/-- The steps from token to token end, with the end of the text or a fault.  Each token before that takes up some of the
text, but for empty chunks of templates, which a token that does follows, so there are no more than two for each byte.
The reading of each of them ends too: no loop on the way is cut short by its bound, so a fault is one of the text. -/
theorem tokens_advance :
    (∀ {α β : Type} (each : Loop α β) (a : α) {l : Lexer}, l.pos ≤ s.source.size →
      ∃ n ≤ s.source.size - l.pos, ∀ k r, Rounds s each.pass a l k r ↔ k = n ∧ r = each.whole a s l) ∧
    ∃ (tokens : List Token) (last : Except SyntaxError Token), (∀ t ∈ tokens, t.kind ≠ .eof) ∧
      (∀ t, last = .ok t → t.kind = .eof) ∧ Advancing s.source.size (s.lexerAt 0).pos tokens ∧
      tokens.length ≤ 2 * s.source.size ∧ s.tokens.1 = tokens.map .ok ++ [last] ∧
      s.tokenize.1 = last.map (tokens ++ [·]) ∧
      ∀ fuel, 2 * s.source.size < fuel →
        (s.tokenItems firstToken fuel (s.lexerAt 0)).1 = tokens.map .ok ++ [last] := by
  obtain ⟨tokens, last, others, final, advancing, items⟩ :=
    readsOn plain (k := s.lexerAt 0) (s.lexerAt_begins 0).pos_le rfl fun _ _ => firstToken_iff
  have length := advancing.length_le
  have stream (fuel : Nat) (enough : 2 * s.source.size < fuel) := items fuel (by omega)
  refine ⟨fun each a _ inside => each.ends plain a inside, tokens, last, others, final,
    advancing, by omega, ?_, ?_, stream⟩
  · exact stream _ (by omega)
  · exact tokenize_of_items plain final stream

end Plain

/-- Between two backquotes an empty chunk is read. -/
theorem tokens_advance_backquotes : ∃ (tokens : List Token) (last : Except SyntaxError Token), tokens.length ≤ 4 ∧
    Advancing 2 0 tokens ∧ (Setting.tokens ⟨.ofString "\x60\x60", {}, none⟩).1 = tokens.map .ok ++ [last] ∧
    (Setting.tokenize ⟨.ofString "\x60\x60", {}, none⟩).1 = last.map (tokens ++ [·]) := by
  obtain ⟨-, tokens, last, -, -, advancing, length, items, all, -⟩ :=
    tokens_advance (s := ⟨.ofString "\x60\x60", {}, none⟩) rfl
  have pos : (Setting.lexerAt ⟨.ofString "\x60\x60", {}, none⟩ 0).pos = 0 := by decide +kernel
  rw [pos] at advancing
  exact ⟨tokens, last, length, advancing, items, all⟩

end ScriptSyntax
