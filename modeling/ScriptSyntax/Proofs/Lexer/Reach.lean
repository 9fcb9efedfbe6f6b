import ScriptSyntax.Proofs.Lexer.Token
import ScriptSyntax.Proofs.Tandem.Bond

/-!
Where a lexer begins, the tokens that it reads up to the end of the text, and the lexers that a read goes through on the
way, one after the other.
-/

namespace ScriptSyntax

/-! ### Tokens of a whole text -/

section

variable {s : Setting} {start : Nat} {l l' : Lexer} {u : Unit}

/-- No token is read, and the comment that may open a text is behind the cursor. -/
structure Lexer.Begins (source : Source) (start : Nat) (l : Lexer) : Prop where
  token : l.token.start = start
  last : l.last.start = start ∧ l.last.stop = start
  le_pos : start ≤ l.pos
  pos_le : l.pos ≤ source.size
  tokens : l.tokens = []
  account : Account source start l.tokens l.comments l.pos

/-- Skipping a gap leaves the beginning where it is. -/
theorem Lexer.Begins.skip (begins : l.Begins s.source start) (skipped : l.Skipped s.source l')
    (token : l'.token = l.token) : l'.Begins s.source start where
  token := token ▸ begins.token
  last := skipped.last ▸ begins.last
  le_pos := Nat.le_trans begins.le_pos skipped.pos_le
  pos_le := skipped.inside begins.pos_le
  tokens := skipped.tokens.trans begins.tokens
  account := skipped.account begins.account

/-- A line that begins with `#!` is skipped like a comment. -/
theorem skipHashBang_spec (opens : s.source.spells l.pos ['#', '!'] = true) :
    ∃ l', Runs s (LexM.skipLineComment 2) l ⟨⟩ l' ∧ l.Skipped s.source l' ∧ l'.token = l.token := by
  have known : ['#', '!'] ∈ Comment.lineMarks := by decide
  obtain ⟨l', run, token⟩ : ∃ l', Runs s (LexM.skipLineComment 2) l ⟨⟩ l' ∧ l'.token = l.token := by
    simp [LexM.skipLineComment, LexM.note]
  exact ⟨l', run, (skipLineComment_spec known opens run).1, token⟩

theorem Setting.lexerAt_begins (s : Setting) (start : Nat) :
    (s.lexerAt start).Begins s.source (min start s.source.size) := by
  have inside := Nat.min_le_right start s.source.size
  simp only [Setting.lexerAt]
  split
  · next opens =>
    simp only [Bool.and_eq_true, decide_eq_true_eq] at opens
    obtain ⟨⟨⟨zero, -⟩, number⟩, bang⟩ := opens
    generalize base : Lexer.mk _ _ _ _ _ = l
    have begins : l.Begins s.source (min start s.source.size) := by
      rw [← base]
      exact ⟨rfl, ⟨rfl, rfl⟩, Nat.le_refl _, inside, rfl, .nil⟩
    obtain ⟨l', run, skipped, token⟩ := skipHashBang_spec (s := s) (l := l) (by
      simp [Source.spells, ← base, zero, number, bang])
    rw [show (ReaderT.run (LexM.skipLineComment 2) s).run l = .ok ⟨⟩ l' from run]
    exact begins.skip skipped token
  · exact ⟨rfl, ⟨rfl, rfl⟩, Nat.le_refl _, inside, rfl, .nil⟩

/-- The first token is read from where a lexer begins. -/
theorem Lexer.Begins.first (begins : l.Begins s.source start) (plain : s.reader = none)
    (run : Runs s LexM.readNext l u l') :
    l'.Ordered s.source ∧ l'.Accounted s.source start ∧ l'.tokens = [] ∧ start ≤ l'.token.start := by
  have fresh := readNext_fresh plain run
  have last : l.last.start ≤ l.last.stop := by rw [begins.last.1, begins.last.2]
  exact ⟨fresh.ordered last (begins.last.2 ▸ begins.le_pos) begins.pos_le, fresh.accounted begins.account,
    fresh.tokens.trans begins.tokens, Nat.le_trans begins.le_pos fresh.pos_le⟩

/-- The tokens of a whole text, the token of its end last, and the comments between them. -/
structure Tokenized (source : Source) (start : Nat) (tokens : List Token) (comments : List Comment) :
    Prop where
  covers : Covers source start source.size tokens comments
  ends : ∃ before t, tokens = before ++ [t] ∧ t.kind = .eof ∧ t.start = source.size ∧ t.stop = source.size

/-- The token of the end lies at the end. -/
theorem Lexer.Ordered.at_end (ordered : l.Ordered s.source) (ended : l.kind = .eof) :
    l.token.start = s.source.size ∧ l.token.stop = s.source.size := by
  have start := ordered.eof ended
  exact ⟨start, Nat.le_antisymm (Nat.le_trans ordered.token_le_pos ordered.pos_le) (start ▸ ordered.token_le)⟩

/-- An account of the whole text that ends with the token of the end. -/
theorem Account.tokenized {source : Source} {t : Token} {tokens : List Token} {comments : List Comment}
    (account : Account source start (t :: tokens) comments source.size) (ended : t.kind = .eof)
    (atEnd : t.start = source.size ∧ t.stop = source.size) :
    Tokenized source start (t :: tokens).reverse comments.reverse :=
  ⟨account.covers, tokens.reverse, t, List.reverse_cons, ended, atEnd⟩

theorem allTokens_tokenized (plain : s.reader = none) (begins : l.Begins s.source start) {tokens : List Token}
    (run : Runs s LexM.allTokens l tokens l') : Tokenized s.source start tokens l'.comments.reverse := by
  simp [LexM.allTokens] at run
  obtain ⟨m, first, loop⟩ := run
  obtain ⟨ordered, accounted, none, -⟩ := begins.first plain first
  obtain ⟨found, r, ⟨ordered, accounted, same⟩, done⟩ := Runs.of_lexLoop
    (fun found r => r.Ordered s.source ∧ r.Accounted s.source start ∧ r.tokens = found)
    ⟨ordered, accounted, none⟩ (by
      rintro found next r r' ⟨ordered, accounted, same⟩ pass
      simp [LexM.tokenPass] at pass
      obtain ⟨-, moved, rfl⟩ := pass
      obtain ⟨ordered', -, tokens, kept⟩ := next_spec plain ordered moved
      exact ⟨ordered', kept accounted, by rw [tokens, same]⟩) loop
  simp [LexM.tokenPass] at done
  obtain ⟨ended, rfl, rfl⟩ := done
  have atEnd := ordered.at_end ended
  have account := accounted.account.token (t := s.currentToken l'.toCursor) ordered.token_le
  rw [same, show (s.currentToken l'.toCursor).stop = _ from atEnd.2] at account
  simpa using account.tokenized ended atEnd

theorem Setting.tokenize_tokenized (plain : s.reader = none) {tokens : List Token}
    (run : s.tokenize = (.ok tokens, l)) : Tokenized s.source 0 tokens l.comments.reverse := by
  have begins := s.lexerAt_begins 0
  simp only [Setting.tokenize, Setting.runLexer] at run
  split at run
  · next found l' ran =>
    obtain ⟨rfl, rfl⟩ : found = tokens ∧ l' = l := by simpa using run
    exact allTokens_tokenized plain begins ran
  · simp at run

end

/-! ### Lexers on the way -/

open LexM

/-- The step leaves a lexer behind, and gives a value unless it fails. -/
inductive Setting.Leaves {α : Type} (s : Setting) (step : LexM α) (l : Lexer) : Option α → Lexer → Prop
  | passes {a : α} {l' : Lexer} (run : step s l = .ok a l') : Leaves s step l (some a) l'
  | fails {e : SyntaxError} {l' : Lexer} (run : step s l = .error e l') : Leaves s step l none l'

/-- The current token becomes the last one. -/
def Lexer.leave (s : Setting) (l : Lexer) : Lexer :=
  { l with tokens := s.currentToken l.toCursor :: l.tokens, last := l.token }

/-- The lexers that tokenizers and parsers go through from an offset on.  The flag says that the current token is
complete. -/
inductive Setting.Reaches (s : Setting) (start : Nat) : Bool → Lexer → Prop
  | start : Reaches s start true (s.lexerAt start)
  /-- One character or comment of a gap is skipped. -/
  | gap {b : Bool} {l l' : Lexer} {x : Option (Pass Unit Unit)} (before : Reaches s start b l)
      (skip : s.Leaves skipBlankPass l x l') :
    Reaches s start b l'
  | begins {b : Bool} {l : Lexer} (before : Reaches s start b l) : Reaches s start false l.begin
  /-- The end of the text is a token too. -/
  | ends {b : Bool} {l l' : Lexer} {x : Option Unit} (before : Reaches s start b l)
      (read : s.Leaves (finish .eof .none) l.begin x l') :
    Reaches s start x.isSome l'
  | template {b : Bool} {l l' : Lexer} {x : Option Unit} (before : Reaches s start b l)
      (inside : l.context = .templateText)
    (read : s.Leaves readTemplate l.begin x l') : Reaches s start x.isSome l'
  /-- What looked like a token can still be a comment. -/
  | token {b : Bool} {l l' : Lexer} {c : Char} {x : Option Bool} (before : Reaches s start b l)
      (here : s.source.charAt l.pos = some c)
    (read : s.Leaves (readToken c) l.begin x l') : Reaches s start (x == some true) l'
  /-- In a token one character after the other is passed. -/
  | pass {l : Lexer} {c : Char} (before : Reaches s start false l) (here : s.source.charAt l.pos = some c) :
    Reaches s start false { l with pos := l.pos + c.utf8Size }
  | leave {l : Lexer} (before : Reaches s start true l) : Reaches s start true (l.leave s)
  /-- A parser takes a slash for the start of a regular expression. -/
  | regExp {l l' : Lexer} {x : Option Unit} (before : Reaches s start true l)
      (slash : l.kind = .slash ∨ l.kind = .slashEq)
    (read : s.Leaves (do moveTo ((← get).token.start + 1); readRegExp) l x l') : Reaches s start x.isSome l'
  /-- A parser knows better what may come next. -/
  | contexts {b : Bool} {l : Lexer} {c : Cursor} (before : Reaches s start b l) (same : l.toCursor.SameToken c) :
    Reaches s start b { l with toCursor := c }
  /-- A parser takes a keyword for a name. -/
  | name {b : Bool} {l : Lexer} (before : Reaches s start b l) : Reaches s start b { l with kind := .name }
  | strict {b : Bool} {l : Lexer} (before : Reaches s start b l) (strict : Bool) : Reaches s start b { l with strict }
  /-- The text of a template is entered and left. -/
  | inTemplate {b : Bool} {l : Lexer} (before : Reaches s start b l) (inTemplate : Bool) :
    Reaches s start b { l with inTemplate }

/-- The lexer is one that a read from the offset goes through. -/
def Setting.Visits (s : Setting) (start : Nat) (l : Lexer) : Prop := ∃ b, s.Reaches start b l

namespace Tandem

variable {s : Setting} {start : Nat} {l l' : Lexer} {α β : Type}

/-- In a run of the step from `l` every lexer satisfies `I`. -/
abbrev Keeps (s : Setting) (I : Lexer → Prop) (l : Lexer) (m : LexM α) (Q : α → Lexer → Prop) : Prop :=
  (Bond.alone s I).Agrees (· = l) m m (Equal Q)

namespace Keeps

variable {I : Lexer → Prop} {m : LexM α} {Q : α → Lexer → Prop}

theorem of_leaves (keeps : ∀ x l', I l → s.Leaves m l x l' → I l')
    (value : ∀ a l', I l → s.Leaves m l (some a) l' → Q a l') :
    Keeps s I l m Q := by
  rintro p q ⟨same, before⟩ here
  obtain rfl : p = l := here
  rw [same]
  cases run : m s p with
  | ok a l' => exact .passes ⟨rfl, keeps _ _ before (.passes run)⟩ ⟨rfl, value _ _ before (.passes run)⟩
  | error e l' => exact .fails (keeps _ _ before (.fails run))

theorem leaves {x : Option α} (h : Keeps s I l m Q) (before : I l) (run : s.Leaves m l x l') :
    I l' ∧ ∀ a ∈ x, Q a l' := by
  have ends := h l l ⟨rfl, before⟩ rfl
  cases run with
  | passes run =>
    rw [run] at ends
    cases ends with
    | passes state value => exact ⟨state.2, fun _ same => Option.some.inj same ▸ value.2⟩
  | fails run =>
    rw [run] at ends
    cases ends with
    | fails fault => exact ⟨fault, nofun⟩

theorem loop {J : α → Lexer → Prop} {V : β → Lexer → Prop} {pass : α → LexM (Pass α β)}
    (each : ∀ a l, J a l → Keeps s I l (pass a) (Turn J V)) (fuel : Nat) (a : α) (before : J a l) :
    Keeps s I l (LexM.loop pass fuel a) V := by
  induction fuel generalizing a l with
  | zero => exact .thrown fun _ => ⟨_, rfl⟩
  | succ fuel ih =>
    refine (each a l before).step fun x r after => ?_
    cases x with
    | again next => exact ih next after
    | done v => exact .pure fun _ same => ⟨rfl, same ▸ after⟩

theorem repeatForward {J : α → Lexer → Prop} {V : β → Lexer → Prop} {pass : α → LexM (Pass α β)} {a : α}
    (each : ∀ a l, J a l → Keeps s I l (pass a) (Turn J V)) (before : J a l) :
    Keeps s I l (LexM.repeatForward a pass) V :=
  .look (x := s.source) (.alone rfl) (.look (x := l.pos) (.alone rfl) (loop each _ a before))

/-! ### Gaps -/

section Gap

/-- The cursor moved on from the token of `l`. -/
structure After (l r : Lexer) : Prop where
  kind : r.kind = l.kind
  token : r.token = l.token
  le : l.token.stop ≤ r.pos

variable {r : Lexer}

theorem held {c : Lexer → Lexer} (keeps : I r → I (c r)) : Keeps s I r (modify c) fun _ _ => True := by
  rw [← bind_pure (modify c)]
  exact .keep keeps (.pure fun _ _ => ⟨rfl, trivial⟩)

theorem advance {d : Nat} : Keeps s (After l) r (advance d) fun _ _ => True :=
  held fun h => { h with le := Nat.le_add_right_of_le h.le }

theorem newLine : Keeps s (After l) r newLine fun _ _ => True := held fun h => { h with }

theorem endCarriageReturn : Keeps s (After l) r endCarriageReturn fun _ _ => True :=
  .look (x := s.source.charAt r.pos == some '\n') (.alone rfl)
    (.ite (fun _ => advance.step fun _ _ _ => newLine) fun _ => newLine)

theorem note {kind : CommentKind} {begun : Nat} {position : Position} {text : String} :
    Keeps s (After l) r (note kind begun position text) fun _ _ => True :=
      .look (x := s) (.alone rfl) (held fun h => { h with })

theorem skipBlockComment : Keeps s (After l) r skipBlockComment fun _ _ => True := by
  refine .given fun _ ⟨_, before⟩ => .look (x := r) (.alone rfl)
    (.look (x := r.pos) (.alone rfl) (.look (x := s.source) (.alone rfl) ?_))
  split
  · exact .thrown fun _ => ⟨_, rfl⟩
  · next stop found =>
    have past := (Source.find?_spec found).1
    refine .keep (fun h => { h with le := Nat.le_trans h.le (show r.pos ≤ stop + 2 by omega) })
      (Bond.Agrees.step (V := fun _ _ => True) ?_ fun _ _ _ => ?_)
    · refine .look (x := s.source) (.alone rfl) (held fun h => ?_)
      split
      · exact h
      · exact { h with }
    · exact .look (x := s.source) (.alone rfl) note

theorem skipLineComment {marks : Nat} : Keeps s (After l) r (skipLineComment marks) fun _ _ => True := by
  refine .look (x := r) (.alone rfl) (.look (x := r.pos) (.alone rfl) (.look (x := s.source) (.alone rfl) ?_))
  have past := Source.le_skipWhile s.source (fun c => !Alphabet.isLineTerminator c) (r.pos + marks)
  refine .keep (fun h => { h with le := Nat.le_trans h.le (Nat.le_trans (Nat.le_add_right ..) past) })
    (Bond.Agrees.given fun _ _ => ?_)
  exact Bond.Agrees.step (V := fun _ _ => True) (.weaken (.sees (.alone rfl)) fun _ _ _ same =>
    ⟨same.1, trivial⟩) fun _ _ _ => note

/-- Skipping a part of a gap moves the cursor alone, and never back. -/
theorem skipBlankPass : Keeps s (After l) r skipBlankPass fun _ _ => True := by
  have again {m : LexM Unit} (h : Keeps s (After l) r m fun _ _ => True) :
      Keeps s (After l) r (do m; return Pass.again ()) (fun (_ : Pass Unit Unit) _ => True) :=
        h.step fun _ _ _ => .pure fun _ _ => ⟨rfl, trivial⟩
  have done : Keeps s (After l) r (pure (Pass.done ())) (fun (_ : Pass Unit Unit) _ => True) :=
    .pure fun _ _ => ⟨rfl, trivial⟩
  refine .look (x := s.source.charAt r.pos) (.alone rfl) ?_
  split
  · exact done
  · exact advance.step fun _ _ _ => endCarriageReturn.step fun _ _ _ => .pure fun _ _ => ⟨rfl, trivial⟩
  · refine .look (x := s.source.charAt (r.pos + 1) == some '*') (.alone rfl)
      (.ite (fun _ => again skipBlockComment) fun _ => ?_)
    exact .look (x := s.source.charAt (r.pos + 1) == some '/') (.alone rfl)
      (.ite (fun _ => again skipLineComment) fun _ => done)
  · refine .ite (fun _ => ?_) fun _ => .ite (fun _ => again advance) fun _ => done
    exact advance.step fun _ _ _ => newLine.step fun _ _ _ => .pure fun _ _ => ⟨rfl, trivial⟩

end Gap

end Keeps

/-! ### Lexers that are reached -/

section Reached

theorem skipBlank_visits : Keeps s (s.Visits start) l skipBlank fun _ _ => True := by
  refine Keeps.repeatForward (J := fun _ _ => True) (V := fun _ _ => True) (fun _ l _ => .of_leaves ?_ ?_) trivial
  · exact fun _ _ ⟨b, before⟩ skip => ⟨b, before.gap skip⟩
  · exact fun a _ _ _ => by cases a <;> trivial

variable (plain : s.reader = none)
include plain

/-- A gap is skipped, and then a token begins. -/
theorem readPass_visits :
    Keeps s (s.Visits start) l (readPass ⟨⟩) (Turn (fun _ _ => True) fun _ r => s.Reaches start true r) := by
  have gap {m : LexM (Pass Unit Unit)} {Q : Pass Unit Unit → Lexer → Prop}
      (rest : ∀ r, (l.context = .templateText → r = l) → Keeps s (s.Visits start) r m Q) :
      Keeps s (s.Visits start) l (if l.context.keepsBlank = true then m else do skipBlank; m) Q := by
    refine .ite (fun _ => rest l fun _ => rfl) fun blank => skipBlank_visits.step fun _ r _ => rest r fun inside => ?_
    simp [inside, Context.keepsBlank] at blank
  have whole {r : Lexer} {m : LexM Unit} (visits : ∀ x l', s.Leaves m r x l' → s.Reaches start x.isSome l') :
      Keeps s (s.Visits start) r (do m; return .done ()) (Turn (fun (_ : Unit) _ => True) fun (_ : Unit) r =>
        s.Reaches start true r) :=
    (Keeps.of_leaves (Q := fun _ r => s.Reaches start true r) (fun x l' _ run => ⟨_, visits x l' run⟩) fun a l' _ run =>
      visits _ l' run).step
      fun _ r complete => .pure fun p same => ⟨rfl, show s.Reaches start true p from same ▸ complete⟩
  have none (r : Lexer) : Runs s readExtension r false r := by simp [readExtension, plain]
  refine .look (x := l) (.alone rfl) (gap fun r same => .given fun _ visited => ?_)
  obtain ⟨_, b, before⟩ := visited
  refine .keep (fun _ => ⟨false, before.begins⟩) ?_
  refine .look (x := s.source) (.alone rfl) (.look (x := r.pos) (.alone rfl)
    (.ite (fun _ => whole fun x l' => before.ends) fun _ => ?_))
  refine .look (.alone (none _)) (.ite (fun none => absurd none Bool.false_ne_true) fun _ =>
    .ite (fun inside => whole fun x l' => before.template ?_) fun _ => ?_)
  · rwa [same inside]
  refine .look (x := s.source.charAt r.pos) (.alone rfl) ?_
  split
  · next c here =>
    have reads : Keeps s (s.Visits start) r.begin (readToken c) fun x r => x = true → s.Reaches start true r :=
      Keeps.of_leaves (fun x l' _ run => ⟨_, before.token here run⟩) fun a l' _ run true => by
        simpa [true] using before.token here run
    · refine reads.step fun x r complete => ?_
      cases x with
      | true => exact .pure fun p same => ⟨rfl, show s.Reaches start true p from same ▸ complete rfl⟩
      | false => exact .pure fun p same => ⟨rfl, trivial⟩
  · exact .look (x := r.pos) (.alone rfl) (.thrown fun _ => ⟨_, rfl⟩)

theorem readNext_visits : Keeps s (s.Visits start) l readNext fun _ r => s.Reaches start true r :=
  .repeatForward (J := fun _ _ => True) (fun _ _ _ => readPass_visits plain) trivial

/-- The current token is left behind, and the next one is read. -/
theorem next_visits (complete : s.Reaches start true l) :
    Keeps s (s.Visits start) l next fun _ r => s.Reaches start true r :=
  .look (x := s) (.alone rfl) (.keep (fun _ => ⟨true, complete.leave⟩) (readNext_visits plain))

theorem allTokens_visits : Keeps s (s.Visits start) l allTokens fun _ r => s.Reaches start true r := by
  refine (readNext_visits plain).step fun _ r complete => ?_
  refine .look (x := s.source) (.alone rfl) (.look (x := r.pos) (.alone rfl) ?_)
  refine Keeps.loop (J := fun _ r => s.Reaches start true r) (fun found l complete => ?_) _ _ complete
  refine .look (x := s) (.alone rfl) (.look (x := l) (.alone rfl) (.ite (fun _ => ?_) fun _ => ?_))
  · exact .pure fun p same => ⟨rfl, show s.Reaches start true p from same ▸ complete⟩
  · exact (next_visits plain complete).step fun _ r complete => .pure fun p same =>
      ⟨rfl, show s.Reaches start true p from same ▸ complete⟩

end Reached
end Tandem
end ScriptSyntax
