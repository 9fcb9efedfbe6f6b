import ScriptSyntax.Proofs.Lexer.Items

/-!
When the contexts change.  A step leaves them and the kind of the current token as they are, whether it succeeds or
fails, until it finishes a token; it does so at its end, and once.
-/

namespace ScriptSyntax

/-! ### Steps -/

/-- No token is finished on the way: the kind of the current token and the contexts are the same. -/
def Lexer.Unsettled (l l' : Lexer) : Prop := l'.kind = l.kind ∧ l'.contexts = l.contexts

/-- The contexts are updated for a token that comes after that of `l`. -/
def Lexer.Settled (s : Setting) (l l' : Lexer) : Prop :=
  ∃ c : Cursor, c.kind = l'.kind ∧ c.contexts = l.contexts ∧
    l'.contexts = (c.updateContext s.source s.edition l.kind).contexts

theorem Lexer.Unsettled.refl (l : Lexer) : l.Unsettled l := ⟨rfl, rfl⟩

theorem Lexer.Unsettled.trans {l m l' : Lexer} (first : l.Unsettled m) (second : m.Unsettled l') : l.Unsettled l' :=
  ⟨second.1.trans first.1, second.2.trans first.2⟩

theorem Lexer.Unsettled.settled {s : Setting} {l m l' : Lexer} (first : l.Unsettled m) (second : m.Settled s l') :
    l.Settled s l' := by
  obtain ⟨c, kind, contexts, same⟩ := second
  exact ⟨c, kind, contexts.trans first.2, first.1 ▸ same⟩

/-- Without an extension of the lexer, the step finishes a token where it gives such a value, and nowhere else. -/
structure Settles {α : Type} (m : LexM α) (ended : α → Bool) : Prop where
  finished {s : Setting} {l l' : Lexer} {a : α} (plain : s.reader = none) (run : Runs s m l a l')
    (known : ended a = true) : l.Settled s l'
  passed {s : Setting} {l l' : Lexer} {a : α} (plain : s.reader = none) (run : Runs s m l a l')
    (other : ended a = false) : l.Unsettled l'
  failed {s : Setting} {l l' : Lexer} {e : SyntaxError} (plain : s.reader = none)
    (throws : Throws s m l e l') : l.Unsettled l'

/-- The step finishes no token. -/
abbrev Idles {α : Type} (m : LexM α) : Prop := Settles m fun _ => false

namespace Settles

open LexM

variable {α β : Type} {m n : LexM α} {f : α → LexM β} {ended : α → Bool} {ended' : β → Bool}

/-! ### Composed steps -/

/-- What comes after a finished token does nothing more. -/
theorem after (settles : Settles m ended) (ends : ∀ a, ended a = true → ∃ b, f a = pure b ∧ ended' b = true)
    (next : ∀ a, ended a = false → Settles (f a) ended') : Settles (m >>= f) ended' where
  finished plain run known := by
    obtain ⟨a, r, first, rest⟩ := Runs.bind_iff.mp run
    cases value : ended a with
    | true =>
      obtain ⟨b, same, -⟩ := ends a value
      obtain ⟨rfl, rfl⟩ := Runs.pure_iff.mp (same ▸ rest)
      exact settles.finished plain first value
    | false => exact (settles.passed plain first value).settled ((next a value).finished plain rest known)
  passed plain run other := by
    obtain ⟨a, r, first, rest⟩ := Runs.bind_iff.mp run
    cases value : ended a with
    | true =>
      obtain ⟨b, same, known⟩ := ends a value
      obtain ⟨rfl, rfl⟩ := Runs.pure_iff.mp (same ▸ rest)
      simp [known] at other
    | false => exact (settles.passed plain first value).trans ((next a value).passed plain rest other)
  failed plain throws := by
    obtain first | ⟨a, r, first, rest⟩ := Throws.bind_iff.mp throws
    · exact settles.failed plain first
    cases value : ended a with
    | true =>
      obtain ⟨b, same, -⟩ := ends a value
      exact (Throws.pure_iff (same ▸ rest)).elim
    | false => exact (settles.passed plain first value).trans ((next a value).failed plain rest)

@[grind ←] theorem bind (idles : Idles m) (next : ∀ a, Settles (f a) ended') : Settles (m >>= f) ended' :=
  idles.after (by simp) fun a _ => next a

/-- A token is all that is read. -/
theorem whole {b : β} (settles : Settles m fun _ => true) (finished : ended' b = true) :
    Settles (m >>= fun _ => Pure.pure b) ended' :=
  settles.after (fun _ _ => ⟨b, rfl, finished⟩) (by simp)

/-- What changes neither kind nor contexts idles. -/
theorem of_unsettled (passes : ∀ s l a l', Runs s m l a l' → l.Unsettled l')
    (fails : ∀ s l e l', Throws s m l e l' → l.Unsettled l') (other : ∀ a, ended a = false) : Settles m ended where
  finished _ _ known := by simp [other] at known
  passed _ run _ := passes _ _ _ _ run
  failed _ throws := fails _ _ _ _ throws

@[grind ←] theorem pure {a : α} (other : ended a = false) : Settles (pure a : LexM α) ended where
  finished _ run known := by
    obtain ⟨rfl, rfl⟩ := Runs.pure_iff.mp run
    simp [other] at known
  passed _ run _ := (Runs.pure_iff.mp run).2 ▸ .refl _
  failed _ throws := (Throws.pure_iff throws).elim

@[grind ←] theorem read : Idles (read : LexM Setting) :=
  of_unsettled (fun _ _ _ _ run => (Runs.read_iff.mp run).2 ▸ .refl _)
    (fun _ _ _ _ throws => (Throws.read_iff throws).elim) fun _ => rfl

@[grind ←] theorem get : Idles (get : LexM Lexer) :=
  of_unsettled (fun _ _ _ _ run => (Runs.get_iff.mp run).2 ▸ .refl _)
    (fun _ _ _ _ throws => (Throws.get_iff throws).elim) fun _ => rfl

theorem modify {g : Lexer → Lexer} (same : ∀ l : Lexer, l.Unsettled (g l)) : Idles (modify g : LexM PUnit) :=
  of_unsettled (fun _ l _ _ run => Runs.modify_iff.mp run ▸ same l)
    (fun _ _ _ _ throws => (Throws.modify_iff throws).elim) fun _ => rfl

@[grind ←] theorem throw {e : SyntaxError} : Settles (throw e : LexM α) ended where
  finished _ run := (Runs.throw_iff run).elim
  passed _ run := (Runs.throw_iff run).elim
  failed _ throws := by
    cases throws
    exact .refl _

theorem ite {c : Prop} [Decidable c] (yes : Settles m ended) (no : Settles n ended) :
    Settles (if c then m else n) ended := by
  split
  · exact yes
  · exact no

/-- The second branch goes on as the first does. -/
theorem share {c : Prop} [Decidable c] (yes : Settles m ended) (no : Settles m ended → Settles n ended) :
    Settles (if c then m else n) ended := ite yes (no yes)

@[grind ←] theorem source : Idles source := bind read fun _ => pure rfl

@[grind ←] theorem edition : Idles edition := bind read fun _ => pure rfl

@[grind ←] theorem pos : Idles pos := bind get fun _ => pure rfl

@[grind ←] theorem fail {n : Nat} {fault : Fault} : Settles (fail n fault : LexM α) ended := bind read fun _ => throw

@[grind ←] theorem failRecoverable {n : Nat} {fault : Fault} : Settles (failRecoverable n fault : LexM α) ended :=
  bind read fun _ => throw

@[grind ←] theorem unexpected : Settles (unexpected : LexM α) ended := bind get fun _ => fail

/-- What comes after a failure is never run. -/
theorem stop (idles : Idles m) (stops : ∀ s l a l', ¬ Runs s m l a l') : Settles (m >>= f) ended' where
  finished _ run := by
    obtain ⟨a, r, first, -⟩ := Runs.bind_iff.mp run
    exact (stops _ _ _ _ first).elim
  passed _ run := by
    obtain ⟨a, r, first, -⟩ := Runs.bind_iff.mp run
    exact (stops _ _ _ _ first).elim
  failed plain throws := by
    obtain first | ⟨a, r, first, -⟩ := Throws.bind_iff.mp throws
    · exact idles.failed plain first
    · exact (stops _ _ _ _ first).elim

@[grind ←] theorem fail_bind {n : Nat} {fault : Fault} : Settles ((LexM.fail n fault : LexM α) >>= f) ended' :=
  fail.stop (by simp)

@[grind ←] theorem failRecoverable_bind {n : Nat} {fault : Fault} :
    Settles ((LexM.failRecoverable n fault : LexM α) >>= f) ended' :=
  failRecoverable.stop (by simp)

@[grind ←] theorem unexpected_bind : Settles ((LexM.unexpected : LexM α) >>= f) ended' := unexpected.stop (by simp)

/-- Passes that go on finish no token. -/
def atDone (ended : β → Bool) : Pass α β → Bool
  | .again _ => false
  | .done b => ended b

theorem loop {pass : α → LexM (Pass α β)} (each : ∀ a, Settles (pass a) (atDone ended')) (fuel : Nat) :
    ∀ a, Settles (LexM.loop pass fuel a) ended' := by
  induction fuel with
  | zero => exact fun _ => unexpected
  | succ fuel ih =>
    refine fun a => (each a).after (fun x done => ?_) fun x other => ?_
    · cases x with
      | again next => cases done
      | done b => exact ⟨b, rfl, done⟩
    · cases x with
      | again next => exact ih next
      | done b => exact pure other

theorem repeatForward {pass : α → LexM (Pass α β)} (each : ∀ a, Settles (pass a) (atDone ended')) {a : α} :
    Settles (repeatForward a pass) ended' := bind source fun _ => bind pos fun _ => loop each _ a

theorem idles_iff {m : LexM (Pass α β)} : Settles m (atDone fun _ => false) ↔ Idles m := by
  rw [Idles, show (fun _ : Pass α β => false) = atDone fun _ => false by funext x; cases x <;> rfl]

@[grind ←] theorem repeatForward_idles {pass : α → LexM (Pass α β)} (each : ∀ a, Idles (pass a)) {a : α} :
    Idles (LexM.repeatForward a pass) :=
  repeatForward fun a => idles_iff.mpr (each a)

/-! ### Looking and moving -/

@[grind ←] theorem charAhead {n : Nat} : Idles (charAhead n) := bind source fun _ => bind pos fun _ => pure rfl

@[grind ←] theorem peek : Idles peek := charAhead

@[grind ←] theorem seesAhead {n : Nat} {c : Char} : Idles (seesAhead n c) := bind charAhead fun _ => pure rfl

@[grind ←] theorem sees {c : Char} : Idles (sees c) := seesAhead

@[grind ←] theorem textFrom {n : Nat} : Idles (textFrom n) := bind source fun _ => bind pos fun _ => pure rfl

@[grind ←] theorem advance {n : Nat} : Idles (advance n) := modify fun _ => ⟨rfl, rfl⟩

@[grind ←] theorem moveTo {n : Nat} : Idles (moveTo n) := modify fun _ => ⟨rfl, rfl⟩

@[grind ←] theorem skip {c : Char} : Idles (skip c) := advance

@[grind ←] theorem newLine : Idles newLine := modify fun _ => ⟨rfl, rfl⟩

@[grind ←] theorem endCarriageReturn : Idles endCarriageReturn := by grind [LexM.endCarriageReturn]

/-! ### Gaps -/

@[grind ←] theorem note {kind : CommentKind} {n : Nat} {position : Position} {text : String} :
    Idles (note kind n position text) :=
  bind read fun _ => modify fun _ => ⟨rfl, rfl⟩

@[grind ←] theorem countLines {n : Nat} : Idles (countLines n) := by
  refine bind source fun _ => modify fun _ => ?_
  split <;> exact ⟨rfl, rfl⟩

@[grind ←] theorem skipBlockComment : Idles skipBlockComment := by
  refine bind get fun _ => bind pos fun _ => bind source fun _ => ?_
  split <;> grind

@[grind ←] theorem skipLineComment {marks : Nat} : Idles (skipLineComment marks) := by grind [LexM.skipLineComment]

@[grind ←] theorem skipBlankPass : Idles skipBlankPass := by
  refine bind peek fun _ => ?_
  split <;> grind

@[grind ←] theorem skipBlank : Idles skipBlank := by grind [LexM.skipBlank]

/-! ### Parts of tokens -/

@[grind ←] theorem invalidEscape {n : Nat} {fault : Fault} :
    Idles (invalidEscape n fault) := by grind [LexM.invalidEscape]

@[grind ←] theorem hexDigits : ∀ {count : Nat}, Idles (hexDigits count)
  | 0 => pure rfl
  | count + 1 => by
    have ih : Idles (LexM.hexDigits count) := hexDigits
    grind [LexM.hexDigits]

@[grind ←] theorem readHex {count : Nat} : Idles (readHex count) := by grind [LexM.readHex]

@[grind ←] theorem readCodePoint : Idles readCodePoint := by
  refine bind sees fun _ => ite (bind edition fun _ => ite unexpected_bind ?_) readHex
  refine bind advance fun _ => bind pos fun _ => bind source fun _ => ?_
  split
  · exact invalidEscape
  · refine bind readHex fun _ => ?_
    split <;> grind

@[grind ←] theorem readOctalEscape {inTemplate : Bool} : Idles (readOctalEscape inTemplate) := by
  refine bind source fun _ => bind pos fun _ => bind moveTo fun _ => bind sees fun _ => bind sees fun _ =>
    bind get fun _ => ?_
  grind

@[grind ←] theorem readEscape {inTemplate : Bool} : Idles (readEscape inTemplate) := by
  refine bind advance fun _ => bind peek fun _ => ?_
  split
  · grind
  · refine bind skip fun _ => ?_
    split <;> grind

@[grind ←] theorem stringPass {quote : Char} {text : List Char} : Idles (stringPass quote text) := by
  refine bind get fun _ => bind peek fun _ => ?_
  split
  · exact fail
  · refine ite (pure rfl) (ite (bind readEscape fun _ => ?_) (by grind))
    split
    · exact pure rfl
    · exact pure rfl
    · exact throw

@[grind ←] theorem atChunkEnd : Idles atChunkEnd := by grind [LexM.atChunkEnd]

@[grind ←] theorem readWordEscape {atStart : Bool} : Idles (readWordEscape atStart) := by
  refine bind pos fun _ => bind (modify fun _ => ⟨rfl, rfl⟩) fun _ => bind advance fun _ => bind sees fun _ => ?_
  refine ite (bind advance fun _ => bind read fun _ => bind readCodePoint fun _ => ?_) (bind pos fun _ => fail_bind)
  split
  · split
    · exact pure rfl
    · exact fail
  · exact fail
  · exact throw

@[grind ←] theorem wordPass {word : List Char} : Idles (wordPass word) := by grind [LexM.wordPass]

@[grind ←] theorem readWordText : Idles readWordText :=
  bind (modify fun _ => ⟨rfl, rfl⟩) fun _ => bind (repeatForward_idles fun _ => wordPass) fun _ => pure rfl

@[grind ←] theorem digitPass {radix start : Nat} {legacy : Bool} {run : DigitRun} :
    Idles (digitPass radix start legacy run) := by
  refine bind peek fun _ => ?_
  split
  · exact pure rfl
  · refine bind edition fun _ => ite (by grind) ?_
    split <;> grind

@[grind ←] theorem readDigits {radix : Nat} {maybeLegacy : Bool} :
    Idles (readDigits radix maybeLegacy) := by grind [LexM.readDigits]

@[grind ←] theorem checkNumberEnd : Idles checkNumberEnd := by grind [LexM.checkNumberEnd]

@[grind ←] theorem bigintDigits {start : Nat} : Idles (bigintDigits start) :=
  bind source fun _ => bind pos fun _ => pure rfl

@[grind ←] theorem readFraction : Idles readFraction := by grind [LexM.readFraction]

@[grind ←] theorem readExponent {start : Nat} : Idles (readExponent start) := by
  refine bind sees fun _ => bind sees fun _ =>
    ite (bind advance fun _ => bind sees fun _ => bind sees fun _ => ?_) (pure rfl)
  exact ite (bind advance fun _ => by grind) (by grind)

@[grind ←] theorem bodyPass {start : Nat} {state : BodyState} : Idles (bodyPass start state) := by grind [LexM.bodyPass]

@[grind ←] theorem atClosingComment : Idles atClosingComment := by grind [LexM.atClosingComment]

/-! ### Tokens -/

@[grind ←] theorem finish {kind : TokenKind} {value : TokenValue} : Settles (finish kind value) fun _ => true where
  finished plain run _ := by
    have same := (finish_spec plain run).2.1
    simp [LexM.finish, updateContext, plain] at run
    exact ⟨_, same.symm, by rfl, congrArg (·.contexts) run⟩
  passed _ _ other := by cases other
  failed _ throws := by simp [LexM.finish, updateContext] at throws

@[grind ←] theorem finishOperator {kind : TokenKind} {size : Nat} : Settles (finishOperator kind size) fun _ => true :=
  bind advance fun _ => finish

@[grind ←] theorem readAssignable {kind assign : TokenKind} {size : Nat} :
    Settles (readAssignable kind assign size) fun _ => true := by
  grind [LexM.readAssignable]

@[grind ←] theorem readStar : Settles readStar fun _ => true := by grind [LexM.readStar]

@[grind ←] theorem readLogical {c : Char} {single singleAssign double doubleAssign : TokenKind} :
    Settles (readLogical c single singleAssign double doubleAssign) fun _ => true := by grind [LexM.readLogical]

@[grind ←] theorem readPlus : Settles readPlus fun _ => true := by grind [LexM.readPlus]

@[grind ←] theorem readGreater : Settles readGreater fun _ => true := by grind [LexM.readGreater]

@[grind ←] theorem readEquals : Settles readEquals fun _ => true := by grind [LexM.readEquals]

@[grind ←] theorem readBang : Settles readBang fun _ => true := by grind [LexM.readBang]

@[grind ←] theorem readQuestion : Settles readQuestion fun _ => true := by grind [LexM.readQuestion]

@[grind ←] theorem readHash : Settles readHash fun _ => true := by grind [LexM.readHash]

@[grind ←] theorem readRadixNumber {radix : Nat} : Settles (readRadixNumber radix) fun _ => true := by
  refine bind pos fun _ => bind advance fun _ => bind readDigits fun _ => ?_
  split <;> grind

@[grind ←] theorem readNumber {startsWithDot : Bool} : Settles (readNumber startsWithDot) fun _ => true := by
  refine bind pos fun _ => share ?_ fun rest => bind readDigits fun _ => ite fail_bind rest
  refine bind source fun _ => bind pos fun _ => bind pos fun _ => bind get fun _ =>
    ite fail_bind (bind edition fun _ => bind sees fun _ => ?_)
  grind

@[grind ←] theorem readZero : Settles readZero fun _ => true := by grind [LexM.readZero]

@[grind ←] theorem readDot : Settles readDot fun _ => true := by grind [LexM.readDot]

@[grind ←] theorem readString {quote : Char} : Settles (readString quote) fun _ => true :=
  bind advance fun _ => bind (repeatForward_idles fun _ => stringPass) fun _ => bind advance fun _ => finish

@[grind ←] theorem readRegExp : Settles readRegExp fun _ => true := by
  refine bind pos fun _ => bind (repeatForward_idles fun _ => bodyPass) fun _ => bind source fun _ =>
    bind pos fun _ => ?_
  refine bind advance fun _ => bind pos fun _ => bind readWordText fun _ => bind get fun _ =>
    ite fail_bind (bind edition fun _ => ?_)
  split
  · exact finish
  · exact bind get fun _ => failRecoverable

@[grind ←] theorem readSlash : Settles readSlash fun _ => true := by grind [LexM.readSlash]

@[grind ←] theorem readWord : Settles readWord fun _ => true := by grind [LexM.readWord]

@[grind ←] theorem finishChunk {text : List Char} :
    Settles (finishChunk text) fun _ => true := by grind [LexM.finishChunk]

/-- Only the end of a chunk finishes a token. -/
theorem chunkPass {text : List Char} : Settles (chunkPass text) (atDone id) := by
  refine bind atChunkEnd fun _ => ite (whole finishChunk rfl) (bind peek fun _ => ?_)
  split
  · exact bind get fun _ => fail
  · refine bind readEscape fun _ => ?_
    split
    · exact pure rfl
    · exact pure rfl
    · exact ite (pure rfl) throw
  · exact bind advance fun _ => bind endCarriageReturn fun _ => pure rfl
  · exact bind skip fun _ => ite (bind newLine fun _ => pure rfl) (pure rfl)

theorem invalidChunkPass {u : Unit} : Settles (invalidChunkPass u) (atDone fun _ => true) := by
  refine bind atChunkEnd fun _ => ite (whole finish rfl) (bind peek fun _ => ?_)
  split
  · exact bind get fun _ => fail
  · refine bind advance fun _ => bind peek fun _ => ?_
    split
    · exact bind skip fun _ => pure rfl
    · exact pure rfl
  · exact bind advance fun _ => bind endCarriageReturn fun _ => pure rfl
  · exact bind skip fun _ => ite (bind newLine fun _ => pure rfl) (pure rfl)

/-- In the text of a template tokens are finished as elsewhere. -/
theorem insideTemplate (settles : Settles m ended) : Settles (insideTemplate m) ended where
  finished plain run known := by
    obtain ⟨r, inner, rfl⟩ := Runs.insideTemplate_iff.mp run
    have settled := settles.finished plain inner known
    exact settled
  passed plain run other := by
    obtain ⟨r, inner, rfl⟩ := Runs.insideTemplate_iff.mp run
    have same := settles.passed plain inner other
    exact same
  failed plain throws := by
    obtain ⟨r, inner, rfl⟩ := Throws.insideTemplate_iff.mp throws
    have same := settles.failed plain inner
    exact same

theorem readTemplate : Settles readTemplate fun _ => true := by
  apply insideTemplate
  refine (repeatForward fun _ => chunkPass).after (fun _ ended => ⟨⟨⟩, ?_, rfl⟩) fun _ invalid => ?_
  · exact if_pos ended
  · rw [if_neg (by simpa using invalid)]
    exact repeatForward fun _ => invalidChunkPass

/-- What turns out to be a comment finishes no token. -/
theorem readMinus : Settles readMinus id := by
  refine bind seesAhead fun _ => ite (bind atClosingComment fun _ => ite ?_ (whole finishOperator rfl))
    (whole readAssignable rfl)
  exact bind skipLineComment fun _ => pure rfl

theorem readLess : Settles readLess id := by
  refine bind seesAhead fun _ => ite (whole readAssignable rfl) ?_
  refine bind read fun _ => bind seesAhead fun _ => bind seesAhead fun _ => bind seesAhead fun _ =>
    ite ?_ (whole readAssignable rfl)
  exact bind skipLineComment fun _ => pure rfl

theorem readToken {c : Char} : Settles (readToken c) id := by
  refine bind read fun _ => ite (whole readWord rfl) ?_
  split
  case h_21 => exact readMinus
  case h_22 => exact readLess
  case h_29 =>
    refine ite (whole readNumber rfl) (ite (whole finishOperator rfl) ?_)
    exact bind pos fun _ => fail
  all_goals exact whole (by grind) rfl

/-- Extensions are left out. -/
theorem readExtension : Settles readExtension id where
  finished plain run known := by
    simp [LexM.readExtension, plain] at run
    simp [run] at known
  passed plain run _ := by
    simp [LexM.readExtension, plain] at run
    exact run.2 ▸ .refl _
  failed plain throws := by simp [LexM.readExtension, plain] at throws

theorem readPass {u : Unit} : Settles (readPass u) (atDone fun _ => true) := by
  refine bind get fun _ => ?_
  refine share ?_ fun rest => ?_
  case refine_2 => exact bind skipBlank fun _ => rest
  refine bind (modify fun _ => ⟨rfl, rfl⟩) fun _ => bind source fun _ => bind pos fun _ => ?_
  refine ite (whole finish rfl) ?_
  refine readExtension.after (fun _ read => ⟨.done ⟨⟩, if_pos read, rfl⟩) fun _ none => ?_
  rw [if_neg (by simpa using none)]
  refine ite (whole readTemplate rfl) (bind peek fun _ => ?_)
  split
  · refine readToken.after (fun _ read => ⟨.done ⟨⟩, if_pos read, rfl⟩) fun _ comment => ?_
    rw [if_neg (by simpa using comment)]
    exact pure rfl
  · exact bind pos fun _ => fail

theorem readNext : Settles readNext fun _ => true := repeatForward fun _ => readPass

end Settles
end ScriptSyntax
