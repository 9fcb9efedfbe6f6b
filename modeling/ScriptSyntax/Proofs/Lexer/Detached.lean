import ScriptSyntax.Proofs.Lexer.Forward
import ScriptSyntax.Proofs.Tandem.Bond

/-!
What the steps of the lexer leave alone, whether they succeed or fail.  They never change whether the code is strict,
which is up to the parser, they are in the text of a template behind them only if they were before, and they never look
at the tokens and comments that were reported before.
-/

namespace ScriptSyntax

open Tandem

/-- The lexer with reports from before behind its own. -/
def Lexer.after (l : Lexer) (tokens : List Token) (comments : List Comment) : Lexer :=
  { l with tokens := l.tokens ++ tokens, comments := l.comments ++ comments }

/-- What no checkpoint remembers: the strictness, and that the lexer is in the text of a template at most if `inside`
says so. -/
structure Lexer.Marked (strict inside : Bool) (l : Lexer) : Prop where
  strict : l.strict = strict
  inTemplate : l.inTemplate = true → inside = true

/-- A lexer next to the same one with some reports behind its own. -/
def apart (s : Setting) (tokens : List Token) (comments : List Comment) (strict inside : Bool) : Bond s s Lexer where
  state l k := k = l.after tokens comments ∧ l.Marked strict inside
  fault e f l k := f = e ∧ k = l.after tokens comments ∧ l.Marked strict inside

/-- Without an extension of the lexer, the step leaves the strictness of the code as it is and enters no template for
good, and what was reported before makes no difference to it. -/
def Detached {α : Type} (s : Setting) (m : LexM α) : Prop :=
  s.reader = none → ∀ tokens comments strict inside,
    (apart s tokens comments strict inside).Agrees (fun _ => True) m m (Equal fun _ _ => True)

namespace Detached

open LexM

variable {s : Setting} {α β : Type} {m n : LexM α} {f : α → LexM β} {l l' : Lexer}

/-- A step that succeeds leaves the strictness as it is. -/
theorem strict (h : Detached s m) (plain : s.reader = none) {a : α} (run : Runs s m l a l') : l'.strict = l.strict := by
  have ends := h plain [] [] l.strict true l (l.after [] []) ⟨rfl, rfl, fun _ => rfl⟩ trivial
  rw [show m s l = .ok a l' from run] at ends
  generalize m s (l.after [] []) = y at ends
  cases ends with
  | passes state => exact state.2.strict

/-! ### Composed steps -/

@[grind ←] theorem pure {a : α} : Detached s (pure a : LexM α) := fun _ _ _ _ _ => .pure fun _ _ => ⟨rfl, trivial⟩

@[grind ←] theorem bind (first : Detached s m) (next : ∀ a, Detached s (f a)) : Detached s (m >>= f) :=
  fun plain tokens comments strict inside => (first plain tokens comments strict inside).step fun a _ _ =>
    (next a plain tokens comments strict inside).strengthen fun _ _ => trivial

@[grind ←] theorem read : Detached s (read : LexM Setting) := fun _ _ _ _ _ _ _ state _ => .passes state ⟨rfl, trivial⟩

/-- The reports are not looked at. -/
theorem get {f : Lexer → LexM β} (same : ∀ l tokens comments, f (l.after tokens comments) = f l)
    (next : ∀ l, Detached s (f l)) :
    Detached s (get >>= f) := by
  rintro plain tokens comments strict inside l _ ⟨rfl, known⟩ _
  have ends := next l plain tokens comments strict inside l _ ⟨rfl, known⟩ trivial
  show Bond.Ends _ _ (f l s l) (f (l.after tokens comments) s (l.after tokens comments))
  rwa [same]

@[grind ←] theorem throw {e : SyntaxError} : Detached s (throw e : LexM α) :=
  fun _ _ _ _ _ _ _ state _ => .fails ⟨rfl, state⟩

section Choices

variable {c : Prop} [Decidable c]

theorem ite (yes : Detached s m) (no : Detached s n) : Detached s (if c then m else n) := by
  split
  · exact yes
  · exact no

variable {w : LexM PUnit} {g : PUnit → LexM β}

theorem «when» (h : Detached s w) (next : Detached s (g ⟨⟩)) : Detached s (if c then w >>= g else g ⟨⟩) :=
  ite (h.bind fun _ => next) next

theorem «unless» (h : Detached s w) (next : Detached s (g ⟨⟩)) : Detached s (if c then g ⟨⟩ else w >>= g) :=
  ite next (h.bind fun _ => next)

end Choices

theorem modify {g : Lexer → Lexer} (same : ∀ l tokens comments, g (l.after tokens comments) =
    (g l).after tokens comments) (still : ∀ l strict inside, l.Marked strict inside → (g l).Marked strict inside) :
    Detached s (modify g : LexM PUnit) := by
  rintro _ tokens comments _ _ l _ ⟨rfl, known⟩ _
  exact .passes ⟨same l tokens comments, still l _ _ known⟩ ⟨rfl, trivial⟩

@[grind ←] theorem source : Detached s source := bind read fun _ => pure

@[grind ←] theorem pos : Detached s pos := get (fun _ _ _ => rfl) fun _ => pure

@[grind ←] theorem fail {n : Nat} {fault : Fault} : Detached s (fail n fault : LexM α) := bind read fun _ => throw

@[grind ←] theorem failRecoverable {n : Nat} {fault : Fault} : Detached s (failRecoverable n fault : LexM α) :=
  bind read fun _ => throw

@[grind ←] theorem unexpected : Detached s (unexpected : LexM α) := get (fun _ _ _ => rfl) fun _ => fail

/-- What comes after a failure is never run. -/
@[grind ←] theorem fail_bind {n : Nat} {fault : Fault} {g : α → LexM β} : Detached s (LexM.fail n fault >>= g) :=
  fun _ _ _ _ _ _ _ state _ => .fails ⟨rfl, state⟩

@[grind ←] theorem failRecoverable_bind {n : Nat} {fault : Fault} {g : α → LexM β} :
    Detached s (LexM.failRecoverable n fault >>= g) :=
  fun _ _ _ _ _ _ _ state _ => .fails ⟨rfl, state⟩

theorem loop {pass : α → LexM (Pass α β)} (each : ∀ a, Detached s (pass a)) (fuel : Nat) :
    ∀ a, Detached s (LexM.loop pass fuel a) := by
  induction fuel with
  | zero => exact fun _ => unexpected
  | succ fuel ih =>
    refine fun a => (each a).bind fun x => ?_
    cases x with
    | again next => exact ih next
    | done => exact pure

@[grind ←] theorem repeatForward {pass : α → LexM (Pass α β)} (each : ∀ a, Detached s (pass a)) {a : α} :
    Detached s (repeatForward a pass) :=
  bind source fun _ => bind pos fun _ => loop each _ a

/-! ### Looking and moving -/

@[grind ←] theorem edition : Detached s edition := bind read fun _ => pure

@[grind ←] theorem charAhead {n : Nat} : Detached s (charAhead n) :=
  bind source fun _ => bind pos fun _ => pure

@[grind ←] theorem peek : Detached s peek := charAhead

@[grind ←] theorem seesAhead {n : Nat} {c : Char} : Detached s (seesAhead n c) :=
  bind charAhead fun _ => pure

@[grind ←] theorem sees {c : Char} : Detached s (sees c) := seesAhead

@[grind ←] theorem textFrom {n : Nat} : Detached s (textFrom n) :=
  bind source fun _ => bind pos fun _ => pure

@[grind ←] theorem moveTo {n : Nat} : Detached s (moveTo n) := modify (fun _ _ _ => rfl) fun _ _ _ h => ⟨h.1, h.2⟩

@[grind ←] theorem advance {n : Nat} : Detached s (advance n) := modify (fun _ _ _ => rfl) fun _ _ _ h => ⟨h.1, h.2⟩

@[grind ←] theorem skip {c : Char} : Detached s (skip c) := advance

@[grind ←] theorem newLine : Detached s newLine := modify (fun _ _ _ => rfl) fun _ _ _ h => ⟨h.1, h.2⟩

@[grind ←] theorem endCarriageReturn : Detached s endCarriageReturn :=
  bind sees fun _ => «when» advance newLine

/-! ### Blanks -/

@[grind ←] theorem note {kind : CommentKind} {start : Nat} {position : Position} {text : String} :
    Detached s (note kind start position text) := bind read fun _ => modify (fun _ _ _ => rfl) fun _ _ _ h => ⟨h.1, h.2⟩

@[grind ←] theorem countLines {start : Nat} : Detached s (countLines start) :=
  bind source fun _ => modify (fun _ _ _ => by dsimp only [Lexer.after]; split <;> rfl) fun _ _ _ h => by
    split <;> exact ⟨h.1, h.2⟩

@[grind ←] theorem skipBlockComment : Detached s skipBlockComment :=
  get (fun _ _ _ => rfl) fun _ => bind pos fun _ => bind source fun _ => by grind -ring -linarith

@[grind ←] theorem skipLineComment {marks : Nat} : Detached s (skipLineComment marks) :=
  get (fun _ _ _ => rfl) fun _ => bind pos fun _ => bind source fun _ => bind moveTo fun _ =>
    bind textFrom fun _ => note

@[grind ←] theorem skipBlankPass : Detached s skipBlankPass := by grind -ring -linarith [LexM.skipBlankPass]

@[grind ←] theorem skipBlank : Detached s skipBlank := repeatForward fun _ => skipBlankPass

/-! ### Ends of tokens -/

@[grind ←] theorem updateContext {prev : TokenKind} : Detached s (updateContext prev) := by
  rintro plain tokens comments strict inside l _ ⟨rfl, known⟩ _
  have run (l : Lexer) : Runs s (LexM.updateContext prev) l ⟨⟩
      { l with toCursor := l.toCursor.updateContext s.source s.edition prev } := by
    simp [LexM.updateContext, plain]
  rw [show LexM.updateContext prev s l = _ from run l,
    show LexM.updateContext prev s (l.after tokens comments) = _ from run _]
  exact .passes ⟨rfl, known.1, known.2⟩ ⟨rfl, trivial⟩

@[grind ←] theorem finish {kind : TokenKind} {value : TokenValue} : Detached s (finish kind value) :=
  get (fun _ _ _ => rfl) fun _ => bind (modify (fun _ _ _ => rfl) fun _ _ _ h => ⟨h.1, h.2⟩) fun _ => updateContext

@[grind ←] theorem finishOperator {kind : TokenKind} {size : Nat} : Detached s (finishOperator kind size) :=
  bind advance fun _ => finish

/-! ### Texts -/

@[grind ←] theorem invalidEscape {n : Nat} {fault : Fault} : Detached s (invalidEscape n fault) :=
  bind read fun _ => get (fun _ _ _ => rfl) fun _ => pure

@[grind ←] theorem hexDigits : ∀ {count : Nat}, Detached s (hexDigits count)
  | 0 => pure
  | count + 1 => by
    have ih : Detached s (LexM.hexDigits count) := hexDigits
    grind -ring -linarith [LexM.hexDigits]

@[grind ←] theorem readHex {count : Nat} : Detached s (readHex count) :=
  bind pos fun _ => bind hexDigits fun _ => ite invalidEscape pure

@[grind ←] theorem readCodePoint : Detached s readCodePoint := by
  refine bind sees fun _ => ite (bind edition fun _ => «when» unexpected ?_) readHex
  refine bind advance fun _ => bind pos fun _ => bind source fun _ => ?_
  split
  · exact invalidEscape
  · refine bind readHex fun _ => ?_
    split
    · exact bind advance fun _ => ite invalidEscape pure
    · exact pure

@[grind ←] theorem readOctalEscape {inTemplate : Bool} : Detached s (readOctalEscape inTemplate) :=
  bind source fun _ => bind pos fun _ => bind moveTo fun _ => bind sees fun _ => bind sees fun _ =>
    get (fun _ _ _ => rfl) fun _ =>
    ite (bind pos fun _ => invalidEscape) pure

@[grind ←] theorem readEscape {inTemplate : Bool} : Detached s (readEscape inTemplate) := by
  refine bind advance fun _ => bind peek fun _ => ?_
  split
  · exact get (fun _ _ _ => rfl) fun _ => fail
  · refine bind skip fun _ => ?_
    split
    any_goals exact pure
    · exact readHex
    · exact readCodePoint
    · exact bind endCarriageReturn fun _ => pure
    · refine ite (bind newLine fun _ => pure) (ite ?_ (ite readOctalEscape pure))
      have invalid {fault : Fault} : Detached s (LexM.pos >>= fun n => LexM.invalidEscape (n - 1) fault) :=
        bind pos fun _ => invalidEscape
      exact get (fun _ _ _ => rfl) fun _ => ite invalid (ite invalid pure)

@[grind ←] theorem stringPass {quote : Char} {text : List Char} : Detached s (stringPass quote text) := by
  refine get (fun _ _ _ => rfl) fun _ => bind peek fun _ => ?_
  split
  · exact fail
  · refine ite pure (ite (bind readEscape fun _ => ?_) (ite ?_ (ite fail (bind skip fun _ => pure))))
    · split
      · exact pure
      · exact pure
      · exact throw
    · exact bind edition fun _ => «when» fail (bind skip fun _ => bind newLine fun _ => pure)

@[grind ←] theorem readString {quote : Char} : Detached s (readString quote) :=
  bind advance fun _ => bind (repeatForward fun _ => stringPass) fun _ => bind advance fun _ => finish

@[grind ←] theorem atChunkEnd : Detached s atChunkEnd := by
  refine bind peek fun _ => ?_
  split
  · exact pure
  · exact seesAhead
  · exact pure

@[grind ←] theorem finishChunk {text : List Char} : Detached s (finishChunk text) :=
  get (fun _ _ _ => rfl) fun _ => ite (bind sees fun _ => ite finishOperator finishOperator) finish

@[grind ←] theorem chunkPass {text : List Char} : Detached s (chunkPass text) := by
  refine bind atChunkEnd fun _ => ite (bind finishChunk fun _ => pure) (bind peek fun _ => ?_)
  split
  · exact get (fun _ _ _ => rfl) fun _ => fail
  · refine bind readEscape fun _ => ?_
    split
    · exact pure
    · exact pure
    · exact ite pure throw
  · exact bind advance fun _ => bind endCarriageReturn fun _ => pure
  · exact bind skip fun _ => «when» newLine pure

@[grind ←] theorem invalidChunkPass {u : Unit} : Detached s (invalidChunkPass u) := by
  refine bind atChunkEnd fun _ => ite (bind finish fun _ => pure) (bind peek fun _ => ?_)
  split
  · exact get (fun _ _ _ => rfl) fun _ => fail
  · refine bind advance fun _ => bind peek fun _ => ?_
    split
    · exact bind skip fun _ => pure
    · exact pure
  · exact bind advance fun _ => bind endCarriageReturn fun _ => pure
  · exact bind skip fun _ => «when» newLine pure

/-- Whatever the step does to the text of a template, the lexer is no longer in it behind the step. -/
theorem insideTemplate (h : Detached s m) : Detached s (insideTemplate m) := by
  rintro plain tokens comments strict inside l _ ⟨rfl, known⟩ _
  have ends :=
    h plain tokens comments strict true { l with inTemplate := true } _ ⟨rfl, known.strict, fun _ => rfl⟩ trivial
  simp only [LexM.insideTemplate]
  change Bond.Ends _ _ (m s { l with inTemplate := true })
    (m s { l.after tokens comments with inTemplate := true }) at ends
  generalize m s { l with inTemplate := true } = x at ends ⊢
  generalize m s { l.after tokens comments with inTemplate := true } = y at ends ⊢
  cases ends with
  | passes state same =>
    obtain ⟨rfl, strict, -⟩ := state
    exact .passes ⟨rfl, strict, fun inside => absurd inside Bool.false_ne_true⟩ same
  | fails fault =>
    obtain ⟨rfl, rfl, strict, -⟩ := fault
    exact .fails ⟨rfl, rfl, strict, fun inside => absurd inside Bool.false_ne_true⟩

theorem readChunk : Detached s readChunk :=
  bind (repeatForward fun _ => chunkPass) fun _ => ite pure (repeatForward fun _ => invalidChunkPass)

@[grind ←] theorem readTemplate : Detached s readTemplate := insideTemplate readChunk

/-! ### Words, numbers and regular expressions -/

@[grind ←] theorem readWordEscape {atStart : Bool} : Detached s (readWordEscape atStart) := by
  refine bind pos fun _ => bind (modify (fun _ _ _ => rfl) fun _ _ _ h => ⟨h.1, h.2⟩) fun _ => bind advance fun _ =>
    bind sees fun _ =>
    ite (bind advance fun _ => bind read fun _ => bind readCodePoint fun _ => ?_) (bind pos fun _ => fail_bind)
  split
  · split
    · exact pure
    · exact fail
  · exact fail
  · exact throw

@[grind ←] theorem wordPass {word : List Char} : Detached s (wordPass word) := by
  refine bind peek fun _ => ?_
  split
  · exact pure
  · exact bind read fun _ => ite (bind skip fun _ => pure) (ite (bind readWordEscape fun _ => pure) pure)

@[grind ←] theorem readWordText : Detached s readWordText :=
  bind (modify (fun _ _ _ => rfl) fun _ _ _ h => ⟨h.1, h.2⟩) fun _ =>
    bind (repeatForward fun _ => wordPass) fun _ => pure

@[grind ←] theorem readWord : Detached s readWord := bind readWordText fun _ => bind read fun _ => finish

@[grind ←] theorem digitPass {radix start : Nat} {legacy : Bool} {run : DigitRun} :
    Detached s (digitPass radix start legacy run) := by
  refine bind peek fun c => ?_
  split
  · exact pure
  · refine bind edition fun _ => ?_
    split
    · exact bind pos fun _ => «when» failRecoverable <| «when» failRecoverable <| «when» failRecoverable <|
        bind advance fun _ => pure
    · split
      · exact bind advance fun _ => pure
      · exact pure

@[grind ←] theorem readDigits {radix : Nat} {maybeLegacy : Bool} : Detached s (readDigits radix maybeLegacy) := by
  refine bind pos fun _ => ?_
  split <;>
    exact bind (by first | exact sees | exact pure) fun _ => bind (repeatForward fun _ => digitPass) fun _ =>
      ite (bind pos fun _ => failRecoverable_bind) pure

@[grind ←] theorem checkNumberEnd : Detached s checkNumberEnd :=
  bind read fun _ => bind peek fun _ => ite (bind pos fun _ => fail) pure

@[grind ←] theorem bigintDigits {start : Nat} : Detached s (bigintDigits start) :=
  bind source fun _ => bind pos fun _ => pure

@[grind ←] theorem readRadixNumber {radix : Nat} : Detached s (readRadixNumber radix) := by
  refine bind pos fun _ => bind advance fun _ => bind readDigits fun _ => ?_
  split
  · exact get (fun _ _ _ => rfl) fun _ => fail
  · exact bind edition fun _ => bind sees fun _ =>
      ite (bind bigintDigits fun _ => bind advance fun _ => finish) (bind checkNumberEnd fun _ => finish)

@[grind ←] theorem readFraction : Detached s readFraction :=
  bind sees fun _ => ite (bind advance fun _ => bind readDigits fun _ => pure) pure

@[grind ←] theorem readExponent {start : Nat} : Detached s (readExponent start) :=
  bind sees fun _ => bind sees fun _ => by grind -ring -linarith

@[grind ←] theorem readNumber {startsWithDot : Bool} : Detached s (readNumber startsWithDot) := by
  refine bind pos fun _ => ite ?_ (bind readDigits fun _ => «when» fail ?_)
  all_goals
    exact bind source fun _ => bind pos fun _ => bind pos fun _ => get (fun _ _ _ => rfl) fun _ =>
      «when» fail <| by grind -ring -linarith

@[grind ←] theorem bodyPass {start : Nat} {state : BodyState} : Detached s (bodyPass start state) := by
  grind -ring -linarith [LexM.bodyPass]

@[grind ←] theorem readRegExp : Detached s readRegExp := by
  refine bind pos fun _ => bind (repeatForward fun _ => bodyPass) fun _ => bind source fun _ => bind pos fun _ =>
    bind advance fun _ =>
    bind pos fun _ => bind readWordText fun _ => get (fun _ _ _ => rfl) fun _ => «when» fail <| bind edition fun _ => ?_
  split
  · exact finish
  · exact get (fun _ _ _ => rfl) fun _ => failRecoverable

@[grind ←] theorem readSlash : Detached s readSlash := get (fun _ _ _ => rfl) fun _ => by grind -ring -linarith

/-! ### Tokens -/

@[grind ←] theorem readDot : Detached s readDot := by grind -ring -linarith [LexM.readDot]

@[grind ←] theorem readAssignable {kind assign : TokenKind} {size : Nat} :
    Detached s (readAssignable kind assign size) := by grind -ring -linarith [LexM.readAssignable]

@[grind ←] theorem readStar : Detached s readStar := by grind -ring -linarith [LexM.readStar]

@[grind ←] theorem readLogical {c : Char} {single singleAssign double doubleAssign : TokenKind} :
    Detached s (readLogical c single singleAssign double doubleAssign) := by grind -ring -linarith [LexM.readLogical]

@[grind ←] theorem atClosingComment : Detached s atClosingComment :=
  get (fun _ _ _ => rfl) fun _ => by grind -ring -linarith

@[grind ←] theorem readMinus : Detached s readMinus := by grind -ring -linarith [LexM.readMinus]

@[grind ←] theorem readPlus : Detached s readPlus := by grind -ring -linarith [LexM.readPlus]

@[grind ←] theorem readGreater : Detached s readGreater := by grind -ring -linarith [LexM.readGreater]

@[grind ←] theorem readLess : Detached s readLess := by grind -ring -linarith [LexM.readLess]

@[grind ←] theorem readEquals : Detached s readEquals := by grind -ring -linarith [LexM.readEquals]

@[grind ←] theorem readBang : Detached s readBang := by grind -ring -linarith [LexM.readBang]

@[grind ←] theorem readQuestion : Detached s readQuestion := by grind -ring -linarith [LexM.readQuestion]

@[grind ←] theorem readHash : Detached s readHash := by grind -ring -linarith [LexM.readHash]

@[grind ←] theorem readZero : Detached s readZero := by grind -ring -linarith [LexM.readZero]

@[grind ←] theorem readToken {c : Char} : Detached s (readToken c) := by
  refine bind read fun _ => ?_
  split
  · grind -ring -linarith
  · split <;> grind -ring -linarith

/-- An extension would be free to look. -/
@[grind ←] theorem readExtension : Detached s readExtension := by
  rintro plain tokens comments strict inside l _ ⟨rfl, known⟩ _
  have none (l : Lexer) : Runs s LexM.readExtension l false l := by simp [LexM.readExtension, plain]
  rw [show LexM.readExtension s l = _ from none l, show LexM.readExtension s (l.after tokens comments) = _ from none _]
  exact .passes ⟨rfl, known⟩ ⟨rfl, trivial⟩

@[grind ←] theorem readPass {u : Unit} : Detached s (readPass u) := by
  refine get (fun _ _ _ => rfl) fun _ => «unless» skipBlank <|
    bind (modify (fun _ _ _ => rfl) fun _ _ _ h => ⟨h.1, h.2⟩) fun _ => ?_
  grind -ring -linarith

@[grind ←] theorem readNext : Detached s readNext := repeatForward fun _ => readPass

@[grind ←] theorem next : Detached s next :=
  bind read fun _ => bind (modify (fun _ _ _ => rfl) fun _ _ _ h => ⟨h.1, h.2⟩) fun _ => readNext

/-! ### Streams -/

@[grind ←] theorem nextToken : Detached s nextToken :=
  bind next fun _ => bind read fun _ => get (fun _ _ _ => rfl) fun _ => pure

@[grind ←] theorem tokenPass {tokens : List Token} : Detached s (tokenPass tokens) :=
  bind read fun _ => get (fun _ _ _ => rfl) fun _ => ite pure (bind next fun _ => pure)

@[grind ←] theorem allTokens : Detached s allTokens :=
  bind readNext fun _ => bind source fun _ => bind pos fun _ => loop (fun _ => tokenPass) _ _

end Detached
end ScriptSyntax
