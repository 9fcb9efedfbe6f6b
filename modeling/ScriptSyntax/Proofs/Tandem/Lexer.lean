import ScriptSyntax.Lexer.Blank
import ScriptSyntax.Proofs.Tandem.Bond

/-!
Two lexers side by side, over texts that agree from an offset on.  They differ in what they know of lines,
and in the tokens and comments that they left behind.
-/

namespace ScriptSyntax

/-- The cursor with the lines and columns that another one knows. -/
def Cursor.relined (c x : Cursor) : Cursor :=
  { c with
    lineStart := x.lineStart
    line := x.line
    token := { c.token with startPosition := x.token.startPosition, stopPosition := x.token.stopPosition }
    last := { c.last with startPosition := x.last.startPosition, stopPosition := x.last.stopPosition } }

/-- The lexer with the lines, the tokens and the comments of another one. -/
def Lexer.relined (l x : Lexer) : Lexer :=
  { l with toCursor := l.toCursor.relined x.toCursor, tokens := x.tokens, comments := x.comments }

namespace Tandem

/-- A setting without extensions. -/
abbrev setting (a : Source) (o : Options) : Setting := ⟨a, o, none⟩

/-- Two texts that agree from a boundary on.  Where lines are reported, they are the same. -/
structure Texts (n : Nat) (a b : Source) (o : Options) : Prop where
  agree : a.Agree n b
  start : a.isBoundary n = true
  located : o.locations = true → b = a

/-- The offsets of a lexer are boundaries, at `n` or after it. -/
structure Sited (n : Nat) (a : Source) (l : Lexer) : Prop where
  pos : a.Placed n l.pos
  start : a.Placed n l.token.start
  stop : a.Placed n l.token.stop
  lastStart : a.Placed n l.last.start
  lastStop : a.Placed n l.last.stop

/-- Two lexers that stand side by side. -/
structure Abreast (n : Nat) (a b : Source) (o : Options) (l k : Lexer) : Prop where
  texts : Texts n a b o
  lines : k = l.relined k
  located : o.locations = true → k = l
  sited : Sited n a l

/-- One fault at one boundary, whose line may differ. -/
structure SameFault (n : Nat) (a : Source) (e f : SyntaxError) : Prop where
  fault : f.fault = e.fault
  pos : f.pos = e.pos
  severity : f.severity = e.severity
  placed : a.Placed n e.pos
  known : e.fault ≠ .invalidCharacterPosition

/-- How the lexers go together. -/
def lexers (n : Nat) (a b : Source) (o : Options) : Bond (setting a o) (setting b o) Lexer where
  state := Abreast n a b o
  fault e f l _ := SameFault n a e f ∧ Sited n a l

variable {n : Nat} {a b : Source} {o : Options} {l k : Lexer} {α β : Type}

theorem Sited.le (h : Sited n a l) : n ≤ l.pos := h.pos.le

/-- The offsets stay where they are but for the cursor. -/
theorem Sited.moveTo {i : Nat} (h : Sited n a l) (placed : a.Placed n i) : Sited n a { l with pos := i } :=
  { h with pos := placed }

namespace Abreast

theorem size (h : Abreast n a b o l k) : b.size = a.size := h.texts.agree.size

/-- A change that tells no lines keeps the lexers side by side. -/
theorem change {c : Lexer → Lexer} (h : Abreast n a b o l k)
    (same : ∀ x, c (l.relined x) = (c l).relined (c (l.relined x)))
    (sited : Sited n a (c l)) : Abreast n a b o (c l) (c k) where
  texts := h.texts
  lines := by
    have same := same k
    rwa [← h.lines] at same
  located asked := congrArg c (h.located asked)
  sited := sited

/-- As `change`, where the runs make changes of their own. -/
theorem changes {c d : Lexer → Lexer} (h : Abreast n a b o l k)
    (same : ∀ x, d (l.relined x) = (c l).relined (d (l.relined x)))
    (located : o.locations = true → b = a → d l = c l) (sited : Sited n a (c l)) :
    Abreast n a b o (c l) (d k) where
  texts := h.texts
  lines := by
    have same := same k
    rwa [← h.lines] at same
  located asked := by rw [h.located asked, located asked (h.texts.located asked)]
  sited := sited

end Abreast

/-! ### Looks -/

namespace Bond.Sees

variable {c : Char} {d start : Nat}

protected theorem pos : (lexers n a b o).Sees l LexM.pos l.pos := by
  intro k h
  rw [h.lines]
  exact ⟨rfl, rfl⟩

theorem edition : (lexers n a b o).Sees l LexM.edition o.edition := fun _ _ => ⟨rfl, rfl⟩

theorem charAhead : (lexers n a b o).Sees l (LexM.charAhead d) (a.charAt (l.pos + d)) := by
  intro k h
  have same := h.texts.agree.charAt (l.pos + d) (Nat.le_add_right_of_le h.sited.le)
  rw [h.lines]
  exact ⟨rfl, by rw [← same]; rfl⟩

theorem peek : (lexers n a b o).Sees l LexM.peek (a.charAt l.pos) := charAhead

theorem seesAhead : (lexers n a b o).Sees l (LexM.seesAhead d c) (a.charAt (l.pos + d) == some c) :=
  .bind charAhead .pure

theorem sees : (lexers n a b o).Sees l (LexM.sees c) (a.charAt l.pos == some c) := seesAhead

theorem textFrom (le : n ≤ start) : (lexers n a b o).Sees l (LexM.textFrom start) (a.slice start l.pos) := by
  intro k h
  have same := h.texts.agree.slice le l.pos h.sited.le
  rw [h.lines]
  exact ⟨rfl, by rw [← same]; rfl⟩

end Bond.Sees

theorem SameFault.of {pos : Nat} {fault : Fault} (severity : Severity) (placed : a.Placed n pos)
    (known : fault ≠ .invalidCharacterPosition) :
    SameFault n a (.ofFault a pos fault severity) (.ofFault b pos fault severity) := ⟨rfl, rfl, rfl, placed, known⟩

namespace Bond.Agrees

variable {P : Lexer → Prop} {m₀ m₁ : LexM α} {f₀ f₁ : α → LexM β} {g₀ g₁ : PUnit → LexM β} {Q : β → β → Lexer → Prop}

protected theorem source {f₀ f₁ : Source → LexM β} (next : (lexers n a b o).Agrees P (f₀ a) (f₁ b) Q) :
    (lexers n a b o).Agrees P (LexM.source >>= f₀) (LexM.source >>= f₁) Q :=
  fun p q state before => next p q state before

/-! ### Failing -/

protected theorem throw {e f : SyntaxError} {Q : α → α → Lexer → Prop} (same : SameFault n a e f) :
    (lexers n a b o).Agrees P (throw e : LexM α) (throw f) Q :=
  fun _ _ state _ => .fails ⟨same, state.sited⟩

theorem fail {pos : Nat} {fault : Fault} {Q : α → α → Lexer → Prop} (placed : a.Placed n pos)
    (known : fault ≠ .invalidCharacterPosition) :
    (lexers n a b o).Agrees P (LexM.fail pos fault) (LexM.fail pos fault) Q :=
  fun _ _ state _ => .fails ⟨.of .fatal placed known, state.sited⟩

theorem failRecoverable {pos : Nat} {fault : Fault} {Q : α → α → Lexer → Prop} (placed : a.Placed n pos)
    (known : fault ≠ .invalidCharacterPosition) :
    (lexers n a b o).Agrees P (LexM.failRecoverable pos fault) (LexM.failRecoverable pos fault) Q :=
  fun _ _ state _ => .fails ⟨.of .recoverable placed known, state.sited⟩

/-- Fails at the current token, whatever comes after. -/
theorem failAtToken {fault : Fault} {Q : α → α → Lexer → Prop} (known : fault ≠ .invalidCharacterPosition) :
    (lexers n a b o).Agrees (· = l) (do LexM.fail (← get).token.start fault)
      (do LexM.fail (← get).token.start fault) Q := by
  apply Bond.Agrees.get
  intro k h
  rw [h.lines]
  exact fail h.sited.start known

/-- A step that fails before anything else is done. -/
theorem stops {m₀ m₁ : LexM α} (h : (lexers n a b o).Agrees P m₀ m₁ fun _ _ _ => False) :
    (lexers n a b o).Agrees P (m₀ >>= f₀) (m₁ >>= f₁) Q :=
  h.bind fun _ _ _ _ _ => False.elim

/-! ### Moving -/

/-- A change that tells no lines. -/
theorem alter {c : Lexer → Lexer} (same : ∀ x, c (l.relined x) = (c l).relined (c (l.relined x)))
    (sited : Sited n a l → Sited n a (c l)) (next : (lexers n a b o).Agrees (· = c l) (g₀ ⟨⟩) (g₁ ⟨⟩) Q) :
    (lexers n a b o).Agrees (· = l) (modify c >>= g₀) (modify c >>= g₁) Q :=
  .change (fun _ h => h.change same (sited h.sited)) next

theorem moveTo {i : Nat} (placed : a.Placed n i)
    (next : (lexers n a b o).Agrees (· = { l with pos := i }) (g₀ ⟨⟩) (g₁ ⟨⟩) Q) :
    (lexers n a b o).Agrees (· = l) (LexM.moveTo i >>= g₀) (LexM.moveTo i >>= g₁) Q :=
  .alter (fun _ => rfl) (·.moveTo placed) next

theorem advance {d : Nat} (placed : a.Placed n (l.pos + d))
    (next : (lexers n a b o).Agrees (· = { l with pos := l.pos + d }) (g₀ ⟨⟩) (g₁ ⟨⟩) Q) :
    (lexers n a b o).Agrees (· = l) (LexM.advance d >>= g₀) (LexM.advance d >>= g₁) Q :=
  .alter (fun _ => rfl) (·.moveTo placed) next

/-- A character of one byte at the cursor is passed. -/
theorem pass {c : Char} (here : a.charAt l.pos = some c) (ascii : c.utf8Size = 1)
    (next : (lexers n a b o).Agrees (· = { l with pos := l.pos + 1 }) (g₀ ⟨⟩) (g₁ ⟨⟩) Q) :
    (lexers n a b o).Agrees (· = l) (LexM.advance 1 >>= g₀) (LexM.advance 1 >>= g₁) Q :=
  .given fun _ h => advance (.succ h.sited.le here ascii) next

theorem skip {c : Char} (here : a.charAt l.pos = some c)
    (next : (lexers n a b o).Agrees (· = { l with pos := l.pos + c.utf8Size }) (g₀ ⟨⟩) (g₁ ⟨⟩) Q) :
    (lexers n a b o).Agrees (· = l) (LexM.skip c >>= g₀) (LexM.skip c >>= g₁) Q :=
  .given fun _ h => advance (.next h.sited.le here) next

theorem newLine (next : (lexers n a b o).Agrees (· = { l with line := l.line + 1, lineStart := l.pos })
    (g₀ ⟨⟩) (g₁ ⟨⟩) Q) :
    (lexers n a b o).Agrees (· = l) (LexM.newLine >>= g₀) (LexM.newLine >>= g₁) Q :=
  .alter (fun _ => rfl) (fun sited => { sited with }) next

/-- A line feed after the cursor belongs to the line break. -/
theorem endCarriageReturn :
    (lexers n a b o).Agrees (· = l) LexM.endCarriageReturn LexM.endCarriageReturn
      (Equal fun _ r => r.token = l.token) := by
  have ends {r : Lexer} (token : r.token = l.token) :
      (lexers n a b o).Agrees (· = r) LexM.newLine LexM.newLine (Equal fun _ r => r.token = l.token) := by
    rw [← bind_pure LexM.newLine]
    exact newLine (.pure fun _ same => ⟨rfl, same ▸ token⟩)
  apply look .sees
  apply Bond.Agrees.ite
  · intro feed
    exact pass (by simpa using feed) (by rfl) (ends rfl)
  · intro _
    exact ends rfl

/-! ### Repeating -/

theorem loop {I : α → Lexer → Prop} {V : β → Lexer → Prop} {pass : α → LexM (Pass α β)}
    (each : ∀ c l, I c l → (lexers n a b o).Agrees (· = l) (pass c) (pass c) (Equal (Turn I V)))
    (fuel : Nat) (c : α) (before : I c l) :
    (lexers n a b o).Agrees (· = l) (LexM.loop pass fuel c) (LexM.loop pass fuel c) (Equal V) := by
  induction fuel generalizing c l with
  | zero => exact failAtToken (by simp)
  | succ fuel ih =>
    apply (each c l before).step
    intro x r after
    cases x with
    | again d => exact ih d after
    | done v => exact .pure fun _ same => ⟨rfl, same ▸ after⟩

theorem repeatForward {I : α → Lexer → Prop} {V : β → Lexer → Prop} {pass : α → LexM (Pass α β)} {c : α}
    (each : ∀ c l, I c l → (lexers n a b o).Agrees (· = l) (pass c) (pass c) (Equal (Turn I V))) (before : I c l) :
    (lexers n a b o).Agrees (· = l) (LexM.repeatForward c pass) (LexM.repeatForward c pass) (Equal V) := by
  apply given
  intro k h
  refine .source (.look .pos ?_)
  rw [h.size]
  exact loop each _ c before

end Bond.Agrees
end Tandem
end ScriptSyntax
