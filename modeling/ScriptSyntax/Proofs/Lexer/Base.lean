import ScriptSyntax.Proofs.Lexer.Settle

/-!
The base of the contexts.  A lexer begins in a block, and brackets, templates and functions come and go above it.  Only
a star can take the base away: after the word `function` it takes the innermost context for that of the function, also
where the word is the name of a property, which opened none.
-/

namespace ScriptSyntax

/-! ### One token -/

namespace Cursor

variable {c : Cursor} {prev : TokenKind}

/-- The outermost context is a block. -/
def Based (c : Cursor) : Prop := c.contexts.getLast? = some .blockBraces

theorem Based.push (based : c.Based) {context : Context} : (c.push context).Based := by
  simpa [Based, Cursor.push, List.getLast?_cons] using congrArg (·.getD context) based

theorem Based.allow (based : c.Based) {exprAllowed : Bool} : (c.allow exprAllowed).Based := based

/-- A context that is no block lies above the base. -/
theorem Based.tail {context : Context} {outer : List Context} (based : c.Based) (same : c.contexts = context :: outer)
    (above : context ≠ .blockBraces ∨ c.contexts.length ≠ 1) : outer.getLast? = some .blockBraces := by
  rw [Based, same] at based
  cases outer with
  | nil => simp_all
  | cons next outer => exact based

theorem Based.pop (based : c.Based) (above : c.context ≠ .blockBraces) : c.pop.2.Based := by
  cases same : c.contexts with
  | nil => simp [Based, same] at based
  | cons context outer =>
    have tail := based.tail same (.inl (by simpa [Cursor.context, same] using above))
    simpa [Based, Cursor.pop, same] using tail

theorem Based.leaveFunction (based : c.Based) (function : c.context.isFunction = true) : c.pop.2.Based :=
  based.pop fun block => by simp [block, Context.isFunction] at function

theorem Based.close (based : c.Based) : c.close.Based := by
  unfold Cursor.close
  split
  · exact based
  · next nested =>
    cases same : c.contexts with
    | nil => simp [Based, same] at based
    | cons context outer =>
      have inside : c.pop.2.Based := by simpa [Based, Cursor.pop, same] using based.tail same (.inr nested)
      have outside : (if c.pop.1 = some .blockBraces ∧
          c.pop.2.context.isFunction then c.pop.2.pop else (c.pop.1, c.pop.2)).2.Based := by
        split
        · next both => exact inside.leaveFunction both.2
        · exact inside
      exact outside.allow

/-- Where a context lies above the base, another may take its place. -/
theorem Based.overrideContext (based : c.Based) (above : c.contexts ≠ [.blockBraces]) {context : Context} :
    (c.overrideContext context).Based := by
  match same : c.contexts with
  | [] => simp [Based, same] at based
  | [only] => simp_all [Based]
  | _ :: next :: outer => simpa [Based, Cursor.overrideContext, same] using based

/-- A token keeps the base, unless it is a star after a word `function` that opened no context. -/
theorem Based.updateContext {source : Source} {edition : Nat} (based : c.Based)
    (above : prev = .kwFunction → c.kind = .star → c.contexts ≠ [.blockBraces]) :
    (c.updateContext source edition prev).Based := by
  unfold Cursor.updateContext
  split
  · exact based
  · split
    case h_1 | h_2 => exact based.close
    case h_3 | h_4 | h_5 | h_8 | h_9 => exact based.push.allow
    case h_6 | h_7 => exact based
    case h_10 =>
      refine Based.allow ?_
      split
      · next function => exact based.leaveFunction function
      · exact based
    case h_11 =>
      refine Based.allow ?_
      split
      · next text => exact based.pop (by simp [text])
      · exact based.push
    case h_12 star =>
      refine Based.allow ?_
      split
      · next word => exact based.overrideContext (above word star)
      · exact based
    case h_13 | h_14 => exact based

/-- The word `function` opens a context, unless it is the name of a property. -/
theorem nested_of_function {source : Source} {edition : Nat} (word : c.kind = .kwFunction) (other : prev ≠ .dot) :
    (c.updateContext source edition prev).contexts ≠ [.blockBraces] := by
  simp only [Cursor.updateContext, word, beq_eq_false_iff_ne.mpr other, Bool.and_false, Bool.false_eq_true, if_false]
  split <;> simp [Cursor.push, Cursor.allow]

end Cursor

namespace Lexer.Settled

variable {s : Setting} {l l' : Lexer}

/-- A token takes the base away just where it is a star after a word `function` that opened no context. -/
theorem based_iff (settled : l.Settled s l') (based : l.Based) :
    l'.Based ↔ ¬ (l.kind = .kwFunction ∧ l'.kind = .star ∧ l.contexts = [.blockBraces]) := by
  obtain ⟨c, kind, contexts, same⟩ := settled
  constructor
  · rintro kept ⟨word, star, bare⟩
    rw [Cursor.Based, same, word] at kept
    simp [Cursor.updateContext, kind, star, contexts, bare, TokenKind.isKeyword, TokenKind.keyword?,
      Cursor.overrideContext, Cursor.allow] at kept
    split at kept <;> simp at kept
  · intro allowed
    have kept : (c.updateContext s.source s.edition l.kind).Based :=
      Cursor.Based.updateContext (by rwa [Cursor.Based, contexts]) fun word star bare =>
        allowed ⟨word, kind ▸ star, contexts ▸ bare⟩
    rwa [Cursor.Based, same]

end Lexer.Settled

/-! ### Runs -/

open LexM

/-- The lexers that a text is tokenized with, with the kinds of the tokens read so far, latest first.  A fault does not
stop them. -/
inductive Setting.Tokenizes (s : Setting) : List TokenKind → Lexer → Prop
  | start : s.Tokenizes [] (s.lexerAt 0)
  | token {kinds : List TokenKind} {l l' : Lexer} {step : LexM Token} {t : Token} (before : s.Tokenizes kinds l)
    (reads : step = firstToken ∨ step = nextToken) (run : Runs s step l t l') : s.Tokenizes (t.kind :: kinds) l'
  | fault {kinds : List TokenKind} {l l' : Lexer} {step : LexM Token} {e : SyntaxError} (before : s.Tokenizes kinds l)
    (reads : step = firstToken ∨ step = nextToken) (throws : Throws s step l e l') : s.Tokenizes kinds l'

variable {s : Setting} {l l' : Lexer} {step : LexM Token} {t : Token} {e : SyntaxError} {kinds : List TokenKind}

/-- The kinds of the tokens that were read, latest first. -/
def kindsRead (items : List (Except SyntaxError Token)) : List TokenKind :=
  ((items.filterMap (·.toOption)).map (·.kind)).reverse

/-- The tokens that are given one by one lead through such lexers. -/
theorem tokenItems_tokenizes (before : s.Tokenizes kinds l)
    (reads : step = firstToken ∨ step = nextToken) (fuel : Nat) :
    s.Tokenizes (kindsRead (s.tokenItems step fuel l).1 ++ kinds) (s.tokenItems step fuel l).2 := by
  induction fuel generalizing kinds l step with
  | zero => exact before
  | succ fuel ih =>
    cases run : step s l with
    | error e l' =>
      rw [tokenItems_throws run]
      exact before.fault reads run
    | ok t l' =>
      by_cases ended : t.kind = .eof
      · rw [tokenItems_ended run ended]
        exact before.token reads run
      · rw [tokenItems_more run ended]
        simpa [kindsRead, Except.toOption] using ih (before.token reads run) (.inr rfl)

theorem tokens_tokenizes (s : Setting) : s.Tokenizes (kindsRead s.tokens.1) s.tokens.2 := by
  simpa [Setting.tokens] using tokenItems_tokenizes .start (.inl rfl) (2 * s.source.size + 4)

theorem Lexer.Unsettled.leave (s : Setting) (l : Lexer) : l.Unsettled (l.leave s) := ⟨rfl, rfl⟩

section Step

variable (plain : s.reader = none) (reads : step = firstToken ∨ step = nextToken)
include plain reads

theorem Lexer.settled_of_token (run : Runs s step l t l') : l.Settled s l' ∧ t.kind = l'.kind := by
  rcases reads with rfl | rfl
  · obtain ⟨next, rfl⟩ := firstToken_iff.mp run
    exact ⟨Settles.readNext.finished plain next rfl, rfl⟩
  · obtain ⟨next, rfl⟩ := nextToken_iff.mp run
    exact ⟨(Lexer.Unsettled.leave s l).settled (Settles.readNext.finished plain next rfl), rfl⟩

theorem Lexer.unsettled_of_fault (throws : Throws s step l e l') : l.Unsettled l' := by
  rcases reads with rfl | rfl
  · exact Settles.readNext.failed plain (firstToken_throws_iff.mp throws)
  · exact (Lexer.Unsettled.leave s l).trans (Settles.readNext.failed plain (nextToken_throws_iff.mp throws))

end Step

/-- What holds after tokens of these kinds, given latest first. -/
structure Lexer.Grounded (kinds : List TokenKind) (l : Lexer) : Prop where
  kind : l.kind = kinds.headD .eof
  based : l.Based
  nested : kinds.head? = some .kwFunction → kinds.tail.head? ≠ some .dot → l.contexts ≠ [.blockBraces]

namespace Lexer.Grounded

theorem start (s : Setting) : (s.lexerAt 0).Grounded [] where
  kind := show (s.lexerAt 0).frame.kind = _ by rw [lexerAt_frame]; rfl
  based := by rw [Cursor.Based, lexerAt_contexts]; rfl
  nested := nofun

theorem unsettled (grounded : l.Grounded kinds) (same : l.Unsettled l') : l'.Grounded kinds where
  kind := same.1.trans grounded.kind
  based := by rw [Cursor.Based, same.2]; exact grounded.based
  nested word other := same.2 ▸ grounded.nested word other

theorem settled (grounded : l.Grounded kinds) (settled : l.Settled s l')
    (safe : ¬ [.star, .kwFunction, .dot] <+: l'.kind :: kinds) :
    l'.Grounded (l'.kind :: kinds) where
  kind := rfl
  based := (settled.based_iff grounded.based).mpr fun ⟨word, star, bare⟩ => by
    rw [grounded.kind] at word
    match kinds with
    | [] => cases word
    | [only] => exact grounded.nested (congrArg some word) nofun bare
    | kind :: before :: kinds =>
      refine grounded.nested (congrArg some word) (fun dot => safe ?_) bare
      rw [star, show kind = .kwFunction from word, show before = .dot from Option.some.inj dot]
      exact List.prefix_append [.star, .kwFunction, .dot] kinds
  nested word other := by
    obtain ⟨c, kind, -, same⟩ := settled
    rw [same]
    refine Cursor.nested_of_function (kind.trans (Option.some.inj word)) fun dot => other ?_
    rw [grounded.kind] at dot
    cases kinds with
    | nil => cases dot
    | cons => exact congrArg some dot

end Lexer.Grounded

theorem Setting.Tokenizes.grounded (plain : s.reader = none) (tokenizes : s.Tokenizes kinds l)
    (safe : ¬ [.star, .kwFunction, .dot] <:+: kinds) : l.Grounded kinds := by
  induction tokenizes with
  | start => exact .start s
  | token before reads run ih =>
    obtain ⟨settled, kind⟩ := Lexer.settled_of_token plain reads run
    rw [kind] at safe ⊢
    exact (ih fun found => safe (List.infix_cons found)).settled settled fun found => safe found.isInfix
  | fault before reads throws ih => exact (ih safe).unsettled (Lexer.unsettled_of_fault plain reads throws)

/-- The base of the contexts stays a block, as long as no star comes after a property of the name `function`. -/
theorem Setting.Tokenizes.keeps_base (plain : s.reader = none) (tokenizes : s.Tokenizes kinds l)
    (safe : ¬ [.star, .kwFunction, .dot] <:+: kinds) : l.contexts.getLast? = some .blockBraces :=
      (tokenizes.grounded plain safe).based

theorem Setting.Tokenizes.keeps_base_generator :
    let s : Setting := ⟨.ofString "x.function;function*f", {}, none⟩
    let kinds : List TokenKind := [.eof, .name, .star, .kwFunction, .semi, .kwFunction, .dot, .name]
    s.reader = none ∧ s.Tokenizes kinds s.tokens.2 ∧ ¬ [.star, .kwFunction, .dot] <:+: kinds ∧
      s.tokens.2.contexts.getLast? = some .blockBraces := by
  intro s kinds
  have read : kindsRead s.tokens.1 = kinds := by decide +kernel
  have tokenizes : s.Tokenizes kinds s.tokens.2 := read ▸ tokens_tokenizes s
  have safe : ¬ [.star, .kwFunction, .dot] <:+: kinds := by decide
  exact ⟨rfl, tokenizes, safe, tokenizes.keeps_base rfl safe⟩

/-- After a property of that name the base is gone. -/
example : (Setting.tokens ⟨.ofString "a.function*", {}, none⟩).2.contexts = [.generatorDeclaration] := by decide +kernel

end ScriptSyntax
