import ScriptSyntax.Proofs.Lexer.Opening
import ScriptSyntax.Proofs.Parser.Atom
import ScriptSyntax.Proofs.Tandem.Cover

/-!
The steps on single tokens, names and scopes, in two parsers side by side.
-/

namespace ScriptSyntax.Tandem

open ParseM

variable {t : Twins} {α β : Type} {p q : Parser} {m n : ParseM α} {f : α → ParseM β}

/-! ### States side by side -/

namespace Alongside

/-- A change of what the lexers do not know. -/
theorem change (h : Alongside t p q) {c : Parser → Parser} (lexer : (c p).lexer = p.lexer)
    (same : c { p with lexer := q.lexer } = { c p with lexer := q.lexer }) (noted : Noted t (c p)) :
    Alongside t (c p) (c q) := by
  obtain ⟨lexers, rest, -, current⟩ := h
  rw [rest, same]
  exact ⟨lexer ▸ lexers, rfl, noted, lexer ▸ current⟩

/-- A change of the lexers alone. -/
theorem ofLexers (h : Alongside t p q) {l k : Lexer} (lexers : Abreast t.start t.first t.second t.options l k)
    (current : Current t l) :
    Alongside t { p with lexer := l } { q with lexer := k } := by
  refine ⟨lexers, ?_, { h.noted with }, current⟩
  rw [h.rest]

/-- A change of the cursors that tells no lines. -/
theorem ofCursor (h : Alongside t p q) {c : Cursor → Cursor}
    (relined : ∀ x y : Cursor, c (x.relined y) = (c x).relined y)
    (sited : Sited t.start t.first { p.lexer with toCursor := c p.lexer.toCursor })
    (current : Current t { p.lexer with toCursor := c p.lexer.toCursor }) :
    Alongside t { p with lexer := { p.lexer with toCursor := c p.lexer.toCursor } }
      { q with lexer := { q.lexer with toCursor := c q.lexer.toCursor } } := by
  have cursors : q.lexer.toCursor = p.lexer.toCursor.relined q.lexer.toCursor := congrArg Lexer.toCursor h.lexers.lines
  have changed : c q.lexer.toCursor = (c p.lexer.toCursor).relined q.lexer.toCursor := by rw [← relined, ← cursors]
  refine h.ofLexers ⟨h.lexers.texts, ?_, fun located => ?_, sited⟩ current
  · rw [changed]
    conv => lhs; rw [h.lexers.lines]
    rfl
  · rw [h.lexers.located located]

/-- A change of the contexts alone. -/
theorem ofContexts (h : Alongside t p q) {c : Cursor → Cursor}
    (relined : ∀ x y : Cursor, c (x.relined y) = (c x).relined y) (same : ∀ x : Cursor, x.SameToken (c x)) :
    Alongside t { p with lexer := { p.lexer with toCursor := c p.lexer.toCursor } }
      { q with lexer := { q.lexer with toCursor := c q.lexer.toCursor } } := by
  obtain ⟨contexts, exprAllowed, kept⟩ := same p.lexer.toCursor
  refine h.ofCursor relined ?_ ?_
  · rw [kept]
    exact { h.lexers.sited with }
  · rw [kept]
    exact { h.current with
            ordered := { h.current.ordered with }
            reached := h.current.reached.contexts ⟨contexts, exprAllowed, rfl⟩ }

end Alongside

/-- A step of the lexers alone. -/
theorem ofLexer_ends {step : LexM α} (rest : q = { p with lexer := q.lexer }) (noted : Noted t p)
    (ends : (lexers t.start t.first t.second t.options).Ends (Equal fun _ _ => True)
      (step (setting t.first t.options) p.lexer)
      (step (setting t.second t.options) q.lexer))
    (current : ∀ {x l'}, Sited t.start t.first l' → Runs (setting t.first t.options) step p.lexer x l' → Current t l')
    (visits : ∀ {l'}, (setting t.first t.options).Leaves step p.lexer none l' →
      (setting t.first t.options).Visits t.start l') :
    t.parsers.Ends (fun x y _ => y = x ∧ True) (ofLexer step (setting t.first t.options) p)
      (ofLexer step (setting t.second t.options) q) := by
  simp only [ParseM.ofLexer]
  generalize run : step (setting t.first t.options) p.lexer = x at ends ⊢
  generalize step (setting t.second t.options) q.lexer = y at ends ⊢
  cases ends with
  | passes lexers value =>
    refine .passes ⟨lexers, ?_, { noted with }, current lexers.sited run⟩ value
    rw [rest]
  | fails fault => exact .fails ⟨fault.1, visits (.fails run)⟩

/-- A step of the lexer from where a parser stands. -/
theorem ofLexer_agrees {step : LexM α}
    (agrees : Current t p.lexer → (lexers t.start t.first t.second t.options).Agrees (· = p.lexer) step step
      (Equal fun _ _ => True))
    (current : ∀ {x l'}, Current t p.lexer → Sited t.start t.first l' →
      Runs (setting t.first t.options) step p.lexer x l' → Current t l')
    (visits : ∀ {l'}, Current t p.lexer → (setting t.first t.options).Leaves step p.lexer none l' →
      (setting t.first t.options).Visits t.start l') :
    t.parsers.Agrees (· = p) (ofLexer step) (ofLexer step) fun x y _ => y = x ∧ True := by
  rintro _ q state rfl
  exact ofLexer_ends state.rest state.noted (agrees state.current _ _ state.lexers rfl) (current state.current)
    (visits state.current)

/-! ### Quiet steps -/

namespace Quiet

@[grind ←] theorem pure {x : α} : Quiet t (pure x : ParseM α) := .done trivial

@[grind ←] theorem bind (first : Quiet t m) (next : ∀ x, Quiet t (f x)) : Quiet t (m >>= f) := .quiet first next

theorem ite {c : Prop} [Decidable c] (yes : Quiet t m) (no : Quiet t n) : Quiet t (if c then m else n) :=
  Yields.ite (fun _ => yes) fun _ => no

@[grind ←] theorem of_fails (h : Yields t m m fun _ _ => False) : Quiet t m := h.weaken fun _ _ => False.elim

/-- A look at parts of the state that are the same in both runs. -/
theorem looks {x : Parser → α} (look : ∀ s p, m s p = .ok (x p) p)
    (same : ∀ {p q}, Alongside t p q → x q = x p) : Quiet t m := by
  intro p q state _
  rw [look, look, same state]
  exact .passes state ⟨rfl, trivial⟩

@[grind ←] theorem edition : Quiet t edition := fun _ _ state _ => .passes state ⟨rfl, trivial⟩

@[grind ←] theorem since {n : Nat} : Quiet t (since n) := fun _ _ state _ => .passes state ⟨rfl, trivial⟩

@[grind ←] theorem options : Quiet t options := fun _ _ state _ => .passes state ⟨rfl, trivial⟩

@[grind ←] theorem kind : Quiet t kind :=
  looks (x := (·.lexer.kind)) (fun _ _ => rfl) fun h => by rw [h.lexers.lines]; rfl

@[grind ←] theorem isKind {k : TokenKind} : Quiet t (isKind k) :=
  looks (x := (·.lexer.kind == k)) (fun _ _ => rfl) fun h => by rw [h.lexers.lines]; rfl

@[grind ←] theorem containsEscape : Quiet t containsEscape :=
  looks (x := (·.lexer.containsEscape)) (fun _ _ => rfl) fun h => by rw [h.lexers.lines]; rfl

@[grind ←] theorem strict : Quiet t strict :=
  looks (x := (·.lexer.strict)) (fun _ _ => rfl) fun h => by rw [h.lexers.lines]; rfl

@[grind ←] theorem scopes : Quiet t scopes := looks (x := (·.scopes)) (fun _ _ => rfl) fun h => by rw [h.rest]

@[grind ←] theorem isContextual {word : String} : Quiet t (isContextual word) :=
  looks (x := fun p => p.lexer.kind == .name && !p.lexer.containsEscape && p.lexer.value == .name word) (fun _ _ => rfl)
    fun h => by rw [h.lexers.lines]; rfl

@[grind ←] theorem lineBreakBefore : Quiet t lineBreakBefore := by
  refine Yields.lexer fun l k h _ => .source ?_
  have same : k.lineBreakBefore t.second = l.lineBreakBefore t.first := by
    have agree := t.texts.agree.hasLineBreak h.sited.lastStop.le _ h.sited.start.le
    rw [h.lines]
    exact agree
  rw [same]
  exact .done trivial

@[grind ←] theorem canOmitSemicolon : Quiet t canOmitSemicolon := kind.bind fun _ => ite pure lineBreakBefore

@[grind ←] theorem andM {m n : ParseM Bool} (first : Quiet t m) (second : Quiet t n) : Quiet t (m <&&> n) := by
  refine bind first fun b => ?_
  cases b
  · exact pure
  · exact second

@[grind ←] theorem orM {m n : ParseM Bool} (first : Quiet t m) (second : Quiet t n) : Quiet t (m <||> n) := by
  refine bind first fun b => ?_
  cases b
  · exact second
  · exact pure

/-! ### Moving -/

/-- A step of the lexer. -/
theorem ofLexer {step : LexM α}
    (agrees : ∀ l, Current t l → (lexers t.start t.first t.second t.options).Agrees (· = l) step step
      (Equal fun _ _ => True))
    (current : ∀ {l x l'}, Current t l → Sited t.start t.first l' →
      Runs (setting t.first t.options) step l x l' → Current t l')
    (visits : ∀ {l l'}, Current t l → (setting t.first t.options).Leaves step l none l' →
      (setting t.first t.options).Visits t.start l') :
    Quiet t (ofLexer step) :=
  fun _ _ state _ => ofLexer_agrees (fun known => agrees _ known)
    (fun known sited run => current known sited run) visits _ _ state rfl

end Quiet

/-- What is known of a token that was read. -/
theorem Current.read {l l' : Lexer} {u : Unit} (run : Runs (setting t.first t.options) LexM.readNext l u l')
    (ordered : l'.Ordered t.first)
    (before : (setting t.first t.options).Visits t.start l) (strict : t.options.isModule = true → l.strict = true)
    (sited : Sited t.start t.first l') : Current t l' where
  ordered := ordered
  strict inModule := (Detached.readNext.strict rfl run).trans (strict inModule)
  slash kind := readNext_slash rfl kind run
  alone kind := readNext_alone run kind strict sited.start.boundary sited.stop.boundary
  keyword _ keyword unescaped := readNext_keyword (s := setting t.first t.options) rfl keyword unescaped run
  reached := ((readNext_visits rfl).leaves before (.passes run)).2 _ rfl

theorem Current.next {l l' : Lexer} {u : Unit} (h : Current t l) (sited : Sited t.start t.first l')
    (run : Runs (setting t.first t.options) LexM.next l u l') : Current t l' := by
  have ordered := (next_spec rfl h.ordered run).1
  simp [LexM.next] at run
  exact .read run ordered ⟨true, h.reached.leave⟩ h.strict sited

namespace Quiet

@[grind ←] theorem nextAfterWord : Quiet t nextAfterWord := ofLexer (fun _ _ => next_agrees) Current.next fun h run =>
    ((next_visits rfl h.reached).leaves ⟨true, h.reached⟩ run).1

@[grind ←] theorem next : Quiet t next := by
  refine Yields.lexer fun l k h _ => ?_
  rw [show k.containsEscape = l.containsEscape by rw [h.lines]; rfl, show k.kind = l.kind by rw [h.lines]; rfl,
    show k.token.start = l.token.start by rw [h.lines]; rfl]
  refine .ite (fun _ => ?_) fun _ => nextAfterWord
  cases l.kind.keyword? with
  | none => exact nextAfterWord
  | some _ => exact .stops (.failRecoverable h.sited.start (by simp))

@[grind ←] theorem eat {kind : TokenKind} : Quiet t (eat kind) :=
  isKind.bind fun _ => ite (next.bind fun _ => pure) pure

theorem unexpected {α : Type} : Quiet t (unexpected : ParseM α) := .of_fails .unexpected

@[grind ←] theorem expect {kind : TokenKind} : Quiet t (expect kind) := eat.bind fun _ => ite pure unexpected

@[grind ←] theorem eatContextual {word : String} : Quiet t (eatContextual word) :=
  isContextual.bind fun _ => ite (next.bind fun _ => pure) pure

@[grind ←] theorem expectContextual {word : String} : Quiet t (expectContextual word) :=
  eatContextual.bind fun _ => ite pure unexpected

@[grind ←] theorem semicolon : Quiet t semicolon :=
  eat.bind fun _ => ite pure (canOmitSemicolon.bind fun _ => ite pure unexpected)

/-! ### Scopes and labels -/

theorem modify {c : Parser → Parser} (lexer : ∀ p, (c p).lexer = p.lexer)
    (same : ∀ p l, c { p with lexer := l } = { c p with lexer := l })
    (noted : ∀ p, Noted t p → Noted t (c p)) : Quiet t (modify c) :=
  Yields.modify fun p _ h => h.change (lexer p) (same p _) (noted p h.noted)

@[grind ←] theorem enterScope {flags : ScopeFlags} : Quiet t (enterScope flags) :=
  modify (fun _ => rfl) (fun _ _ => rfl) fun _ h => { h with exports := h.exports }

@[grind ←] theorem exitScope : Quiet t exitScope :=
  modify (fun _ => rfl) (fun _ _ => rfl) fun _ h => { h with exports := h.exports }

@[grind ←] theorem pushLabel {label : Label} : Quiet t (pushLabel label) :=
  modify (fun _ => rfl) (fun _ _ => rfl) fun _ h => { h with }

@[grind ←] theorem popLabel : Quiet t popLabel := modify (fun _ => rfl) (fun _ _ => rfl) fun _ h => { h with }

/-- Code gets strict, or sloppy where it is no module. -/
theorem setStrict {strict : Bool} (inModule : t.options.isModule = true → strict = true) :
    Quiet t (setStrict strict) := by
  refine Yields.modify fun p q h => h.ofLexers (h.lexers.change (c := fun l => { l with strict }) (fun _ => rfl)
    { h.lexers.sited with }) ?_
  exact { h.current with
          ordered := { h.current.ordered with }
          strict := inModule
          reached := h.current.reached.strict strict }

end Quiet

namespace Yields

theorem withoutLabels {m₀ m₁ : ParseM α} {R : α → α → Prop} (h : Yields t m₀ m₁ R) :
    Yields t (ParseM.withoutLabels m₀) (ParseM.withoutLabels m₁) R := by
  refine .get fun p q state => ?_
  rw [show q.labels = p.labels by rw [state.rest]]
  refine .quiet (.modify (fun _ => rfl) (fun _ _ => rfl) fun _ h => { h with }) fun _ => h.bind fun x y related => ?_
  exact .quiet (.modify (fun _ => rfl) (fun _ _ => rfl) fun _ h => { h with }) fun _ => .pure related

end Yields

namespace Gives

variable {V : α → Prop}

theorem present {m₀ m₁ : ParseM α} (h : Gives t m₀ m₁ V) :
    Gives t (some <$> m₀) (some <$> m₁) fun x => ∀ a ∈ x, V a := by
  rw [map_eq_pure_bind]
  exact .step h fun _ value => .done (forall_mem_some value)

/-! ### Lists -/

theorem collectUntil {item : ParseM α} {close : TokenKind} (h : Gives t item item V) :
    Gives t (ParseM.collectUntil close item) (ParseM.collectUntil close item) fun xs => ∀ x ∈ xs, V x := by
  refine .repeatPast (I := fun found => ∀ x ∈ found, V x) (by simp) fun found before => ?_
  refine .quiet .isKind fun _ => .ite (fun _ => .done fun x mem => before x (List.mem_reverse.mp mem)) fun _ => ?_
  exact .step h fun x value => .done (List.forall_mem_cons.mpr ⟨value, before⟩)

theorem commaSeparated {item : ParseM α} {close : TokenKind} {trailing : Bool} (h : Gives t item item V) :
    Gives t (ParseM.commaSeparated close trailing item) (ParseM.commaSeparated close trailing item) fun xs =>
      ∀ x ∈ xs, V x := by
  refine .repeatPast (I := fun found => ∀ x ∈ found, V x) (by simp) fun found before => ?_
  have ends : ∀ x ∈ found.reverse, V x := fun x mem => before x (List.mem_reverse.mp mem)
  refine .quiet .eat fun _ => .ite (fun _ => .done ends) fun _ => .ite (fun _ => ?_) fun _ => ?_
  · exact .step h fun x value => .done (List.forall_mem_singleton.mpr value)
  · refine .quiet .expect fun _ => .quiet (.andM .pure .eat) fun _ => .ite (fun _ => .done ends) fun _ => ?_
    exact .step h fun x value => .done (List.forall_mem_cons.mpr ⟨value, before⟩)

end Gives

theorem CoverGives.commaSeparated {V : α → Prop} {item : CoverM α} {close : TokenKind} {trailing : Bool}
    (h : CoverGives t item item V) :
    CoverGives t (ParseM.commaSeparated close trailing item) (ParseM.commaSeparated close trailing item) fun xs =>
      ∀ x ∈ xs, V x := by
  refine .repeatPast (I := fun found => ∀ x ∈ found, V x) (by simp) fun found before => ?_
  have ends : ∀ x ∈ found.reverse, V x := fun x mem => before x (List.mem_reverse.mp mem)
  refine .liftQuiet .eat fun _ => .ite (fun _ => .done ends) fun _ => .ite (fun _ => ?_) fun _ => ?_
  · exact .step h fun x value => .done (List.forall_mem_singleton.mpr value)
  · refine .liftQuiet .expect fun _ => .quiet ?_ fun _ => .ite (fun _ => .done ends) fun _ => ?_
    · refine .known ?_
      cases trailing
      · exact .done trivial
      · exact .lift Quiet.eat
    · exact .step h fun x value => .done (List.forall_mem_cons.mpr ⟨value, before⟩)

end ScriptSyntax.Tandem
