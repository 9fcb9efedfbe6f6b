import ScriptSyntax.Proofs.Ambient.State
import ScriptSyntax.Proofs.Lexer.Detached
import ScriptSyntax.Proofs.Tree.Recast

/-!
Rules for what steps read and what they restore, and the steps that read no node.
-/

namespace ScriptSyntax.Ambient

open Node ParseM

variable {s : Setting} {α β : Type} {P : Parser → Prop} {Q : β → Parser → Prop} {p q : Parser} {ns : List Part}
  {m n : ParseM α} {f : α → ParseM β} {N : α → List Part}

/-! ### Composed steps -/

namespace Leads

variable {R : α → Parser → Prop}

theorem bind (first : Leads s P m R) (next : ∀ a, Leads s (R a) (f a) Q) : Leads s P (m >>= f) Q := by
  intro plain p b q before run
  obtain ⟨a, r, run, run'⟩ := Runs.bind_iff.mp run
  exact next a plain r b q (first plain p a r before run) run'

theorem weaken {R' : α → Parser → Prop} (h : Leads s P m R) (after : ∀ a q, R a q → R' a q) : Leads s P m R' :=
  fun plain p a q before run => after a q (h plain p a q before run)

theorem strengthen {P' : Parser → Prop} (h : Leads s P m R) (before : ∀ q, P' q → P q) : Leads s P' m R :=
  fun plain p a q holds => h plain p a q (before p holds)

/-- What is known before the step. -/
theorem known {V : Prop} (h : V → Leads s P m R) : Leads s (fun q => V ∧ P q) m R :=
  fun plain p a q ⟨value, before⟩ => h value plain p a q before

/-- What the value of a step says of it is known after it. -/
theorem having {V : α → Prop} (h : Leads s P m R) (value : ∀ p a q, Runs s m p a q → V a) :
    Leads s P m fun a q => V a ∧ R a q :=
  fun plain p a q before run => ⟨value p a q run, h plain p a q before run⟩

/-- A step is known by what it does from each state. -/
theorem each (h : ∀ q, P q → Leads s (· = q) m R) : Leads s P m R :=
  fun plain q a r before => h q before plain q a r rfl

theorem pure {a : α} (after : ∀ q, P q → R a q) : Leads s P (pure a) R := by
  intro _ p b q before run
  obtain ⟨rfl, rfl⟩ := Runs.pure_iff.mp run
  exact after _ before

theorem given {a : α} (next : Leads s P (f a) Q) : Leads s P (Pure.pure a >>= f) Q := by
  simpa only [pure_bind] using next

theorem map {R : β → Parser → Prop} {g : α → β} (h : Leads s P m fun a => R (g a)) : Leads s P (g <$> m) R := by
  rw [map_eq_pure_bind]
  exact h.bind fun _ => .pure fun _ => id

theorem ite {c : Prop} [Decidable c] (yes : c → Leads s P m R) (no : ¬ c → Leads s P n R) :
    Leads s P (if c then m else n) R := by
  by_cases h : c
  · simpa only [if_pos h] using yes h
  · simpa only [if_neg h] using no h

theorem fails (h : Fails s m) : Leads s P m R := by
  intro _ p a q _ run
  obtain ⟨e, r, failed⟩ := h p
  cases failed.symm.trans run

/-- A step that fails before anything else is done. -/
theorem failing (h : Fails s m) : Leads s P (m >>= f) Q := bind (fails h) (R := fun _ _ => False) fun _ _ _ _ _ => nofun

theorem look (h : Looks s m) (next : ∀ a, Leads s P (f a) Q) : Leads s P (m >>= f) Q := by
  intro plain p b q before run
  obtain ⟨a, r, run, run'⟩ := Runs.bind_iff.mp run
  obtain ⟨x, same⟩ := h
  cases (same p).1.symm.trans run
  exact next _ plain p b q before run'

/-- A look whose value says something of the states before it. -/
theorem lookFor {V : α → Prop} (h : Looks s m) (value : ∀ q a, P q → Runs s m q a q → V a)
    (next : ∀ a, V a → Leads s P (f a) Q) : Leads s P (m >>= f) Q := by
  intro plain p b q before run
  obtain ⟨a, r, run, run'⟩ := Runs.bind_iff.mp run
  obtain ⟨x, same⟩ := h
  cases (same p).1.symm.trans run
  exact next _ (value p _ before run) plain p b q before run'

theorem orElse {b : Bool} {m : ParseM Bool} {R : Bool → Parser → Prop} (yes : b = true → Leads s P (Pure.pure true) R)
    (no : b = false → Leads s P m R) : Leads s P (Pure.pure b <||> m) R := by
  cases b with
  | true => exact yes rfl
  | false => exact no rfl

theorem andThen {b : Bool} {m : ParseM Bool} {R : Bool → Parser → Prop} (yes : b = true → Leads s P m R)
    (no : b = false → Leads s P (Pure.pure false) R) : Leads s P (Pure.pure b <&&> m) R := by
  cases b with
  | true => exact yes rfl
  | false => exact no rfl

theorem sinceAnd {edition : Nat} {m : ParseM Bool} {R : Bool → Parser → Prop} (yes : Leads s P m R)
    (no : Leads s P (Pure.pure false) R) : Leads s P (since edition <&&> m) R :=
  .look .since fun here => by
    cases here with
    | true => exact yes
    | false => exact no

theorem sees {g : Parser → ParseM β} (next : ∀ q, Leads s P (g q) Q) : Leads s P (get >>= g) Q := by
  intro plain q b r before run
  obtain ⟨a, _, run, run'⟩ := Runs.bind_iff.mp run
  obtain ⟨rfl, rfl⟩ := Runs.get_iff.mp run
  exact next _ plain _ b r before run'

theorem seesAt {g : Parser → ParseM β} (next : Leads s (· = p) (g p) Q) : Leads s (· = p) (get >>= g) Q := by
  intro plain q b r before run
  obtain ⟨a, _, run, run'⟩ := Runs.bind_iff.mp run
  obtain ⟨rfl, rfl⟩ := Runs.get_iff.mp run
  subst before
  exact next plain _ b r rfl run'

/-- A known state is changed to another one. -/
theorem change {g : Parser → Parser} {h : PUnit → ParseM β} (next : Leads s (· = g p) (h ⟨⟩) Q) :
    Leads s (· = p) (modify g >>= h) Q := by
  intro plain q b r before run
  obtain ⟨a, _, run, run'⟩ := Runs.bind_iff.mp run
  cases Runs.modify_iff.mp run
  subst before
  exact next plain _ b r rfl run'

theorem changes {g : Parser → Parser} {R : PUnit → Parser → Prop} (after : ∀ q, P q → R ⟨⟩ (g q)) :
    Leads s P (modify g) R := by
  intro _ p _ q before run
  cases Runs.modify_iff.mp run
  exact after p before

/-- One level deeper a production does what it does, and the parser comes back. -/
theorem nested {R' : α → Parser → Prop} (h : Leads s (· = { p with nesting := p.nesting + 1 }) m R)
    (after : ∀ a r, R a r → R' a { r with nesting := r.nesting - 1 }) : Leads s (· = p) (nested m) R' := by
  rintro plain p a q rfl run
  obtain ⟨-, r, inner, rfl⟩ := Runs.nested_iff.mp run
  exact after a r (h plain _ a r rfl inner)

/-! ### Repeating -/

/-- A pass ends where `I` holds, or where `Q` does if it was the last. -/
def Ends (I : α → Parser → Prop) (Q : β → Parser → Prop) : Pass α β → Parser → Prop
  | .again next => I next
  | .done result => Q result

theorem loop {I : α → Parser → Prop} {pass : α → ParseM (Pass α β)} (each : ∀ a, Leads s (I a) (pass a) (Ends I Q)) :
    ∀ (fuel : Nat) (a : α), Leads s (I a) (ParseM.loop pass fuel a) Q
  | 0, _ => .fails fun _ => ⟨_, _, rfl⟩
  | fuel + 1, a => (each a).bind fun
    | .again next => loop each fuel next
    | .done _ => .pure fun _ => id

theorem repeatPast {I : α → Parser → Prop} {pass : α → ParseM (Pass α β)} {a : α}
    (each : ∀ a, Leads s (I a) (pass a) (Ends I Q)) : Leads s (I a) (ParseM.repeatPast a pass) Q :=
  .look .source fun _ => loop each _ a

end Leads

@[simp] theorem Leads.ends_again {I : α → Parser → Prop} {next : α} : Ends I Q (.again next) = I next := rfl

/-! ### What is read -/

theorem Adds.since (h : Adds s m N) : Leads s (Since p ns) m fun a => Since p (ns ++ N a) :=
  .each fun q before => (h q).weaken fun _ _ after => before.trans after

/-- A step is known by what it does from a state with nothing read before. -/
theorem Adds.of (h : ∀ p, Leads s (Since p []) m fun a => Since p (N a)) : Adds s m N :=
  fun p => (h p).strengthen <| by
    rintro _ rfl
    exact .refl _

theorem Adds.weaken {N' : α → List Part} (h : Adds s m N) (covered : ∀ a, ∀ x ∈ N' a, Covered (N a) x) :
    Adds s m N' :=
  fun p => (h p).weaken fun a _ after => after.weaken (covered a)

namespace Leads

theorem start {R : α → Parser → Prop} (h : Leads s (Since p []) m R) : Leads s (· = p) m R :=
  h.strengthen <| by
    rintro _ rfl
    exact .refl _

theorem adds (h : Adds s m N) (next : ∀ a, Leads s (Since p (ns ++ N a)) (f a) Q) :
    Leads s (Since p ns) (m >>= f) Q := h.since.bind next

theorem ofQuiet (h : Quiet s m) : Leads s (Since p ns) m fun _ => Since p ns :=
  h.since.weaken fun _ _ after => by simpa using after

theorem quiet (h : Quiet s m) (next : ∀ a, Leads s (Since p ns) (f a) Q) : Leads s (Since p ns) (m >>= f) Q :=
  bind (.ofQuiet h) next

theorem done {a : α} (covered : ∀ x ∈ N a, Covered ns x) :
    Leads s (Since p ns) (Pure.pure a) fun a => Since p (N a) :=
  pure fun _ before => before.weaken covered

variable {c : Prop} [Decidable c] {u v : ParseM α} {R : α → Parser → Prop}

/-- One of two steps is taken, and then the rest. -/
theorem choose (yes : c → Leads s P u R) (no : ¬ c → Leads s P v R) (next : ∀ a, Leads s (R a) (f a) Q) :
    Leads s P (if c then u >>= f else v >>= f) Q :=
  ite (fun h => (yes h).bind next) fun h => (no h).bind next

variable {w : ParseM PUnit} {g : PUnit → ParseM β}

/-- A quiet step is taken first if a condition holds. -/
theorem «when» (h : Quiet s w) (next : Leads s (Since p ns) (g ⟨⟩) Q) :
    Leads s (Since p ns) (if c then w >>= g else g ⟨⟩) Q :=
  ite (fun _ => .quiet h fun _ => next) fun _ => next

theorem «unless» (h : Quiet s w) (next : Leads s (Since p ns) (g ⟨⟩) Q) :
    Leads s (Since p ns) (if c then g ⟨⟩ else w >>= g) Q :=
  ite (fun _ => next) fun _ => .quiet h fun _ => next

end Leads

/-! ### Quiet steps -/

namespace Quiet

@[grind ←] theorem pure {a : α} : Quiet s (pure a : ParseM α) := .of fun _ => .done (by simp)

@[grind ←] theorem bind (first : Quiet s m) (next : ∀ a, Quiet s (f a)) : Quiet s (m >>= f) :=
  .of fun _ => .quiet first fun a => (next a).since

@[grind ←] theorem map {g : α → β} (h : Quiet s m) : Quiet s (g <$> m) := by
  rw [map_eq_pure_bind]
  exact h.bind fun _ => pure

theorem ite {c : Prop} [Decidable c] (yes : Quiet s m) (no : Quiet s n) : Quiet s (if c then m else n) := by
  split
  · exact yes
  · exact no

@[grind ←] theorem of_looks (h : Looks s m) : Quiet s m := by
  rintro p _ _ a q rfl run
  obtain ⟨x, same⟩ := h
  cases (same _).1.symm.trans run
  exact .refl _

@[grind ←] theorem of_fails (h : Fails s m) : Quiet s m := fun _ => .fails h

theorem modify {g : Parser → Parser} (still : ∀ q, Since q [] (g q)) : Quiet s (modify g) := by
  rintro p _ _ _ q rfl run
  cases Runs.modify_iff.mp run
  exact still _

/-- A look at the whole state. -/
theorem sees {g : Parser → ParseM α} (next : ∀ q, Quiet s (g q)) : Quiet s (get >>= g) :=
  fun p => .seesAt (next p p)

theorem ofLexer {step : LexM α} (detached : Detached s step) : Quiet s (ofLexer step) := by
  rintro p plain _ a q rfl run
  obtain ⟨l, step, rfl⟩ := Runs.ofLexer_iff.mp run
  exact .still ⟨detached.strict plain step, .refl _, rfl, rfl, rfl⟩ id

/-! ### Moving -/

@[grind ←] theorem check {c : Option Complaint} : Quiet s (check c) := by
  cases c with
  | none => exact pure
  | some c => exact of_fails .complain

@[grind ←] theorem nextAfterWord : Quiet s nextAfterWord := ofLexer .next

@[grind ←] theorem next : Quiet s next := by
  refine bind (of_looks .lexer) fun l => ite ?_ nextAfterWord
  cases l.kind.keyword? with
  | none => exact nextAfterWord
  | some _ => exact of_fails (.bind .failRecoverable)

@[grind ←] theorem eat {kind : TokenKind} : Quiet s (eat kind) := by grind [ParseM.eat]

@[grind ←] theorem expect {kind : TokenKind} : Quiet s (expect kind) := by grind [ParseM.expect]

@[grind ←] theorem eatContextual {word : String} : Quiet s (eatContextual word) := by grind [ParseM.eatContextual]

@[grind ←] theorem expectContextual {word : String} : Quiet s (expectContextual word) := by
  grind [ParseM.expectContextual]

@[grind ←] theorem semicolon : Quiet s semicolon := by grind [ParseM.semicolon]

@[grind ←] theorem andM {m n : ParseM Bool} (first : Quiet s m) (second : Quiet s n) : Quiet s (m <&&> n) := by
  refine bind first fun b => ?_
  cases b
  · exact pure
  · exact second

@[grind ←] theorem orM {m n : ParseM Bool} (first : Quiet s m) (second : Quiet s n) : Quiet s (m <||> n) := by
  refine bind first fun b => ?_
  cases b
  · exact second
  · exact pure

@[grind ←] theorem lift (h : Quiet s m) : Quiet s (monadLift m : ParseM α) := h

/-! ### Words and literals -/

@[grind ←] theorem keywordAsName {kind : TokenKind} : Quiet s (keywordAsName kind) :=
  bind (of_looks .lexer) fun _ => bind (of_looks .source) fun _ => modify fun _ =>
    .still ⟨rfl, .refl _, rfl, rfl, rfl⟩ id

@[grind ←] theorem wordText : Quiet s wordText := by grind [ParseM.wordText]

@[grind ←] theorem anyWord : Quiet s anyWord := by grind [ParseM.anyWord]

@[grind ←] theorem checkName {id : Identifier} : Quiet s (checkName id) := by grind [ParseM.checkName]

@[grind ←] theorem noteAwaitName {name : String} {pos : Nat} : Quiet s (noteAwaitName name pos) :=
  ite (modify fun _ => .still ⟨rfl, .refl _, rfl, rfl, rfl⟩ id) pure

@[grind ←] theorem identifier : Quiet s identifier := by grind [ParseM.identifier]

@[grind ←] theorem propertyWord : Quiet s propertyWord := by grind [ParseM.propertyWord]

@[grind ←] theorem literal : Quiet s literal :=
  bind (of_looks .startNode) fun _ => bind (of_looks .lexer) fun _ => bind (of_looks .source) fun _ => by
    split <;> grind

@[grind ←] theorem stringLiteral : Quiet s stringLiteral := by grind [ParseM.stringLiteral]

/-- The use of a private name is noted, and the class bodies around it stay. -/
@[grind ←] theorem privateIdentifier : Quiet s privateIdentifier := by
  refine bind (of_looks .startNode) fun _ => bind (of_looks .isKind) fun _ => ite ?_ (of_fails (.bind .unexpected))
  refine bind (of_looks .lexer) fun _ => bind next fun _ => bind (of_looks .finishSpan) fun _ =>
    bind (of_looks .options) fun _ => ite (fun p => .seesAt (.change ?_)) pure
  refine .strengthen (P := Since p []) (.ofQuiet (by grind)) ?_
  rintro _ rfl
  exact .still ⟨rfl, .refl _, rfl, length_use .., rfl⟩ id

/-! ### Targets -/

@[grind ←] theorem declare {name : String} {binding : Binding} {pos : Nat} : Quiet s (declare name binding pos) := by
  refine fun p => .lookFor .scopes (V := (· = p.scopes)) (by simp +contextual) ?_
  rintro _ rfl
  refine .change (.strengthen (P := Since p []) (.ofQuiet (by grind)) ?_)
  rintro _ rfl
  exact .still ⟨rfl, .declare .., rfl, rfl, rfl⟩ id

@[grind ←] theorem checkTargetName {binding : Binding} {clashes : Bool} {id : Identifier} :
    Quiet s (checkTargetName binding clashes id) := by grind [ParseM.checkTargetName]

@[grind ←] theorem checkTargets {binding : Binding} {distinct : Bool} {targets : List Target} :
    ∀ {seen : List String}, Quiet s (checkTargets binding distinct seen targets) := by
  induction targets with
  | nil => exact pure
  | cons target rest ih => cases target <;> grind [ParseM.checkTargets]

@[grind ←] theorem checkPattern {binding : Binding} {a : Pattern} : Quiet s (checkPattern binding a) :=
  checkTargets

@[grind ←] theorem checkBinding {binding : Binding} {id : Identifier} : Quiet s (checkBinding binding id) :=
  checkTargetName

@[grind ←] theorem checkParams {params : List Pattern} {distinct : Bool} : Quiet s (checkParams params distinct) :=
  checkTargets

end Quiet

/-! ### Steps that may put faults off -/

/-- As `Leads`, whatever faults are put off. -/
def CoverLeads (s : Setting) (P : Parser → Prop) (m : CoverM α) (Q : α → Parser → Prop) : Prop :=
  ∀ d, Leads s P (m.run d) fun x => Q x.1

/-- As `Adds`, whatever faults are put off. -/
def CoverAdds (s : Setting) (m : CoverM α) (N : α → List Part) : Prop := ∀ d, Adds s (m.run d) fun x => N x.1

def CoverQuiet (s : Setting) (m : CoverM α) : Prop := CoverAdds s m fun _ => []

section Cover

variable {m n : CoverM α} {f : α → CoverM β} {l : ParseM α} {g : α → CoverM β}

theorem CoverAdds.since (h : CoverAdds s m N) : CoverLeads s (Since p ns) m fun a => Since p (ns ++ N a) :=
  fun d => (h d).since

theorem CoverAdds.of (h : ∀ p, CoverLeads s (Since p []) m fun a => Since p (N a)) : CoverAdds s m N :=
  fun d => .of fun p => h p d

namespace CoverLeads

variable {R : α → Parser → Prop}

theorem bind (first : CoverLeads s P m R) (next : ∀ a, CoverLeads s (R a) (f a) Q) : CoverLeads s P (m >>= f) Q :=
  fun d => (first d).bind fun x => next x.1 x.2

theorem weaken {R' : α → Parser → Prop} (h : CoverLeads s P m R) (after : ∀ a q, R a q → R' a q) :
    CoverLeads s P m R' := fun d => (h d).weaken fun x => after x.1

theorem strengthen {P' : Parser → Prop} (h : CoverLeads s P m R) (before : ∀ q, P' q → P q) : CoverLeads s P' m R :=
  fun d => (h d).strengthen before

theorem known {V : Prop} (h : V → CoverLeads s P m R) : CoverLeads s (fun q => V ∧ P q) m R :=
  fun d => .known fun value => h value d

theorem each (h : ∀ q, P q → CoverLeads s (· = q) m R) : CoverLeads s P m R :=
  fun d => .each fun q before => h q before d

theorem start (h : CoverLeads s (Since p []) m R) : CoverLeads s (· = p) m R := fun d => (h d).start

theorem lift (h : Leads s P l R) : CoverLeads s P (liftM l) R := fun _ => h.bind fun _ => .pure fun _ => id

theorem pure {a : α} (after : ∀ q, P q → R a q) : CoverLeads s P (pure a) R := fun _ => .pure after

theorem adds (h : CoverAdds s m N) (next : ∀ a, CoverLeads s (Since p (ns ++ N a)) (f a) Q) :
    CoverLeads s (Since p ns) (m >>= f) Q := h.since.bind next

theorem liftAdds (h : Adds s l N) (next : ∀ a, CoverLeads s (Since p (ns ++ N a)) (g a) Q) :
    CoverLeads s (Since p ns) (liftM l >>= g) Q := (lift h.since).bind next

theorem quiet (h : Quiet s l) (next : ∀ a, CoverLeads s (Since p ns) (g a) Q) :
    CoverLeads s (Since p ns) (liftM l >>= g) Q := bind (lift (.ofQuiet h)) next

theorem coverQuiet (h : CoverQuiet s m) (next : ∀ a, CoverLeads s (Since p ns) (f a) Q) :
    CoverLeads s (Since p ns) (m >>= f) Q :=
  fun d => ((h d).since.weaken fun _ _ after => by simpa using after).bind fun x => next x.1 x.2

theorem lookFor {V : α → Prop} (h : Looks s l) (value : ∀ q a, P q → Runs s l q a q → V a)
    (next : ∀ a, V a → CoverLeads s P (g a) Q) : CoverLeads s P (liftM l >>= g) Q :=
  fun d => by
    have first : Leads s P ((liftM l : CoverM α).run d) fun x q => V x.1 ∧ P q :=
      .lookFor h value fun _ known => .pure fun _ before => ⟨known, before⟩
    exact first.bind fun x => .known fun known => next x.1 known x.2

theorem look (h : Looks s l) (next : ∀ a, CoverLeads s P (g a) Q) : CoverLeads s P (liftM l >>= g) Q :=
  lookFor (V := fun _ => True) h (fun _ _ _ _ => trivial) fun a _ => next a

theorem fails (h : Fails s l) : CoverLeads s P (liftM l) R := lift (.fails h)

/-- A look at the whole state. -/
theorem sees {g : Parser → CoverM β} (next : ∀ q, CoverLeads s P (g q) Q) : CoverLeads s P (getThe Parser >>= g) Q :=
  fun d plain p a q before run => next p d plain p a q before run

theorem deferring {d : Deferred} (h : CoverLeads s P m R) : Leads s P (CoverM.deferring d m) fun x => R x.1 :=
  (h (some d)).bind fun _ => .pure fun _ => id

theorem alone (h : CoverLeads s P m R) : Leads s P m.alone R := (h none).bind fun _ => .pure fun _ => id

/-- A step that fails before anything else is done. -/
theorem failing (h : Fails s l) : CoverLeads s P (liftM l >>= g) Q :=
  bind (fails h (R := fun _ _ => False)) fun _ _ _ _ _ _ before => before.elim

theorem done {a : α} (covered : ∀ x ∈ N a, Covered ns x) :
    CoverLeads s (Since p ns) (Pure.pure a) fun a => Since p (N a) :=
  pure fun _ before => before.weaken covered

variable {c : Prop} [Decidable c]

theorem ite (yes : c → CoverLeads s P m R) (no : ¬ c → CoverLeads s P n R) : CoverLeads s P (if c then m else n) R :=
  fun d => by
    by_cases h : c
    · simpa only [if_pos h] using yes h d
    · simpa only [if_neg h] using no h d

variable {w : CoverM PUnit} {next : PUnit → CoverM β}

theorem «when» (h : CoverQuiet s w) (rest : CoverLeads s (Since p ns) (next ⟨⟩) Q) :
    CoverLeads s (Since p ns) (if c then w >>= next else next ⟨⟩) Q :=
  ite (fun _ => .coverQuiet h fun _ => rest) fun _ => rest

theorem «unless» (h : CoverQuiet s w) (rest : CoverLeads s (Since p ns) (next ⟨⟩) Q) :
    CoverLeads s (Since p ns) (if c then next ⟨⟩ else w >>= next) Q :=
  ite (fun _ => rest) fun _ => .coverQuiet h fun _ => rest

theorem repeatPast {I : α → Parser → Prop} {pass : α → CoverM (Pass α β)} {a : α}
    (each : ∀ a, CoverLeads s (I a) (pass a) (Leads.Ends I Q)) : CoverLeads s (I a) (ParseM.repeatPast a pass) Q := by
  have loop (fuel : Nat) : ∀ a, CoverLeads s (I a) (ParseM.loop pass fuel a) Q := by
    induction fuel with
    | zero => exact fun a => .fails fun _ => ⟨_, _, rfl⟩
    | succ fuel ih =>
      refine fun a => (each a).bind fun x => ?_
      cases x with
      | again next => exact ih next
      | done => exact .pure fun _ => id
  exact .look .source fun _ => loop _ a

end CoverLeads

theorem CoverAdds.deferring {d : Deferred} (h : CoverAdds s m N) : Adds s (CoverM.deferring d m) fun x => N x.1 :=
  .of fun _ => .adds (h (some d)) fun _ => .done fun _ mem => .of_mem (by simpa using mem)

theorem CoverAdds.alone (h : CoverAdds s m N) : Adds s m.alone N :=
  .of fun _ => .adds (h none) fun _ => .done fun _ mem => .of_mem (by simpa using mem)

namespace CoverQuiet

@[grind ←] theorem pure {a : α} : CoverQuiet s (pure a : CoverM α) := .of fun _ => .done (by simp)

@[grind ←] theorem bind (first : CoverQuiet s m) (next : ∀ a, CoverQuiet s (f a)) : CoverQuiet s (m >>= f) :=
  .of fun _ => .coverQuiet first fun a => (next a).since

@[grind ←] theorem lift (quiet : Quiet s l) : CoverQuiet s (liftM l : CoverM α) := .of fun _ => .lift quiet.since

@[grind ←] theorem andM {m n : CoverM Bool} (first : CoverQuiet s m) (second : CoverQuiet s n) :
    CoverQuiet s (m <&&> n) := by
  refine bind first fun b => ?_
  cases b
  · exact pure
  · exact second

@[grind ←] theorem of_onlyDefers (h : OnlyDefers m) : CoverQuiet s m :=
  .of fun _ d => by
    obtain ⟨x, same⟩ := h d
    rw [same]
    exact .done (by simp)

@[grind ←] theorem amend {change : Deferred → Deferred} : CoverQuiet s (CoverM.amend change) :=
  of_onlyDefers fun _ => ⟨_, rfl⟩

@[grind ←] theorem get : CoverQuiet s (get : CoverM (Option Deferred)) := of_onlyDefers fun _ => ⟨_, rfl⟩

@[grind ←] theorem set {d : Option Deferred} : CoverQuiet s (set d : CoverM PUnit) := of_onlyDefers fun _ => ⟨_, rfl⟩

@[grind ←] theorem mustBePattern : CoverQuiet s CoverM.mustBePattern := of_onlyDefers fun _ => ⟨_, rfl⟩

@[grind ←] theorem checkExpression : CoverQuiet s CoverM.checkExpression := by
  refine bind get fun d => ?_
  cases d with
  | none => exact pure
  | some _ => exact lift .check

end CoverQuiet
end Cover

/-! ### Lists -/

section Lists

variable {found : List α} {a : α}

theorem Since.cons (h : Since p (found.flatMap N ++ N a) q) : Since p ((a :: found).flatMap N) q :=
  h.weaken fun x mem => .of_mem (by simpa [or_comm] using mem)

theorem Since.reverse (h : Since p (found.flatMap N) q) : Since p (found.reverse.flatMap N) q :=
  h.weaken fun x mem => .of_mem (by simpa using mem)

theorem Adds.commaSeparated {close : TokenKind} {trailing : Bool} (h : Adds s m N) :
    Adds s (commaSeparated close trailing m) fun as => as.flatMap N := by
  refine .of fun p => .repeatPast (a := []) (I := fun found => Since p (found.flatMap N)) fun found => ?_
  refine .quiet (by grind) fun _ => .ite (fun _ => .pure fun _ => Since.reverse) fun _ =>
    .ite (fun empty => ?_) fun _ => ?_
  · exact .adds h fun a => .pure fun _ before => by simpa [List.isEmpty_iff.mp empty] using before.cons
  · refine .quiet (by grind) fun _ => .quiet (by grind) fun _ => ?_
    exact .ite (fun _ => .pure fun _ => Since.reverse) fun _ => .adds h fun a => .pure fun _ => Since.cons

theorem CoverAdds.commaSeparated {m : CoverM α} {close : TokenKind} {trailing : Bool} (h : CoverAdds s m N) :
    CoverAdds s (commaSeparated close trailing m) fun as => as.flatMap N := by
  refine .of fun p => .repeatPast (a := []) (I := fun found => Since p (found.flatMap N)) fun found => ?_
  refine .quiet .eat fun _ => .ite (fun _ => .pure fun _ => Since.reverse) fun _ => .ite (fun empty => ?_) fun _ => ?_
  · exact .adds h fun a => .pure fun _ before => by simpa [List.isEmpty_iff.mp empty] using before.cons
  · refine .quiet .expect fun _ => .coverQuiet (by grind) fun _ => ?_
    exact .ite (fun _ => .pure fun _ => Since.reverse) fun _ => .adds h fun a => .pure fun _ => Since.cons

theorem Adds.collectUntil {close : TokenKind} (h : Adds s m N) : Adds s (collectUntil close m) fun as => as.flatMap N :=
  .of fun p => .repeatPast (a := []) (I := fun found => Since p (found.flatMap N)) fun _ =>
    .quiet (by grind) fun _ => .ite (fun _ => .pure fun _ => Since.reverse) fun _ => .adds h fun _ =>
      .pure fun _ => Since.cons

end Lists

/-- A node that can be recast has its children as its parts. -/
theorem parts_of_isRecast {n : Node} (recast : n.isRecast = true) : n.parts = n.children.map (none, ·) := by
  cases n with
  | expression e => cases e <;> first | rfl | cases recast
  | objectMember m =>
    cases m with
    | property _ form _ key value => cases value <;> first | cases form <;> rfl | cases recast
    | spread => rfl
  | _ => first | rfl | cases recast

theorem isFree_of_isRecast {n : Node} (recast : n.isRecast = true) : n.isFree = true := by
  cases n with
  | expression e => cases e <;> first | rfl | cases recast
  | _ => first | rfl | cases recast

/-- A pattern is covered by the expression that it was. -/
theorem covering : Covering fun ns n => Covered (ns.map ((none : Option Frame), ·)) (none, n) where
  of_mem mem := .of_mem (List.mem_map_of_mem mem)
  trans first second := first.trans (by simpa using second)
  recast {m n} recast recast' covered := by
    refine .of_parts (isFree_of_isRecast recast) fun x part => ?_
    rw [parts_of_isRecast recast] at part
    obtain ⟨c, child, rfl⟩ := List.mem_map.mp part
    refine (covered c child).trans fun y mem => .of_part (n := m) ?_
    rwa [parts_of_isRecast recast']

end ScriptSyntax.Ambient
