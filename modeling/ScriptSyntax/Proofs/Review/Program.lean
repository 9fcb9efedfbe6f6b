import ScriptSyntax.Parser.Program
import ScriptSyntax.Proofs.Ambient.Program
import ScriptSyntax.Proofs.Parser.Program
import ScriptSyntax.Proofs.Review.Atom
import ScriptSyntax.Proofs.Review.ForStatement
import ScriptSyntax.Proofs.Review.ModuleItem

/-!
The grammar to any depth, strict and lenient, and programs read by both: the parse of a program goes the way of a
lenient one, until it meets the first jump or the first private name that the lenient one passes over.
-/

namespace ScriptSyntax

open Node ParseM Grammar

variable {s : Setting} {p q : Parser} {b : Bool} {ns : List Node} {start : Nat} {topLevel : Bool}
  {context : Option StatementContext}

namespace Grammar

/-- A statement, or a jump wherever it may lead. -/
def anyStatement (g : Grammar) (context : Option StatementContext) (topLevel : Bool) : ParseM Statement := do
  match ← kind with
  | .kwBreak => anyJump (← startNode) true
  | .kwContinue => anyJump (← startNode) false
  | _ => g.statementLevel context topLevel

/-- The grammar to a depth of nested productions, in which jumps may lead anywhere. -/
def lenient (extension : ParseM (Option Expression)) : Nat → Grammar
  | 0 => ofDepth extension 0
  | depth + 1 =>
    { (lenient extension depth).level extension with
      statement := fun context topLevel => nested ((lenient extension depth).anyStatement context topLevel) }

end Grammar

namespace Quiet

@[grind ←] theorem checkFunctionPlace : Quiet s (checkFunctionPlace context) := by
  cases context with
  | none => exact pure
  | some => grind [Grammar.checkFunctionPlace]

@[grind ←] theorem checkExports : Quiet s checkExports := by grind [ParseM.checkExports]

end Quiet

/-! ### Nesting -/

theorem Trace.renest {log : Log} {n m : Nat} (h : Trace s { p with nesting := n } q b ns log) :
    Trace s p { q with nesting := m } b ns log :=
  { h with ready := { h.ready with } }

theorem Log.Blames.renest {log : Log} {e : SyntaxError} {n : Nat} :
    log.Blames { p with nesting := n } e → log.Blames p e
  | .jump isJump first => .jump isJump first
  | .use outside name isUse first => .use outside name isUse first

section Nesting

variable {α : Type} {m₀ m₁ : ParseM α} {n₀ n₁ : CoverM α} {N : α → List Node}

/-- Both readings nest one level deeper, or neither does. -/
theorem Tracks.nested {R Q : α → Parser → Log → Prop}
    (h : Tracks s (At { p with nesting := p.nesting + 1 }) m₀ m₁ R)
    (after : ∀ a q log, R a q log → Q a { q with nesting := q.nesting - 1 } log) :
    Tracks s (At p) (ParseM.nested m₀) (ParseM.nested m₁) Q := by
  rintro q _ ⟨rfl, rfl⟩
  have inner := h _ {} ⟨rfl, rfl⟩
  unfold ParseM.nested
  rw [show q.bare.nesting = q.nesting from rfl]
  by_cases deep : maxDepth ≤ q.nesting
  · simp only [if_pos deep]
    exact Tracks.fails (P := At q) (R := Q) .tooDeep .tooDeep q {} ⟨rfl, rfl⟩
  simp only [if_neg deep]
  rw [show ({ q with nesting := q.nesting + 1 } : Parser).bare =
    { q.bare with nesting := q.nesting + 1 } from rfl] at inner
  cases lenient : m₁ s { q with nesting := q.nesting + 1 } with
  | error e r =>
    simp only [lenient] at inner
    obtain ⟨e, r, failed⟩ := inner
    simp only [failed]
    exact ⟨e, _, rfl⟩
  | ok a r =>
    simp only [lenient] at inner
    obtain ⟨new, depth, before, outcome⟩ := inner
    refine ⟨new, depth, after a r _ before, ?_⟩
    generalize m₀ s { q.bare with nesting := q.nesting + 1 } = result at outcome ⊢
    cases outcome with
    | passes clean => exact .passes clean
    | stops blames => exact .stops blames.renest

theorem Adds.nested {moved : Bool} (h : Adds s moved m₀ m₁ N) : Adds s moved (ParseM.nested m₀) (ParseM.nested m₁) N :=
  fun p ready =>
    have deeper : Steady s { p with nesting := p.nesting + 1 } := { ready with }
    (h _ deeper).nested fun _ _ _ since => ⟨since.1, since.2.renest⟩

theorem CoverAdds.nested {moved : Bool} (h : CoverAdds s moved n₀ n₁ N) :
    CoverAdds s moved (fun d => ParseM.nested (n₀ d)) (fun d => ParseM.nested (n₁ d)) N :=
  fun d => Adds.nested (h d)

end Nesting

theorem LabelKind.ofToken?_eq_none {kind : TokenKind} (noDo : kind = .kwDo → False) (noFor : kind = .kwFor → False)
    (noSwitch : kind = .kwSwitch → False) (noWhile : kind = .kwWhile → False) : ofToken? kind = none := by
  have noLoop : kind.isLoop = false := by
    unfold TokenKind.isLoop
    split
    · exact (noFor rfl).elim
    · exact (noWhile rfl).elim
    · exact (noDo rfl).elim
    · rfl
  simp [ofToken?, noLoop, show kind ≠ .kwSwitch from noSwitch]

namespace Grammar.Reviewed

variable {g₀ g₁ : Grammar} (hg : g₀.Reviewed s g₁)
include hg

/-- Statements that begin with no jump. -/
theorem statementLevel (ready : Steady s p) (front : p.Front) (noBreak : p.lexer.kind ≠ .kwBreak)
    (noContinue : p.lexer.kind ≠ .kwContinue) :
    Tracks s (At p) (g₀.statementLevel context topLevel) (g₁.statementLevel context topLevel) (Labeled s p) := by
  refine .lookAt .startNode fun start begins => .lookAt .atLet fun atLet here => .ite (fun yes => ?_) fun _ =>
    .lookAt .kind fun kind same => ?_
  · have name := (Reads.atLet_spec here).2 yes
    exact .labeled (hg.variableStatement p ready) front (by rw [name]; exact .variableStatement)
  · obtain rfl : kind = p.lexer.kind := by simpa [eq_comm] using same
    have here : start.pos = p.lexer.token.start := by simp_all
    have known {kind : TokenKind} (label : Option LabelKind) {m₀ m₁ : ParseM Statement} {b : Bool}
        (same : p.lexer.kind = kind) (h : Tracks s (At p) m₀ m₁ fun a => Since s p b [.statement a])
        (gives : ReturnsKind s label m₁) (is : LabelKind.ofToken? kind = label) :
        Tracks s (At p) m₀ m₁ (Labeled s p) := .labeled h front (same ▸ is ▸ gives)
    have solid {kind : TokenKind} (same : p.lexer.kind = kind) (is : kind.isSolid = true) :
        p.lexer.kind.isSolid = true := same ▸ is
    split
    case h_1 is => exact absurd is noBreak
    case h_2 is => exact absurd is noContinue
    case h_3 is => exact known _ is (debuggerStatement_adds p ready) .debuggerStatement rfl
    case h_4 is => exact known _ is (hg.doWhileStatement ready (solid is rfl)) .doWhileStatement rfl
    case h_5 is => exact known _ is (hg.forStatement ready (solid is rfl)) .forStatement rfl
    case h_6 is =>
      refine known none is (.start ready (.quiet .checkFunctionPlace fun _ => hg.functionStatement.since)) ?_ rfl
      exact .after fun _ => .functionStatement
    case h_7 is =>
      refine known none (b := false) is
        (.start ready (.when (.of_fails .unexpected) <| .adds hg.classDefinition fun _ => .done id ?_)) ?_ rfl
      · exact List.forall_mem_singleton.mpr .classDeclaration
      · exact .ite (.after fun _ => .after fun _ => .pure rfl) (.after fun _ => .pure rfl)
    case h_8 is => exact known _ is (hg.ifStatement p ready) .ifStatement rfl
    case h_9 is => exact known _ is (hg.returnStatement p ready) .returnStatement rfl
    case h_10 is => exact known _ is (hg.switchStatement p ready) .switchStatement rfl
    case h_11 is => exact known _ is (hg.throwStatement p ready) .throwStatement rfl
    case h_12 is => exact known _ is (hg.tryStatement p ready) .tryStatement rfl
    case h_13 is => exact known _ is (hg.variableStatement p ready) .variableStatement rfl
    case h_14 is => exact known _ is (hg.variableStatement p ready) .variableStatement rfl
    case h_15 is => exact known _ is (hg.whileStatement p ready) .whileStatement rfl
    case h_16 is => exact known _ is (hg.withStatement p ready) .withStatement rfl
    case h_17 is =>
      refine known none (b := false) is (.start ready (.adds hg.block fun _ => .done (by simp) fun _ mem =>
        .of_mem mem)) ?_ rfl
      exact .after fun _ => .pure rfl
    case h_18 is =>
      refine known none (b := false) is (.start ready (.quiet .next fun _ => .look .finishSpan fun _ =>
        .done (by simp) (.leaf rfl rfl))) ?_ rfl
      exact .after fun _ => .finish fun _ => rfl
    case h_19 is => exact known _ is (hg.exportStatement ready (solid is rfl)) .exportStatement rfl
    case h_20 is => exact known _ is (hg.importStatement p ready) .importStatement rfl
    case h_21 =>
      exact hg.wordStatement ready front here (LabelKind.ofToken?_eq_none ‹_› ‹_› ‹_› ‹_›)

omit hg in
/-- At the word of a jump the strict reading takes the jump. -/
theorem jumpLevel {isBreak : Bool} {kind : TokenKind} (ready : Steady s p) (front : p.Front) (is : p.lexer.kind = kind)
    (word : kind = bif isBreak then .kwBreak else .kwContinue) :
    Tracks s (At p) (g₀.statementLevel context topLevel)
      (do anyJump (← startNode) isBreak) (Labeled s p) := by
  refine .lookRight .startNode fun start begins => .lookLeft .startNode fun start' begins' =>
    .lookLeft .atLet fun atLet here => ?_
  obtain rfl : start' = start := by simp_all
  have begins : start'.pos = p.lexer.token.start := by simp_all
  obtain rfl : atLet = false := by
    cases atLet with
    | true =>
      have name := is.symm.trans ((Reads.atLet_spec here).2 rfl)
      cases isBreak <;> cases word.symm.trans name
    | false => rfl
  refine .lookLeft .kind fun kind' same => ?_
  obtain rfl : kind' = kind := by simpa [is, eq_comm] using same
  cases isBreak with
  | true =>
    subst word
    refine .labeled (jump_tracks ready (.inl is) begins) front ?_
    rw [is]
    exact .after fun _ => .after fun _ => .after fun _ => .pure rfl
  | false =>
    subst word
    refine .labeled (jump_tracks ready (.inr is) begins) front ?_
    rw [is]
    exact .after fun _ => .after fun _ => .after fun _ => .pure rfl

theorem anyStatement (ready : Steady s p) (front : p.Front) :
    Tracks s (At p) (g₀.statementLevel context topLevel) (g₁.anyStatement context topLevel) (Labeled s p) := by
  refine .lookRight .kind fun kind same => ?_
  obtain rfl : kind = p.lexer.kind := by simpa [eq_comm] using same
  split
  case h_1 is => exact jumpLevel ready front is rfl
  case h_2 is => exact jumpLevel ready front is rfl
  case h_3 noBreak noContinue => exact hg.statementLevel ready front noBreak noContinue

theorem level : (g₀.level noExtension).Reviewed s
    { g₁.level noExtension with
      statement := fun context topLevel => ParseM.nested (g₁.anyStatement context topLevel) } where
  statement _ _ p ready front :=
    have deeper : Steady s { p with nesting := p.nesting + 1 } := { ready with }
    (hg.anyStatement deeper front).nested fun _ _ _ after => ⟨after.labels, after.trace.renest⟩
  assignment _ := .nested hg.assignmentLevel
  unary _ _ _ := .nested hg.unaryLevel
  atom _ _ := .nested hg.atomLevel
  bindingAtom := .nested hg.bindingLevel

end Grammar.Reviewed

/-- The strict reading follows the lenient one, however deep productions may nest. -/
theorem Grammar.reviewed : ∀ depth, (ofDepth noExtension depth).Reviewed s (lenient noExtension depth)
  | 0 =>
    { statement := fun _ _ _ _ _ => .fails .tooDeep .tooDeep
      assignment := fun _ _ _ _ => .fails .tooDeep .tooDeep
      unary := fun _ _ _ _ _ _ => .fails .tooDeep .tooDeep
      atom := fun _ _ _ _ _ => .fails .tooDeep .tooDeep
      bindingAtom := fun _ _ => .fails .tooDeep .tooDeep }
  | depth + 1 => (reviewed depth).level

/-! ### Whole programs -/

/-- Marks of statements are those of the program that they make up. -/
theorem Node.Covered.program {a : Program} {ns : List Node} (covered : ∀ st ∈ a.body, (statement st).Covered ns) :
    (Node.program a).Covered ns :=
  .of_isPlain rfl fun c child => by
    obtain ⟨st, mem, rfl⟩ := List.mem_map.mp child
    exact covered st mem

theorem Looks.withDirectives {body : List Statement} : Looks s (withDirectives body) := by
  unfold ParseM.withDirectives
  exact .bind .since fun _ => .ite (.bind .source fun _ => .pure) .pure

/-- What is read of a program after its first token. -/
def ParseM.afterFirst (g : Grammar) (start : NodeStart) : ParseM Program := do
  let body ← collectUntil .eof (g.statement none true)
  checkExports
  let body ← ParseM.withDirectives body
  next
  return ⟨← finishSpan start, body, (← options).sourceType⟩

/-- The first token is read from where a lexer begins. -/
theorem Tracks.firstToken (plain : s.reader = none) (begins : p.lexer.Begins s.source start) (enclosed : 0 < p.depth)
    (unlabeled : p.labels = []) : Tracks s (At p) (ofLexer LexM.readNext) (ofLexer LexM.readNext) fun _ q log =>
      (Steady s q ∧ q.labels = []) ∧ log = {} := by
  rintro q _ ⟨rfl, rfl⟩
  simp only [ParseM.ofLexer, show q.bare.lexer = q.lexer from rfl]
  cases first : LexM.readNext s q.lexer with
  | error e l => exact ⟨_, _, rfl⟩
  | ok u l =>
    have ordered := (begins.first plain first).1
    exact ⟨{}, rfl, ⟨⟨⟨plain, ordered, enclosed, by simp [unlabeled]⟩, unlabeled⟩, rfl⟩, .passes Log.clean_empty⟩

namespace Grammar.Reviewed

variable {g₀ g₁ : Grammar} (hg : g₀.Reviewed s g₁)
include hg

theorem afterFirst {start : NodeStart} (ready : Steady s p) (empty : p.labels = []) :
    Tracks s (At p) (ParseM.afterFirst g₀ start) (ParseM.afterFirst g₁ start) fun a => Since s p true [.program a] := by
  have behind : p.Behind := fun l mem => by simp [empty] at mem
  refine .startBehind ready behind (.behind (.collectUntil hg.statement_behind) fun body =>
    .quiet (by grind) fun _ => ?_)
  have finish (marked : List Statement) (covered : ∀ st ∈ marked, (Node.statement st).Covered (body.map .statement)) :
      Tracks s (Since s p true ([] ++ body.flatMap fun a => [Node.statement a]))
        (do
          next
          return (⟨← finishSpan start, marked, (← options).sourceType⟩ : Program))
        (do
          next
          return (⟨← finishSpan start, marked, (← options).sourceType⟩ : Program))
        fun a => Since s p true [.program a] := by
    refine .quiet (by grind) fun _ => .look .finishSpan fun _ => .look .options fun _ => .done id ?_
    refine List.forall_mem_singleton.mpr (.program fun st mem => ?_)
    simpa [List.map_eq_flatMap] using covered st mem
  refine .lookFor .withDirectives (V := fun marked => ∀ st ∈ marked, (Node.statement st).Covered (body.map .statement))
    (fun q marked run => ?_) finish
  simp [ParseM.withDirectives] at run
  rcases run with ⟨-, rfl⟩ | ⟨-, rfl⟩
  · exact fun st mem => covered_of_markDirectives _ (List.mem_map_of_mem mem)
  · exact fun st mem => .of_mem (List.mem_map_of_mem mem)

end Grammar.Reviewed

/-! ### Parses -/

namespace Setting

/-- A parser that reads leniently: a class body around the whole program takes the uses of private names that
nothing declares. -/
def lenientAt (s : Setting) (start : Nat) : Parser :=
  { s.parserAt start with privateNames := PrivateNames.enter {} }

/-- Parses a program from an offset on, wherever jumps may lead and whether or not private names are declared. -/
def parseLeniently (s : Setting) (start : Nat := 0) : Except SyntaxError Program × Lexer :=
  match ParseM.program (.lenient noExtension maxDepth) s (s.lenientAt start) with
  | .ok a p => (.ok a, p.lexer)
  | .error e p => (.error e, p.lexer)

@[simp] theorem bare_lenientAt : (s.lenientAt start).bare = s.parserAt start := rfl

end Setting

/-- What a lenient parse that leaves the lexer `l` behind tells of a program: the log has what it passes over. -/
structure Log.Tells (log : Log) (s : Setting) (a : Program) (l : Lexer) : Prop where
  sorted : log.uses.Pairwise (·.2 < ·.2)
  read : ∀ u ∈ log.uses, ∃ t ∈ l.tokens, t.IsUse u
  jumped : ∀ pos ∈ log.jumps, ∃ t ∈ l.tokens, t.IsJump pos
  marks : ∀ k, (Node.program a).Has k → ∃ start stop, log.Admits s [] start stop k

/-- The parse of a program follows the lenient one up to the first fault in the log. -/
inductive Verdict (s : Setting) (start : Nat) (log : Log) (a : Program) (l : Lexer) : Prop
  | passes (jumps : log.jumps = []) (uses : log.uses = []) (run : s.parseProgram start = (.ok a, l))
  | stops {e : SyntaxError} {l' : Lexer} (run : s.parseProgram start = (.error e, l'))
    (blames : log.Blames (s.lenientAt start) e)

/-- The parse of a program from where a lexer begins. -/
theorem Grammar.Reviewed.program {g₀ g₁ : Grammar} (hg : g₀.Reviewed s g₁) (plain : s.reader = none)
    (begins : p.lexer.Begins s.source start) (enclosed : 0 < p.depth) (unlabeled : p.labels = []) :
    Tracks s (At p) (ParseM.program g₀) (ParseM.program g₁) fun a q log =>
      ∃ p', p'.labels = [] ∧ Since s p' true [.program a] q log := by
  refine .lookAt .startNode fun start _ => (Tracks.firstToken plain begins enclosed unlabeled).bind fun _ => .resume ?_
  rintro q _ ⟨⟨ready, unlabeled⟩, rfl⟩
  exact (hg.afterFirst ready unlabeled).weaken fun a r new after => ⟨q, unlabeled, after⟩

/-- Programs are read strictly as far as the log of the lenient reading lets them. -/
theorem Setting.parseProgram_follows (plain : s.reader = none) (start : Nat) :
    match s.parseLeniently start with
    | (.error _, _) => ∃ e l, s.parseProgram start = (.error e, l)
    | (.ok a, l) => ∃ log : Log, log.Tells s a l ∧ Verdict s start log a l := by
  have begins := s.lexerAt_begins start
  have tracks := (Grammar.reviewed (s := s) maxDepth).program (p := s.lenientAt start) plain
    ⟨begins.token, begins.last, begins.le_pos, begins.pos_le, begins.tokens, begins.account⟩ Nat.one_pos
      rfl _ {} ⟨rfl, rfl⟩
  -- The equation of the definition is not asked for: finding it would run the parser.
  delta Setting.parseLeniently
  simp only [Setting.parseProgram, Setting.runParser]
  rw [bare_lenientAt] at tracks
  cases run : ParseM.program (.lenient noExtension maxDepth) s (s.lenientAt start) with
  | error e q =>
    simp only [run] at tracks
    obtain ⟨e, r, failed⟩ := tracks
    exact ⟨e, r.lexer, by simp only [ReaderT.run, EStateM.run, failed]⟩
  | ok a q =>
    simp only [run] at tracks
    obtain ⟨log, -, ⟨p', unlabeled, since⟩, outcome⟩ := tracks
    have labels : q.labels = [] := since.1.trans unlabeled
    refine ⟨log, ⟨since.2.placed.sorted, since.2.read, since.2.jumped, fun k has => ?_⟩, ?_⟩
    · exact ⟨_, _, labels ▸ since.2.marks _ (.head _) k has⟩
    generalize strict : ParseM.program (.ofDepth noExtension maxDepth) s (s.parserAt start) = result at outcome
    cases outcome with
    | passes clean =>
      have run : s.parseProgram start = (.ok a, q.lexer) := by
        simp only [Setting.parseProgram, Setting.runParser, ReaderT.run, EStateM.run, strict]
        rfl
      exact .passes clean.1 (clean.2 rfl) run
    | @stops e r blames =>
      have run : s.parseProgram start = (.error e, r.lexer) := by
        simp only [Setting.parseProgram, Setting.runParser, ReaderT.run, EStateM.run, strict]
      exact .stops run blames

namespace Setting

variable {a : Program} {l l' : Lexer} {e : SyntaxError}

/-- Nothing in an accepted program is passed over. -/
theorem accepted_tells (plain : s.reader = none) (run : s.parseProgram start = (.ok a, l)) :
    ∃ log : Log, log.Tells s a l ∧ log.jumps = [] ∧ log.uses = [] := by
  have follows := s.parseProgram_follows plain start
  split at follows
  · obtain ⟨e, l', failed⟩ := follows
    rw [run] at failed
    cases failed
  · obtain ⟨log, tells, verdict⟩ := follows
    cases verdict with
    | passes jumps uses run' =>
      cases run.symm.trans run'
      exact ⟨log, tells, jumps, uses⟩
    | stops run' => cases run.symm.trans run'

/-- A program that is accepted leniently only is refused for the first thing passed over. -/
theorem refused_tells (plain : s.reader = none) (run : s.parseProgram start = (.error e, l))
    (lenient : s.parseLeniently start = (.ok a, l')) :
    ∃ log : Log, log.Tells s a l' ∧ log.Blames (s.lenientAt start) e := by
  have follows := s.parseProgram_follows plain start
  rw [lenient] at follows
  obtain ⟨log, tells, verdict⟩ := follows
  cases verdict with
  | passes jumps uses run' => cases run.symm.trans run'
  | stops run' blames =>
    cases run.symm.trans run'
    exact ⟨log, tells, blames⟩

end Setting
end ScriptSyntax
