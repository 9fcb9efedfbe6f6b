import ScriptSyntax.Parser.Program
import ScriptSyntax.Proofs.Lexer.Reach
import ScriptSyntax.Proofs.Parser.ForStatement
import ScriptSyntax.Proofs.Parser.ModuleItem

/-!
The grammar to any depth of nesting reads what it gives, and so does the parse of a program.
-/

namespace ScriptSyntax

open Runs

variable {s : Setting} {p q r : Parser} {g : Grammar} {a : Statement} {extension : ParseM (Option Expression)}

/-- How deep the productions nest that read something is left open. -/
theorem Passage.renest {d d' : Option Deferred} {moved : Bool} {ns : List Node} {n m : Nat}
    (h : Passage s { p with nesting := n } d moved ns q d') : Passage s p d moved ns { q with nesting := m } d' :=
  { h with ready := { h.ready with } }

namespace Grammar

theorem checkFunctionPlace_same {context : Option StatementContext} {u : Unit}
    (run : Runs s (checkFunctionPlace context) p u q) : q = p := by
  cases context <;> simp [checkFunctionPlace] at run
  · exact run
  · exact run.2

namespace Faithful

variable (hg : g.Faithful s)
include hg

theorem statementLevel {context : Option StatementContext} {topLevel : Bool}
    (run : Runs s (g.statementLevel context topLevel) p a q) :
    Reads s none p.lexer q.lexer true [.statement a] := by
  simp [Grammar.statementLevel] at run
  rcases run with ⟨r, look, run⟩ | ⟨r, look, run⟩
  · obtain ⟨rfl, -⟩ := Reads.atLet_spec look
    have untracked {kind : TokenKind} (here : r.lexer.kind = kind) (h : kind.isTracked = false) :
        r.lexer.kind.isTracked = false := here ▸ h
    split at run
    case h_1 here => exact jump (untracked here rfl) rfl run
    case h_2 here => exact jump (untracked here rfl) rfl run
    case h_3 here => exact debuggerStatement (untracked here rfl) rfl run
    case h_4 here => exact hg.doWhileStatement (untracked here rfl) rfl run
    case h_5 here => exact hg.forStatement (untracked here rfl) rfl run
    case h_6 here =>
      simp [Grammar.functionStatement] at run
      obtain ⟨p₁, checked, p₂, moved, f, function, rfl⟩ := run
      obtain rfl := checkFunctionPlace_same checked
      exact hg.functionAfter (.next moved here rfl) rfl function
    case h_7 here =>
      simp at run
      obtain ⟨-, c, definition, rfl⟩ := run
      obtain ⟨read, start, stop⟩ := hg.classDefinition definition here
      exact read.node rfl start stop trivial
    case h_8 here => exact hg.ifStatement (untracked here rfl) rfl run
    case h_9 here => exact hg.returnStatement (untracked here rfl) rfl run
    case h_10 here => exact hg.switchStatement (untracked here rfl) rfl run
    case h_11 here => exact hg.throwStatement (untracked here rfl) rfl run
    case h_12 here => exact hg.tryStatement (untracked here rfl) rfl run
    case h_13 here => exact hg.variableStatement (untracked here rfl) rfl run
    case h_14 here => exact hg.variableStatement (untracked here rfl) rfl run
    case h_15 here => exact hg.whileStatement (untracked here rfl) rfl run
    case h_16 here => exact hg.withStatement (untracked here rfl) rfl run
    case h_17 =>
      obtain ⟨b, block, rfl⟩ := map_iff.mp run
      exact hg.block block
    case h_18 here =>
      simp at run
      obtain ⟨moved, rfl⟩ := run
      exact (Reads.next moved here rfl).node rfl rfl rfl trivial
    case h_19 here => exact hg.exportStatement (untracked here rfl) rfl run
    case h_20 here => exact hg.importStatement (untracked here rfl) rfl run
    case h_21 => exact hg.wordStatement rfl run
  · obtain ⟨rfl, name⟩ := Reads.atLet_spec look
    exact hg.variableStatement (by simp [name rfl, TokenKind.isTracked]) rfl run

/-- An extension that reads nothing leaves the next level faithful. -/
theorem level
    (noExtension : ∀ {p q : Parser} {x : Option Expression}, Runs s extension p x q → x = none ∧ q = p) :
    (g.level extension).Faithful s where
  statement run := by
    obtain ⟨-, r, inner, rfl⟩ := nested_iff.mp run
    have read := hg.statementLevel inner
    exact read
  assignment {init p q d d' e} ready run := by
    obtain ⟨-, r, inner, rfl⟩ := CoverRuns.nested_iff.mp run
    have deeper : Ready s { p with nesting := p.nesting + 1 } d := { ready with }
    have ⟨item, notSpread⟩ := hg.assignmentLevel deeper inner
    exact ⟨{ item with passage := item.passage.renest }, notSpread⟩
  unary {afterUnary inUpdate init p q d d' e} ready run := by
    obtain ⟨-, r, inner, rfl⟩ := CoverRuns.nested_iff.mp run
    have deeper : Ready s { p with nesting := p.nesting + 1 } d := { ready with }
    have offered := hg.unaryLevel deeper inner
    exact { offered with passage := offered.passage.renest }
  atom {init forNew p q d d' e} ready run := by
    obtain ⟨-, r, inner, rfl⟩ := CoverRuns.nested_iff.mp run
    have deeper : Ready s { p with nesting := p.nesting + 1 } d := { ready with }
    have offered := hg.atomLevel deeper noExtension inner
    exact { offered with passage := offered.passage.renest }
  bindingAtom run := by
    obtain ⟨-, r, inner, rfl⟩ := nested_iff.mp run
    have read := hg.bindingLevel inner
    exact read

end Faithful

/-- To any depth of nesting productions read what they give. -/
theorem ofDepth_faithful
    (noExtension : ∀ {p q : Parser} {x : Option Expression}, Runs s extension p x q → x = none ∧ q = p)
    (depth : Nat) : (ofDepth extension depth).Faithful s := by
  induction depth with
  | zero =>
    exact
      { statement := fun run => (Runs.tooDeep_iff run).elim
        assignment := fun _ run => (Runs.tooDeep_iff (CoverRuns.liftM_iff.mp run).1).elim
        unary := fun _ run => (Runs.tooDeep_iff (CoverRuns.liftM_iff.mp run).1).elim
        atom := fun _ run => (Runs.tooDeep_iff (CoverRuns.liftM_iff.mp run).1).elim
        bindingAtom := fun run => (Runs.tooDeep_iff run).elim }
  | succ depth ih => exact ih.level noExtension

end Grammar

/-! ### Programs -/

theorem ParseM.checkExports_same {u : Unit} (run : Runs s checkExports p u q) : q = p := by
  simp [ParseM.checkExports] at run
  rcases run with ⟨-, run⟩ | ⟨-, same⟩
  · split at run
    · simp at run
    · exact (pure_iff.mp run).2
  · exact same

/-- What the parse of a program from an offset leaves behind. -/
structure Parsed (s : Setting) (start : Nat) (a : Program) (l : Lexer) : Prop where
  sound : (Node.program a).Sound s.edition none
  starts : a.span.start = start
  stops : a.span.stop = s.source.size
  keeps : ∀ t ∈ l.tokens, t.kind.isTracked = true → (Node.program a).Keeps t
  tokenized : Tokenized s.source start l.tokens.reverse l.comments.reverse

theorem Grammar.Faithful.program (hg : g.Faithful s) (plain : s.reader = none) {a : Program} {start : Nat}
    (begins : p.lexer.Begins s.source start) (run : Runs s (ParseM.program g) p a q) :
    Parsed s start a q.lexer := by
  simp [ParseM.program] at run
  obtain ⟨l, first, body, p₁, collected, p₂, checked, found, p₃, marked, moved, rfl⟩ := run
  obtain ⟨ordered, accounted, noTokens, start_le⟩ := begins.first plain first
  obtain ⟨read, ended⟩ := Reads.collectUntil hg.statement collected
  obtain rfl := ParseM.checkExports_same checked
  obtain ⟨read, rfl⟩ := read.withDirectives marked
  have atEnd := (read plain ordered).ordered.at_end ended
  obtain ⟨l', step, rfl⟩ := Runs.ofLexer_iff.mp (afterWord_of_next moved)
  have whole : Stretch s none l l' true (found.map .statement) := by
    simpa using (read.trans (.next moved ended rfl)) plain ordered
  obtain ⟨ordered', last, tokens, -⟩ := next_spec plain (read plain ordered).ordered step
  have stop : l'.last.stop = s.source.size := last ▸ atEnd.2
  have token : l'.token.start = s.source.size :=
    Nat.le_antisymm (Nat.le_trans ordered'.token_le (Nat.le_trans ordered'.token_le_pos ordered'.pos_le))
      (stop ▸ ordered'.last_le_token)
  refine ⟨?_, begins.token, stop, fun t mem tracked => ?_, ?_⟩
  · exact .of_settled_children (whole.nested rfl (begins.token ▸ start_le) rfl) trivial whole.sound
  · obtain ⟨new, same, kept⟩ := whole.tokens
    rw [noTokens, List.append_nil] at same
    obtain ⟨-, n, child, keeps⟩ := kept t (same ▸ mem) tracked
    exact keeps.of_within (.of_child child)
  · have account := (whole.accounted accounted).account
    dsimp only
    rw [token, tokens] at account
    rw [tokens]
    exact account.tokenized ended atEnd

theorem Setting.parseProgram_parsed {start : Nat} {a : Program} {l : Lexer} (plain : s.reader = none)
    (run : s.parseProgram start = (.ok a, l)) : Parsed s (min start s.source.size) a l := by
  simp only [Setting.parseProgram, Setting.runParser] at run
  split at run
  · next found q ran =>
    obtain ⟨rfl, rfl⟩ : found = a ∧ q.lexer = l := by simpa using run
    have faithful : (Grammar.ofDepth ParseM.noExtension ParseM.maxDepth).Faithful s :=
      Grammar.ofDepth_faithful (by simp [ParseM.noExtension]) ParseM.maxDepth
    have begins := s.lexerAt_begins start
    refine faithful.program plain (p := s.parserAt start) ?_ ran
    exact ⟨begins.token, begins.last, begins.le_pos, begins.pos_le, begins.tokens, begins.account⟩
  · simp at run

end ScriptSyntax
