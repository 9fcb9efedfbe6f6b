import ScriptSyntax.Parser.Statement
import ScriptSyntax.Proofs.Lexer.Lookahead
import ScriptSyntax.Proofs.Parser.Operator

/-!
Runs that read statements, apart from loops over a head and from imports and exports.
-/

namespace ScriptSyntax

open Runs

variable {s : Setting} {p q r : Parser} {g : Grammar} {start : NodeStart} {a : Statement} {l : Lexer}
  {b : Bool}

theorem TokenKind.untracked_of_isKeyword {kind : TokenKind} (h : kind.isKeyword = true) :
    kind.isTracked = false := by
  cases kind <;> first | rfl | cases h

theorem TokenKind.not_templatePart_of_isKeyword {kind : TokenKind} (h : kind.isKeyword = true) :
    kind.isTemplatePart = false := by
  cases kind <;> first | rfl | cases h

/-! ### Looking ahead -/

namespace Reads

theorem atLet_spec {context : Option StatementContext} (run : Runs s (ParseM.atLet context) p b q) :
    q = p ∧ (b = true → p.lexer.kind = .name) := by
  simp [ParseM.atLet] at run
  rcases run with ⟨⟨-, ⟨name, -⟩, -⟩, ⟨-, -, rfl⟩ | ⟨-, -, rfl⟩⟩ | ⟨-, rfl, rfl⟩
  · exact ⟨rfl, fun _ => name⟩
  · exact ⟨rfl, fun _ => name⟩
  · exact ⟨rfl, nofun⟩

theorem atUsing_spec {inHead : Bool} (run : Runs s (ParseM.atUsing inHead) p b q) :
    q = p ∧ (b = true → p.lexer.kind = .name) := by
  simp [ParseM.atUsing] at run
  rcases run with ⟨⟨-, ⟨name, -⟩, -⟩, -, rfl⟩ | ⟨-, rfl, rfl⟩
  · exact ⟨rfl, fun _ => name⟩
  · exact ⟨rfl, nofun⟩

/-- A word seen ahead on the same line begins where the gap ends. -/
theorem charAt_of_sameLine {source : Source} {offset : Nat} {test : Nat → Bool} {c : Char} (word : String)
    (first : word.toList.head? = some c)
    (sees : ∀ next, test next = true → source.hasWord word next = true)
    (ahead : (source.sameLine? offset).any test = true) :
    source.charAt (source.skipBlank offset) = some c := by
  simp only [Source.sameLine?] at ahead
  split at ahead
  · cases ahead
  · exact Source.charAt_of_hasWord (sees _ ahead) first

theorem atAsyncFunction_spec (run : Runs s ParseM.atAsyncFunction p b q) :
    q = p ∧ (b = true → p.lexer.kind = .name ∧
      s.source.charAt (s.source.skipBlank p.lexer.pos) = some 'f') := by
  simp [ParseM.atAsyncFunction] at run
  rcases run with ⟨⟨-, ⟨name, -⟩, -⟩, rfl, rfl⟩ | ⟨-, rfl, rfl⟩
  · exact ⟨rfl, fun ahead => ⟨name, charAt_of_sameLine "function" rfl (fun _ => id) ahead⟩⟩
  · exact ⟨rfl, nofun⟩

theorem atAwaitUsing_spec {inHead : Bool} (run : Runs s (ParseM.atAwaitUsing inHead) p b q) :
    q = p ∧ (b = true → p.lexer.kind = .name ∧
      s.source.charAt (s.source.skipBlank p.lexer.pos) = some 'u') := by
  simp [ParseM.atAwaitUsing] at run
  rcases run with ⟨⟨-, ⟨name, -⟩, -⟩, rfl, rfl⟩ | ⟨-, rfl, rfl⟩
  · refine ⟨rfl, fun ahead => ⟨name, charAt_of_sameLine "using" rfl (fun _ h => ?_) ahead⟩⟩
    exact (Bool.and_eq_true_iff.mp h).1
  · exact ⟨rfl, nofun⟩

theorem atLoopWord_spec (run : Runs s Grammar.atLoopWord p b q) :
    q = p ∧ (b = true → p.lexer.kind.isTracked = false) := by
  simp [Grammar.atLoopWord] at run
  obtain ⟨rfl, rfl⟩ := run
  refine ⟨rfl, fun word => ?_⟩
  simp only [Bool.or_eq_true, Bool.and_eq_true, beq_iff_eq] at word
  rcases word with word | ⟨-, ⟨word, -⟩, -⟩ <;> simp [word, TokenKind.isTracked]

theorem checkNoValue_same {inHead : Bool} {kind : VariableKind} {target : Pattern} {u : Unit}
    (run : Runs s (Grammar.checkNoValue inHead kind target) p u q) : q = p := by
  simp [Grammar.checkNoValue] at run
  rcases run with ⟨look, -⟩ | ⟨look, -⟩ <;> exact (atLoopWord_spec look).1

/-- A word and another one seen after it are moved past; what follows is outside of templates. -/
theorem wordAhead {c : Char} {u u' : Unit} (moved : Runs s ParseM.next p u r) (word : p.lexer.kind = .name)
    (ahead : s.source.charAt (s.source.skipBlank p.lexer.pos) = some c)
    (starts : ∀ astral, Alphabet.isIdentifierStart astral c = true) (moved' : Runs s ParseM.next r u' q)
    (after : q.lexer.kind.isTemplatePart = false) : Reads s none p.lexer q.lexer true [] := by
  intro plain ordered
  have untracked : r.lexer.kind.isTracked = false := by
    obtain ⟨l, step, rfl⟩ := Runs.ofLexer_iff.mp (Runs.afterWord_of_next moved)
    obtain ⟨l', step', rfl⟩ := Runs.ofLexer_iff.mp (Runs.afterWord_of_next moved')
    by_cases inside : p.lexer.context = .templateText
    · have part := next_template plain inside step
      cases tracked : l.kind.isTracked with
      | false => rfl
      | true =>
        have chunk : l.kind = .template ∨ l.kind = .invalidTemplate := by
          have part := part.part
          cases kind : l.kind <;> simp_all [TokenKind.isTracked, TokenKind.isTemplatePart]
        have part' := (next_template plain (part.chunk chunk) step').part
        exact absurd part' (by simp [after])
    · rcases next_word plain inside ahead (starts _) step with name | keyword
      · exact congrArg TokenKind.isTracked name
      · exact TokenKind.untracked_of_isKeyword keyword
  exact ((Reads.next moved word rfl).trans (.next moved' rfl untracked)) plain ordered

end Reads

/-- A word begins a name. -/
theorem Runs.identifier_begins {id : Identifier} (run : Runs s ParseM.identifier p id q) :
    p.lexer.kind.isTemplatePart = false := by
  simp only [ParseM.identifier, ParseM.wordText, bind_iff, startNode_iff, exists_look, lexer_iff,
    ite_iff] at run
  obtain ⟨text, p₁, ⟨name, -⟩ | ⟨-, word⟩, -⟩ := run
  · rw [name]
    rfl
  · refine TokenKind.not_templatePart_of_isKeyword ?_
    cases keyword : p.lexer.kind.keyword? with
    | none => simp [keyword] at word
    | some _ => simp [TokenKind.isKeyword, keyword]

namespace Grammar.Faithful

/-- A function goes on after its first word with a star, a name or a parenthesis. -/
theorem function_begins {place : FunctionPlace} {isAsync : Bool} {f : Callable}
    (run : Runs s (g.function start place isAsync) p f q) : p.lexer.kind.isTemplatePart = false := by
  simp only [Grammar.function, bind_iff, since_iff, exists_look] at run
  obtain ⟨isGenerator, p₁, star, declared, p₂, name, run⟩ := run
  simp at run
  obtain ⟨id, params, body, ⟨p₃, h, -⟩, -⟩ := run
  have atName : p₁.lexer.kind.isTemplatePart = false := by
    simp [Grammar.functionName] at name
    rcases name with ⟨-, -, rfl⟩ | ⟨-, id, p₁, name, -⟩
    · rcases h with ⟨⟨-, here⟩, -⟩ | ⟨-, p₄, ⟨here, -⟩, -⟩ <;> simp [here, TokenKind.isTemplatePart]
    · exact identifier_begins name
  simp [Grammar.generatorStar] at star
  rcases star with ⟨-, -, ⟨-, star, -⟩ | ⟨-, -, rfl⟩⟩ | ⟨-, -, rfl⟩
  · simp [star, TokenKind.isTemplatePart]
  · exact atName
  · exact atName

variable (hg : g.Faithful s)
include hg

/-! ### Declarations -/

/-- The rest of a function declaration is read after its first words. -/
theorem functionAfter {place : FunctionPlace} {isAsync : Bool} {f : Callable}
    (before : Reads s none l p.lexer true []) (here : start.pos = l.token.start)
    (run : Runs s (g.function start place isAsync) p f q) :
    Reads s none l q.lexer true [.statement (.functionDeclaration f)] := by
  obtain ⟨span, read, placed⟩ := hg.function run
  exact (before.trans read).node rfl ((congrArg Span.start span).trans here) (congrArg Span.stop span) placed

theorem declarator {inHead : Bool} {kind : VariableKind} {v : Declarator}
    (run : Runs s (g.declarator inHead kind) p v q) :
    Reads s none p.lexer q.lexer true [.declarator v] ∧
      (kind.isResource = true → p.lexer.kind.isTemplatePart = false) := by
  have rest {target : Pattern} {p₁ p₂ : Parser} {mode : InitMode} {span : Span} {binding : Binding}
      (read : Reads s none p.lexer p₁.lexer true [.pattern target]) (start : span.start = p.lexer.token.start)
      (stop : span.stop = q.lexer.last.stop) (checked : Runs s (ParseM.checkPattern binding target) p₁ ⟨⟩ p₂)
      (h : (p₂.lexer.kind ≠ .eq ∧ Runs s (checkNoValue inHead kind target) p₂ ⟨⟩ q ∧ v = ⟨span, target, none⟩) ∨
        ∃ r, (p₂.lexer.kind = .eq ∧ Runs s ParseM.next p₂ ⟨⟩ r) ∧
          ∃ value, Runs s (g.plainAssignment mode) r value q ∧ v = ⟨span, target, some value⟩) :
      Reads s none p.lexer q.lexer true [.declarator v] := by
    rw [← checkPattern_lexer checked] at read
    rcases h with ⟨-, noValue, rfl⟩ | ⟨r, ⟨eq, moved⟩, value, assigned, rfl⟩
    · obtain rfl := Reads.checkNoValue_same noValue
      exact read.node rfl start stop trivial
    · exact ((read.trans (.next moved eq rfl)).trans (hg.plainAssignment assigned)).node rfl start stop trivial
  simp [Grammar.declarator] at run
  rcases run with ⟨-, id, p₁, name, p₂, checked, h⟩ | ⟨notResource, target, p₁, atom, p₂, checked, h⟩
  · exact ⟨rest (.identifier name rfl rfl) rfl rfl checked h, fun _ => identifier_begins name⟩
  · exact ⟨rest (hg.bindingAtom atom).1 rfl rfl checked h, by simp [notResource]⟩

theorem declarators {inHead : Bool} {kind : VariableKind} {vs : List Declarator}
    (run : Runs s (g.declarators inHead kind) p vs q) :
    Reads s none p.lexer q.lexer true (vs.map .declarator) ∧
      (kind.isResource = true → p.lexer.kind.isTemplatePart = false) := by
  simp [Grammar.declarators] at run
  obtain ⟨first, p₁, firstRun, loop⟩ := run
  obtain ⟨first, begins⟩ := hg.declarator firstRun
  refine ⟨?_, begins⟩
  obtain ⟨found, r, read, done⟩ := Runs.of_repeatPast
    (fun found r => Reads s none p.lexer r.lexer true (found.reverse.map .declarator)) first (by
      intro found next r r' read pass
      simp at pass
      obtain ⟨r₁, ⟨comma, moved⟩, v, run, rfl⟩ := pass
      simpa using (read.trans (.next moved comma rfl)).trans (hg.declarator run).1) loop
  simp at done
  obtain ⟨⟨-, rfl⟩, rfl⟩ := done
  exact read

/-- A declaration is read after the words that begin it. -/
theorem declarationAfter {kind : VariableKind} {vs : List Declarator} (before : Reads s none l p.lexer true [])
    (here : start.pos = l.token.start) (run : Runs s (g.declarators false kind) p vs r)
    (ended : Runs s ParseM.semicolon r ⟨⟩ q) :
    Reads s none l q.lexer true [.statement (.variableDeclaration ⟨spanTo s start q.lexer, kind, vs⟩)] := by
  have read := (before.trans (hg.declarators run).1).trans (.semicolon ended)
  exact read.node (by simp [Node.children, Statement.children]) here rfl trivial

theorem declaration {kind : VariableKind} (word : p.lexer.kind.isTracked = false)
    (here : start.pos = p.lexer.token.start) (run : Runs s (g.declaration start kind) p a q) :
    Reads s none p.lexer q.lexer true [.statement a] := by
  simp [Grammar.declaration, -semicolon_iff] at run
  obtain ⟨p₁, moved, vs, p₂, found, ended, rfl⟩ := run
  exact hg.declarationAfter (.next moved rfl word) here found ended

theorem variableStatement {kind : VariableKind} {context : Option StatementContext}
    (word : p.lexer.kind.isTracked = false) (here : start.pos = p.lexer.token.start)
    (run : Runs s (g.variableStatement start kind context) p a q) :
    Reads s none p.lexer q.lexer true [.statement a] := by
  simp [Grammar.variableStatement] at run
  exact hg.declaration word here run.2

/-! ### Control flow -/

theorem body {context : StatementContext} (run : Runs s (g.body context) p a q) :
    Reads s none p.lexer q.lexer true [.statement a] := hg.statement run

theorem loopBody (run : Runs s g.loopBody p a q) : Reads s none p.lexer q.lexer true [.statement a] := by
  simp [Grammar.loopBody] at run
  obtain ⟨r, run, rfl⟩ := run
  have read := hg.body run
  exact read

omit hg in
/-- A semicolon is moved past, or it is left out. -/
theorem semicolonHere {c : Prop} {u : Unit}
    (h : (p.lexer.kind = .semi ∧ Runs s ParseM.next p u q) ∨ ((¬ p.lexer.kind = .semi ∧ q = p) ∧ c)) :
    Reads s none p.lexer q.lexer false [] := by
  rcases h with ⟨semi, moved⟩ | ⟨⟨-, rfl⟩, -⟩
  · exact (Reads.next moved semi rfl).weaken
  · exact .refl

omit hg in
theorem jumpLabel {label : Option Identifier} (run : Runs s Grammar.jumpLabel p label q) :
    Reads s none p.lexer q.lexer false (label.toList.map .identifier) := by
  simp [Grammar.jumpLabel, -semicolon_iff] at run
  rcases run with ⟨-, -, id, p₁, name, ended, rfl⟩ | ⟨ended, rfl⟩
  · exact ((Reads.identifier name rfl rfl).trans (.semicolon ended)).weaken
  · exact semicolonHere ended

section Keywords

variable (word : p.lexer.kind.isTracked = false) (here : start.pos = p.lexer.token.start)
include word here

omit hg in
theorem jump {isBreak : Bool} (run : Runs s (Grammar.jump start isBreak) p a q) :
    Reads s none p.lexer q.lexer true [.statement a] := by
  simp [Grammar.jump] at run
  obtain ⟨p₁, moved, label, labelRun, -, rfl⟩ := run
  have read := (Reads.next moved rfl word).trans (jumpLabel labelRun)
  cases isBreak
  · exact read.node rfl here rfl trivial
  · exact read.node rfl here rfl trivial

omit hg in
theorem debuggerStatement (run : Runs s (Grammar.debuggerStatement start) p a q) :
    Reads s none p.lexer q.lexer true [.statement a] := by
  simp [Grammar.debuggerStatement, -semicolon_iff] at run
  obtain ⟨p₁, moved, ended, rfl⟩ := run
  exact ((Reads.next moved rfl word).trans (.semicolon ended)).node rfl here rfl trivial

theorem doWhileStatement (run : Runs s (g.doWhileStatement start) p a q) :
    Reads s none p.lexer q.lexer true [.statement a] := by
  simp [Grammar.doWhileStatement, -semicolon_iff] at run
  obtain ⟨p₁, moved, body, p₂, bodyRun, p₃, ⟨loop, moved'⟩, test, p₄, testRun, h⟩ := run
  have words := (Reads.next moved rfl word).trans (hg.loopBody bodyRun)
  have read := (words.trans (.next moved' loop rfl)).trans (hg.parenthesized testRun)
  rcases h with ⟨-, ⟨-, rfl⟩ | ⟨semi, moved''⟩, rfl⟩ | ⟨-, ended, rfl⟩
  · exact read.node rfl here rfl trivial
  · exact (read.trans (.next moved'' semi rfl)).node rfl here rfl trivial
  · exact (read.trans (.semicolon ended)).node rfl here rfl trivial

theorem whileStatement (run : Runs s (g.whileStatement start) p a q) :
    Reads s none p.lexer q.lexer true [.statement a] := by
  simp [Grammar.whileStatement] at run
  obtain ⟨p₁, moved, test, p₂, testRun, body, bodyRun, rfl⟩ := run
  have read := (Reads.next moved rfl word).trans (hg.parenthesized testRun)
  exact (read.trans (hg.loopBody bodyRun)).node rfl here rfl trivial

theorem withStatement (run : Runs s (g.withStatement start) p a q) :
    Reads s none p.lexer q.lexer true [.statement a] := by
  simp [Grammar.withStatement] at run
  obtain ⟨-, p₁, moved, object, p₂, objectRun, body, bodyRun, rfl⟩ := run
  have read := (Reads.next moved rfl word).trans (hg.parenthesized objectRun)
  exact (read.trans (hg.body bodyRun)).node rfl here rfl trivial

theorem ifStatement (run : Runs s (g.ifStatement start) p a q) :
    Reads s none p.lexer q.lexer true [.statement a] := by
  simp [Grammar.ifStatement] at run
  obtain ⟨p₁, moved, test, p₂, testRun, consequent, p₃, consequentRun, h⟩ := run
  have read := ((Reads.next moved rfl word).trans (hg.parenthesized testRun)).trans (hg.body consequentRun)
  rcases h with ⟨⟨-, rfl⟩, rfl⟩ | ⟨p₄, ⟨otherwise, moved'⟩, alternate, alternateRun, rfl⟩
  · exact read.node rfl here rfl trivial
  · exact ((read.trans (.next moved' otherwise rfl)).trans (hg.body alternateRun)).node rfl here rfl trivial

theorem returnStatement (run : Runs s (g.returnStatement start) p a q) :
    Reads s none p.lexer q.lexer true [.statement a] := by
  simp [Grammar.returnStatement, -semicolon_iff] at run
  obtain ⟨-, p₁, moved, ⟨-, argument, p₂, argumentRun, ended, rfl⟩ | ⟨ended, rfl⟩⟩ := run
  · have read := (Reads.next moved rfl word).trans (hg.plainExpression argumentRun)
    exact (read.trans (.semicolon ended)).node rfl here rfl trivial
  · exact ((Reads.next moved rfl word).trans (semicolonHere ended)).node rfl here rfl trivial

theorem throwStatement (run : Runs s (g.throwStatement start) p a q) :
    Reads s none p.lexer q.lexer true [.statement a] := by
  simp [Grammar.throwStatement, -semicolon_iff] at run
  obtain ⟨p₁, moved, -, argument, p₂, argumentRun, ended, rfl⟩ := run
  have read := (Reads.next moved rfl word).trans (hg.plainExpression argumentRun)
  exact (read.trans (.semicolon ended)).node rfl here rfl trivial

end Keywords

/-! ### `switch` -/

/-- The cases read so far, and the case being read from the lexer `m` on. -/
def CasesRead (s : Setting) (l : Lexer) (progress : SwitchProgress) (l' : Lexer) : Prop :=
  ∃ m, Reads s none l m false (progress.cases.reverse.map .switchCase) ∧
    match progress.current with
    | none => l' = m
    | some c => c.start.pos = m.token.start ∧
        Reads s none m l' true (c.test.toList.map .expression ++ c.body.reverse.map .statement)

omit hg in
theorem closeCase {progress : SwitchProgress} {cases : List SwitchCase}
    (before : CasesRead s l progress p.lexer) (run : Runs s (Grammar.closeCase progress) p cases q) :
    q = p ∧ Reads s none l p.lexer false (cases.reverse.map .switchCase) := by
  obtain ⟨m, read, current⟩ := before
  cases open' : progress.current with
  | none =>
    simp [Grammar.closeCase, open'] at run current
    obtain ⟨rfl, rfl⟩ := run
    exact ⟨rfl, current ▸ read⟩
  | some c =>
    simp [Grammar.closeCase, open'] at run current
    obtain ⟨rfl, rfl⟩ := run
    refine ⟨rfl, ?_⟩
    have last := current.2.node (n := .switchCase ⟨spanTo s c.start q.lexer, c.test, c.body.reverse⟩)
      (by simp [Node.children]) current.1 rfl trivial
    simpa using (read.trans last).weaken

theorem caseHead {isDefault : Bool} {progress progress' : SwitchProgress}
    (word : p.lexer.kind.isTracked = false) (before : CasesRead s l progress p.lexer)
    (run : Runs s (g.caseHead isDefault progress) p progress' q) : CasesRead s l progress' q.lexer := by
  simp [Grammar.caseHead] at run
  obtain ⟨cases, p₁, closed, p₂, moved, h⟩ := run
  obtain ⟨rfl, read⟩ := closeCase before closed
  have head := Reads.next moved rfl word
  rcases h with ⟨-, -, ⟨colon, moved'⟩, rfl⟩ | ⟨-, test, p₃, testRun, ⟨colon, moved'⟩, rfl⟩
  · exact ⟨p₁.lexer, read, rfl, head.trans (.next moved' colon rfl)⟩
  · exact ⟨p₁.lexer, read, rfl, (head.trans (hg.plainExpression testRun)).trans (.next moved' colon rfl)⟩

theorem casePass {progress : SwitchProgress} {x : Pass SwitchProgress (List SwitchCase)}
    (before : CasesRead s l progress p.lexer) (run : Runs s (g.casePass progress) p x q) :
    match x with
    | .again next => CasesRead s l next q.lexer
    | .done cases => Reads s none l q.lexer false (cases.map .switchCase) ∧ q.lexer.kind = .braceR := by
  simp only [Grammar.casePass, bind_iff, kind_iff, exists_look] at run
  split at run
  · next closes =>
    simp at run
    obtain ⟨cases, closed, rfl⟩ := run
    obtain ⟨rfl, read⟩ := closeCase (p := { p with scopes := p.scopes.exit }) before closed
    exact ⟨read, closes⟩
  · next word =>
    simp at run
    obtain ⟨next, head, rfl⟩ := run
    exact hg.caseHead (by simp [word, TokenKind.isTracked]) before head
  · next word =>
    simp at run
    obtain ⟨next, head, rfl⟩ := run
    exact hg.caseHead (by simp [word, TokenKind.isTracked]) before head
  · split at run
    · simp at run
    · next c current =>
      simp at run
      obtain ⟨a, step, rfl⟩ := run
      obtain ⟨m, read, here⟩ := before
      simp only [current] at here
      refine ⟨m, read, here.1, ?_⟩
      simpa using here.2.trans (hg.statement step)

theorem switchStatement (word : p.lexer.kind.isTracked = false) (here : start.pos = p.lexer.token.start)
    (run : Runs s (g.switchStatement start) p a q) : Reads s none p.lexer q.lexer true [.statement a] := by
  simp [Grammar.switchStatement] at run
  obtain ⟨p₁, moved, value, p₂, valueRun, p₃, ⟨opens, moved'⟩, cases, p₄, loop, p₅, moved'', rfl, rfl⟩ :=
    run
  obtain ⟨progress, r, before, done⟩ := Runs.of_repeatPast
    (fun progress r => CasesRead s p₃.lexer progress r.lexer) ⟨p₃.lexer, .refl, rfl⟩ hg.casePass loop
  obtain ⟨read, closes⟩ := hg.casePass before done
  have head := ((Reads.next moved rfl word).trans (hg.parenthesized valueRun)).trans (.next moved' opens rfl)
  exact ((head.trans read).trans (.next moved'' closes rfl)).node (by simp [Node.children, Statement.children])
    here rfl trivial

/-! ### `try` -/

theorem catchParam {param : Option Pattern} (run : Runs s g.catchParam p param q) :
    Reads s none p.lexer q.lexer false (param.toList.map .pattern) := by
  simp [Grammar.catchParam] at run
  rcases run with ⟨-, -, rfl, rfl⟩ | ⟨p₁, ⟨opens, moved⟩, a, p₂, atom, h⟩
  · exact .refl
  · have read := (Reads.next moved opens rfl).trans (hg.bindingAtom atom).1
    have rest {p₃ p₄ : Parser} {binding : Binding}
        (checked : Runs s (ParseM.checkPattern binding a) p₃ ⟨⟩ p₄) (closes : p₄.lexer.kind = .parenR)
        (moved' : Runs s ParseM.next p₄ ⟨⟩ q) (same : p₃.lexer = p₂.lexer) :
        Reads s none p.lexer q.lexer false [.pattern a] := by
      rw [← same, ← checkPattern_lexer checked] at read
      exact (read.trans (.next moved' closes rfl)).weaken
    rcases h with ⟨-, p₃, checked, ⟨closes, moved'⟩, rfl⟩ | ⟨-, p₃, checked, ⟨closes, moved'⟩, rfl⟩
    · exact rest checked closes moved' rfl
    · exact rest checked closes moved' rfl

theorem catchClause {c : CatchClause} (run : Runs s g.catchClause p c q) (word : p.lexer.kind = .kwCatch) :
    Reads s none p.lexer q.lexer true [.catchClause c] := by
  simp [Grammar.catchClause] at run
  obtain ⟨p₁, moved, param, p₂, paramRun, body, p₃, bodyRun, rfl, rfl⟩ := run
  obtain ⟨read, start, stop⟩ := hg.scopelessBlock bodyRun
  have body := read.node (n := .statement (.block body)) rfl start stop trivial
  exact (((Reads.next moved word rfl).trans (hg.catchParam paramRun)).trans body).node rfl rfl rfl trivial

theorem tryStatement (word : p.lexer.kind.isTracked = false) (here : start.pos = p.lexer.token.start)
    (run : Runs s (g.tryStatement start) p a q) : Reads s none p.lexer q.lexer true [.statement a] := by
  simp [Grammar.tryStatement] at run
  obtain ⟨p₁, moved, block, p₂, blockRun, h⟩ := run
  have guarded := (Reads.next moved rfl word).trans (hg.block blockRun)
  rcases h with
    ⟨caught, _, p₃, handlerRun, ⟨⟨-, rfl⟩, rfl⟩ | ⟨p₄, ⟨last, moved'⟩, _, finalizerRun, rfl⟩⟩ |
    ⟨-, p₃, ⟨last, moved'⟩, _, finalizerRun, rfl⟩
  · exact (guarded.trans (hg.catchClause handlerRun caught)).node rfl here rfl trivial
  · have handled := guarded.trans (hg.catchClause handlerRun caught)
    exact ((handled.trans (.next moved' last rfl)).trans (hg.block finalizerRun)).node rfl here rfl trivial
  · exact ((guarded.trans (.next moved' last rfl)).trans (hg.block finalizerRun)).node rfl here rfl trivial

/-! ### Labels and expressions -/

theorem labeledStatement {label : Identifier} {context : Option StatementContext}
    (before : Reads s none l p.lexer true [.identifier label]) (here : start.pos = l.token.start)
    (run : Runs s (g.labeledStatement start label context) p a q) :
    Reads s none l q.lexer true [.statement a] := by
  simp [Grammar.labeledStatement] at run
  obtain ⟨-, body, p₁, bodyRun, rfl, rfl⟩ := run
  have read := hg.body bodyRun
  exact (before.trans read).node rfl here rfl trivial

omit hg in
theorem expressionStatement {e : Expression} (before : Reads s none l p.lexer true [.expression e])
    (here : start.pos = l.token.start) (run : Runs s (Grammar.expressionStatement start e) p a q) :
    Reads s none l q.lexer true [.statement a] := by
  simp [Grammar.expressionStatement, -semicolon_iff] at run
  obtain ⟨ended, rfl⟩ := run
  exact (before.trans (.semicolon ended)).node rfl here rfl trivial

theorem expressionOrLabel {context : Option StatementContext} (here : start.pos = p.lexer.token.start)
    (run : Runs s (g.expressionOrLabel start context) p a q) :
    Reads s none p.lexer q.lexer true [.statement a] := by
  simp only [Grammar.expressionOrLabel, bind_iff, isKind_iff, exists_look] at run
  obtain ⟨e, p₁, expression, run⟩ := run
  have read := hg.plainExpression expression
  split at run
  · next label =>
    simp at run
    rcases run with ⟨-, ended⟩ | ⟨p₂, ⟨⟨-, colon⟩, moved⟩, labeled⟩
    · exact expressionStatement read here ended
    · have name : Reads s none p.lexer p₁.lexer true [.identifier label] := read.rename rfl rfl rfl
      exact hg.labeledStatement (name.trans (.next moved colon rfl)) here labeled
  · exact expressionStatement read here run

theorem wordStatement {context : Option StatementContext} (here : start.pos = p.lexer.token.start)
    (run : Runs s (g.wordStatement start context) p a q) :
    Reads s none p.lexer q.lexer true [.statement a] := by
  simp [Grammar.wordStatement, checkUsing, awaitBeforeUsing] at run
  rcases run with ⟨p₁, notAsync, h⟩ | ⟨p₁, async, -, p₂, moved, run⟩
  · obtain ⟨rfl, -⟩ := Reads.atAsyncFunction_spec notAsync
    rcases h with ⟨p₂, notAwait, ⟨p₃, notUsing, run⟩ | ⟨p₃, resource, run⟩⟩ | ⟨p₂, await, run⟩
    · obtain ⟨rfl, -⟩ := Reads.atAwaitUsing_spec notAwait
      obtain ⟨rfl, -⟩ := Reads.atUsing_spec notUsing
      exact hg.expressionOrLabel here run
    · obtain ⟨rfl, -⟩ := Reads.atAwaitUsing_spec notAwait
      obtain ⟨rfl, name⟩ := Reads.atUsing_spec resource
      exact hg.declaration (by simp [name rfl, TokenKind.isTracked]) here run.2
    · obtain ⟨rfl, ahead⟩ := Reads.atAwaitUsing_spec await
      obtain ⟨name, letter⟩ := ahead rfl
      obtain ⟨-, p₃, ⟨-, moved⟩, run⟩ := run
      simp [Grammar.declaration, -semicolon_iff] at run
      obtain ⟨p₄, moved', vs, p₅, found, ended, rfl⟩ := run
      have words := Reads.wordAhead moved name letter (by decide) moved' ((hg.declarators found).2 rfl)
      exact hg.declarationAfter words here found ended
  · obtain ⟨rfl, ahead⟩ := Reads.atAsyncFunction_spec async
    obtain ⟨name, letter⟩ := ahead rfl
    simp [Grammar.functionStatement] at run
    obtain ⟨p₃, moved', f, function, rfl⟩ := run
    have words := Reads.wordAhead moved name letter (by decide) moved' (function_begins function)
    exact hg.functionAfter words here function

end Grammar.Faithful
end ScriptSyntax
