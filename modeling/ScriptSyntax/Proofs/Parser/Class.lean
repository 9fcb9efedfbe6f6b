import ScriptSyntax.Parser.Class
import ScriptSyntax.Proofs.Parser.Object

/-!
Runs that read classes.
-/

namespace ScriptSyntax

open Runs

variable {s : Setting} {p q : Parser} {g : Grammar} {u : Unit} {m m' : Modifiers}

namespace Runs

theorem atElementName_same {b : Bool} (run : Runs s ParseM.atElementName p b q) : q = p := by
  simp only [ParseM.atElementName, bind_iff, kind_iff, exists_look] at run
  split at run <;> simp at run <;> exact run.2

theorem declarePrivate_lexer {e : ClassElement} (run : Runs s (ParseM.declarePrivate e) p u q) :
    q.lexer = p.lexer := by
  unfold ParseM.declarePrivate at run
  split at run <;> simp at run
  · rw [run.2]
  · rw [run]

theorem exitClassBody_lexer (run : Runs s ParseM.exitClassBody p u q) : q.lexer = p.lexer := by
  simp only [ParseM.exitClassBody, bind_iff, get_iff, exists_look] at run
  split at run <;> simp at run
  · rw [run.2]
  · rw [run]

/-! ### Modifiers -/

theorem asyncModifier_cases (run : Runs s (ParseM.asyncModifier m) p m' q) :
    m' = m ∧ q = p ∨ Reads s none p.lexer q.lexer true [] := by
  simp [ParseM.asyncModifier] at run
  rcases run with ⟨same, rfl⟩ | ⟨r, ⟨-, ⟨here, -⟩, moved⟩, ⟨r₁, test, h⟩ | ⟨r₁, test, h⟩⟩
  · refine .inl ⟨rfl, ?_⟩
    rcases same with ⟨-, -, rfl⟩ | ⟨⟨-, rfl⟩, -⟩ | ⟨-, rfl⟩ <;> rfl
  all_goals
    obtain rfl := atElementName_same test
    obtain rfl : q = r₁ := by rcases h with ⟨-, -, rfl⟩ | ⟨-, -, rfl⟩ <;> rfl
    exact .inr (.next moved here rfl)

theorem generatorModifier_cases (run : Runs s (ParseM.generatorModifier m) p m' q) :
    m' = m ∧ q = p ∨ Reads s none p.lexer q.lexer true [] := by
  simp [ParseM.generatorModifier] at run
  rcases run with ⟨⟨-, rfl⟩, rfl⟩ | ⟨⟨⟨-, here⟩, moved⟩, rfl⟩
  · exact .inl ⟨rfl, rfl⟩
  · exact .inr (.next moved here rfl)

theorem accessorModifier_cases (run : Runs s (ParseM.accessorModifier m) p m' q) :
    m' = m ∧ q = p ∨ Reads s none p.lexer q.lexer true [] := by
  have accessor {r : Parser} (here : p.lexer.kind = .name) (moved : Runs s ParseM.next p ⟨⟩ r)
      (test : Runs s ParseM.atElementName r false q ∨ Runs s ParseM.atElementName r true q) :
      Reads s none p.lexer q.lexer true [] := by
    rcases test with test | test <;> obtain rfl := atElementName_same test <;> exact .next moved here rfl
  simp [ParseM.accessorModifier] at run
  rcases run with ⟨-, rfl, rfl⟩ | ⟨-, ⟨-, ⟨⟨-, rfl⟩, rfl⟩ | ⟨r, ⟨⟨here, -⟩, moved⟩, h⟩⟩ |
    ⟨r, ⟨⟨here, -⟩, moved⟩, h⟩⟩
  · exact .inl ⟨rfl, rfl⟩
  · exact .inl ⟨rfl, rfl⟩
  · exact .inr (accessor here moved (h.imp (·.1) (·.1)))
  · exact .inr (accessor here moved (h.imp (·.1) (·.1)))

/-- A word that is kept as the name itself is the last token read. -/
theorem modifiersAfter_reads {l : Lexer} {b : Bool} (before : Reads s none l p.lexer b [])
    (word : m.word.isSome = true → b = true) (run : Runs s (ParseM.modifiersAfter m) p m' q) :
    ∃ c, Reads s none l q.lexer c [] ∧ (m'.word.isSome = true → c = true) := by
  have step {m m' : Modifiers} {p q : Parser} {b : Bool} (before : Reads s none l p.lexer b [])
      (word : m.word.isSome = true → b = true)
      (h : m' = m ∧ q = p ∨ Reads s none p.lexer q.lexer true []) :
      ∃ c, Reads s none l q.lexer c [] ∧ (m'.word.isSome = true → c = true) := by
    rcases h with ⟨rfl, rfl⟩ | moved
    · exact ⟨b, before, word⟩
    · exact ⟨_, before.trans moved, by simp⟩
  simp [ParseM.modifiersAfter] at run
  obtain ⟨m₁, p₁, async, m₂, p₂, generator, accessor⟩ := run
  obtain ⟨b₁, before, word⟩ := step before word (asyncModifier_cases async)
  obtain ⟨b₂, before, word⟩ := step before word (generatorModifier_cases generator)
  exact step before word (accessorModifier_cases accessor)

end Runs

namespace Grammar.Faithful

variable {head : ElementHead} {derived : Bool} {e : ClassElement} {l : Lexer} {start : NodeStart}
  (hg : g.Faithful s)
include hg

theorem elementName {key : Expression} {computed : Bool}
    (run : Runs s g.elementName p (key, computed) q) :
    Reads s none p.lexer q.lexer true [.expression key] := by
  simp [Grammar.elementName] at run
  rcases run with ⟨-, -, id, run, rfl, -⟩ | ⟨-, run⟩
  · exact .privateIdentifier run
  · exact hg.propertyName run

theorem classMethod (before : Reads s none l p.lexer true [.expression head.key])
    (here : head.start.pos = l.token.start) (run : Runs s (g.classMethod head m derived) p e q) :
    Reads s none l q.lexer true [.classElement e] := by
  have value {f : Callable} {r : Parser} {c c' : Prop} {isGenerator isAsync directSuper isGetter : Bool}
      {kind : MethodKind} (method : Runs s (g.method isGenerator isAsync directSuper) p f r)
      (checked : (c ∧ Runs s (ParseM.checkAccessor isGetter f) r ⟨⟩ q) ∨ (c' ∧ q = r)) :
      Reads s none l q.lexer true [.classElement (.method (spanTo s head.start q.lexer) head.isStatic
        head.computed head.key kind f)] := by
    obtain rfl : q = r := by
      rcases checked with ⟨-, checked⟩ | ⟨-, rfl⟩
      · exact checkAccessor_same checked
      · rfl
    exact (before.trans (hg.method method)).node rfl here rfl trivial
  simp [Grammar.classMethod] at run
  rcases run with ⟨-, -, -, -, f, r, method, checked, rfl⟩ | ⟨-, -, f, r, method, checked, rfl⟩ <;>
    exact value method checked

theorem classField (before : Reads s none l p.lexer true [.expression head.key])
    (here : head.start.pos = l.token.start) (run : Runs s (g.classField head) p e q) :
    Reads s none l q.lexer true [.classElement e] := by
  simp [Grammar.classField, -semicolon_iff] at run
  rcases run with ⟨-, -, ⟨-, ends, rfl⟩ | ⟨r, ⟨eq, moved⟩, value, r', valueRun, ends, rfl⟩⟩
  · have read := before.trans (.semicolon ends)
    exact read.node (by simp [Node.children, ClassElement.children]) here rfl trivial
  · have value := hg.plainAssignment valueRun
    have ends := Reads.semicolon ends
    have read := (before.trans ((Reads.next moved eq rfl).trans value)).trans ends
    exact read.node rfl here rfl trivial

theorem staticBlock (before : Reads s none l p.lexer true []) (opens : p.lexer.kind = .braceL)
    (here : start.pos = l.token.start) (run : Runs s (g.staticBlock start) p e q) :
    Reads s none l q.lexer true [.classElement e] := by
  simp [Grammar.staticBlock] at run
  obtain ⟨p₁, moved, body, ⟨p₂, p₃, ⟨collected, moved'⟩, rfl⟩, rfl⟩ := run
  obtain ⟨read, closes⟩ := Reads.collectUntil hg.statement collected
  have body := ((before.trans (.next moved opens rfl)).trans read).trans (.next moved' closes rfl)
  exact body.node (by simp [Node.children, ClassElement.children]) here rfl trivial

theorem elementAfter {b : Bool} (before : Reads s none l p.lexer b [])
    (word : m.word.isSome = true → b = true) (here : start.pos = l.token.start)
    (run : Runs s (g.elementAfter start derived m) p e q) :
    Reads s none l q.lexer true [.classElement e] := by
  simp only [Grammar.elementAfter, bind_iff] at run
  obtain ⟨m', p₁, modifiers, run⟩ := run
  obtain ⟨c, read, word'⟩ := modifiersAfter_reads before word modifiers
  have value {key : Expression} {computed : Bool} {r : Parser} {c c' : Prop}
      (keyRead : Reads s none l r.lexer true [.expression key])
      (run : c ∧ Runs s (g.classMethod ⟨start, m'.isStatic, key, computed⟩ m' derived) r e q ∨
        c' ∧ Runs s (g.classField ⟨start, m'.isStatic, key, computed⟩) r e q) :
      Reads s none l q.lexer true [.classElement e] :=
    run.elim (fun run => hg.classMethod keyRead here run.2) (fun run => hg.classField keyRead here run.2)
  cases name : m'.word with
  | some text =>
    obtain rfl := word' (by simp [name])
    simp [name, ParseM.modifierName] at run
    exact value (read.lastWord rfl rfl rfl) run
  | none =>
    simp [name] at run
    rcases run with ⟨key, ⟨p₂, nameRun, run⟩ | ⟨p₂, nameRun, run⟩⟩
    · simpa using value (by simpa using read.trans (hg.elementName nameRun)) run
    · simpa using value (by simpa using read.trans (hg.elementName nameRun)) run

theorem classElement (run : Runs s (g.classElement derived) p e q) :
    Reads s none p.lexer q.lexer true [.classElement e] := by
  simp [Grammar.classElement] at run
  rcases run with ⟨-, run⟩ | ⟨r, ⟨⟨here, -⟩, moved⟩, ⟨⟨-, opens⟩, run⟩ |
    ⟨-, ⟨r₁, test, ⟨-, run⟩ | ⟨-, run⟩⟩ | ⟨r₁, test, run⟩⟩⟩
  · exact hg.elementAfter .refl (by simp) rfl run
  · exact hg.staticBlock (.next moved here rfl) opens rfl run
  all_goals
    obtain rfl := atElementName_same test
    exact hg.elementAfter (.next moved here rfl) (fun _ => rfl) rfl run

omit hg in
theorem addElement_spec {progress progress' : ClassProgress}
    (run : Runs s (Grammar.addElement progress e) p progress' q) :
    progress'.elements = e :: progress.elements ∧ q.lexer = p.lexer := by
  unfold Grammar.addElement at run
  split at run <;> simp at run
  · obtain ⟨⟨-, rfl⟩, rfl⟩ := run
    exact ⟨rfl, rfl⟩
  · obtain ⟨declared, rfl⟩ := run
    exact ⟨rfl, declarePrivate_lexer declared⟩

theorem classElements {elements : List ClassElement} (run : Runs s (g.classElements derived) p elements q) :
    Reads s none p.lexer q.lexer false (elements.map .classElement) ∧ q.lexer.kind = .braceR := by
  obtain ⟨progress, r, read, done⟩ := Runs.of_repeatPast
    (fun (progress : ClassProgress) r =>
      Reads s none p.lexer r.lexer false (progress.elements.reverse.map .classElement)) .refl (by
      intro progress next r r' read pass
      simp at pass
      rcases pass with ⟨-, ⟨-, e, r₁, run, added⟩ | ⟨⟨semi, moved⟩, rfl⟩⟩
      · obtain ⟨elements, same⟩ := addElement_spec added
        rw [elements, same]
        simpa using (read.trans (hg.classElement run)).weaken
      · simpa using (read.trans (.next moved semi rfl)).weaken) run
  simp at done
  obtain ⟨closes, rfl, rfl⟩ := done
  exact ⟨read, closes⟩

omit hg in
theorem className {place : ClassPlace} {id : Option Identifier} (run : Runs s (Grammar.className place) p id q) :
    Reads s none p.lexer q.lexer false (id.toList.map .identifier) := by
  simp [Grammar.className] at run
  rcases run with ⟨-, id, r, name, h⟩ | ⟨-, -, rfl, rfl⟩
  · have read := Reads.identifier (n := .identifier id) name rfl rfl
    rcases h with ⟨-, rfl, rfl⟩ | ⟨-, bound, rfl⟩
    · exact read.weaken
    · rw [← checkBinding_lexer bound] at read
      exact read.weaken
  · exact .refl

theorem classBody {elements : List ClassElement} {p₁ p₂ p₃ : Parser} {strict : Bool}
    (entered : Runs s ParseM.enterClassBody p u p₁) (opens : p₁.lexer.kind = .braceL)
    (moved : Runs s ParseM.next p₁ ⟨⟩ p₂) (run : Runs s (g.classElements derived) p₂ elements p₃)
    (closed : Runs s ParseM.next { p₃ with lexer := { p₃.lexer with strict } } ⟨⟩ q) :
    Reads s none p.lexer q.lexer true
      [.classBody (spanTo s ⟨p₁.lexer.token.start, p₁.lexer.token.startPosition⟩ q.lexer) elements] := by
  obtain rfl : p₁ = { p with privateNames := p.privateNames.enter } := by
    simpa [ParseM.enterClassBody] using entered
  obtain ⟨read, closes⟩ := hg.classElements run
  have tail := (Reads.strict strict).trans (.next closed closes rfl)
  have body := ((Reads.next moved opens rfl).trans read).trans tail
  exact body.node (by simp [Node.children]) rfl rfl trivial

theorem classDefinition {place : ClassPlace} {c : Class} (run : Runs s (g.classDefinition place) p c q)
    (here : p.lexer.kind = .kwClass) :
    Reads s none p.lexer q.lexer true c.children ∧ c.span.start = p.lexer.token.start ∧
      c.span.stop = q.lexer.last.stop := by
  simp [Grammar.classDefinition] at run
  obtain ⟨p₁, moved, id, p₂, name, h⟩ := run
  have head := ((Reads.next moved here rfl).trans (.strict true)).trans (className name)
  rcases h with ⟨-, p₃, entered, p₄, ⟨opens, moved'⟩, elements, p₅, run, p₆, closed, exited, rfl⟩ |
    ⟨p₃, ⟨word, moved'⟩, e, p₄, ⟨d, heritage⟩, p₅, entered, p₆, ⟨opens, moved''⟩, elements, p₇, run, p₈,
      closed, exited, rfl⟩
  · have body := hg.classBody entered opens moved' run closed
    rw [exitClassBody_lexer exited]
    refine ⟨?_, rfl, rfl⟩
    simpa [Class.children] using head.trans body
  · have parent : Reads s none p₃.lexer p₄.lexer true [.expression e] :=
      .of_passage fun ready => (hg.subscripted ready heritage).passage
    have body := hg.classBody entered opens moved'' run closed
    rw [exitClassBody_lexer exited]
    refine ⟨?_, rfl, rfl⟩
    simpa [Class.children] using (head.trans ((Reads.next moved' word rfl).trans parent)).trans body

end Grammar.Faithful
end ScriptSyntax
