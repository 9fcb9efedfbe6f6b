import ScriptSyntax.Parser.Grammar
import ScriptSyntax.Proofs.Parser.Reads
import ScriptSyntax.Parser.Binding
import ScriptSyntax.Proofs.Parser.Offers

/-!
Runs that read single words, literals and patterns of names.
-/

namespace ScriptSyntax
namespace Reads

open Runs

variable {s : Setting} {p q : Parser} {n : Node} {u : Unit}

/-! ### Words -/

theorem keywordAsName {kind : TokenKind} (run : Runs s (ParseM.keywordAsName kind) p u q) :
    Reads s none p.lexer q.lexer false [] ∧ q.lexer.kind = .name ∧ q.lexer.token = p.lexer.token := by
  simp only [ParseM.keywordAsName, bind_iff, lexer_iff, source_iff, exists_look, modify_iff] at run
  subst run
  dsimp only
  split <;> exact ⟨.still rfl rfl rfl rfl rfl (.inr rfl), rfl, rfl⟩

/-- A word of any kind is taken for a name. -/
theorem wordText {text : String} (run : Runs s ParseM.wordText p text q) :
    Reads s none p.lexer q.lexer false [] ∧ q.lexer.kind = .name ∧ q.lexer.token = p.lexer.token := by
  simp only [ParseM.wordText, bind_iff, lexer_iff, exists_look, ite_iff, pure_iff] at run
  rcases run with ⟨name, -, rfl⟩ | ⟨-, run⟩
  · exact ⟨.refl, name, rfl⟩
  · cases h : p.lexer.kind.keyword? with
    | none => simp [h] at run
    | some keyword =>
      simp only [h, bind_unit_iff, pure_iff] at run
      obtain ⟨_, renamed, -, rfl⟩ := run
      exact keywordAsName renamed

/-- A word that is moved past gives a name. -/
theorem ofWord {text : String} {p₁ : Parser} (word : Runs s ParseM.wordText p text p₁)
    (next : Runs s ParseM.nextAfterWord p₁ u q) (name : n.isName = true)
    (start : n.span.start = p.lexer.token.start) (stop : n.span.stop = q.lexer.last.stop) :
    Reads s none p.lexer q.lexer true [n] := by
  obtain ⟨still, kind, -⟩ := wordText word
  have read := still.trans (.nextWord next kind rfl)
  exact read.node (Node.children_of_isName name) start stop (Node.regular_of_isName name)

theorem anyWord {id : Identifier} (run : Runs s ParseM.anyWord p id q) (name : n.isName = true)
    (span : n.span = id.span) : Reads s none p.lexer q.lexer true [n] := by
  simp only [ParseM.anyWord, bind_iff, startNode_iff, exists_look, finishSpan_iff, pure_iff] at run
  obtain ⟨text, p₁, word, _, p₂, moved, rfl, rfl⟩ := run
  exact ofWord word moved name (congrArg _ span) (congrArg _ span)

/-- Checks on a name leave the lexer alone. -/
theorem checkName {id : Identifier} (run : Runs s (ParseM.checkName id) p u q) : q = p := by
  simp only [ParseM.checkName, bind_iff, read_iff, strict_iff, scopes_iff, exists_look, check_iff] at run
  exact run.2

theorem noteAwaitName {name : String} {pos : Nat} (run : Runs s (ParseM.noteAwaitName name pos) p u q) :
    q.lexer = p.lexer := by
  simp only [ParseM.noteAwaitName, ite_iff, modify_iff, pure_iff] at run
  rcases run with ⟨-, rfl⟩ | ⟨-, -, rfl⟩ <;> rfl

theorem identifier {id : Identifier} (run : Runs s ParseM.identifier p id q) (name : n.isName = true)
    (span : n.span = id.span) : Reads s none p.lexer q.lexer true [n] := by
  simp only [ParseM.identifier, bind_iff, startNode_iff, exists_look, finishSpan_iff, pure_iff] at run
  obtain ⟨text, p₁, word, _, p₂, moved, _, p₃, checked, _, p₄, noted, rfl, rfl⟩ := run
  obtain rfl := checkName checked
  rw [noteAwaitName noted]
  exact ofWord word (afterWord_of_next moved) name (congrArg _ span) (congrArg _ span)

theorem propertyWord {id : Identifier} (run : Runs s ParseM.propertyWord p id q)
    (name : n.isName = true) (span : n.span = id.span) : Reads s none p.lexer q.lexer true [n] := by
  simp only [ParseM.propertyWord, bind_iff, read_iff, exists_look, ite_iff] at run
  rcases run with ⟨-, run⟩ | ⟨-, run⟩
  · exact identifier run name span
  · exact anyWord run name span

/-! ### Literals and private names -/

theorem privateIdentifier {id : PrivateIdentifier} (run : Runs s ParseM.privateIdentifier p id q) :
    Reads s none p.lexer q.lexer true [.expression (.privateIdentifier id)] := by
  simp [ParseM.privateIdentifier] at run
  obtain ⟨-, p₁, moved, ⟨-, -, rfl, rfl⟩ | ⟨-, rfl, rfl⟩⟩ := run
  · exact .leaf (q := p₁) moved rfl rfl rfl
  · exact .leaf moved rfl rfl rfl

theorem literal {literal : Literal} (run : Runs s ParseM.literal p literal q)
    (leaf : n.isTokenLeaf = true) (span : n.span = literal.span) :
    Reads s none p.lexer q.lexer true [n] := by
  simp only [ParseM.literal, bind_iff, startNode_iff, lexer_iff, source_iff, exists_look] at run
  cases value : ParseM.literalValue? p.lexer.value with
  | none => simp [value] at run
  | some value =>
    simp only [value, bind_iff, finishSpan_iff, exists_look, pure_iff] at run
    obtain ⟨_, p₁, moved, rfl, rfl⟩ := run
    exact .leaf moved leaf (congrArg _ span) (congrArg _ span)

theorem stringLiteral {literal : Literal} (run : Runs s ParseM.stringLiteral p literal q)
    (leaf : n.isTokenLeaf = true) (span : n.span = literal.span) :
    Reads s none p.lexer q.lexer true [n] := by
  simp [ParseM.stringLiteral] at run
  exact Reads.literal run.2 leaf span

end Reads

/-! ### Patterns of names -/

open Runs

variable {s : Setting} {p q : Parser} {g : Grammar}

theorem Grammar.checkNoComma_iff {u : Unit} :
    Runs s Grammar.checkNoComma p u q ↔ p.lexer.kind ≠ .comma ∧ q = p := by
  simp [Grammar.checkNoComma]

/-- A target stays as it is or gets a default. -/
theorem Grammar.withDefault_cases {start : NodeStart} {target a : Pattern}
    (run : Runs s (g.withDefault start target) p a q) :
    a = target ∨ ∃ span value, a = .assignment span target value := by
  simp [Grammar.withDefault] at run
  rcases run with ⟨-, rfl⟩ | ⟨_, -, value, -, rfl⟩
  · exact .inl rfl
  · exact .inr ⟨_, value, rfl⟩

theorem Grammar.shorthandTarget_spec {start : NodeStart} {id : Identifier} {target : Pattern}
    (run : Runs s (Grammar.shorthandTarget start id) p target q) :
    target = .identifier id ∧ q.lexer = p.lexer := by
  simp [Grammar.shorthandTarget] at run
  obtain ⟨p₁, checked, noted, rfl⟩ := run
  exact ⟨rfl, by rw [Reads.noteAwaitName noted, Reads.checkName checked]⟩

namespace Grammar.Faithful

variable (hg : g.Faithful s)
include hg

theorem propertyName {key : Expression} {computed : Bool}
    (run : Runs s g.propertyName p (key, computed) q) :
    Reads s none p.lexer q.lexer true [.expression key] := by
  simp [Grammar.propertyName] at run
  rcases run with ⟨-, run⟩ | ⟨p₁, ⟨⟨-, opens⟩, moved⟩, p₂, value, ⟨closes, moved'⟩, -⟩
  · split at run <;> simp at run
    · obtain ⟨l, run, rfl, -⟩ := run
      exact .literal run rfl rfl
    · obtain ⟨l, run, rfl, -⟩ := run
      exact .literal run rfl rfl
    · obtain ⟨id, run, rfl, -⟩ := run
      exact .propertyWord run rfl rfl
  · exact ((Reads.next moved opens rfl).trans (hg.plainAssignment value)).trans (.next moved' closes rfl)

theorem withDefault {start : NodeStart} {target a : Pattern} {l : Lexer}
    (before : Reads s none l p.lexer true [.pattern target]) (here : start.pos = l.token.start)
    (run : Runs s (g.withDefault start target) p a q) :
    Reads s none l q.lexer true [.pattern a] := by
  simp [Grammar.withDefault] at run
  rcases run with ⟨⟨-, rfl⟩, rfl⟩ | ⟨p₁, ⟨⟨-, eq⟩, moved⟩, value, run, rfl⟩
  · exact before
  · exact ((before.trans (.next moved eq rfl)).trans (hg.plainAssignment run)).node rfl here rfl trivial

theorem bindingElement {a : Pattern} (run : Runs s g.bindingElement p a q) :
    Reads s none p.lexer q.lexer true [.pattern a] ∧ a.isRest = false := by
  simp [Grammar.bindingElement] at run
  obtain ⟨target, p₁, atom, run⟩ := run
  obtain ⟨read, notRest, -⟩ := hg.bindingAtom atom
  refine ⟨hg.withDefault read rfl run, ?_⟩
  rcases withDefault_cases run with rfl | ⟨span, value, rfl⟩
  · exact notRest
  · rfl

theorem restBinding {a : Pattern} (run : Runs s g.restBinding p a q) (here : p.lexer.kind = .ellipsis) :
    Reads s none p.lexer q.lexer true [.pattern a] ∧ a.RestPlain := by
  simp [Grammar.restBinding] at run
  obtain ⟨p₁, moved, -, target, atom, rfl⟩ := run
  obtain ⟨read, -, notDefault⟩ := hg.bindingAtom atom
  exact ⟨((Reads.next moved here rfl).trans read).node rfl rfl rfl trivial, notDefault⟩

theorem bindingList {close : TokenKind} {holes trailing : Bool} {as : List (Option Pattern)}
    (run : Runs s (g.bindingList close holes trailing) p as q) (untracked : close.isTracked = false) :
    Reads s none p.lexer q.lexer true ((as.filterMap id).map .pattern) ∧ RestsPlaced as ∧
      (holes = false → none ∉ as) := by
  obtain ⟨found, r, ⟨read, notRest, full⟩, done⟩ := Runs.of_repeatPast
    (fun found r => Reads s none p.lexer r.lexer false ((found.reverse.filterMap id).map .pattern) ∧
      (∀ p, some p ∈ found.reverse → p.isRest = false) ∧ (holes = false → none ∉ found.reverse))
    ⟨.refl, by simp, by simp⟩ (by
      rintro found next r r' ⟨read, notRest, full⟩ pass
      simp at pass
      obtain ⟨-, r₁, separated, pass⟩ := pass
      rcases pass with ⟨⟨rfl, -⟩, rfl, rfl⟩ | ⟨-, -, -, a, element, rfl⟩
      · exact ⟨by simpa using read.trans (.separator separated), by simpa using notRest, nofun⟩
      · obtain ⟨elementRead, elementNotRest⟩ := hg.bindingElement element
        refine ⟨by simpa using (read.trans (.separator separated)).trans elementRead |>.weaken, ?_,
          by simpa using full⟩
        simpa [or_imp, forall_and, elementNotRest] using notRest) run
  simp [checkNoComma_iff] at done
  rcases done with ⟨-, r₁, separated, -, h⟩ | ⟨⟨closes, moved⟩, rfl⟩
  · have separated := read.trans (.separator separated)
    rcases h with ⟨-, here, a, r₂, rest, -, ⟨closes, moved⟩, rfl⟩ | ⟨⟨⟨-, closes⟩, moved⟩, rfl⟩
    · obtain ⟨restRead, plain⟩ := hg.restBinding rest here
      refine ⟨?_, restsPlaced_concat notRest plain, by simpa using full⟩
      simpa using (separated.trans restRead).trans (.next moved closes untracked)
    · refine ⟨by simpa using separated.trans (.next moved closes untracked), ?_⟩
      exact ⟨restsPlaced_of_notRest notRest, full⟩
  · exact ⟨by simpa using read.trans (.next moved closes untracked), restsPlaced_of_notRest notRest, full⟩

theorem parameters {params : List Pattern} (run : Runs s g.parameters p params q) :
    Reads s none p.lexer q.lexer true (params.map .pattern) ∧ RestsPlaced (params.map some) := by
  simp [Grammar.parameters] at run
  obtain ⟨found, list, rfl⟩ := run
  obtain ⟨read, placed, full⟩ := hg.bindingList list rfl
  exact ⟨read, (map_some_filterMap (full rfl)).symm ▸ placed⟩

theorem plainMember {computed : Bool} {key : Expression} {value : Pattern} {p₁ p₂ : Parser}
    (name : Runs s g.propertyName p (key, computed) p₁) (colon : p₁.lexer.kind = .colon)
    (moved : Runs s ParseM.next p₁ ⟨⟩ p₂) (element : Runs s g.bindingElement p₂ value q) {start : NodeStart}
    (here : start.pos = p.lexer.token.start) :
    Reads s none p.lexer q.lexer true
      [.patternMember (.property (spanTo s start q.lexer) false computed key value)] := by
  have key := (hg.propertyName name).trans (.next moved colon rfl)
  exact (key.trans (hg.bindingElement element).1).node rfl here rfl trivial

/-- A property that is no more than a name, which stands for the key and for the target. -/
theorem shorthandMember {id : Identifier} {value : Pattern} {p₁ p₂ : Parser} {start : NodeStart}
    {target : Pattern} (name : Runs s g.propertyName p (.identifier id, false) p₁)
    (here : start.pos = p.lexer.token.start)
    (shorthand : Runs s (Grammar.shorthandTarget start id) p₁ target p₂)
    (default : Runs s (g.withDefault start target) p₂ value q) :
    Reads s none p.lexer q.lexer true
        [.patternMember (.property (spanTo s start q.lexer) true false (.identifier id) value)] ∧
      (∀ a, (PatternMember.property (spanTo s start q.lexer) true false (.identifier id) value).slot =
        some a → a.isRest = false) := by
  obtain ⟨rfl, same⟩ := shorthandTarget_spec shorthand
  have key : Reads s none p.lexer p₁.lexer true [.pattern (.identifier id)] :=
    (hg.propertyName name).rename rfl rfl rfl
  rw [← same] at key
  have read := hg.withDefault key here default
  rcases withDefault_cases default with rfl | ⟨span, x, rfl⟩
  · refine ⟨read.clone (k := .expression (.identifier id)) (.inl rfl) .refl rfl rfl here rfl trivial, ?_⟩
    simp [PatternMember.slot, Pattern.isDefault, Pattern.isRest]
  · refine ⟨read.clone (k := .expression (.identifier id)) (.inl rfl)
      (.of_child (.head _)) rfl rfl here rfl trivial, ?_⟩
    simp [PatternMember.slot, Pattern.isDefault]

theorem patternMember {m : PatternMember} (run : Runs s g.patternMember p m q) :
    Reads s none p.lexer q.lexer true [.patternMember m] ∧
      (∀ a, m.slot = some a → a.RestPlain) ∧
      (q.lexer.kind = .comma → ∀ a, m.slot = some a → a.isRest = false) := by
  have plain {m : PatternMember} (notRest : ∀ a, m.slot = some a → a.isRest = false) :
      (∀ a, m.slot = some a → a.RestPlain) ∧
        (q.lexer.kind = .comma → ∀ a, m.slot = some a → a.isRest = false) :=
    ⟨fun a slot => a.restPlain_of_notRest (notRest a slot), fun _ => notRest⟩
  simp [Grammar.patternMember, checkNoComma_iff] at run
  rcases run with ⟨-, key, ⟨p₁, name, ⟨-, h⟩ | ⟨p₂, ⟨colon, moved⟩, value, element, rfl⟩⟩ |
    ⟨p₁, name, p₂, ⟨colon, moved⟩, value, element, rfl⟩⟩ | ⟨p₁, ⟨⟨-, here⟩, moved⟩, id, name, notComma, rfl⟩
  · cases key with
    | identifier id =>
      simp at h
      obtain ⟨target, p₂, shorthand, value, default, rfl⟩ := h
      obtain ⟨read, notRest⟩ := hg.shorthandMember name rfl shorthand default
      exact ⟨read, plain notRest⟩
    | _ => simp at h
  · refine ⟨hg.plainMember name colon moved element rfl, plain ?_⟩
    simp [PatternMember.slot, (hg.bindingElement element).2]
  · refine ⟨hg.plainMember name colon moved element rfl, plain ?_⟩
    simp [PatternMember.slot, (hg.bindingElement element).2]
  · refine ⟨?_, by simp [PatternMember.slot, Pattern.RestPlain, Pattern.isDefault], fun comma => ?_⟩
    · exact ((Reads.next moved here rfl).trans (.identifier name rfl rfl)).node rfl rfl rfl trivial
    · exact (notComma comma).elim

theorem objectPattern {a : Pattern} (run : Runs s g.objectPattern p a q) (here : p.lexer.kind = .braceL) :
    Reads s none p.lexer q.lexer true [.pattern a] := by
  simp [Grammar.objectPattern] at run
  obtain ⟨p₁, moved, members, list, rfl⟩ := run
  have read := Reads.commaSeparated rfl (fun item => (hg.patternMember item).1) list
  have placed := Runs.commaSeparated_forall (fun item => (hg.patternMember item).2) list
  refine ((Reads.next moved here rfl).trans read).node rfl rfl rfl ⟨fun a slot => ?_, fun a slot => ?_⟩
  · rw [← List.map_dropLast] at slot
    obtain ⟨m, mem, same⟩ := List.mem_map.mp slot
    exact placed.2 m mem a same
  · obtain ⟨m, mem, same⟩ := List.mem_map.mp slot
    exact placed.1 m mem a same

theorem arrayPattern {a : Pattern} (run : Runs s g.arrayPattern p a q) (here : p.lexer.kind = .bracketL) :
    Reads s none p.lexer q.lexer true [.pattern a] := by
  simp [Grammar.arrayPattern] at run
  obtain ⟨p₁, moved, elements, list, rfl⟩ := run
  obtain ⟨read, placed, -⟩ := hg.bindingList list rfl
  exact ((Reads.next moved here rfl).trans read).node rfl rfl rfl placed

theorem bindingLevel {a : Pattern} (run : Runs s g.bindingLevel p a q) :
    Reads s none p.lexer q.lexer true [.pattern a] ∧ a.isRest = false ∧ a.isDefault = false := by
  simp [Grammar.bindingLevel] at run
  rcases run with ⟨⟨-, here⟩, run⟩ | ⟨-, ⟨⟨-, here⟩, run⟩ | ⟨-, id, run, rfl⟩⟩
  · refine ⟨hg.arrayPattern run here, ?_⟩
    simp [Grammar.arrayPattern] at run
    obtain ⟨_, _, _, _, rfl⟩ := run
    exact ⟨rfl, rfl⟩
  · refine ⟨hg.objectPattern run here, ?_⟩
    simp [Grammar.objectPattern] at run
    obtain ⟨_, _, _, _, rfl⟩ := run
    exact ⟨rfl, rfl⟩
  · exact ⟨.identifier run rfl rfl, rfl, rfl⟩

end Grammar.Faithful
end ScriptSyntax
