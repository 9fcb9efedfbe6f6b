import ScriptSyntax.Proofs.Review.Binding

/-!
Functions: no label reaches into one, so what lies in them has calm marks only.
-/

namespace ScriptSyntax

open Node ParseM Grammar

variable {s : Setting} {α : Type} {p : Parser} {N : α → List Node} {moved : Bool} {m₀ m₁ : ParseM α}

/-! ### Labels -/

theorem relabel_of_behind {labels : List Label} {start inner : Nat} {kind : Option LabelKind}
    (behind : ∀ l ∈ labels, ∀ n ∈ l.statementStart, n < start) :
    relabel start inner kind labels = labels := by
  cases labels with
  | nil => rfl
  | cons l outer =>
    have other : l.statementStart ≠ some start := fun same =>
      absurd (behind l (.head _) start same) (Nat.lt_irrefl _)
    simp [relabel, other]

theorem Parser.Behind.front (behind : p.Behind) : p.Front := fun l mem start =>
  absurd (behind l mem _ start) (Nat.lt_irrefl _)

theorem Labeled.since {a : Statement} {q : Parser} {log : Log} (h : Labeled s p a q log) (behind : p.Behind) :
    Since s p false [.statement a] q log := by
  obtain ⟨inner, labels⟩ := h.labels
  exact ⟨labels.trans (relabel_of_behind behind), h.trace⟩

/-! ### Steps around the body of a function -/

theorem Tracks.start {β : Type} {n₀ n₁ : ParseM β} {Q : β → Parser → Log → Prop} (ready : Steady s p)
    (h : Tracks s (Since s p false []) n₀ n₁ Q) : Tracks s (At p) n₀ n₁ Q :=
  h.strengthen <| by
    rintro _ _ ⟨rfl, rfl⟩
    exact .refl ready

theorem Tracks.startBehind {β : Type} {n₀ n₁ : ParseM β} {Q : β → Parser → Log → Prop} (ready : Steady s p)
    (behind : p.Behind) (h : Tracks s (Since s p true []) n₀ n₁ Q) : Tracks s (At p) n₀ n₁ Q :=
  h.strengthen <| by
    rintro _ _ ⟨rfl, rfl⟩
    exact ⟨rfl, { (Since.refl ready).2 with behind := fun _ => behind }⟩

theorem Tracks.withOwnAwait {b c : Bool} {ns : List Node} {V : α → Prop}
    (h : Tracks s (Since s p b ns) m₀ m₁ fun a q log => V a ∧ Since s p c (N a) q log) :
    Tracks s (Since s p b ns) (withOwnAwait m₀) (withOwnAwait m₁)
      fun a q log => V a ∧ Since s p c (N a) q log := by
  have change {f : Parser → Parser} (h : ∀ q, (f q).bare = f q.bare) (labels : ∀ q, (f q).labels = q.labels)
      (names : ∀ q, (f q).privateNames = q.privateNames) (lexer : ∀ q, (f q).lexer = q.lexer) :
      Quiet s (modify f) := .modify h labels names fun q => lexer q ▸ .refl
  refine .sees fun outer => .strengthen ?_ fun _ _ before => before.2
  refine .quiet (change (fun _ => rfl) (fun _ => rfl) (fun _ => rfl) fun _ => rfl) fun _ => h.bind fun a => ?_
  refine .known fun value => .quiet (change ?_ ?_ ?_ ?_) fun _ => .pure fun _ _ after => ⟨value, after⟩
  all_goals exact fun _ => rfl

theorem Adds.withOwnAwait (h : Adds s moved m₀ m₁ N) : Adds s moved (withOwnAwait m₀) (withOwnAwait m₁) N :=
  .of fun _ => (Tracks.withOwnAwait (V := fun _ => True) (h.since.weaken fun _ _ _ after =>
    ⟨trivial, by simpa using after⟩)).weaken
    fun _ _ _ after => after.2

theorem Tracks.ofExcept {β : Type} {x : Except Complaint α} {P : Parser → Log → Prop} {f₀ f₁ : α → ParseM β}
    {Q : β → Parser → Log → Prop} (next : ∀ a, x = .ok a → Tracks s P (f₀ a) (f₁ a) Q) :
    Tracks s P (ofExcept x >>= f₀) (ofExcept x >>= f₁) Q := by
  cases x with
  | ok a => simpa only [ParseM.ofExcept, pure_bind] using next a rfl
  | error => exact .fails (.bind .complain) (.bind .complain)

theorem Adds.withoutLabels {b : Bool}
    (h : ∀ p, Steady s p → p.labels = [] → Tracks s (At p) m₀ m₁ fun a => Since s p b (N a))
    (calm : ∀ a, ∀ n ∈ N a, ∀ k, n.Has k → k.isCalm = true) :
    Adds s false (withoutLabels m₀) (withoutLabels m₁) N := fun _ ready =>
  .withoutLabels ready (h _ ⟨ready.plain, ready.ordered, ready.enclosed, nofun⟩ rfl) calm

namespace Quiet

@[grind ←] theorem checkParameterAwait : Quiet s checkParameterAwait :=
  .sees (fun _ => rfl) fun _ => by grind

@[grind ←] theorem functionBinding {special : Bool} : Quiet s (functionBinding special) := by
  grind [Grammar.functionBinding]

@[grind ←] theorem functionName {place : FunctionPlace} {special : Bool} : Quiet s (functionName place special) := by
  grind [Grammar.functionName]

@[grind ←] theorem generatorStar {place : FunctionPlace} {isAsync : Bool} :
    Quiet s (generatorStar place isAsync) := by grind [Grammar.generatorStar]

end Quiet

namespace Grammar.Reviewed

variable {g₀ g₁ : Grammar} (hg : g₀.Reviewed s g₁)
include hg

theorem statement_behind {context : Option StatementContext} {topLevel : Bool} :
    AddsBehind s false (g₀.statement context topLevel) (g₁.statement context topLevel)
      fun a => [.statement a] := fun p ready behind =>
  (hg.statement context topLevel p ready behind.front).weaken fun _ _ _ after => after.since behind

theorem statementsInBraces {strictAfter : Option Bool} :
    Adds s true (g₀.statementsInBraces strictAfter) (g₁.statementsInBraces strictAfter)
      fun body => body.map .statement := by
  refine .of fun _ => .adds (.expect rfl) fun _ => .behind (.collectUntil hg.statement_behind) fun body => ?_
  have rest {p : Parser} : Tracks s (Since s p true (body.flatMap fun a => [Node.statement a]))
      (do next; return body) (do next; return body) fun body => Since s p true (body.map .statement) :=
    .quiet .next fun _ => .done id fun _ mem => .of_mem (by simpa [List.map_eq_flatMap] using mem)
  split
  · exact .quiet .setStrict fun _ => rest
  · exact rest

theorem block : Adds s true g₀.block g₁.block fun b => [.statement (.block b)] := by
  refine .of fun _ => .look .startNode fun _ => .adds (.expect rfl) fun _ => .quiet .enterScope fun _ => ?_
  refine .behind (.collectUntil hg.statement_behind) fun body => .quiet .next fun _ => .quiet .exitScope fun _ => ?_
  exact .look .finishSpan fun _ => .done id (.node rfl (by simp [children, Statement.children, List.map_eq_flatMap]))

theorem scopelessBlock {strictAfter : Option Bool} :
    Adds s true (g₀.scopelessBlock strictAfter) (g₁.scopelessBlock strictAfter)
      fun b => [.statement (.block b)] :=
  .of fun _ => .look .startNode fun _ => .adds hg.statementsInBraces fun _ => .look .finishSpan fun _ =>
    .done id (.node rfl (by simp [children, Statement.children]))

omit hg in
theorem withDirectives {b : Bool} {block : Block} :
    Tracks s (Since s p b [.statement (.block block)]) (withDirectives block.body) (withDirectives block.body)
      fun body => Since s p b [.statement (.block { block with body })] := by
  obtain ⟨span, body⟩ := block
  refine .look .since fun _ => .ite (fun _ => .look .source fun _ => ?_) fun _ => .pure fun _ _ => id
  · refine .done id (.nodeOf rfl fun c child => ?_)
    refine (covered_of_markDirectives c child).trans fun m mem => ?_
    exact .of_child (m := Node.statement (.block ⟨span, body⟩)) mem rfl (.of_mem (.head _))

/-- A body shows its marks as a static block does. -/
theorem functionBody {params : List Pattern} {id : Option Identifier} {start : Nat} {unique : Bool} :
    Adds s false (g₀.functionBody params id start unique) (g₁.functionBody params id start unique)
      fun b => [.classElement b.asStaticBlock] := by
  refine .of fun _ => .look .strict fun outerStrict => .look .since fun _ => .look .source fun _ =>
    .look .edition fun _ => .look .lexer fun _ => .when (.of_fails .failRecoverable) <|
      .adds (.withoutLabels (b := true) ?_ ?_) fun _ =>
      .quiet .exitScope fun _ => .done (fun h => h) fun _ mem => .of_mem mem
  · intro p ready empty
    refine .start ready (.when .setStrict <| .quiet (by grind) fun _ => ?_)
    have rest (strictAfter : Option Bool) : Tracks s (Since s p false [])
        (do
          let block ← g₀.scopelessBlock strictAfter
          return { block with body := ← ParseM.withDirectives block.body })
        (do
          let block ← g₁.scopelessBlock strictAfter
          return { block with body := ← ParseM.withDirectives block.body })
        fun b => Since s p true [.classElement b.asStaticBlock] := by
      refine .adds hg.scopelessBlock fun block => withDirectives.bind fun body => .pure fun q log after => ?_
      refine ⟨after.1, after.2.around rfl (fun c child => .of_mem child) (fun _ => after.1.trans empty) nofun⟩
    cases id with
    | some => exact .look .strict fun _ => .when .checkBinding (rest _)
    | none => exact rest _
  · intro b
    rw [List.forall_mem_singleton]
    exact fun k has => has.isCalm rfl

theorem method {isGenerator isAsync directSuper : Bool} :
    Adds s false (g₀.method isGenerator isAsync directSuper) (g₁.method isGenerator isAsync directSuper)
      fun f => [.expression (.function f)] := by
  refine .of fun _ => .look .startNode fun _ => .look .since fun _ => .look .since fun _ =>
    .adds (.withOwnAwait (N := fun x => x.1.map .pattern ++ [.classElement x.2.asStaticBlock]) (.of fun _ => ?_))
      fun (params, body) => .look .finishSpan fun _ => .done (fun h => h) ?_
  · exact .quiet (by grind) fun _ => .quiet .expect fun _ => .adds hg.parameters fun _ =>
      .quiet .checkParameterAwait fun _ =>
      .adds hg.functionBody fun _ => .done (fun h => h) fun _ mem => .of_mem mem
  · refine List.forall_mem_singleton.mpr (.of_callable rfl rfl (fun a mem => .of_mem ?_) ?_)
    · simp [mem]
    · simp

theorem function {start : NodeStart} {place : FunctionPlace} {isAsync : Bool} :
    Adds s false (g₀.function start place isAsync) (g₁.function start place isAsync)
      fun f => [.expression (.function f)] := by
  refine .of fun _ => .quiet .generatorStar fun _ => .look .since fun _ => .quiet (by grind) fun _ =>
    .adds (.withOwnAwait (N := fun x => x.2.1.map .pattern ++ [.classElement x.2.2.asStaticBlock])
      (.of fun _ => .quiet .enterScope fun _ => .look .kind fun _ => ?_)) fun (id, params, body) =>
        .look .finishSpan fun _ => .done (fun h => h) ?_
  · refine .choose (fun _ => .ofQuiet (by grind)) (fun _ => .ofQuiet .pure) fun own => ?_
    exact .quiet .expect fun _ => .adds hg.parameters fun _ => .quiet .checkParameterAwait fun _ =>
      .adds hg.functionBody fun _ => .done (fun h => h) fun _ mem => .of_mem mem
  · refine List.forall_mem_singleton.mpr (.of_callable rfl rfl (fun a mem => .of_mem ?_) ?_)
    · simp [mem]
    · simp

/-- The parameters of an arrow function were read before. -/
theorem arrow {start : NodeStart} {params : List (Option Expression)} {rest : Option Pattern} {isAsync : Bool}
    {init : InitMode} {b : Bool} {ns : List Node}
    (covered : ∀ e ∈ params.filterMap id, (Node.expression e).Covered ns)
    (rests : ∀ a ∈ rest, (Node.pattern a).Covered ns) :
    Tracks s (Since s p b ns) (g₀.arrow start params rest isAsync init)
      (g₁.arrow start params rest isAsync init) fun e => Since s p b [.expression e] := by
  refine .bind (R := fun x q log => (∀ a ∈ x.1, (Node.pattern a).Covered ns) ∧
    Since s p b (ns ++ [x.2.alone]) q log) (.withOwnAwait (.quiet (by grind) fun _ => ?_)) fun (params, body) => ?_
  · refine .look .targetRules fun rules => .ofExcept fun targets read => .look .isKind fun _ => ?_
    have known : ∀ a ∈ targets.filterMap id ++ rest.toList, (Node.pattern a).Covered ns := fun a mem => by
      rcases List.mem_append.mp mem with mem | mem
      · refine (covering.of_slotTargets read _ (List.mem_map_of_mem mem)).trans fun n from' => ?_
        obtain ⟨e, mem, rfl⟩ := List.mem_map.mp from'
        exact covered e mem
      · exact rests a (by simpa using mem)
    refine .ite (fun _ => ?_) fun _ => ?_
    · exact .adds hg.functionBody fun _ => .pure fun _ _ after => ⟨known, by simpa [ArrowBody.alone] using after⟩
    · refine .adds hg.plainAssignment fun _ => .quiet .checkParams fun _ => .quiet .exitScope fun _ => ?_
      exact .pure fun _ _ after => ⟨known, by simpa [ArrowBody.alone] using after⟩
  · refine .known fun known => .look .finishSpan fun _ => .look .since fun _ => .done (fun h => h) ?_
    exact List.forall_mem_singleton.mpr (.of_arrow (fun a mem => (known a mem).mono (by simp)) (by simp))

end Grammar.Reviewed
end ScriptSyntax
