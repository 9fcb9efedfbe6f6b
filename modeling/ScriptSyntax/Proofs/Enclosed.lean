import ScriptSyntax.Proofs.Accepted
import ScriptSyntax.Proofs.Review.Program

/-!
What the nodes around a node owe it in every accepted program: a jump ends at a statement around it, a label
is not repeated inside itself, and a private name is declared by a class body around it.  Where a program is
refused for want of one of these, it is at the first place that wants it.
-/

namespace ScriptSyntax

open Node

variable {s : Setting} {start : Nat} {a : Program} {l : Lexer} {log : Log}

/-- A jump ends at one of the nodes around it, innermost first, and leads out of no function or static block. -/
def Jump.Lands (j : Jump) : List Node → Prop
  | [] => False
  | n :: around => n.isBoundary = false ∧ (n.catches j = true ∨ j.Lands around)

/-- No node around, up to the border of the function or static block, is a statement with that label. -/
def LabelFree (name : String) : List Node → Prop
  | [] => True
  | n :: around => n.isBoundary = true ∨ (n.label? ≠ some name ∧ LabelFree name around)

/-! ### Marks seen through the nodes around -/

namespace Node

/-- The mark as it is seen from outside of all nodes around, innermost first. -/
def Mark.outOf (around : List Node) (k : Mark) : Mark := around.foldl (fun k n => k.through n) k

@[simp] theorem Mark.outOf_nil (k : Mark) : k.outOf [] = k := rfl

@[simp] theorem Mark.outOf_cons (n : Node) (around : List Node) (k : Mark) :
    k.outOf (n :: around) = (k.through n).outOf around := rfl

theorem Mark.outOf_fixed {k : Mark} (fixed : ∀ n, k.through n = k) (around : List Node) : k.outOf around = k := by
  induction around with
  | nil => rfl
  | cons n around ih => rw [outOf_cons, fixed, ih]

theorem Mark.outOf_use {name : String} {pos : Nat} (around : List Node) (known : Bool) :
    (use name pos known).outOf around = use name pos (known || around.any (·.declares name)) := by
  induction around generalizing known with
  | nil => simp
  | cons n around ih => rw [outOf_cons, through, ih, List.any_cons, Bool.or_assoc]

theorem Mark.outOf_jump (j : Jump) (pos : Nat) (around : List Node) :
    ∃ reach, (jump j pos .free).outOf around = jump j pos reach ∧ (reach = .caught ↔ j.Lands around) := by
  induction around with
  | nil => exact ⟨.free, rfl, by simp [Jump.Lands]⟩
  | cons n around ih =>
    by_cases boundary : n.isBoundary = true
    · refine ⟨.lost, ?_, by simp [Jump.Lands, boundary]⟩
      simpa [through, boundary] using outOf_fixed (k := jump j pos .lost) (fun _ => rfl) around
    · by_cases catches : n.catches j = true
      · refine ⟨.caught, ?_, by simp [Jump.Lands, boundary, catches]⟩
        simpa [through, boundary, catches] using outOf_fixed (k := jump j pos .caught) (fun _ => rfl) around
      · obtain ⟨reach, same, iff⟩ := ih
        refine ⟨reach, ?_, by simp [Jump.Lands, boundary, catches, iff]⟩
        simpa [through, boundary, catches] using same

theorem Mark.outOf_label {name : String} (around : List Node) (repeated : ¬ LabelFree name around) :
    (label name true).outOf around = clash := by
  induction around with
  | nil => exact absurd trivial repeated
  | cons n around ih =>
    rw [LabelFree, not_or] at repeated
    obtain ⟨inner, repeated⟩ := repeated
    by_cases same : n.label? = some name
    · simpa [through, inner, same] using outOf_fixed (k := clash) (fun _ => rfl) around
    · simpa [through, inner, same] using ih fun free => repeated ⟨same, free⟩

theorem Lies.has_outOf {m n : Node} {around : List Node} {k : Mark} (lies : Lies m around n) (own : m.Has k) :
    n.Has (k.outOf around) := lies.has own

/-- Every node within another one lies in it. -/
theorem Within.lies {m n : Node} (within : Within m n) : ∃ around, Lies m around n := by
  induction within with
  | refl => exact ⟨[], .here⟩
  | step child _ ih =>
    obtain ⟨around, lies⟩ := ih
    exact ⟨_, .inside child lies⟩

end Node

/-- The first statement of the labeled block that a program begins with. -/
def Program.labeledFirst? (a : Program) : Option Statement :=
  match a.body with
  | .labeledStatement _ _ (.block b) :: _ => b.body.head?
  | _ => none

theorem Program.lies_of_labeledFirst? {st : Statement} (found : a.labeledFirst? = some st) :
    ∃ around, Lies (statement st) around (program a) := by
  unfold labeledFirst? at found
  split at found
  · next span label block rest body =>
    have labeled : Within (statement (.labeledStatement span label (.block block))) (program a) :=
      .of_child (by simp [children, body])
    have braced : Within (statement (.block block)) (statement (.labeledStatement span label (.block block))) :=
      .of_child (by simp [children, Statement.children])
    have first : Within (statement st) (statement (.block block)) :=
      .of_child (by simpa [children, Statement.children] using List.mem_of_head? found)
    exact ((first.trans braced).trans labeled).lies
  · cases found

/-! ### What the log tells -/

namespace Log.Tells

variable (tells : log.Tells s a l)
include tells

/-- A jump that lands is not in the log, and any other is. -/
theorem jump_iff {st : Statement} {j : Jump} {around : List Node} (lies : Lies (statement st) around (program a))
    (is : st.jump? = some j) : st.span.start ∈ log.jumps ↔ ¬ j.Lands around := by
  obtain ⟨reach, same, iff⟩ := Mark.outOf_jump j st.span.start around
  obtain ⟨start, stop, -, admits⟩ := same ▸ tells.marks _ (lies.has_outOf (.jump is))
  rw [← iff]
  cases reach with
  | free => simpa using admits
  | caught => simpa using admits
  | lost => simpa using admits

theorem labelFree {span : Span} {label : Identifier} {body : Statement} {around : List Node}
    (lies : Lies (statement (.labeledStatement span label body)) around (program a)) : LabelFree label.name around := by
  by_contra repeated
  obtain ⟨start, stop, admits⟩ := tells.marks _ (lies.has_outOf .label)
  rw [Mark.outOf_label around repeated] at admits
  exact admits

/-- A use that no class body around it declares is in the log. -/
theorem mem_uses {id : PrivateIdentifier} {around : List Node} (check : s.options.checkPrivateFields = true)
    (lies : Lies (expression (.privateIdentifier id)) around (program a))
    (undeclared : ∀ n ∈ around, n.declares id.name = false) : (id.name, id.span.start) ∈ log.uses := by
  obtain ⟨start, stop, admits⟩ := tells.marks _ (lies.has_outOf (.use id))
  have none : around.any (·.declares id.name) = false := by simpa using undeclared
  rw [Mark.outOf_use, none] at admits
  exact admits.2 check

theorem classBody {span : Span} {elements : List ClassElement} (within : Within (classBody span elements) (program a)) :
    (∀ name, DeclaredOnce (privateKinds name elements)) ∧
      ∀ u ∈ log.uses, span.start ≤ u.2 ∧ u.2 < span.stop → (Node.classBody span elements).declares u.1 = false := by
  obtain ⟨around, lies⟩ := within.lies
  constructor
  · intro name
    by_contra twice
    obtain ⟨start, stop, admits⟩ := tells.marks _ (lies.has_outOf (.misdeclared twice))
    rw [Mark.outOf_fixed fun _ => rfl] at admits
    exact admits
  · obtain ⟨start, stop, admits⟩ := tells.marks _ (lies.has_outOf .body)
    rw [Mark.outOf_fixed fun _ => rfl] at admits
    exact admits.2

theorem head_le {u v : String × Nat} (first : log.uses.head? = some u) (mem : v ∈ log.uses) : u.2 ≤ v.2 := by
  obtain ⟨rest, uses⟩ := List.head?_eq_some_iff.1 first
  have sorted := tells.sorted
  rw [uses] at sorted mem
  rcases List.mem_cons.1 mem with rfl | mem
  · exact Nat.le_refl _
  · exact Nat.le_of_lt (List.rel_of_pairwise_cons sorted mem)

end Log.Tells

namespace Setting

theorem exists_of_fault {α β : Type} {x : Except SyntaxError α × β} (fault : Fault)
    (refused : (match x.1 with | .error e => e.fault == fault | .ok _ => false) = true) :
    ∃ e b, x = (.error e, b) ∧ e.fault = fault := by
  match x with
  | (.ok a, b) => cases refused
  | (.error e, b) => exact ⟨e, b, rfl, by simpa using refused⟩

/-! ### Jumps -/

/-- A jump begins at an offset, and none that begins there lands.  It need not be in the tree: an async arrow function
drops arguments before its parameters, and all that lies in them. -/
structure Astray (a : Program) (l : Lexer) (pos : Nat) : Prop where
  read : ∃ t ∈ l.tokens, t.IsJump pos
  lost : ∀ st j around, Lies (statement st) around (program a) → st.jump? = some j → st.span.start = pos →
    ¬ j.Lands around

/-- In an accepted program every jump lands and no label is repeated inside itself.  Where a program is refused for a
jump, one begins there, and it does not land. -/
theorem parseProgram_jumps (plain : s.reader = none) :
    (∀ a l, s.parseProgram start = (.ok a, l) →
      (∀ st j around, Lies (statement st) around (program a) → st.jump? = some j → j.Lands around) ∧
        ∀ span label body around, Lies (statement (.labeledStatement span label body)) around (program a) →
          LabelFree label.name around) ∧
    ∀ e l a l', s.parseProgram start = (.error e, l) →
      e.fault = .unsyntacticBreak ∨ e.fault = .unsyntacticContinue → s.parseLeniently start = (.ok a, l') →
      Astray a l' e.pos := by
  constructor
  · intro a l run
    obtain ⟨log, tells, jumps, -⟩ := accepted_tells plain run
    refine ⟨fun st j around lies is => ?_, fun span label body around lies => tells.labelFree lies⟩
    by_contra missed
    have logged := (tells.jump_iff lies is).2 missed
    rw [jumps] at logged
    cases logged
  · intro e l a l' run isJump lenient
    obtain ⟨log, tells, blames⟩ := refused_tells plain run lenient
    cases blames with
    | jump _ first =>
      have mem := List.mem_of_head? first
      exact ⟨tells.jumped _ mem, fun st j around lies is here => (tells.jump_iff lies is).1 (here ▸ mem)⟩
    | use outside name isUse first =>
      rcases isUse with other | other <;> rcases isJump with is | is <;> cases other.symm.trans is

/-- A loop that its label leaves, and a block that its label does not go on with. -/
theorem parseProgram_jumps_labeled :
    (∃ a l, parseProgram { source := .ofString "a: while (b) { break a }", options := {} } = (.ok a, l) ∧
      ∀ st j around, Lies (statement st) around (program a) → st.jump? = some j → j.Lands around) ∧
    ∃ e l a l', parseProgram { source := .ofString "a: { continue a }", options := {} } = (.error e, l) ∧
      parseLeniently { source := .ofString "a: { continue a }", options := {} } = (.ok a, l') ∧
      e.fault = .unsyntacticContinue ∧ Astray a l' e.pos ∧
      ∃ st j around, Lies (statement st) around (program a) ∧ st.jump? = some j ∧ st.span.start = e.pos ∧
        ¬ j.Lands around := by
  let loop : Setting := { source := .ofString "a: while (b) { break a }", options := {} }
  let block : Setting := { source := .ofString "a: { continue a }", options := {} }
  constructor
  · obtain ⟨a, l, run⟩ := exists_of_isOk (x := loop.parseProgram) (by decide +kernel)
    exact ⟨a, l, run, ((parseProgram_jumps (s := loop) rfl).1 a l run).1⟩
  · obtain ⟨a, l', lenient⟩ := exists_of_isOk (x := block.parseLeniently) (by decide +kernel)
    obtain ⟨e, l, run, fault⟩ := exists_of_fault (x := block.parseProgram) (.unsyntacticContinue) (by decide +kernel)
    have astray := (parseProgram_jumps (s := block) rfl).2 e l a l' run (.inr fault) lenient
    have begins : (match block.parseLeniently.1 with
        | .ok a => a.labeledFirst?.map fun st => (st.jump?, st.span.start)
        | .error _ => none) = some (some ⟨false, some "a"⟩, 5) := by decide +kernel
    have pos : (match block.parseProgram.1 with
        | .error e => some e.pos
        | .ok _ => none) = some 5 := by decide +kernel
    simp only [lenient, run, Option.map_eq_some_iff, Option.some.injEq, Prod.mk.injEq] at begins pos
    obtain ⟨st, first, is, here⟩ := begins
    obtain ⟨around, lies⟩ := Program.lies_of_labeledFirst? first
    have here := here.trans pos.symm
    exact ⟨e, l, a, l', run, lenient, fault, astray, st, _, around, lies, is, here,
      astray.lost st _ around lies is here⟩

/-! ### Private names -/

/-- A private name at an offset is the first that no class body around it declares. -/
structure FirstUndeclared (a : Program) (l : Lexer) (name : String) (pos : Nat) : Prop where
  read : ∃ t ∈ l.tokens, t.IsUse (name, pos)
  undeclared : ∀ span elements, Within (classBody span elements) (program a) → span.start ≤ pos ∧ pos < span.stop →
    (classBody span elements).declares name = false
  first : ∀ id around, Lies (expression (.privateIdentifier id)) around (program a) →
    (∀ n ∈ around, n.declares id.name = false) → pos ≤ id.span.start

/-- In an accepted program a class body around each private name declares it, and class bodies declare names
only once.  Where a program is refused for an undeclared name, it is for the first. -/
theorem parseProgram_privateNames (plain : s.reader = none) (check : s.options.checkPrivateFields = true) :
    (∀ a l, s.parseProgram start = (.ok a, l) →
      (∀ id around, Lies (expression (.privateIdentifier id)) around (program a) →
        ∃ n ∈ around, n.declares id.name = true) ∧
      ∀ span elements, Within (classBody span elements) (program a) →
        ∀ name, DeclaredOnce (privateKinds name elements)) ∧
    ∀ e l a l' name, s.parseProgram start = (.error e, l) → e.fault = .privateUndeclared name →
      s.parseLeniently start = (.ok a, l') → FirstUndeclared a l' name e.pos := by
  constructor
  · intro a l run
    obtain ⟨log, tells, -, uses⟩ := accepted_tells plain run
    refine ⟨fun id around lies => ?_, fun span elements within => (tells.classBody within).1⟩
    by_contra undeclared
    have logged := tells.mem_uses check lies (by simpa using undeclared)
    rw [uses] at logged
    cases logged
  · intro e l a l' name run isUse lenient
    obtain ⟨log, tells, blames⟩ := refused_tells plain run lenient
    cases blames with
    | jump isJump =>
      rcases isJump with other | other <;> cases other.symm.trans isUse
    | use outside name' is first =>
      obtain rfl : name' = name := by
        rcases is with same | other
        · simpa using same.symm.trans isUse
        · cases other.symm.trans isUse
      have mem := List.mem_of_head? first
      refine ⟨tells.read _ mem, fun span elements within inside => (tells.classBody within).2 _ mem inside, ?_⟩
      intro id around lies undeclared
      exact tells.head_le first (tells.mem_uses check lies undeclared)

/-- Names used before they are declared, and a name that only a class further in declares. -/
theorem parseProgram_privateNames_nested :
    (∃ a l, parseProgram { source := .ofString "class A { b() { this.#c } get #c() {} set #c(d) {} }", options := {} } =
        (.ok a, l) ∧
      ∀ id around, Lies (expression (.privateIdentifier id)) around (program a) →
        ∃ n ∈ around, n.declares id.name = true) ∧
    ∃ e l a l', parseProgram { source := .ofString "class A { b() { class C { #d } this.#d } }", options := {} } =
        (.error e, l) ∧
      parseLeniently { source := .ofString "class A { b() { class C { #d } this.#d } }", options := {} } = (.ok a, l') ∧
      FirstUndeclared a l' "d" e.pos := by
  let declared : Setting :=
    { source := .ofString "class A { b() { this.#c } get #c() {} set #c(d) {} }", options := {} }
  let undeclared : Setting := { source := .ofString "class A { b() { class C { #d } this.#d } }", options := {} }
  constructor
  · obtain ⟨a, l, run⟩ := exists_of_isOk (x := declared.parseProgram) (by decide +kernel)
    exact ⟨a, l, run, ((parseProgram_privateNames (s := declared) rfl rfl).1 a l run).1⟩
  · obtain ⟨a, l', lenient⟩ := exists_of_isOk (x := undeclared.parseLeniently) (by decide +kernel)
    obtain ⟨e, l, run, fault⟩ := exists_of_fault (x := undeclared.parseProgram) (.privateUndeclared "d")
      (by decide +kernel)
    have first := (parseProgram_privateNames (s := undeclared) rfl rfl).2 e l a l' "d" run fault lenient
    exact ⟨e, l, a, l', run, lenient, first⟩

end Setting
end ScriptSyntax
