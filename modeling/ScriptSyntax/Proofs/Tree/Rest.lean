import ScriptSyntax.Proofs.Tree.Node

/-!
Where rests stand in patterns.  A rest that something follows is at fault; while it is open whether an
expression is a pattern the fault is put off, and a later member with a default makes it forgotten.
-/

namespace ScriptSyntax

namespace Pattern

def isRest : Pattern → Bool
  | .rest .. => true
  | _ => false

/-- Does a default follow the target? -/
def isDefault : Pattern → Bool
  | .assignment .. => true
  | _ => false

/-- The target of a rest has no default. -/
def RestPlain : Pattern → Prop
  | .rest _ argument => argument.isDefault = false
  | _ => True

end Pattern

/-- The target of a member; none for a mere name with a default. -/
def PatternMember.slot : PatternMember → Option Pattern
  | .property _ shorthand _ _ value => if shorthand && value.isDefault then none else some value
  | .rest span argument => some (.rest span argument)

namespace Expression

def isSpread : Expression → Bool
  | .spread .. => true
  | _ => false

def isAssignment : Expression → Bool
  | .assignment .. => true
  | _ => false

/-- Reading the expression makes the faults before it forgotten. -/
def clears : Expression → Bool
  | .assignment .. | .spread _ (.assignment ..) => true
  | _ => false

end Expression

/-- The value that may turn out to be a target; none for a mere name with a default. -/
def ObjectMember.part : ObjectMember → Option Expression
  | .property _ form _ _ value =>
    if form == .shorthand && value.isAssignment then none else some value
  | .spread span argument => some (.spread span argument)

/-- The parts that may turn out to be targets, with none for holes and mere names. -/
def Expression.parts : Expression → List (Option Expression)
  | .array _ elements => elements
  | .object _ members => members.map ObjectMember.part
  | .spread _ argument => [some argument]
  | _ => []

/-- Something follows a spread in the list or in a part of it, and no part after it makes that
forgotten. -/
inductive OpenParts : List (Option Expression) → Prop
  | early {before after : List (Option Expression)} {span : Span} {argument : Expression}
    (follows : after ≠ []) (remembered : ∀ x, some x ∈ after → x.clears = false) :
    OpenParts (before ++ some (.spread span argument) :: after)
  | part {before after : List (Option Expression)} {x : Expression} (inner : OpenParts x.parts)
    (remembered : ∀ x, some x ∈ after → x.clears = false) : OpenParts (before ++ some x :: after)

/-- Something follows a spread in the expression, and no part after it makes that forgotten. -/
def Expression.Open (e : Expression) : Prop := OpenParts e.parts

theorem OpenParts.ne_nil {parts : List (Option Expression)} (h : OpenParts parts) : parts ≠ [] := by
  cases h <;> simp

theorem OpenParts.single {x : Expression} (inner : x.Open) : OpenParts [some x] :=
  List.nil_append [some x] ▸ .part inner nofun

/-- What is open in a list is open in its last part, or it was before that part and the part does not
make it forgotten. -/
theorem OpenParts.of_concat {parts : List (Option Expression)} {x : Option Expression}
    (inner : OpenParts (parts ++ [x])) :
    (∃ e, x = some e ∧ e.Open) ∨ (∀ e, x = some e → e.clears = false) ∧
      (OpenParts parts ∨ ∃ before span argument, parts = before ++ [some (.spread span argument)]) := by
  have init {before after : List (Option Expression)} {y z : Option Expression}
      (same : parts ++ [x] = before ++ y :: (after ++ [z])) : parts = before ++ y :: after ∧ x = z := by
    rw [← List.cons_append, ← List.append_assoc] at same
    exact List.append_singleton_inj.mp same
  have last (after : List (Option Expression)) : after = [] ∨ ∃ before z, after = before ++ [z] := by
    simpa [List.concat_eq_append] using after.eq_nil_or_concat
  generalize whole : parts ++ [x] = list at inner
  cases inner with
  | @early before after span argument follows remembered =>
    obtain ⟨after, z, rfl⟩ := (last after).resolve_left follows
    obtain ⟨rfl, rfl⟩ := init whole
    refine .inr ⟨fun e same => remembered e (by simp [same]), ?_⟩
    by_cases later : after = []
    · subst later
      exact .inr ⟨before, span, argument, rfl⟩
    · exact .inl (.early later fun e mem => remembered e (List.mem_append_left _ mem))
  | @part before after e inner remembered =>
    rcases last after with rfl | ⟨after, z, rfl⟩
    · obtain ⟨rfl, rfl⟩ := List.append_singleton_inj.mp whole
      exact .inl ⟨e, rfl, inner⟩
    · obtain ⟨rfl, rfl⟩ := init whole
      exact .inr ⟨fun e same => remembered e (by simp [same]),
        .inl (.part inner fun e mem => remembered e (List.mem_append_left _ mem))⟩

theorem OpenParts.of_single {x : Expression} (inner : OpenParts [some x]) : x.Open := by
  rcases @of_concat [] _ inner with ⟨e, same, inner⟩ | ⟨-, inner | ⟨before, _, _, same⟩⟩
  · exact Option.some.inj same ▸ inner
  · exact (inner.ne_nil rfl).elim
  · simp at same

namespace Node

variable {m n : Node}

/-- The targets that stand next to each other in a pattern or in parameters. -/
def slots : Node → List (Option Pattern)
  | pattern (.object _ members) => members.map PatternMember.slot
  | pattern (.array _ elements) => elements
  | expression (.arrow _ _ params _) => params.map some
  | expression (.function f) | statement (.functionDeclaration f) => f.params.map some
  | _ => []

/-- Nothing follows a rest. -/
def RestLast (n : Node) : Prop := ∀ p, some p ∈ n.slots.dropLast → p.isRest = false

/-- No rest has a default. -/
def RestPlain (n : Node) : Prop := ∀ p, some p ∈ n.slots → p.RestPlain

/-- Some rest within the node is not the last of its list. -/
def HasEarlyRest (n : Node) : Prop := ∃ m, Within m n ∧ ¬ m.RestLast

end Node

/-- A target with a default stands after a rest, or after a target with an early rest in it. -/
def HidesRest (slots : List (Option Pattern)) : Prop :=
  ∃ before p after q, slots = before ++ some q :: after ∧ some p ∈ before ∧ q.isDefault = true ∧
    (p.isRest = true ∨ (Node.pattern p).HasEarlyRest)

namespace Node

variable {m n : Node}

/-- If a rest within the node is not the last of its list, a default within the node hides one. -/
def RestSettled (n : Node) : Prop := n.HasEarlyRest → ∃ m, Within m n ∧ HidesRest m.slots

theorem HasEarlyRest.of_within (early : m.HasEarlyRest) (within : Within m n) : n.HasEarlyRest := by
  obtain ⟨k, inside, early⟩ := early
  exact ⟨k, inside.trans within, early⟩

theorem RestSettled.exists (settled : m.RestSettled) (within : Within m n) (early : m.HasEarlyRest) :
    ∃ k, Within k n ∧ HidesRest k.slots := by
  obtain ⟨k, inside, hides⟩ := settled early
  exact ⟨k, inside.trans within, hides⟩

/-- Rests last in the node itself leave only its children to be settled. -/
theorem restSettled_of_children (last : n.RestLast) (children : ∀ c ∈ n.children, c.RestSettled) :
    n.RestSettled := by
  rintro ⟨m, within, early⟩
  rcases Within.iff.mp within with rfl | ⟨c, child, within⟩
  · exact (early last).elim
  · exact (children c child).exists (.of_child child) ⟨m, within, early⟩

end Node
end ScriptSyntax
