import ScriptSyntax.Parser.Object
import ScriptSyntax.Proofs.Tree.Node
import ScriptSyntax.Parser.Deferred
import ScriptSyntax.Proofs.Tree.Rest

/-!
What holds of every node that a parser builds, while faults are put off and once they are settled.

Some object literals only patterns can be: with a default for a shorthand property, or with two `__proto__` properties.
While it is open whether an expression is a pattern such literals may stand in it; once it is a pattern they may stand
in the object of a member that it assigns to.
-/

namespace ScriptSyntax

/-! ### Literals that only patterns can be -/

/-- A shorthand property with a default. -/
def ObjectMember.isShorthandDefault : ObjectMember → Bool
  | .property _ .shorthand _ _ (.assignment ..) => true
  | _ => false

/-- A plain property named `__proto__`. -/
def ObjectMember.isProto : ObjectMember → Bool
  | .property _ .plain false key _ => key.propertyName?.any (·.1 == "__proto__")
  | _ => false

/-- An object literal that has to be a pattern. -/
def Expression.Leftover (edition : Nat) : Expression → Prop
  | .object _ members =>
    (∃ m ∈ members, m.isShorthandDefault = true) ∨
      (6 ≤ edition ∧ 2 ≤ members.countP ObjectMember.isProto)
  | _ => False

namespace Node

/-- The children whose faults are put off together with those of the node. -/
def exposed : Node → List Node
  | expression (.array _ elements) => (elements.filterMap id).map expression
  | expression (.object _ members) => members.map objectMember
  | expression (.spread _ e) | expression (.chain _ e) | objectMember (.spread _ e)
  | objectMember (.property _ .plain _ _ e) => [expression e]
  | expression (.member m) => [expression m.object]
  | expression (.call _ callee _ _) => [expression callee]
  | expression (.taggedTemplate _ tag _) => [expression tag]
  | _ => []

/-- The other children. -/
def closed : Node → List Node
  | expression (.array ..) | expression (.object ..) | expression (.spread ..)
  | expression (.chain ..) | objectMember (.spread ..) => []
  | objectMember (.property _ .plain _ key _) => [expression key]
  | expression (.member m) => [expression m.property]
  | expression (.call _ _ arguments _) => arguments.map expression
  | expression (.taggedTemplate _ _ t) => [expression (.template t)]
  | n => n.children

variable {edition : Nat} {m n c : Node} {x : Expression}

theorem child_cases (child : c ∈ n.children) : c ∈ n.exposed ∨ c ∈ n.closed := by
  cases n with
  | expression e =>
    cases e with
    | array | object | spread | chain => exact .inl child
    | member | call | taggedTemplate =>
      rcases List.mem_cons.mp child with rfl | child
      · exact .inl (.head _)
      · exact .inr child
    | _ => exact .inr child
  | objectMember m =>
    cases m with
    | spread => exact .inl child
    | property _ form =>
      cases form with
      | plain =>
        rcases List.mem_cons.mp child with rfl | child
        · exact .inr (.head _)
        · exact .inl child
      | _ => exact .inr child
  | _ => exact .inr child

theorem exposed_subset : n.exposed ⊆ n.children := by
  intro c part
  cases n with
  | expression e =>
    cases e with
    | array | object | spread | chain => exact part
    | member | call | taggedTemplate => exact List.mem_singleton.mp part ▸ .head _
    | _ => exact absurd part List.not_mem_nil
  | objectMember m =>
    cases m with
    | spread => exact part
    | property _ form =>
      cases form with
      | plain => exact .tail _ part
      | _ => exact absurd part List.not_mem_nil
  | _ => exact absurd part List.not_mem_nil

/-- The expression is the node or one of the parts exposed in it, at any depth. -/
inductive Exposes : Node → Expression → Prop
  | refl (x : Expression) : Exposes (expression x) x
  | step {n c : Node} {x : Expression} (part : c ∈ n.exposed) (exposes : Exposes c x) : Exposes n x

/-- The expression is exposed in the object of a member that a pattern in the node assigns to. -/
def Excuses (n : Node) (x : Expression) : Prop :=
  ∃ m : Member, Within (pattern (.member m)) n ∧ (expression m.object).Exposes x

/-- Literals that have to be patterns are excused. -/
def Settled (edition : Nat) (n : Node) : Prop :=
  ∀ x : Expression, x.Leftover edition → Within (expression x) n → n.Excuses x

/-- Literals that have to be patterns are excused, or exposed in the node. -/
inductive Pending (edition : Nat) : Node → Prop
  | settled {n : Node} (settled : n.Settled edition) : Pending edition n
  | parts {n : Node} (exposed : ∀ c ∈ n.exposed, Pending edition c)
    (closed : ∀ c ∈ n.closed, c.Settled edition) : Pending edition n

theorem Excuses.of_within (excuses : m.Excuses x) (within : Within m n) : n.Excuses x := by
  obtain ⟨member, inside, exposes⟩ := excuses
  exact ⟨member, inside.trans within, exposes⟩

/-- A node is settled if it is no leftover itself and all that lies in it is settled. -/
theorem settled_of_children (own : ∀ e, n = expression e → ¬ e.Leftover edition)
    (children : ∀ c ∈ n.children, c.Settled edition) : n.Settled edition := by
  intro x left within
  rcases Within.iff.mp within with same | ⟨c, child, within⟩
  · exact (own x same.symm left).elim
  · exact (children c child x left within).of_within (.of_child child)

theorem Pending.excuses_or_exposes (pending : n.Pending edition) (left : x.Leftover edition)
    (within : Within (expression x) n) : n.Excuses x ∨ n.Exposes x := by
  induction pending with
  | settled settled => exact .inl (settled x left within)
  | parts _ closed ih =>
    rcases Within.iff.mp within with rfl | ⟨c, child, within⟩
    · exact .inr (.refl x)
    · rcases child_cases child with part | other
      · exact (ih c part within).imp (·.of_within (.of_child child)) (.step part)
      · exact .inl ((closed c other x left within).of_within (.of_child child))

end Node

/-! ### Sound nodes -/

/-- Rests stand last, and without a default. -/
def RestsPlaced (slots : List (Option Pattern)) : Prop :=
  (∀ p, some p ∈ slots.dropLast → p.isRest = false) ∧ ∀ p, some p ∈ slots → p.RestPlain

theorem Pattern.restPlain_of_notRest {p : Pattern} (notRest : p.isRest = false) : p.RestPlain := by
  cases p <;> trivial

/-- A list without holes. -/
theorem map_some_filterMap {slots : List (Option Pattern)} (full : none ∉ slots) :
    (slots.filterMap id).map some = slots := by
  induction slots with
  | nil => rfl
  | cons p slots ih =>
    cases p with
    | none => exact (full (.head _)).elim
    | some p => simpa using ih fun mem => full (.tail _ mem)

theorem restsPlaced_of_notRest {slots : List (Option Pattern)}
    (notRest : ∀ p, some p ∈ slots → p.isRest = false) : RestsPlaced slots :=
  ⟨fun p mem => notRest p ((List.dropLast_sublist slots).subset mem),
    fun p mem => p.restPlain_of_notRest (notRest p mem)⟩

theorem restsPlaced_concat {slots : List (Option Pattern)} {q : Pattern}
    (notRest : ∀ p, some p ∈ slots → p.isRest = false) (plain : q.RestPlain) :
    RestsPlaced (slots ++ [some q]) := by
  refine ⟨fun p mem => notRest p (by simpa using mem), fun p mem => ?_⟩
  rcases List.mem_append.mp mem with mem | mem
  · exact p.restPlain_of_notRest (notRest p mem)
  · cases List.mem_singleton.mp mem
    exact plain

namespace Node

/-- What a node needs apart from what lies in it, when the faults `d` are put off after it. -/
def Regular (edition : Nat) (d : Option Deferred) : Node → Prop
  | expression (.object span members) =>
    (Expression.object span members).Leftover edition → d.any (·.mustBePattern) = true
  | expression (.arrow _ _ params _) => RestsPlaced (params.map some)
  | expression (.function f) | statement (.functionDeclaration f) => RestsPlaced (f.params.map some)
  | pattern (.object _ members) => RestsPlaced (members.map PatternMember.slot)
  | pattern (.array _ elements) => RestsPlaced elements
  | _ => True

/-- The nodes are nested, and what only a pattern can be is excused in them or put off by `d`. -/
structure Sound (edition : Nat) (d : Option Deferred) (n : Node) : Prop where
  nested : n.All Nested
  restPlain : n.All RestPlain
  rests : n.RestSettled
  pending : n.Pending edition
  settled : d.any (·.mustBePattern) = true ∨ n.Settled edition

/-- What a node without faults put off needs of the nodes in it: a rest that comes too early in them
may also be hidden by the slots of the node. -/
structure SoundIn (edition : Nat) (slots : List (Option Pattern)) (c : Node) : Prop where
  nested : c.All Nested
  restPlain : c.All RestPlain
  rests : c.HasEarlyRest → HidesRest slots ∨ ∃ k, Within k c ∧ HidesRest k.slots
  settled : c.Settled edition

variable {edition : Nat} {d d' : Option Deferred} {n c : Node}

theorem Regular.restsPlaced (regular : n.Regular edition d) : RestsPlaced n.slots := by
  unfold slots
  split <;> first | exact regular | exact ⟨nofun, nofun⟩

theorem Regular.leftover (regular : n.Regular edition d) {e : Expression} (same : n = .expression e)
    (left : e.Leftover edition) : d.any (·.mustBePattern) = true := by
  subst same
  cases e <;> first | exact regular left | exact left.elim

theorem regular_of_isName (name : n.isName = true) : n.Regular edition d := by
  cases n with
  | expression e => cases e <;> trivial
  | pattern p => cases p <;> trivial
  | _ => trivial

namespace Sound

theorem mono (sound : n.Sound edition d)
    (grows : d.any (·.mustBePattern) = true → d'.any (·.mustBePattern) = true) :
    n.Sound edition d' :=
  ⟨sound.nested, sound.restPlain, sound.rests, sound.pending, sound.settled.imp_left grows⟩

/-- Where no faults are put off, nothing is left. -/
theorem allSettled (sound : n.Sound edition none) : n.Settled edition :=
  sound.settled.resolve_left (by simp)

theorem of_none (sound : n.Sound edition none) : n.Sound edition d := sound.mono (by simp)

theorem of_settled (sound : n.Sound edition d) (settled : d.any (·.mustBePattern) = false) :
    n.Sound edition none :=
  sound.mono (by simp [settled])

/-- A node is sound if its children are, and if what only a pattern can be is exposed in it. -/
theorem of_children (nested : n.Nested) (regular : n.Regular edition d) (pending : n.Pending edition)
    (children : ∀ c ∈ n.children, c.Sound edition d) : n.Sound edition d := by
  refine ⟨all_iff.mpr ⟨nested, fun c child => (children c child).nested⟩,
    all_iff.mpr ⟨regular.restsPlaced.2, fun c child => (children c child).restPlain⟩,
    restSettled_of_children regular.restsPlaced.1 fun c child => (children c child).rests, pending, ?_⟩
  cases owed : d.any (·.mustBePattern) with
  | true => exact .inl rfl
  | false =>
    refine .inr (settled_of_children (fun e same left => ?_) fun c child => ?_)
    · simp [regular.leftover same left] at owed
    · exact ((children c child).of_settled owed).allSettled

theorem soundIn (sound : c.Sound edition none) (slots : List (Option Pattern)) :
    c.SoundIn edition slots :=
  ⟨sound.nested, sound.restPlain, fun early => .inr (sound.rests early), sound.allSettled⟩

/-- Where no faults are put off, nothing needs to be exposed. -/
theorem of_soundIn (nested : n.Nested) (regular : n.Regular edition none)
    (children : ∀ c ∈ n.children, c.SoundIn edition n.slots) : n.Sound edition none := by
  have settled : n.Settled edition := settled_of_children
    (fun _ same left => by simpa using regular.leftover same left)
    fun c child => (children c child).settled
  refine ⟨all_iff.mpr ⟨nested, fun c child => (children c child).nested⟩,
    all_iff.mpr ⟨regular.restsPlaced.2, fun c child => (children c child).restPlain⟩,
    ?_, .settled settled, .inr settled⟩
  rintro ⟨m, within, early⟩
  rcases Within.iff.mp within with rfl | ⟨c, child, within⟩
  · exact (early regular.restsPlaced.1).elim
  · rcases (children c child).rests ⟨m, within, early⟩ with hides | ⟨k, inside, hides⟩
    · exact ⟨n, .refl, hides⟩
    · exact ⟨k, .step child inside, hides⟩

theorem of_settled_children (nested : n.Nested) (regular : n.Regular edition none)
    (children : ∀ c ∈ n.children, c.Sound edition none) : n.Sound edition none :=
  of_soundIn nested regular fun c child => (children c child).soundIn n.slots

/-- A node without children lies somewhere; that is all. -/
theorem of_childless (childless : n.children = []) (start_le : n.span.start ≤ n.span.stop)
    (regular : n.Regular edition none) : n.Sound edition d := by
  have nested : n.Nested := ⟨start_le, by simp [childless], by simp [childless]⟩
  exact (of_settled_children nested regular (by simp [childless])).of_none

theorem of_isName (name : n.isName = true) (start_le : n.span.start ≤ n.span.stop) :
    n.Sound edition d :=
  of_childless (children_of_isName name) start_le (regular_of_isName name)

end Sound
end Node
end ScriptSyntax
