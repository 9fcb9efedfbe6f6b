import Mathlib.Tactic.ByContra
import ScriptSyntax.Parser.Operator

/-!
Chains of names with binary operators between them, and the trees that such chains stand for.
-/

namespace ScriptSyntax

/-- A binary operator other than a power. -/
structure Connective where
  kind : TokenKind
  precedence : Nat
  joins : kind.precedence? = some precedence

/-- An operator and the name after it. -/
structure Link where
  operator : Connective
  operand : String

/-- Names with operators between them. -/
@[ext] structure NameChain where
  first : String
  links : List Link

/-- What a chain stands for. -/
inductive Bracketing where
  | name (name : String)
  | join (operator : Connective) (left right : Bracketing)

namespace Connective

variable {o o' : Connective}

@[ext] theorem ext (same : o.kind = o'.kind) : o = o' := by
  obtain ⟨kind, precedence, joins⟩ := o
  obtain ⟨kind', precedence', joins'⟩ := o'
  obtain rfl : kind = kind' := same
  obtain rfl : precedence = precedence' := Option.some.inj (joins.symm.trans joins')
  rfl

/-- How tight the operators of its right operand bind at least. -/
def reach (o : Connective) : Nat := Grammar.rightPrecedence o.kind o.precedence

theorem le_reach : o.precedence ≤ o.reach := by
  obtain ⟨kind, precedence, joins⟩ := o
  unfold reach Grammar.rightPrecedence
  split
  · next coalesces =>
    subst coalesces
    obtain rfl : 1 = precedence := Option.some.inj joins
    exact Nat.le_succ 1
  · exact Nat.le_refl _

end Connective

/-! ### Trees -/

namespace Bracketing

/-- The names and operators of the tree in order. -/
def chain : Bracketing → NameChain
  | name x => ⟨x, []⟩
  | join o left right => ⟨left.chain.first, left.chain.links ++ ⟨o, right.chain.first⟩ :: right.chain.links⟩

/-- How tight the outermost operator binds.  A name is tighter than all of them. -/
def precedence : Bracketing → Nat
  | name _ => 11
  | join o _ _ => o.precedence

/-- Operators of one precedence join from the left, and tighter ones first. -/
def Graded : Bracketing → Prop
  | name _ => True
  | join o left right => o.precedence ≤ left.precedence ∧ o.precedence < right.precedence ∧ left.Graded ∧ right.Graded

variable {t t' : Bracketing} {k : Link}

/-- No operator binds looser than the outermost one. -/
theorem Graded.precedence_le (graded : t.Graded) (mem : k ∈ t.chain.links) : t.precedence ≤ k.operator.precedence := by
  induction t with
  | name => cases mem
  | join o left right ihLeft ihRight =>
    obtain ⟨atLeast, tighter, gradedLeft, gradedRight⟩ := graded
    obtain inside | rfl | inside := by simpa only [chain, List.mem_append, List.mem_cons] using mem
    · exact Nat.le_trans atLeast (ihLeft gradedLeft inside)
    · exact Nat.le_refl _
    · exact Nat.le_of_lt (Nat.lt_of_lt_of_le tighter (ihRight gradedRight inside))

/-- The last of the loosest operators is found again. -/
theorem split_unique {a b a' b' : List Link} {k' : Link} (same : a ++ k :: b = a' ++ k' :: b')
    (before : ∀ l ∈ a, k.operator.precedence ≤ l.operator.precedence)
    (after : ∀ l ∈ b, k.operator.precedence < l.operator.precedence)
    (before' : ∀ l ∈ a', k'.operator.precedence ≤ l.operator.precedence)
    (after' : ∀ l ∈ b', k'.operator.precedence < l.operator.precedence) : a = a' ∧ k = k' ∧ b = b' := by
  obtain ⟨c, rfl, rest⟩ | ⟨c, rfl, rest⟩ := List.append_eq_append_iff.mp same
  · cases c with
    | nil => simpa using rest
    | cons l c =>
      obtain ⟨rfl, rfl⟩ := List.cons.inj rest
      have := before' k (by simp)
      have := after k' (by simp)
      omega
  · cases c with
    | nil =>
      obtain ⟨rfl, rfl⟩ := List.cons.inj rest
      simp
    | cons l c =>
      obtain ⟨rfl, rfl⟩ := List.cons.inj rest
      have := before k' (by simp)
      have := after' k (by simp)
      omega

/-- Only one graded tree stands for a chain. -/
theorem Graded.unique (graded : t.Graded) (graded' : t'.Graded) (same : t.chain = t'.chain) : t = t' := by
  induction t generalizing t' with
  | name x =>
    cases t' with
    | name y => exact congrArg name (congrArg NameChain.first same)
    | join o left right => simp [chain] at same
  | join o left right ihLeft ihRight =>
    cases t' with
    | name y => simp [chain] at same
    | join o' left' right' =>
      obtain ⟨atLeast, tighter, gradedLeft, gradedRight⟩ := graded
      obtain ⟨atLeast', tighter', gradedLeft', gradedRight'⟩ := graded'
      obtain ⟨links, link, links'⟩ := split_unique (congrArg NameChain.links same)
        (fun _ mem => Nat.le_trans atLeast (gradedLeft.precedence_le mem))
        (fun _ mem => Nat.lt_of_lt_of_le tighter (gradedRight.precedence_le mem))
        (fun _ mem => Nat.le_trans atLeast' (gradedLeft'.precedence_le mem))
        (fun _ mem => Nat.lt_of_lt_of_le tighter' (gradedRight'.precedence_le mem))
      obtain ⟨rfl, first⟩ := Link.mk.inj link
      have first' : (join o left right).chain.first = (join o left' right').chain.first := congrArg NameChain.first same
      rw [ihLeft gradedLeft gradedLeft' (NameChain.ext first' links),
        ihRight gradedRight gradedRight' (NameChain.ext first links')]

end Bracketing

/-! ### Operators that need parentheses between them -/

/-- The operator that follows the right operand of `o` is one that does not mix with it. -/
def clashAt (o : Connective) (after : List Link) : Bool :=
  (after.dropWhile fun k => o.reach < k.operator.precedence).head?.any fun k => Grammar.isMixed o.kind k.operator.kind

/-- An operator among the links clashes with one of those that follow. -/
def Clash (links rest : List Link) : Prop := ∃ a k b, links = a ++ k :: b ∧ clashAt k.operator (b ++ rest) = true

/-- Does a chain contain `??` together with `||` or `&&`? -/
def NameChain.Mixes (c : NameChain) : Prop :=
  (∃ k ∈ c.links, k.operator.kind = .questionQuestion) ∧
    ∃ k ∈ c.links, k.operator.kind = .pipePipe ∨ k.operator.kind = .ampAmp

namespace Clash

variable {k : Link} {links links' rest : List Link}

@[simp] theorem nil : ¬ Clash [] rest := by
  rintro ⟨a, k, b, same, -⟩
  simp at same

theorem cons : Clash (k :: links) rest ↔ clashAt k.operator (links ++ rest) = true ∨ Clash links rest := by
  constructor
  · rintro ⟨a, l, b, same, clashes⟩
    cases a with
    | nil =>
      obtain ⟨rfl, rfl⟩ := List.cons.inj same
      exact .inl clashes
    | cons _ a =>
      obtain ⟨rfl, rfl⟩ := List.cons.inj same
      exact .inr ⟨a, l, b, rfl, clashes⟩
  · rintro (clashes | ⟨a, l, b, rfl, clashes⟩)
    · exact ⟨[], k, links, rfl, clashes⟩
    · exact ⟨k :: a, l, b, rfl, clashes⟩

theorem append : Clash (links ++ links') rest ↔ Clash links (links' ++ rest) ∨ Clash links' rest := by
  induction links with
  | nil => simp
  | cons k links ih => simp [cons, ih, or_assoc]

end Clash

/-- The operators that bind looser than all that do not test a value. -/
theorem Connective.loose {o : Connective} (le : o.precedence ≤ 2) :
    o.kind = .questionQuestion ∨ o.kind = .pipePipe ∨ o.kind = .ampAmp := by
  obtain ⟨kind, precedence, joins⟩ := o
  cases kind <;> simp [TokenKind.precedence?] at joins ⊢ <;> (subst joins; simp at le)

theorem Connective.precedence_eq {o : Connective} {n : Nat} (known : o.kind.precedence? = some n) : o.precedence = n :=
  Option.some.inj (o.joins.symm.trans known)

theorem Connective.reach_le {o : Connective} (le : o.precedence ≤ 2) : o.reach ≤ 2 := by
  unfold reach Grammar.rightPrecedence
  split
  · exact Nat.le_refl 2
  · exact le

/-- Tighter operators go by until one follows the right operand. -/
theorem clashAt_cases (o : Connective) (after : List Link) :
    ((∀ k ∈ after, o.reach < k.operator.precedence) ∧ clashAt o after = false) ∨
      ∃ k ∈ after, k.operator.precedence ≤ o.reach ∧ clashAt o after = Grammar.isMixed o.kind k.operator.kind := by
  induction after with
  | nil => exact .inl ⟨nofun, rfl⟩
  | cons k after ih =>
    by_cases tighter : o.reach < k.operator.precedence
    · have same : clashAt o (k :: after) = clashAt o after := by simp [clashAt, tighter]
      rw [same]
      exact ih.imp (fun all => ⟨List.forall_mem_cons.mpr ⟨tighter, all.1⟩, all.2⟩) fun ⟨j, mem, next⟩ =>
        ⟨j, .tail _ mem, next⟩
    · exact .inr ⟨k, .head _, Nat.le_of_not_lt tighter, by simp [clashAt, tighter]⟩

/-- Without a clash a chain keeps to one of the two kinds of operators. -/
theorem kept_apart {links : List Link} (calm : ¬ Clash links []) : (∀ k ∈ links, k.operator.kind ≠ .questionQuestion) ∨
    ∀ k ∈ links, k.operator.kind ≠ .pipePipe ∧ k.operator.kind ≠ .ampAmp := by
  induction links with
  | nil => exact .inl nofun
  | cons k links ih =>
    rw [Clash.cons, not_or, List.append_nil, Bool.not_eq_true] at calm
    obtain ⟨calm, others⟩ := calm
    simp only [List.forall_mem_cons]
    -- What follows the right operand is of the same kind, and with it all that comes later.
    obtain none | none := ih others
    · by_cases coalesces : k.operator.kind = .questionQuestion
      · have reach : k.operator.reach = 2 := by simp [Connective.reach, Grammar.rightPrecedence, coalesces]
        refine .inr ⟨by simp [coalesces], fun j mem => ?_⟩
        obtain ⟨all, -⟩ | ⟨i, mem', le, mixed⟩ := clashAt_cases k.operator links
        · have tight := all j mem
          constructor
          all_goals
            intro kind
            have := Connective.precedence_eq (o := j.operator) (congrArg _ kind)
            omega
        · obtain kind | kind | kind := Connective.loose (reach ▸ le)
          · exact absurd kind (none i mem')
          · simp [coalesces, kind, Grammar.isMixed, calm] at mixed
          · simp [coalesces, kind, Grammar.isMixed, calm] at mixed
      · exact .inl ⟨coalesces, none⟩
    · by_cases tests : k.operator.kind = .pipePipe ∨ k.operator.kind = .ampAmp
      · have loose : k.operator.precedence ≤ 2 := by
          rcases tests with kind | kind
          all_goals
            have := Connective.precedence_eq (congrArg _ kind)
            omega
        refine .inl ⟨by rcases tests with kind | kind <;> simp [kind], fun j mem coalesces => ?_⟩
        obtain ⟨all, -⟩ | ⟨i, mem', le, mixed⟩ := clashAt_cases k.operator links
        · have tight := all j mem
          have := TokenKind.precedence?_pos k.operator.joins
          have := k.operator.le_reach
          have := Connective.precedence_eq (o := j.operator) (congrArg _ coalesces)
          omega
        · obtain kind | kind | kind := Connective.loose (Nat.le_trans le (Connective.reach_le loose))
          · rcases tests with kind' | kind' <;> simp [kind, kind', Grammar.isMixed, calm] at mixed
          · exact (none i mem').1 kind
          · exact (none i mem').2 kind
      · exact .inr ⟨not_or.mp tests, none⟩

/-- Some operator clashes exactly if the chain mixes the two kinds. -/
theorem clash_iff_mixes (c : NameChain) : Clash c.links [] ↔ c.Mixes := by
  constructor
  · rintro ⟨a, k, b, links, clashes⟩
    obtain ⟨-, calm⟩ | ⟨j, mem, -, mixed⟩ := clashAt_cases k.operator (b ++ [])
    · cases calm.symm.trans clashes
    · have before : k ∈ c.links := by simp [links]
      have after : j ∈ c.links := by simp_all
      rw [mixed] at clashes
      unfold Grammar.isMixed at clashes
      split at clashes
      · next kind kind' => exact ⟨⟨j, after, kind'⟩, k, before, .inl kind⟩
      · next kind kind' => exact ⟨⟨j, after, kind'⟩, k, before, .inr kind⟩
      · next kind kind' => exact ⟨⟨k, before, kind⟩, j, after, .inl kind'⟩
      · next kind kind' => exact ⟨⟨k, before, kind⟩, j, after, .inr kind'⟩
      · cases clashes
  · rintro ⟨⟨k, mem, coalesces⟩, j, mem', other⟩
    by_contra calm
    obtain none | none := kept_apart calm
    · exact none k mem coalesces
    · exact other.elim (none j mem').1 (none j mem').2

end ScriptSyntax
