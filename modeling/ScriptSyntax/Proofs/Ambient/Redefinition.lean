import ScriptSyntax.Proofs.Contextual
import ScriptSyntax.Proofs.Number.Positional

/-!
Properties of one name.  Before the sixth edition a property must not redefine one before it, which is up to the names
that the keys are given and to the forms of the properties.
-/

namespace ScriptSyntax

/-! ### Forms -/

namespace PropertyForm

def isAccessor : PropertyForm → Bool
  | getter | setter => true
  | _ => false

/-- Must a property of the form not have the name of one before it?  An accessor is alone but for its counterpart, and
in strict code nothing has two values. -/
def redefines (strict : Bool) (form before : PropertyForm) : Bool :=
  if form.isAccessor then !before.isAccessor || before == form else strict || before.isAccessor

end PropertyForm

variable {strict : Bool} {name : String} {form : PropertyForm} {names : PropertyNames} {m : ObjectMember}
  {members : List ObjectMember}

theorem NameUse.clashes_add {u : NameUse} {before : PropertyForm} :
    (u.add before).clashes strict form = (form.redefines strict before || u.clashes strict form) := by
  obtain ⟨data, getter, setter⟩ := u
  cases form <;> cases before <;> cases strict <;> cases data <;> cases getter <;> cases setter <;> rfl

/-- The forms noted of a name clash where one of them does. -/
theorem NameUse.clashes_foldr (forms : List PropertyForm) :
    (forms.foldr NameUse.add {}).clashes strict form = forms.any (form.redefines strict) := by
  induction forms with
  | nil => cases form <;> cases strict <;> rfl
  | cons before forms ih => rw [List.foldr_cons, NameUse.clashes_add, ih, List.any_cons]

/-! ### Members -/

namespace ObjectMember

/-- The name of a property, where it stands, and its form. -/
def entry? : ObjectMember → Option (String × Nat × PropertyForm)
  | property _ form _ key _ => key.propertyName?.map fun name => (name.1, name.2, form)
  | spread .. => none

/-- The form of a property of the name. -/
def formOf? (name : String) (m : ObjectMember) : Option PropertyForm :=
  m.entry?.bind fun entry => if entry.1 = name then some entry.2.2 else none

/-- The property has the name of one before it, and must not. -/
def redefines (strict : Bool) (m before : ObjectMember) : Bool :=
  m.entry?.any fun entry => (before.formOf? entry.1).any (entry.2.2.redefines strict)

end ObjectMember

theorem ObjectMember.formOf?_eq {pos : Nat} (entry : m.entry? = some (name, pos, form)) (other : String) :
    m.formOf? other = if name = other then some form else none := by simp [formOf?, entry]

theorem PropertyNames.use_add (other : String) :
    (names.add strict name form).2.use other = if other = name then (names.use name).add form else names.use other := by
  by_cases same : other = name
  · subst same
    simp [add, use]
  · have apart : (other == name) = false := beq_eq_false_iff_ne.2 same
    simp [add, use, List.lookup_cons, apart, same]

/-- The forms noted of each name are those in which it stands among the members, the latest first. -/
def PropertyNames.Collects (names : PropertyNames) (members : List ObjectMember) : Prop :=
  ∀ name, names.use name = (members.filterMap (·.formOf? name)).foldr NameUse.add {}

namespace PropertyNames.Collects

theorem empty : ({} : PropertyNames).Collects [] := fun _ => rfl

theorem skip (collects : names.Collects members) (nameless : m.entry? = none) : names.Collects (m :: members) := by
  intro other
  rw [List.filterMap_cons_none (by simp [ObjectMember.formOf?, nameless]), collects other]

variable {pos : Nat} (collects : names.Collects members) (entry : m.entry? = some (name, pos, form))
include collects entry

theorem add : (names.add strict name form).2.Collects (m :: members) := by
  intro other
  rw [use_add]
  by_cases same : other = name
  · subst same
    rw [if_pos rfl, List.filterMap_cons_some (b := form) (by simp [ObjectMember.formOf?_eq entry]),
      List.foldr_cons, collects]
  · have apart : name ≠ other := fun same' => same same'.symm
    rw [if_neg same, List.filterMap_cons_none (by simp [ObjectMember.formOf?_eq entry, apart]), collects]

/-- A name clashes where the property redefines one before it. -/
theorem clashes_eq : (names.use name).clashes strict form = members.any (m.redefines strict) := by
  rw [collects name, NameUse.clashes_foldr, List.any_filterMap]
  congr 1
  funext before
  simp only [ObjectMember.redefines, entry, Option.any_some]
  cases before.formOf? name <;> rfl

end PropertyNames.Collects

/-! ### Object literals -/

namespace Ambient

open Node ParseM Grammar

variable {s : Setting} {p : Parser} {d : Option Deferred}

theorem checkNames_named {key : Expression} {pos : Nat} (named : key.propertyName? = some (name, pos)) :
    checkNames names form key s p =
      if (names.use name).clashes p.lexer.strict form = true then .error (s.recoverable pos .propertyRedefined) p
      else .ok (names.add p.lexer.strict name form).2 p := by
  unfold checkNames
  rw [named]
  show (if (names.use name).clashes p.lexer.strict form = true then
      failRecoverable pos .propertyRedefined >>= fun _ => pure (names.add p.lexer.strict name form).2
    else pure (names.add p.lexer.strict name form).2 : ParseM PropertyNames) s p = _
  split <;> rfl

/-- The check of a property before the sixth edition. -/
theorem checkMember_eq (early : s.edition < 6) : (checkMember names m).run d s p =
    match m.entry? with
    | none => .ok (names, d) p
    | some (name, pos, form) =>
      if (names.use name).clashes p.lexer.strict form = true then .error (s.recoverable pos .propertyRedefined) p
      else .ok ((names.add p.lexer.strict name form).2, d) p := by
  cases m with
  | spread => rfl
  | property span form computed key value =>
    have since : (decide (6 ≤ s.edition)) = false := decide_eq_false (by omega)
    have checks : (checkMember names (.property span form computed key value)).run d s p =
        (checkNames names form key >>= fun names' => pure (names', d)) s p := by
      show (if decide (6 ≤ s.edition) then _ else _ : CoverM PropertyNames).run d s p = _
      rw [since]
      rfl
    rw [checks]
    cases named : key.propertyName? with
    | none =>
      simp only [ObjectMember.entry?, named, Option.map_none]
      unfold checkNames
      rw [named]
      rfl
    | some found =>
      obtain ⟨name, pos⟩ := found
      simp only [ObjectMember.entry?, named, Option.map_some]
      show EStateM.bind (checkNames names form key s) _ p = _
      unfold EStateM.bind
      rw [checkNames_named named]
      cases (names.use name).clashes p.lexer.strict form <;> rfl

/-- A property that redefines one before it is at fault, and no other. -/
theorem checkMember_decides (early : s.edition < 6) (collects : names.Collects members) :
    if members.any (m.redefines p.lexer.strict) then
      ∃ e, (checkMember names m).run d s p = .error e p ∧ e.fault = .propertyRedefined
    else ∃ names', (checkMember names m).run d s p = .ok (names', d) p ∧ names'.Collects (m :: members) := by
  rw [checkMember_eq early]
  cases entry : m.entry? with
  | none =>
    have fresh : members.any (m.redefines p.lexer.strict) = false := by simp [ObjectMember.redefines, entry]
    rw [fresh]
    exact ⟨names, rfl, collects.skip entry⟩
  | some found =>
    obtain ⟨name, pos, form⟩ := found
    dsimp only
    rw [collects.clashes_eq entry]
    cases members.any (m.redefines p.lexer.strict) with
    | true => exact ⟨_, rfl, rfl⟩
    | false => exact ⟨_, rfl, collects.add entry⟩

/-- No property redefines one before it. -/
def AreApart (strict : Bool) (members : List ObjectMember) : Prop :=
  members.Pairwise fun before m => m.redefines strict before = false

theorem AreApart.snoc (apart : AreApart strict members) (fresh : members.any (m.redefines strict) = false) :
    AreApart strict (members ++ [m]) := by
  refine List.pairwise_append.2 ⟨apart, List.pairwise_singleton .., fun before mem last single => ?_⟩
  obtain rfl := List.mem_singleton.1 single
  simpa using List.any_eq_false.1 fresh before mem

/-- The checks of the properties after some that are collected. -/
theorem checkMembers_decides (early : s.edition < 6) : ∀ {members done : List ObjectMember} {names : PropertyNames},
    names.Collects done → AreApart p.lexer.strict done.reverse →
    (AreApart p.lexer.strict (done.reverse ++ members) → ∃ names', (members.foldlM checkMember names).run d s p =
      .ok (names', d) p) ∧
    (¬ AreApart p.lexer.strict (done.reverse ++ members) →
      ∃ e, (members.foldlM checkMember names).run d s p = .error e p ∧ e.fault = .propertyRedefined)
  | [], done, names, _, apart => ⟨fun _ => ⟨names, rfl⟩, fun clash => (clash (by simpa using apart)).elim⟩
  | m :: members, done, names, collects, apart => by
    have decides := checkMember_decides (m := m) (d := d) (p := p) early collects
    have steps : ((m :: members).foldlM checkMember names).run d s p =
        EStateM.bind ((checkMember names m).run d s) (fun x => ((members.foldlM checkMember x.1).run x.2) s) p := rfl
    rw [steps]
    unfold EStateM.bind
    cases clashes : done.any (m.redefines p.lexer.strict) with
    | true =>
      rw [clashes, if_pos rfl] at decides
      obtain ⟨e, run, fault⟩ := decides
      rw [run]
      refine ⟨fun apart' => ?_, fun _ => ⟨e, rfl, fault⟩⟩
      obtain ⟨before, mem, redefines⟩ := List.any_eq_true.1 clashes
      have fresh := (List.pairwise_append.1 apart').2.2 before (List.mem_reverse.2 mem) m (.head _)
      exact absurd redefines (by simp [fresh])
    | false =>
      rw [clashes, if_neg Bool.false_ne_true] at decides
      obtain ⟨names', run, collects'⟩ := decides
      rw [run]
      have fresh : done.reverse.any (m.redefines p.lexer.strict) = false := by rwa [List.any_reverse]
      simpa using checkMembers_decides early collects' (by simpa using apart.snoc fresh)

namespace Settled

variable {g : Grammar} (hg : Settled s g)
include hg

/-- The properties of an object are apart, where it is read before the sixth edition. -/
theorem object_apart (early : s.edition < 6) :
    CoverLeads s (· = p) g.object fun e _ => ∃ span members, e = .object span members ∧
      AreApart p.lexer.strict members := by
  refine .start <| .look .startNode fun _ => .quiet .next fun _ => .look .since fun _ => ?_
  -- What the passes keep is that the names collect the members so far, which are apart.
  refine .bind (.strengthen (.repeatPast (a := ([], {}))
    (I := fun (x : List ObjectMember × PropertyNames) q =>
      (x.2.Collects x.1 ∧ AreApart p.lexer.strict x.1.reverse) ∧ Since p [] q)
    (Q := fun members _ => AreApart p.lexer.strict members) fun (members, names) => .known fun known => ?_)
      fun q before => ⟨⟨.empty, .nil⟩, before⟩) fun members => ?_
  · obtain ⟨collects, apart⟩ := known
    refine .quiet .eat fun _ => .ite (fun _ => .pure fun _ _ => apart) fun _ => .unless (by grind) ?_
    refine .quiet (by grind) fun _ => .ite (fun _ => .pure fun _ _ => apart) fun _ => ?_
    refine .adds hg.objectMember fun m => .each fun q before => .bind (R := fun names' r =>
      r = q ∧ names'.Collects (m :: members) ∧ AreApart p.lexer.strict (members.reverse ++ [m])) ?_ fun names' => ?_
    · intro d plain q' x r same run
      obtain rfl := same
      have decides := checkMember_decides (m := m) (d := d) (p := q') early collects
      rw [before.kept.strict] at decides
      cases clashes : members.any (m.redefines p.lexer.strict) with
      | true =>
        rw [clashes, if_pos rfl] at decides
        obtain ⟨e, failed, -⟩ := decides
        cases failed.symm.trans run
      | false =>
        rw [clashes, if_neg Bool.false_ne_true] at decides
        obtain ⟨names', ran, collects'⟩ := decides
        cases ran.symm.trans run
        exact ⟨rfl, collects', apart.snoc (by rwa [List.any_reverse])⟩
    · refine .pure fun r after => ?_
      obtain ⟨rfl, collects', apart'⟩ := after
      exact ⟨⟨collects', by simpa using apart'⟩, before.weaken (by simp)⟩
  · exact .look .finishSpan fun span => .pure fun _ apart => ⟨span, members, rfl, apart⟩

end Settled

/-! ### Numbers as names -/

/-- Whole numbers have the same name if they are the same, or if neither fits into 64 bits. -/
theorem numberName_eq_iff {a b : Number.Double} {m n : Nat} (left : a.toNat? = some m) (right : b.toNat? = some n)
    (small : m < wholeNameLimit) (small' : n < wholeNameLimit) :
    numberName a = numberName b ↔ m = n ∨ largestWholeName ≤ m ∧ largestWholeName ≤ n := by
  simp only [numberName, left, right, if_pos small, if_pos small']
  show Nat.repr _ = Nat.repr _ ↔ _
  rw [Nat.repr_inj]
  omega

end Ambient

section Names

open Number Number.Double

/-- A whole number that is named by the largest one of 64 bits. -/
def Number.Double.IsSaturated (a : Double) : Prop := ∃ n, a.toNat? = some n ∧ largestWholeName ≤ n ∧ n < wholeNameLimit

variable {a b : Double} {m e : Nat} {point : GridPoint}

/-- The name of a finite number is a whole number, or its shortest decimal. -/
theorem numberName_cases (m e : Nat) :
    (∃ n, (finite m e).toNat? = some n ∧ n < wholeNameLimit ∧
      numberName (finite m e) = toString (min n largestWholeName)) ∨
    ((∀ n, (finite m e).toNat? = some n → wholeNameLimit ≤ n) ∧
      ∃ point : GridPoint, numberName (finite m e) = point.positional ∧
        Rounds m e (point.significand * 10 ^ point.exponent)) := by
  have decimal (other : ∀ n, (finite m e).toNat? = some n → wholeNameLimit ≤ n) :
      ∃ point : GridPoint, (finite m e).positional = point.positional ∧
        Rounds m e (point.significand * 10 ^ point.exponent) := by
    have positive : 0 < m := by
      rw [Nat.pos_iff_ne_zero]
      rintro rfl
      have zero := other 0 (toNat?_eq_some_iff.mpr (by rw [Nat.zero_mul, Nat.zero_mul]))
      exact absurd zero (by decide)
    obtain ⟨point, found, rounds⟩ := exists_shortest e positive
    exact ⟨point, by rw [positional, found], rounds⟩
  unfold numberName
  split
  · next n value =>
    split
    · next small => exact .inl ⟨n, value, small, rfl⟩
    · next large =>
      have other : ∀ n', (finite m e).toNat? = some n' → wholeNameLimit ≤ n' := fun _ same => by
        cases value.symm.trans same
        exact Nat.le_of_not_lt large
      exact .inr ⟨other, decimal other⟩
  · next none =>
    have other : ∀ n, (finite m e).toNat? = some n → wholeNameLimit ≤ n := fun _ same => by
      cases none.symm.trans same
    exact .inr ⟨other, decimal other⟩

theorem toList_toString (n : Nat) : (toString n).toList = Nat.toDigits 10 n := by simp [toString, Nat.repr]

theorem numberName_ne_inf (m e : Nat) : numberName (finite m e) ≠ "inf" := by
  suffices plain : ∀ c ∈ (numberName (finite m e)).toList, c.isDigit = true ∨ c = '.' by
    intro same
    exact absurd (plain 'i' (by rw [same]; decide)) (by decide)
  obtain ⟨n, -, -, name⟩ | ⟨-, point, name, -⟩ := numberName_cases m e
  · rw [name, toList_toString]
    exact fun c mem => .inl (Nat.isDigit_of_mem_toDigits (by decide) (by decide) mem)
  · rw [name]
    exact fun c => mem_positional

/-- A whole name is none of a number that is named by its shortest decimal. -/
theorem numberName_ne_decimal (other : ∀ n, (finite m e).toNat? = some n → wholeNameLimit ≤ n)
    (rounds : Rounds m e (point.significand * 10 ^ point.exponent)) (n : Nat) :
    toString (min n largestWholeName) ≠ point.positional := by
  intro same
  have value := written_positional point
  rw [← same, toList_toString, written_toDigits] at value
  rw [← value] at rounds
  obtain ⟨n', whole⟩ := rounds.isWhole
  have half : n' ≤ 2 * min n largestWholeName := by exact_mod_cast rounds.half_le whole
  have least : 2 * largestWholeName < wholeNameLimit := by decide
  have large := other n' whole
  omega

/-- Numbers that differ have different names, but for whole ones beyond 64 bits that are not named by their digits. -/
theorem numberName_eq_iff_saturated (canonical : a.IsCanonical) (canonical' : b.IsCanonical) :
    numberName a = numberName b ↔ a = b ∨ a.IsSaturated ∧ b.IsSaturated := by
  constructor
  · intro same
    cases a with
    | infinite =>
      cases b with
      | infinite => exact .inl rfl
      | finite m e => exact absurd same.symm (numberName_ne_inf m e)
    | finite m e =>
      cases b with
      | infinite => exact absurd same (numberName_ne_inf m e)
      | finite m' e' =>
        obtain ⟨n, value, small, name⟩ | ⟨other, point, name, rounds⟩ := numberName_cases m e <;>
          obtain ⟨n', value', small', name'⟩ | ⟨other', point', name', rounds'⟩ := numberName_cases m' e'
        · obtain rfl | ⟨large, large'⟩ := (Ambient.numberName_eq_iff value value' small small').mp same
          · exact .inl (canonical.eq_of_toNat? canonical' value value')
          · exact .inr ⟨⟨n, value, large, small⟩, n', value', large', small'⟩
        · exact absurd (name.symm.trans (same.trans name')) (numberName_ne_decimal other' rounds' n)
        · exact absurd (name'.symm.trans (same.symm.trans name)) (numberName_ne_decimal other rounds n')
        · have text := name.symm.trans (same.trans name')
          rw [← written_positional, text, written_positional] at rounds
          exact .inl (rounds.unique canonical canonical' rounds')
  · rintro (rfl | ⟨⟨n, value, large, small⟩, n', value', large', small'⟩)
    · rfl
    · exact (Ambient.numberName_eq_iff value value' small small').mpr (.inr ⟨large, large'⟩)

end Names

open Ambient ParseM Grammar

/-- Before the sixth edition the properties of every object that is read are apart; the checks of properties, one after
another, fail where these are not apart, and only there; and a number shares its name with another one only if both are
whole, beyond 64 bits, and below the numbers that are named by all their digits. -/
theorem properties_apart {s : Setting} (early : s.edition < 6) (plain : s.reader = none) :
    (∀ depth p d e q d', CoverRuns s (ofDepth noExtension depth).object p d e q d' →
      ∃ span members, e = .object span members ∧ AreApart p.lexer.strict members) ∧
    (∀ members p d,
      (AreApart p.lexer.strict members → ∃ names, (members.foldlM checkMember {}).run d s p = .ok (names, d) p) ∧
      (¬ AreApart p.lexer.strict members →
        ∃ e, (members.foldlM checkMember {}).run d s p = .error e p ∧ e.fault = .propertyRedefined)) ∧
    (∀ (a b : Number.Double) m n, a.toNat? = some m → b.toNat? = some n → m < wholeNameLimit → n < wholeNameLimit →
      (numberName a = numberName b ↔ m = n ∨ largestWholeName ≤ m ∧ largestWholeName ≤ n)) ∧
    ∀ a b : Number.Double, a.IsCanonical → b.IsCanonical →
      (numberName a = numberName b ↔ a = b ∨ a.IsSaturated ∧ b.IsSaturated) :=
  ⟨fun depth p d _ q d' run => (settled_ofDepth depth).object_apart (p := p) early d plain p (_, d') q rfl run,
    fun members p d => @checkMembers_decides s p d early members [] {} .empty .nil,
    fun _ _ _ _ left right small small' => numberName_eq_iff left right small small',
    fun _ _ => numberName_eq_iff_saturated⟩

/-- A getter and a setter of one number are read, and two getters of numbers that differ are refused.  A fraction and a
number that is named by all its digits have names of their own. -/
theorem properties_apart_numbers :
    ∃ s : Setting, s.source = .ofString "\x7bget 1e19(){},set 1E19(x){}\x7d" ∧ s.edition = 5 ∧
      (∃ p e q d, CoverRuns s (ofDepth noExtension 12).object p none e q d ∧
        ∃ span members, e = .object span members ∧ AreApart p.lexer.strict members) ∧
      (∃ a b : Number.Double, a.toNat? = some (10 ^ 19) ∧ b.toNat? = some (2 * 10 ^ 19) ∧
        ∀ value p, ∃ e,
          (([a, b].map fun n => .property default .getter false (.literal ⟨default, .number n, ""⟩) value).foldlM
          checkMember {}).run none s p = .error e p ∧ e.fault = .propertyRedefined) ∧
      numberName (Number.Decimal.toDouble ⟨[1], -1⟩) ≠ numberName (.ofDigits 16 (1 :: List.replicate 18 0)) := by
  let s : Setting := { source := .ofString "\x7bget 1e19(){},set 1E19(x){}\x7d", options := { version := .numbered 5 } }
  obtain ⟨⟨e, d⟩, q, run⟩ := Runs.exists_of_ok (s := s) (p := s.parserAt 0)
    (m := do
      ParseM.ofLexer LexM.readNext
      (ofDepth noExtension 12).object.run none) (by decide +kernel)
  obtain ⟨_, p, -, run⟩ := Runs.bind_iff.mp run
  obtain ⟨reads, checks, wholes, all⟩ := properties_apart (s := s) (by decide) rfl
  obtain ⟨a, ten⟩ : ∃ a : Number.Double, a.toNat? = some (10 ^ 19) := ⟨.ofRatio (10 ^ 19) 1, by decide +kernel⟩
  obtain ⟨b, twenty⟩ : ∃ b : Number.Double, b.toNat? = some (2 * 10 ^ 19) :=
    ⟨.ofRatio (2 * 10 ^ 19) 1, by decide +kernel⟩
  have same : numberName a = numberName b :=
    (wholes a b _ _ ten twenty (by decide +kernel) (by decide +kernel)).2 (.inr (by decide +kernel))
  refine ⟨s, rfl, rfl, ⟨p, e, q, d, run, reads 12 p none e q d run⟩, ⟨a, b, ten, twenty, fun value p =>
    (checks _ p none).2 fun apart => ?_⟩, fun shared => ?_⟩
  · have clash := List.rel_of_pairwise_cons apart (.head _)
    simp [ObjectMember.redefines, ObjectMember.formOf?, ObjectMember.entry?, Expression.propertyName?,
      LiteralValue.propertyName, same, PropertyForm.redefines, PropertyForm.isAccessor] at clash
  · obtain same | ⟨⟨n, whole, -⟩, -⟩ :=
      (all _ _ (Number.Decimal.isCanonical_toDouble _) (Number.Double.isCanonical_ofDigits ..)).1 shared
    · exact absurd same (by decide +kernel)
    · have fraction : (Number.Decimal.toDouble ⟨[1], -1⟩).toNat? = none := by decide +kernel
      cases fraction.symm.trans whole

end ScriptSyntax
