import ScriptSyntax.Proofs.RegExp.Reference
import ScriptSyntax.Proofs.RegExp.Sets.Operand

/-!
What stands between the brackets of a class is read up to the closing one, and whether strings may match it is told; no
literal is valid with a negated class that strings may match.
-/

namespace ScriptSyntax
namespace RegExp

open Sets

variable {d : Dialect} {p : Progress} {good : Prop} {depth fuel edition : Nat} {strings result : Bool}
  {t u text rest : List Char} {e f : Tree} {role : Role}

theorem skip_pos_ne (nonempty : t ≠ []) : ((p.skip t).pos != p.pos) = true := by
  have := length_le_codeUnits t
  have := List.length_pos_iff.2 nonempty
  rw [bne_iff_ne]
  show p.pos + (codeUnits t).length ≠ p.pos
  omega

/-! ### The operation -/

section

variable {nested : PatternM (Option CharSet)} {set : CharSet}

theorem setExpression_range (run : setRange d p = .ok true (p.skip t))
    (others : Settles d (p.skip t) good (union nested .characters (d.units.size + 1)) set u) :
    Settles d p good (setExpression nested) set (t ++ u) :=
  .after read_run (.behind run others)

variable {first : CharSet}

/-- What is read of an expression behind its first operand. -/
def behindOperand (nested : PatternM (Option CharSet)) (fuel : Nat) (first : CharSet) : PatternM CharSet := do
  let start ← position
  let set ← intersection nested first fuel
  if (← position) != start then return set
  subtraction nested fuel
  if (← position) != start then return set
  union nested set fuel

theorem setExpression_operand (run : setRange d p = .ok false p)
    (operand : Settles d p good (setOperand nested) (some first) t)
    {good' : Prop} (others : good → Settles d (p.skip t) good' (behindOperand nested (d.units.size + 1) first) set u) :
    Settles d p (good ∧ good') (setExpression nested) set (t ++ u) :=
  .after read_run (.after run (operand.bind others))

theorem behindOperand_intersection (nonempty : t ≠ []) (met : Settles d p good (intersection nested first fuel) set t) :
    Settles d p good (behindOperand nested fuel first) set t := by
  refine .after position_run (.map met ?_)
  show (position >>= _) d (p.skip t) = _
  rw [run_bind position_run, if_pos (skip_pos_ne nonempty)]
  rfl

theorem behindOperand_subtraction (nonempty : t ≠ []) (met : intersection nested first fuel d p = .ok first p)
    (taken : Settles d p good (subtraction nested fuel) () t) :
    Settles d p good (behindOperand nested fuel first) first t := by
  refine .after position_run (.after met (.after position_run ?_))
  rw [if_neg (by simp)]
  refine .map taken ?_
  show (position >>= _) d (p.skip t) = _
  rw [run_bind position_run, if_pos (skip_pos_ne nonempty)]
  rfl

theorem behindOperand_union (met : intersection nested first fuel d p = .ok first p)
    (taken : subtraction nested fuel d p = .ok () p) (others : Settles d p good (union nested first fuel) set t) :
    Settles d p good (behindOperand nested fuel first) set t := by
  refine .after position_run (.after met (.after position_run ?_))
  rw [if_neg (by simp)]
  refine .after taken (.after position_run ?_)
  rw [if_neg (by simp)]
  exact others

theorem classContents_end (unicode : d.unicode = true) (closes : text.head? = some ']') (at' : d.TextAt p.pos text) :
    classContents nested d p = .ok .characters p := by
  obtain ⟨text, rfl⟩ := List.head?_eq_some_iff.1 closes
  unfold classContents
  rw [run_bind sees_run, unicode, at'.at?_cons]
  rfl

theorem classContents_eq (sets : d.unicodeSets = true) (other : text.head? ≠ some ']') (at' : d.TextAt p.pos text) :
    classContents nested d p = setExpression nested d p := by
  unfold classContents
  rw [run_bind sees_run, beq_eq_false_iff_ne.2 (at'.ne other)]
  show ((read : PatternM Dialect) >>= _) d p = _
  rw [run_bind read_run, sets]
  rfl

end

/-! ### By the parts of an expression -/

/-- What the reading of a part makes of its text. -/
def ReadsAs (d : Dialect) : Role → Tree → List Char → List Char → Prop
  | .operand, e, t, rest => ∀ {depth p}, d.TextAt p.pos (t ++ rest) →
      Settles d p (e.Accepts depth) (setOperand (nestedClass depth)) (some (setOf e.mayHoldStrings)) t
  | .member, e, t, rest => rest.head? ≠ some '-' → ∀ {depth p}, d.TextAt p.pos (t ++ rest) → MemberReads d depth e t p
  | .members, e, t, rest =>
      rest.head? = some ']' → ∀ {depth fuel strings p}, t.length < fuel → d.TextAt p.pos (t ++ rest) →
      Settles d p (1 ≤ depth ∧ e.Accepts depth) (union (nestedClass depth) (setOf strings) fuel)
        (setOf (strings || e.mayHoldStrings)) t
  | .met, e, t, rest => rest.head? = some ']' → ∀ {depth fuel strings p}, t.length < fuel → d.TextAt p.pos (t ++ rest) →
      Settles d p (e.Accepts depth) (intersection (nestedClass depth) (setOf strings) fuel)
        (setOf (strings && e.mayHoldStrings)) t
  | .taken from', e, t, rest => rest.head? = some ']' → e.mayHoldStrings = from'.mayHoldStrings ∧
      ∀ {depth}, (e.Accepts depth → from'.Accepts depth) ∧ (from'.Accepts depth → ∀ {fuel p}, t.length < fuel →
        d.TextAt p.pos (t ++ rest) → Settles d p (e.Accepts depth) (subtraction (nestedClass depth) fuel) () t)
  | .contents, e, t, rest => rest.head? = some ']' → ∀ {depth p}, d.TextAt p.pos (t ++ rest) →
      Settles d p (e.Accepts depth) (classContents (nestedClass depth)) (setOf e.mayHoldStrings) t

section

variable (unicode : d.unicode = true)
include unicode

theorem eatPair_resuming (resuming : Resuming text) (at' : d.TextAt p.pos text) :
    eatPair '&' '&' d p = .ok false p ∧ eatPair '-' '-' d p = .ok false p :=
  ⟨eatPair_other (.inl unicode) at' resuming.apart, eatPair_other (.inl unicode) at' fun ⟨_, same⟩ =>
    resuming.dash (by rw [← same]; rfl)⟩

omit unicode in
theorem propertyLetter_mem {complement : Bool} : propertyLetter complement ∈ 'p' :: 'P' :: classLetters := by
  cases complement <;> decide

/-- An operand is no start of a range where no dash follows, or two. -/
theorem setRange_operand (single : Written edition .operand e t rest)
    (behind : rest.head? = some '-' → ['-', '-'] <+: rest)
    (at' : d.TextAt p.pos (t ++ rest)) : setRange d p = .ok false p := by
  cases single with
  | character written => exact setRange_character unicode written behind at'
  | escape known => exact setRange_missed (setCharacter_class unicode (.tail _ (.tail _ known)) at')
  | property => exact setRange_missed (setCharacter_class unicode propertyLetter_mem at')
  | strings => exact setRange_missed (setCharacter_letter unicode rfl at')
  | nested => exact setRange_missed (setCharacter_stop unicode rfl (by decide) rfl at')

theorem reads_escape {letter : Char} (known : letter ∈ classLetters) :
    ReadsAs d .operand (.escape letter) ['\\', letter] rest := fun at' =>
  (setOperand_escape unicode (.tail _ (.tail _ known)) (classEscape_letter unicode known at'.step) at').congr
    Tree.accepts_escape

theorem reads_nested {negated : Bool} (inner : ReadsAs d .contents e t (']' :: rest))
    (plain : negated = false → t.head? ≠ some '^') :
    ReadsAs d .operand (.nested negated e) (brackets negated t) rest := fun at' =>
  .of_eq (setOperand_nested unicode (setCharacter_stop unicode rfl (by decide) rfl at') (by simp [brackets]) at')
    (nestedClass_brackets unicode (inner rfl) plain at')

theorem reads_member (single : Written edition .operand e t rest) (reads : ReadsAs d .operand e t rest) :
    ReadsAs d .member e t rest :=
  fun behind _ _ at' => .operand (setRange_operand unicode single (fun dash => absurd dash behind) at') (reads at')

/-! ### Operands and members one after another -/

omit unicode in
theorem reads_members (first : Written edition .member e t (u ++ rest)) (reads : ReadsAs d .member e t (u ++ rest))
    (others : Written edition .members f u rest) (readsOthers : ReadsAs d .members f u rest) :
    ReadsAs d .members (.union e f) (t ++ u) rest := by
  intro closes depth fuel strings p enough at'
  rw [List.append_assoc] at at'
  obtain ⟨fuel, rfl⟩ := Nat.exists_eq_add_one_of_ne_zero (Nat.ne_zero_of_lt enough)
  have enough' : u.length < fuel := by
    have := List.length_pos_iff.2 first.opening_member.1
    rw [List.length_append] at enough
    omega
  rw [Tree.mayHoldStrings, ← Bool.or_assoc]
  refine (union_member (reads (others.resuming closes).dash at') (readsOthers closes enough' at'.skip)).congr ?_
  rw [Tree.accepts_union]
  tauto

theorem reads_lastMet (single : Written edition .operand e t rest) (apart : t.head? ≠ some '&')
    (reads : ReadsAs d .operand e t rest) :
    ReadsAs d .met e ('&' :: '&' :: t) rest := by
  intro closes depth fuel strings p enough at'
  obtain ⟨fuel, rfl⟩ := Nat.exists_eq_add_one_of_ne_zero (Nat.ne_zero_of_lt enough)
  have inside : d.TextAt (p.skip ['&', '&']).pos (t ++ rest) := at'.skip (t := ['&', '&'])
  have ended : Settles d (p.skip ('&' :: '&' :: t)) True
      (intersection (nestedClass depth) (setOf (strings && e.mayHoldStrings)) fuel)
      (setOf (strings && e.mayHoldStrings)) [] :=
    .of_run (intersection_end (eatPair_resuming unicode (resuming_bracket closes) at'.skip).1)
  simpa using intersection_operand unicode at' single.opening_operand.1 apart (reads inside) ended

theorem reads_moreMet (first : Written edition .operand e t (u ++ rest)) (apart : t.head? ≠ some '&')
    (reads : ReadsAs d .operand e t (u ++ rest)) (readsOthers : ReadsAs d .met f u rest) :
    ReadsAs d .met (.intersection e f) ('&' :: '&' :: (t ++ u)) rest := by
  intro closes depth fuel strings p enough at'
  obtain ⟨fuel, rfl⟩ := Nat.exists_eq_add_one_of_ne_zero (Nat.ne_zero_of_lt enough)
  simp only [List.cons_append, List.append_assoc] at at'
  have inside : d.TextAt (p.skip ['&', '&']).pos (t ++ (u ++ rest)) := at'.skip (t := ['&', '&'])
  have enough' : u.length < fuel := by
    simp only [List.length_cons, List.length_append] at enough
    omega
  rw [Tree.mayHoldStrings, ← Bool.and_assoc]
  exact (intersection_operand unicode at' first.opening_operand.1 apart (reads inside)
    (readsOthers closes enough' (at'.skip (t := '&' :: '&' :: t)))).congr Tree.accepts_intersection

theorem reads_lastTaken {from' : Tree} (reads : ReadsAs d .operand e t rest) :
    ReadsAs d (.taken from') (.subtraction from' e) ('-' :: '-' :: t) rest := by
  refine fun closes => ⟨rfl, fun {depth} =>
    ⟨fun accepts => (Tree.accepts_subtraction.1 accepts).1, fun accepts fuel p enough at' => ?_⟩⟩
  obtain ⟨fuel, rfl⟩ := Nat.exists_eq_add_one_of_ne_zero (Nat.ne_zero_of_lt enough)
  have inside : d.TextAt (p.skip ['-', '-']).pos (t ++ rest) := at'.skip (t := ['-', '-'])
  have ended : Settles d (p.skip ('-' :: '-' :: t)) True (subtraction (nestedClass depth) fuel) () [] :=
    .of_run (subtraction_end (eatPair_resuming unicode (resuming_bracket closes) at'.skip).2)
  simpa [accepts] using subtraction_operand unicode at' (reads inside) fun _ => ended

theorem reads_moreTaken {from' : Tree} (reads : ReadsAs d .operand e t (u ++ rest))
    (readsOthers : ReadsAs d (.taken (.subtraction from' e)) f u rest) :
    ReadsAs d (.taken from') f ('-' :: '-' :: (t ++ u)) rest := by
  intro closes
  obtain ⟨may, others⟩ := readsOthers closes
  refine ⟨may, fun {depth} =>
    ⟨fun accepts => (Tree.accepts_subtraction.1 (others.1 accepts)).1, fun accepts fuel p enough at' => ?_⟩⟩
  obtain ⟨fuel, rfl⟩ := Nat.exists_eq_add_one_of_ne_zero (Nat.ne_zero_of_lt enough)
  simp only [List.cons_append, List.append_assoc] at at'
  have inside : d.TextAt (p.skip ['-', '-']).pos (t ++ (u ++ rest)) := at'.skip (t := ['-', '-'])
  have enough' : u.length < fuel := by
    simp only [List.length_cons, List.length_append] at enough
    omega
  refine (subtraction_operand unicode at' (reads inside) fun holds =>
    others.2 (Tree.accepts_subtraction.2 ⟨accepts, holds⟩)
    enough' (at'.skip (t := '-' :: '-' :: t))).congr ?_
  exact ⟨fun holds => ⟨(Tree.accepts_subtraction.1 (others.1 holds)).2, holds⟩, And.right⟩

/-! ### Contents -/

variable (sets : d.unicodeSets = true)
include sets

theorem reads_union (first : Written edition .member e t (u ++ rest)) (reads : ReadsAs d .member e t (u ++ rest))
    (others : Written edition .members f u rest) (readsOthers : ReadsAs d .members f u rest) :
    ReadsAs d .contents (.union e f) (t ++ u) rest := by
  intro closes depth p at'
  rw [List.append_assoc] at at'
  have resuming := others.resuming closes
  have enough := at'.inner_length_lt
  have begins : MemberReads d depth e t p := reads resuming.dash at'
  have more (strings : Bool) : Settles d (p.skip t) (1 ≤ depth ∧ f.Accepts depth)
      (union (nestedClass depth) (setOf strings)
      (d.units.size + 1)) (setOf (strings || f.mayHoldStrings)) u := readsOthers closes enough at'.skip
  refine .of_eq (classContents_eq sets first.opening_member.2.bracket at') ?_
  cases begins with
  | range run characters accepts =>
    rw [Tree.mayHoldStrings, characters]
    exact (setExpression_range run (more false)).congr (by simp [accepts])
  | operand run operand =>
    obtain ⟨met, taken⟩ := eatPair_resuming unicode resuming at'.skip
    exact (setExpression_operand run operand fun _ => behindOperand_union (intersection_end met) (subtraction_end taken)
      (more _)).congr Tree.accepts_union

theorem reads_intersection (first : Written edition .operand e t (u ++ rest))
    (reads : ReadsAs d .operand e t (u ++ rest))
    (others : Written edition .met f u rest) (readsOthers : ReadsAs d .met f u rest) :
    ReadsAs d .contents (.intersection e f) (t ++ u) rest := by
  intro closes depth p at'
  rw [List.append_assoc] at at'
  have enough := at'.inner_length_lt
  have begins : u ≠ [] ∧ (u ++ rest).head? ≠ some '-' := by cases others <;> simp
  refine .of_eq (classContents_eq sets first.opening_operand.2.bracket at') ?_
  exact (setExpression_operand (setRange_operand unicode first (fun dash => absurd dash begins.2) at')
    (reads at') fun _ =>
    behindOperand_intersection begins.1 (readsOthers closes enough at'.skip)).congr Tree.accepts_intersection

theorem reads_subtraction (first : Written edition .operand e t (u ++ rest))
    (reads : ReadsAs d .operand e t (u ++ rest))
    (others : Written edition (.taken e) f u rest) (readsOthers : ReadsAs d (.taken e) f u rest) :
    ReadsAs d .contents f (t ++ u) rest := by
  intro closes depth p at'
  rw [List.append_assoc] at at'
  have enough := at'.inner_length_lt
  have begins : u ≠ [] ∧ ['-', '-'] <+: u ++ rest ∧ ¬ ['&', '&'] <+: u ++ rest := by cases others <;> simp
  obtain ⟨may, accepts⟩ := readsOthers closes
  refine .of_eq (classContents_eq sets first.opening_operand.2.bracket at') ?_
  rw [may]
  exact (setExpression_operand (setRange_operand unicode first (fun _ => begins.2.1) at') (reads at') fun holds =>
    behindOperand_subtraction begins.1 (intersection_end (eatPair_other (.inl unicode) at'.skip begins.2.2))
      (accepts.2 holds enough at'.skip)).congr ⟨fun holds => ⟨accepts.1 holds, holds⟩, And.right⟩

theorem reads_property (late : 9 ≤ d.edition) {complement : Bool} {name : List Char} {value : Option (List Char)}
    (written : PropertyText d.edition complement name value t) : ReadsAs d .operand (.property complement name value)
      ('\\' :: propertyLetter complement :: '{' :: (t ++ ['}'])) rest := by
  intro depth p at'
  simp only [List.cons_append, List.append_assoc, List.nil_append] at at'
  exact (setOperand_escape unicode propertyLetter_mem
    (classEscape_property unicode sets late written at'.step) at').congr
    Tree.accepts_property

/-! ### Every part -/

/-- Each part is read as its role says. -/
theorem Sets.Written.reads (late : 9 ≤ d.edition) (written : Written d.edition role e t rest) :
    ReadsAs d role e t rest := by
  induction written with
  | character written =>
    exact fun at' => (Settles.of_run (setOperand_character unicode written at')).congr Tree.accepts_character
  | escape known => exact reads_escape unicode known
  | property written => exact reads_property unicode sets late written
  | strings first others =>
    intro depth p at'
    simp only [List.cons_append, List.append_assoc] at at'
    exact (Settles.of_run (setOperand_strings unicode first others at')).congr Tree.accepts_strings
  | nested inner plain reads => exact reads_nested unicode reads plain
  | operand single reads => exact reads_member unicode single reads
  | range first second ordered =>
    intro _ depth p at'
    simp only [List.cons_append, List.append_assoc] at at'
    exact .range (setRange_text unicode first second ordered at') rfl (Tree.accepts_range.2 trivial)
  | none =>
    intro closes depth fuel strings p enough at'
    obtain ⟨fuel, rfl⟩ := Nat.exists_eq_add_one_of_ne_zero (Nat.ne_zero_of_lt enough)
    simpa [Tree.mayHoldStrings] using union_end unicode closes at'
  | more first others reads readsOthers => exact reads_members first reads others readsOthers
  | lastMet single apart reads => exact reads_lastMet unicode single apart reads
  | moreMet first apart others reads readsOthers => exact reads_moreMet unicode first apart reads readsOthers
  | lastTaken single reads => exact reads_lastTaken unicode reads
  | moreTaken first others reads readsOthers => exact reads_moreTaken unicode reads readsOthers
  | nothing =>
    exact fun closes {depth p} at' => (Settles.of_run (classContents_end unicode closes at')).congr Tree.accepts_empty
  | union first others reads readsOthers => exact reads_union unicode sets first reads others readsOthers
  | intersection first others reads readsOthers => exact reads_intersection unicode sets first reads others readsOthers
  | subtraction first others reads readsOthers => exact reads_subtraction unicode sets first reads others readsOthers

/-- An outermost class. -/
theorem characterClass_text (late : 9 ≤ d.edition) {negated : Bool}
    (written : Written d.edition .operand (.nested negated e) t rest) (at' : d.TextAt p.pos (t ++ rest)) :
    Settles d p ((Tree.nested negated e).Accepts (depth + 1)) (characterClass depth) true t := by
  cases written with
  | nested inner plain =>
    simp only [brackets, List.cons_append, List.append_assoc, List.nil_append] at at'
    exact .behind (t := ['[']) (eat_text (.inl unicode) at') ((Settles.map
      (bracketed_text unicode (inner.reads unicode sets late rfl at'.step.skip) plain at'.step) rfl).congr
        Tree.accepts_nested)

end

/-! ### Literals -/

/-- A class with a negated one that strings may match is read nowhere. -/
theorem not_readsClass (unicode : d.unicode = true) (sets : d.unicodeSets = true) (late : 9 ≤ d.edition) {i : Nat}
    {negated : Bool} (written : Written d.edition .operand (.nested negated e) t rest) (at' : d.TextAt i (t ++ rest))
    (unlawful : (Tree.nested negated e).lawful = false) : ¬ d.ReadsClass i := by
  rintro ⟨depth, p, q, rfl, run⟩
  have settles : Settles d p ((Tree.nested negated e).Accepts (depth + 1)) (characterClass depth) true t :=
    characterClass_text unicode sets late written at'
  obtain ⟨fault, r, fails⟩ := settles.fails fun accepts => by
    rw [accepts.1] at unlawful
    cases unlawful
  cases fails.symm.trans run

/-- Where set expressions are read, what stands between the brackets of a class is read up to the closing one, and
whether strings may match is what its parts say.  A literal is refused if a class of it is negated that strings may
match, be it one inside another. -/
theorem validateLiteral_sets (edition : Nat) (pattern flags : List Char) (flag : 'v' ∈ flags) :
    let d := Dialect.ofFlags pattern flags edition
    (15 ≤ edition → ∀ (e : Tree) (t rest : List Char) (depth : Nat) (p : Progress),
      Written edition .contents e t (']' :: rest) → e.lawful = true → e.levels ≤ depth →
        d.TextAt p.pos (t ++ ']' :: rest) →
      classContents (nestedClass depth) d p = .ok (setOf e.mayHoldStrings) (p.skip t)) ∧
    ∀ (before t rest : List Char) (negated : Bool) (e : Tree), pattern = before ++ (t ++ rest) →
      (d.before (codeUnits before).length).Clear → Written edition .operand (.nested negated e) t rest →
      (Tree.nested negated e).lawful = false → validateLiteral edition pattern flags ≠ .ok () := by
  intro d
  have modes (late : 15 ≤ edition) : d.unicode = true ∧ d.unicodeSets = true ∧ 9 ≤ d.edition := by
    refine ⟨?_, ?_, Nat.le_trans (by decide) late⟩ <;> simp [d, Dialect.ofFlags, flag, late]
  refine ⟨fun late e t rest depth p written lawful levels at' =>
    ?_, fun before t rest negated e same clear written unlawful accepted => ?_⟩
  · obtain ⟨unicode, sets, late⟩ := modes late
    have reads : ReadsAs d .contents e t (']' :: rest) := written.reads unicode sets late
    exact (reads rfl at').reads ⟨lawful, levels⟩
  · obtain ⟨checked, validated⟩ := validateLiteral_eq_ok.1 accepted
    have late : 15 ≤ edition := by simpa [permittedFlags] using mem_permittedFlags checked flag
    obtain ⟨unicode, sets, late⟩ := modes late
    obtain ⟨⟨q, read⟩, -⟩ := validate_reads late validated
    have at' : d.TextAt (0 + (codeUnits before).length) (t ++ rest) := Dialect.TextAt.past (same ▸ textAt_ofFlags)
    rw [Nat.zero_add] at at'
    have stands : d.units[(codeUnits before).length]? = some '['.toNat := by
      cases written
      exact at'.getElem? 0
    exact not_readsClass unicode sets late written at' unlawful (readPattern_classes read clear stands)

/-- A negated class of strings behind a character. -/
theorem validateLiteral_sets_negated :
    let pattern := "a[^\\q\x7bbc|d\x7d]".toList
    let d := Dialect.ofFlags pattern ['v'] 15
    'v' ∈ ['v'] ∧ classContents (nestedClass 1) d { pos := 3 } = .ok .strings { pos := 11 } ∧
      validateLiteral 15 pattern ['v'] ≠ .ok () := by
  intro pattern d
  let e : Tree := .union (.strings [['b'.toNat, 'c'.toNat], ['d'.toNat]]) .empty
  let t : List Char := "\\q\x7bbc|d\x7d".toList
  have plain {c : Char} {rest : List Char} (ordinary : isSetSyntaxCharacter c.toNat = false)
      (single : isReservedDouble c.toNat = false) : Character c.toNat [c] rest :=
    .plain ordinary fun reserved => by cases single.symm.trans reserved
  have written : Written 15 .contents e t [']'] := by
    refine .union (t := t) (u := []) (.operand (.strings (t := ['b', 'c']) (u := ['|', 'd']) ?_ ?_)) .none
    · exact .cons (plain rfl rfl) (.cons (plain rfl rfl) .nil)
    · exact .cons (u := []) (.cons (t := ['d']) (u := []) (plain rfl rfl) .nil) .nil
  have sets := validateLiteral_sets 15 pattern ['v'] (.head _)
  refine ⟨.head _, ?_, ?_⟩
  · exact sets.1 (by decide) e t [] 1 { pos := 3 } written rfl (by decide) ⟨codeUnits ['a', '[', '^'], rfl, rfl⟩
  · exact sets.2 ['a'] (brackets true t) [] true e rfl ⟨rfl, rfl⟩ (.nested written (fun no => by cases no)) rfl

end RegExp
end ScriptSyntax
