import ScriptSyntax.Proofs.RegExp.Sets.Character

/-!
Set expressions are read to their end, unless classes nest too deep or one is negated that may hold strings.
-/

namespace ScriptSyntax
namespace RegExp

open Sets

variable {α β : Type} {d : Dialect} {p q : Progress} {good good' : Prop}
  {code depth fuel edition : Nat} {strings : Bool}
  {t u text rest : List Char} {e f : Tree}

/-! ### Reading on a condition -/

/-- A step reads the text where the condition holds, and fails elsewhere. -/
structure Settles (d : Dialect) (p : Progress) (good : Prop) (step : PatternM α) (a : α) (t : List Char) : Prop where
  reads : good → step d p = .ok a (p.skip t)
  fails : ¬ good → ∃ fault q, step d p = .error fault q

namespace Settles

variable {x : PatternM α} {f : α → PatternM β} {a : α} {b : β}

theorem congr (settles : Settles d p good x a t) (same : good' ↔ good) : Settles d p good' x a t :=
  ⟨fun holds => settles.reads (same.1 holds), fun not => settles.fails (mt same.2 not)⟩

theorem of_run (run : x d p = .ok a (p.skip t)) : Settles d p True x a t :=
  ⟨fun _ => run, fun not => absurd trivial not⟩

/-- A step that only passes on what another does. -/
theorem of_eq {y : PatternM α} (same : y d p = x d p) (settles : Settles d p good x a t) : Settles d p good y a t := by
  obtain ⟨reads, fails⟩ := settles
  rw [← same] at reads fails
  exact ⟨reads, fails⟩

theorem bind (first : Settles d p good x a t) (then' : good → Settles d (p.skip t) good' (f a) b u) :
    Settles d p (good ∧ good') (x >>= f) b (t ++ u) := by
  constructor
  · rintro ⟨holds, holds'⟩
    rw [run_bind (first.reads holds), (then' holds).reads holds', Progress.skip_skip]
  · intro not
    by_cases holds : good
    · rw [run_bind (first.reads holds)]
      exact (then' holds).fails fun holds' => not ⟨holds, holds'⟩
    · obtain ⟨fault, q, run⟩ := first.fails holds
      exact ⟨fault, q, run_fails run⟩

/-- Behind a step that always reads. -/
theorem behind (run : x d p = .ok a (p.skip t)) (then' : Settles d (p.skip t) good (f a) b u) :
    Settles d p good (x >>= f) b (t ++ u) :=
  ((of_run run).bind fun _ => then').congr (by rw [true_and])

/-- Behind a step that stays. -/
theorem after (run : x d p = .ok a p) (then' : Settles d p good (f a) b u) : Settles d p good (x >>= f) b u :=
  behind (t := []) run then'

/-- Behind a step that always reads, where nothing more is read. -/
theorem last (run : x d p = .ok a (p.skip t)) (then' : Settles d (p.skip t) good (f a) b []) :
    Settles d p good (x >>= f) b t := by
  simpa using behind run then'

/-- What is made of the outcome. -/
theorem map (first : Settles d p good x a t) (then' : f a d (p.skip t) = .ok b (p.skip t)) :
    Settles d p good (x >>= f) b t := by
  simpa using first.bind fun _ => of_run (t := []) then'

end Settles

/-! ### Trees that are read -/

namespace Sets.Tree

/-- The tree is lawful and goes no deeper than classes may nest. -/
def Accepts (depth : Nat) (e : Tree) : Prop := e.lawful = true ∧ e.levels ≤ depth

@[simp] theorem accepts_empty : empty.Accepts depth ↔ True := iff_true_intro ⟨rfl, Nat.zero_le _⟩

@[simp] theorem accepts_character : (character code).Accepts depth ↔ True := iff_true_intro ⟨rfl, Nat.zero_le _⟩

@[simp] theorem accepts_range {low high : Nat} : (range low high).Accepts depth ↔ True :=
  iff_true_intro ⟨rfl, Nat.zero_le _⟩

@[simp] theorem accepts_strings {alternatives : List (List Nat)} : (Tree.strings alternatives).Accepts depth ↔ True :=
  iff_true_intro ⟨rfl, Nat.zero_le _⟩

@[simp] theorem accepts_escape {letter : Char} : (escape letter).Accepts depth ↔ 1 ≤ depth :=
  ⟨And.right, fun enough => ⟨rfl, enough⟩⟩

@[simp] theorem accepts_property {complement : Bool} {name : List Char} {value : Option (List Char)} :
    (property complement name value).Accepts depth ↔ 1 ≤ depth := ⟨And.right, fun enough => ⟨rfl, enough⟩⟩

theorem not_accepts_nested {negated : Bool} : ¬ (nested negated e).Accepts 0 :=
  fun accepts => Nat.not_succ_le_zero _ accepts.2

@[simp] theorem accepts_nested {negated : Bool} :
    (nested negated e).Accepts (depth + 1) ↔ e.Accepts depth ∧ (negated && e.mayHoldStrings) = false := by
  simp only [Accepts, lawful, levels, Bool.and_eq_true, Bool.not_eq_true', Nat.add_le_add_iff_right]
  tauto

@[simp] theorem accepts_union : (union e f).Accepts depth ↔ e.Accepts depth ∧ 1 ≤ depth ∧ f.Accepts depth := by
  simp only [Accepts, lawful, levels, Bool.and_eq_true, Nat.max_le]
  tauto

@[simp] theorem accepts_intersection : (intersection e f).Accepts depth ↔ e.Accepts depth ∧ f.Accepts depth := by
  simp only [Accepts, lawful, levels, Bool.and_eq_true, Nat.max_le]
  tauto

@[simp] theorem accepts_subtraction : (subtraction e f).Accepts depth ↔ e.Accepts depth ∧ f.Accepts depth := by
  simp only [Accepts, lawful, levels, Bool.and_eq_true, Nat.max_le]
  tauto

end Sets.Tree

/-! ### How texts begin -/

namespace Sets

/-- How no member begins: with a dash, a closing bracket or a doubled ampersand. -/
structure Opening (text : List Char) : Prop where
  dash : text.head? ≠ some '-'
  bracket : text.head? ≠ some ']'
  apart : ¬ ['&', '&'] <+: text

theorem opening_cons {c : Char} (other : c ∉ ['-', ']', '&']) : Opening (c :: text) := by
  simp only [List.mem_cons, List.not_mem_nil, or_false, not_or] at other
  obtain ⟨dash, bracket, ampersand⟩ := other
  refine ⟨by simpa using dash, by simpa using bracket, ?_⟩
  rintro ⟨_, same⟩
  exact ampersand (List.cons.inj same).1.symm

theorem Character.nonempty (written : Character code t rest) : t ≠ [] := by cases written <;> simp

theorem Character.opening (written : Character code t rest) : Opening (t ++ rest) := by
  cases written with
  | @plain c _ ordinary single =>
    by_cases ampersand : c = '&'
    · subst ampersand
      refine ⟨by simp, by simp, fun ⟨more, same⟩ => single rfl ?_⟩
      obtain rfl : '&' :: more = rest := (List.cons.inj same).2
      rfl
    · refine opening_cons ?_
      simp only [List.mem_cons, List.not_mem_nil, or_false, not_or]
      refine ⟨?_, ?_, ampersand⟩ <;>
      · rintro rfl
        cases ordinary
  | _ => exact opening_cons (by decide)

theorem Written.opening_operand (written : Written edition .operand e t rest) : t ≠ [] ∧ Opening (t ++ rest) := by
  cases written with
  | character written => exact ⟨written.nonempty, written.opening⟩
  | _ => exact ⟨by simp [brackets], opening_cons (by decide)⟩

theorem Written.opening_member (written : Written edition .member e t rest) : t ≠ [] ∧ Opening (t ++ rest) := by
  cases written with
  | operand single => exact single.opening_operand
  | range first second ordered => exact ⟨by simp, by simpa using first.opening⟩

/-- Between members and at their end. -/
structure Resuming (text : List Char) : Prop where
  dash : text.head? ≠ some '-'
  apart : ¬ ['&', '&'] <+: text

theorem resuming_bracket (closes : rest.head? = some ']') : Resuming rest := by
  obtain ⟨rest, rfl⟩ := List.head?_eq_some_iff.1 closes
  exact ⟨by simp, by simp⟩

theorem Written.resuming (written : Written edition .members f u rest) (closes : rest.head? = some ']') :
    Resuming (u ++ rest) := by
  cases written with
  | none => exact resuming_bracket closes
  | more first others =>
    rw [List.append_assoc]
    exact ⟨first.opening_member.2.dash, first.opening_member.2.apart⟩

end Sets

variable (unicode : d.unicode = true)
include unicode

/-! ### Disjunctions of strings -/

omit unicode in
theorem Sets.Characters.length_le {codes : List Nat} (written : Characters codes t rest) : codes.length ≤ t.length := by
  induction written with
  | nil => exact Nat.le_refl _
  | cons first others ih =>
    have := List.length_pos_iff.2 first.nonempty
    rw [List.length_cons, List.length_append]
    omega

omit unicode in
theorem Sets.Alternatives.length_le {more : List (List Nat)} (written : Alternatives more t rest) :
    more.length ≤ t.length := by
  induction written with
  | nil => exact Nat.le_refl _
  | cons first others ih =>
    rw [List.length_cons, List.length_cons, List.length_append]
    omega

omit unicode in
/-- Behind a string another follows or the disjunction ends. -/
theorem Sets.Alternatives.head {more : List (List Nat)} (written : Alternatives more u ('}' :: rest)) :
    (u ++ '}' :: rest).head? = some '|' ∨ (u ++ '}' :: rest).head? = some '}' := by
  cases written with
  | nil => exact .inr rfl
  | cons => exact .inl rfl

theorem setCharacter_stop {c : Char} (special : isSetSyntaxCharacter c.toNat = true) (slash : c ≠ '\\')
    (head : text.head? = some c) (at' : d.TextAt p.pos text) : setCharacter d p = .ok none p :=
  setCharacter_syntax unicode (by simpa [head] using slash) (by simpa [head] using special) at'

theorem setString_count {codes : List Nat} (written : Characters codes t rest) (enough : codes.length ≤ fuel)
    (stop : rest.head? = some '|' ∨ rest.head? = some '}') (at' : d.TextAt p.pos (t ++ rest)) :
    setString.count fuel d p = .ok codes.length (p.skip t) := by
  induction written generalizing fuel p with
  | nil =>
    cases fuel with
    | zero => rfl
    | succ fuel =>
      have none' : setCharacter d p = .ok none p := by
        obtain bar | brace := stop
        · exact setCharacter_stop unicode rfl (by decide) bar at'
        · exact setCharacter_stop unicode rfl (by decide) brace at'
      show (setCharacter >>= _) d p = _
      rw [run_bind none']
      rfl
  | cons first others ih =>
    obtain ⟨fuel, rfl⟩ : ∃ more, fuel = more + 1 := ⟨fuel - 1, by rw [List.length_cons] at enough; omega⟩
    rw [List.append_assoc] at at'
    show (setCharacter >>= _) d p = _
    rw [run_bind (setCharacter_text unicode first at')]
    show (setString.count fuel >>= _) d _ = _
    rw [run_bind (ih (Nat.le_of_succ_le_succ enough) stop at'.skip), Progress.skip_skip]
    rfl

theorem setString_text {codes : List Nat} (written : Characters codes t rest)
    (stop : rest.head? = some '|' ∨ rest.head? = some '}') (at' : d.TextAt p.pos (t ++ rest)) :
    setString d p = .ok (setOf (codes.length != 1)) (p.skip t) := by
  have enough : codes.length ≤ d.units.size + 1 := by
    have := at'.length_lt
    have := written.length_le
    rw [List.length_append] at *
    omega
  unfold setString
  rw [run_bind read_run]
  show (setString.count (d.units.size + 1) >>= _) d p = _
  rw [run_bind (setString_count unicode written enough stop at')]
  show EStateM.Result.ok (if codes.length = 1 then CharSet.characters else .strings) _ = _
  by_cases single : codes.length = 1 <;> simp [single, setOf]

theorem setStrings_text {more : List (List Nat)} (written : Alternatives more u ('}' :: rest))
    (enough : more.length ≤ fuel) (at' : d.TextAt p.pos (u ++ '}' :: rest)) : setStrings (setOf strings) fuel d p =
      .ok (setOf (strings || more.any fun codes => codes.length != 1)) (p.skip u) := by
  generalize tail : '}' :: rest = behind at *
  induction written generalizing fuel p strings with
  | nil =>
    subst tail
    rw [List.any_nil, Bool.or_false]
    cases fuel with
    | zero => rfl
    | succ fuel =>
      show (eat '|' >>= _) d p = _
      rw [run_bind (at'.eat_other (by simp))]
      rfl
  | cons first others ih =>
    subst tail
    rename_i codes more t u
    obtain ⟨fuel, rfl⟩ : ∃ less, fuel = less + 1 := ⟨fuel - 1, by rw [List.length_cons] at enough; omega⟩
    rw [List.cons_append, List.append_assoc] at at'
    have next (b : Bool) : setStrings (setOf b) fuel d ((p.skip ['|']).skip t) = .ok
        (setOf (b || more.any fun codes => codes.length != 1)) (((p.skip ['|']).skip t).skip u) :=
      ih (Nat.le_of_succ_le_succ enough) rfl at'.step.skip
    show (eat '|' >>= _) d p = _
    rw [run_bind (eat_text (.inl unicode) at'), if_pos rfl,
      run_bind (setString_text unicode first others.head at'.step)]
    rw [Progress.skip_skip, Progress.skip_skip] at next
    rw [Progress.skip_skip, List.any_cons]
    cases codes.length != 1 with
    | false => rw [Bool.false_or]; exact next strings
    | true => rw [Bool.true_or, Bool.or_true]; exact next true

theorem stringDisjunction_text {codes : List Nat} {more : List (List Nat)}
    (first : Characters codes t (u ++ '}' :: rest))
    (others : Alternatives more u ('}' :: rest))
    (at' : d.TextAt p.pos ('\\' :: 'q' :: '{' :: (t ++ (u ++ '}' :: rest)))) :
    stringDisjunction d p = .ok (some (setOf (Tree.strings (codes :: more)).mayHoldStrings))
      (p.skip ('\\' :: 'q' :: '{' :: (t ++ (u ++ ['}'])))) := by
  have opened : d.TextAt (p.skip ['\\', 'q']).pos ('{' :: (t ++ (u ++ '}' :: rest))) := at'.skip (t := ['\\', 'q'])
  have enough : more.length ≤ d.units.size + 1 := by
    have := opened.step.skip.length_lt
    have := others.length_le
    rw [List.length_append] at *
    omega
  unfold stringDisjunction
  rw [run_bind position_run, run_bind (eatPair_text (.inl unicode) (.inl unicode) at'), if_pos rfl,
    run_bind (eat_text (.inl unicode) opened)]
  show (setString >>= _) d _ = _
  rw [run_bind (setString_text unicode first others.head opened.step), run_bind read_run,
    run_bind (setStrings_text unicode others enough opened.step.skip),
    run_bind (eat_text (.inl unicode) opened.step.skip.skip)]
  simp only [Progress.skip_skip, List.cons_append, List.nil_append, List.append_assoc]
  rfl

theorem stringDisjunction_other (other : ¬ ['\\', 'q'] <+: text) (at' : d.TextAt p.pos text) :
    stringDisjunction d p = .ok none p := by
  unfold stringDisjunction
  rw [run_bind position_run, run_bind (eatPair_other (.inl unicode) at' other)]
  rfl

/-! ### Ranges -/

omit unicode in
theorem setRange_missed (none' : setCharacter d p = .ok none p) : setRange d p = .ok false p := by
  unfold setRange
  rw [run_bind position_run, run_bind none']
  rfl

theorem setRange_text {low high : Nat} (first : Character low t ('-' :: (u ++ rest))) (second : Character high u rest)
    (ordered : low ≤ high) (at' : d.TextAt p.pos (t ++ '-' :: (u ++ rest))) :
    setRange d p = .ok true (p.skip (t ++ '-' :: u)) := by
  unfold setRange
  rw [run_bind position_run, run_bind (setCharacter_text unicode first at')]
  show (eat '-' >>= _) d _ = _
  rw [run_bind (eat_text (.inl unicode) at'.skip), if_pos rfl,
    run_bind (setCharacter_text unicode second at'.skip.step),
    Progress.skip_skip, Progress.skip_skip]
  show (if high < low then throw .rangeOutOfOrder else pure true : PatternM Bool) d _ = _
  rw [if_neg (Nat.not_lt.2 ordered)]
  simp only [List.cons_append, List.nil_append]
  rfl

/-- A character before what is no end of a range. -/
theorem setRange_character (written : Character code t rest) (behind : rest.head? = some '-' → ['-', '-'] <+: rest)
    (at' : d.TextAt p.pos (t ++ rest)) : setRange d p = .ok false p := by
  unfold setRange
  rw [run_bind position_run, run_bind (setCharacter_text unicode written at')]
  show (eat '-' >>= _) d _ = _
  by_cases dash : rest.head? = some '-'
  · obtain ⟨rest, rfl⟩ := behind dash
    rw [run_bind (eat_text (.inl unicode) at'.skip), if_pos rfl,
      run_bind (setCharacter_stop unicode rfl (by decide) rfl at'.skip.step)]
    rfl
  · rw [run_bind (at'.skip.eat_other dash)]
    rfl

/-! ### Operands -/

section

variable {nested : PatternM (Option CharSet)}

theorem setOperand_character (written : Character code t rest) (at' : d.TextAt p.pos (t ++ rest)) :
    setOperand nested d p = .ok (some .characters) (p.skip t) := by
  unfold setOperand
  rw [run_bind (setCharacter_text unicode written at')]
  rfl

theorem setOperand_strings {codes : List Nat} {more : List (List Nat)} (first : Characters codes t (u ++ '}' :: rest))
    (others : Alternatives more u ('}' :: rest))
    (at' : d.TextAt p.pos ('\\' :: 'q' :: '{' :: (t ++ (u ++ '}' :: rest)))) :
    setOperand nested d p = .ok (some (setOf (Tree.strings (codes :: more)).mayHoldStrings))
      (p.skip ('\\' :: 'q' :: '{' :: (t ++ (u ++ ['}'])))) := by
  unfold setOperand
  rw [run_bind (setCharacter_letter unicode rfl at')]
  show (stringDisjunction >>= _) d p = _
  rw [run_bind (stringDisjunction_text unicode first others at')]
  rfl

/-- Neither a character nor a disjunction of strings begins there. -/
theorem setOperand_nested (none' : setCharacter d p = .ok none p) (other : ¬ ['\\', 'q'] <+: text)
    (at' : d.TextAt p.pos text) :
    setOperand nested d p = nested d p := by
  unfold setOperand
  rw [run_bind none']
  show (stringDisjunction >>= _) d p = _
  rw [run_bind (stringDisjunction_other unicode other at')]

end

omit unicode in
theorem settles_nestedClass {set : Option CharSet} (run : ∀ depth, nestedClass (depth + 1) d p = .ok set (p.skip t)) :
    Settles d p (1 ≤ depth) (nestedClass depth) set t := by
  cases depth with
  | zero => exact ⟨fun deep => absurd deep (by decide), fun _ => ⟨.tooDeeplyNested, p, rfl⟩⟩
  | succ depth => exact (Settles.of_run (run depth)).congr (by simp)

theorem nestedClass_escape {set : CharSet}
    (run : classEscape d (p.skip ['\\']) = .ok (some set) ((p.skip ['\\']).skip t))
    (at' : d.TextAt p.pos ('\\' :: text)) : Settles d p (1 ≤ depth) (nestedClass depth) (some set) ('\\' :: t) := by
  refine settles_nestedClass fun depth => ?_
  unfold nestedClass
  rw [run_bind position_run, run_bind (at'.eat_other (by simp))]
  refine orRewind_run ?_
  rw [run_bind (eat_text (.inl unicode) at'), if_pos rfl, run, Progress.skip_skip]
  rfl

omit unicode in
theorem isOneOf_of_mem {cs : List Char} {c : Char} (mem : c ∈ cs) : isOneOf cs c.toNat = true :=
  List.any_eq_true.2 ⟨c, mem, beq_self_eq_true _⟩

/-- The letters of class escapes. -/
theorem setCharacter_class {c : Char} (letter : c ∈ 'p' :: 'P' :: classLetters)
    (at' : d.TextAt p.pos ('\\' :: c :: rest)) :
    setCharacter d p = .ok none p := setCharacter_letter unicode (isOneOf_of_mem (.tail 'q' letter)) at'

theorem setOperand_escape {set : CharSet} {c : Char} (letter : c ∈ 'p' :: 'P' :: classLetters)
    (run : classEscape d (p.skip ['\\']) = .ok (some set) ((p.skip ['\\']).skip t))
    (at' : d.TextAt p.pos ('\\' :: c :: rest)) :
    Settles d p (1 ≤ depth) (setOperand (nestedClass depth)) (some set) ('\\' :: t) := by
  have other : ¬ ['\\', 'q'] <+: '\\' :: c :: rest := by
    rintro ⟨more, same⟩
    obtain rfl : 'q' = c := (List.cons.inj (List.cons.inj same).2).1
    exact absurd letter (by decide)
  exact .of_eq (setOperand_nested unicode (setCharacter_class unicode letter at') other at')
    (nestedClass_escape unicode run at')

/-- At the end of a union another operand is looked for. -/
theorem setOperand_end (closes : text.head? = some ']') (at' : d.TextAt p.pos text) :
    Settles d p (1 ≤ depth) (setOperand (nestedClass depth)) none [] := by
  have other : ¬ ['\\', 'q'] <+: text := by
    rintro ⟨more, rfl⟩
    simp at closes
  refine .of_eq (setOperand_nested unicode (setCharacter_stop unicode rfl (by decide) closes at') other at') ?_
  refine settles_nestedClass fun depth => ?_
  unfold nestedClass
  rw [run_bind position_run, run_bind (at'.eat_other (by simp [closes]))]
  refine orRewind_missed (q := p) ?_
  rw [run_bind (at'.eat_other (by simp [closes]))]
  rfl

/-! ### Classes inside -/

section

variable {nested unclosed : PatternM (Option CharSet)} {negated : Bool}

theorem bracketed_text (inner : Settles d (p.skip (negation negated)) good (classContents nested) (setOf strings) t)
    (plain : negated = false → t.head? ≠ some '^') (at' : d.TextAt p.pos (negation negated ++ (t ++ ']' :: rest))) :
    Settles d p (good ∧ (negated && strings) = false) (bracketed nested unclosed) (some (setOf strings))
      (negation negated ++ (t ++ [']'])) := by
  have caret : eat '^' d p = .ok negated (p.skip (negation negated)) := by
    cases negated with
    | true => exact eat_text (.inl unicode) at'
    | false =>
      refine at'.eat_other ?_
      cases t with
      | nil => simp [negation]
      | cons c t => exact plain rfl
  refine .behind caret (inner.bind fun _ => ?_)
  refine .last (eat_text (.inl unicode) at'.skip.skip) ?_
  show Settles d _ _ (if negated && (setOf strings = .strings) then throw .negatedStringClass
    else return some (setOf strings) : PatternM (Option CharSet)) _ _
  have same : (setOf strings = .strings) ↔ strings = true := by cases strings <;> decide
  simp only [same, Bool.decide_eq_true]
  cases negated && strings with
  | false => exact (Settles.of_run rfl).congr (by simp)
  | true => exact ⟨fun lawful => Bool.noConfusion lawful, fun _ => ⟨_, _, rfl⟩⟩

theorem nestedClass_brackets (inner : ∀ {depth p}, d.TextAt p.pos (t ++ ']' :: rest) →
      Settles d p (e.Accepts depth) (classContents (nestedClass depth)) (setOf e.mayHoldStrings) t)
    (plain : negated = false → t.head? ≠ some '^') (at' : d.TextAt p.pos (brackets negated t ++ rest)) :
    Settles d p ((Tree.nested negated e).Accepts depth) (nestedClass depth) (some (setOf e.mayHoldStrings))
      (brackets negated t) := by
  cases depth with
  | zero => exact ⟨fun deep => absurd deep Tree.not_accepts_nested, fun _ => ⟨.tooDeeplyNested, p, rfl⟩⟩
  | succ depth =>
    simp only [brackets, List.cons_append, List.append_assoc, List.nil_append] at at'
    unfold nestedClass
    refine .after position_run (.behind (t := ['[']) (eat_text (.inl unicode) at') ?_)
    exact (Settles.map (bracketed_text unicode (inner at'.step.skip) plain at'.step) rfl).congr Tree.accepts_nested

end

/-! ### Unions -/

section

variable {nested : PatternM (Option CharSet)} {result : Bool}

/-- What is read first of a member: a range, or an operand. -/
inductive MemberReads (d : Dialect) (depth : Nat) (e : Tree) (t : List Char) (p : Progress) : Prop where
  | range (run : setRange d p = .ok true (p.skip t)) (characters : e.mayHoldStrings = false) (accepts : e.Accepts depth)
  | operand (run : setRange d p = .ok false p)
      (reads : Settles d p (e.Accepts depth) (setOperand (nestedClass depth)) (some (setOf e.mayHoldStrings)) t)

omit unicode in
theorem union_member (first : MemberReads d depth e t p)
    (others : Settles d (p.skip t) good (union (nestedClass depth) (setOf (strings || e.mayHoldStrings)) fuel)
      (setOf result) u) :
    Settles d p (e.Accepts depth ∧ good) (union (nestedClass depth) (setOf strings) (fuel + 1))
      (setOf result) (t ++ u) := by
  cases first with
  | range run characters accepts =>
    rw [characters, Bool.or_false] at others
    exact (Settles.behind run others).congr (and_iff_right accepts)
  | operand run reads =>
    refine .after run (reads.bind fun _ => ?_)
    cases may : e.mayHoldStrings <;> rw [may] at others
    · rw [Bool.or_false] at others
      exact others
    · rw [Bool.or_true] at others
      exact others

theorem union_end (closes : text.head? = some ']') (at' : d.TextAt p.pos text) :
    Settles d p (1 ≤ depth) (union (nestedClass depth) (setOf strings) (fuel + 1)) (setOf strings) [] :=
  .after (setRange_missed (setCharacter_stop unicode rfl (by decide) closes at'))
    (.map (setOperand_end unicode closes at') rfl)

/-! ### Intersections -/

omit unicode in
theorem intersection_end (run : eatPair '&' '&' d p = .ok false p) :
    intersection nested (setOf strings) fuel d p = .ok (setOf strings) p := by
  cases fuel with
  | zero => rfl
  | succ fuel =>
    show (eatPair '&' '&' >>= _) d p = _
    rw [run_bind run]
    rfl

theorem intersection_operand {b : Bool} (at' : d.TextAt p.pos ('&' :: '&' :: (t ++ rest)))
    (nonempty : t ≠ []) (apart : t.head? ≠ some '&')
    (operand : Settles d (p.skip ['&', '&']) good (setOperand nested) (some (setOf b)) t)
    (others : Settles d (p.skip ('&' :: '&' :: t)) good' (intersection nested (setOf (strings && b)) fuel)
      (setOf result) u) :
    Settles d p (good ∧ good') (intersection nested (setOf strings) (fuel + 1)) (setOf result)
      ('&' :: '&' :: (t ++ u)) := by
  have inside : d.TextAt (p.skip ['&', '&']).pos (t ++ rest) := at'.skip (t := ['&', '&'])
  have once : sees '&' d (p.skip ['&', '&']) = .ok false (p.skip ['&', '&']) := by
    rw [sees_run, beq_eq_false_iff_ne.2 (inside.ne ?_)]
    cases t with
    | nil => exact absurd rfl nonempty
    | cons c t => exact apart
  refine .behind (t := ['&', '&']) (eatPair_text (.inl unicode) (.inl unicode) at')
    (.after once (operand.bind fun _ => ?_))
  have same : (if setOf b = .strings then setOf strings else .characters) = setOf (strings && b) := by
    cases b <;> simp [setOf]
  show Settles d _ _ (intersection nested (if setOf b = .strings then setOf strings else .characters) fuel) _ _
  rw [same]
  simpa using others

/-! ### Subtractions -/

omit unicode in
theorem subtraction_end (run : eatPair '-' '-' d p = .ok false p) : subtraction nested fuel d p = .ok () p := by
  cases fuel with
  | zero => rfl
  | succ fuel =>
    show (eatPair '-' '-' >>= _) d p = _
    rw [run_bind run]
    rfl

theorem subtraction_operand {set : CharSet} (at' : d.TextAt p.pos ('-' :: '-' :: (t ++ rest)))
    (operand : Settles d (p.skip ['-', '-']) good (setOperand nested) (some set) t)
    (others : good → Settles d (p.skip ('-' :: '-' :: t)) good' (subtraction nested fuel) () u) :
    Settles d p (good ∧ good') (subtraction nested (fuel + 1)) () ('-' :: '-' :: (t ++ u)) := by
  refine .behind (t := ['-', '-']) (eatPair_text (.inl unicode) (.inl unicode) at') (operand.bind fun holds => ?_)
  simpa using others holds

end

end RegExp
end ScriptSyntax
