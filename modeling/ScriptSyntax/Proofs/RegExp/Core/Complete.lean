import ScriptSyntax.Proofs.RegExp.Core.Sound
import ScriptSyntax.Proofs.RegExp.Reference

/-!
What the grammar of the core derives, unicode mode accepts.  Characters that stand for themselves are read as long
as there are any, so a derivation is followed with the run of them that is still to be read.  With what is accepted
being derivable, the validator decides the core of the grammar.
-/

namespace ScriptSyntax
namespace RegExp

variable {α β : Type} {d : Dialect} {p q r : Progress} {c : Char} {text t u w rest : List Char}
  {names more : List String}

open RegExp.Core

/-! ### What may follow -/

namespace Core

/-- The text begins with none of the characters. -/
def Avoids (cs : List Char) (text : List Char) : Prop := ∀ c ∈ cs, text.head? ≠ some c

/-- How quantifiers begin. -/
def signs : List Char := ['*', '+', '?', '{']

/-- Before the text an alternative ends. -/
def Delimits (text : List Char) : Prop := ∀ c ∈ text.head?, c ∈ ['|', ')']

theorem Delimits.special (delimits : Delimits text) : ∀ c ∈ text.head?, isOrdinary c = false := by
  intro c head
  have mem := delimits c head
  simp only [List.mem_cons, List.not_mem_nil, or_false] at mem
  rcases mem with rfl | rfl <;> rfl

theorem Delimits.avoids {cs : List Char} (ends : Delimits text) (apart : ∀ c ∈ cs, c ∉ ['|', ')']) : Avoids cs text :=
  fun c mem head => apart c mem (ends c head)

/-- A text begins with a character of its own, or is empty. -/
theorem avoids_append {cs : List Char} (first : Avoids cs t) (second : Avoids cs u) : Avoids cs (t ++ u) := by
  cases t with
  | nil => exact second
  | cons c t => exact first

section

variable {fits : Nat → Option Nat → Prop} {inner : List Char → List String → Prop}

theorem Quantifier.head (quantifier : Quantifier fits t) : ∃ c u, c ∈ signs ∧ t = c :: u := by
  cases quantifier with
  | star => exact ⟨_, _, by simp [signs], rfl⟩
  | plus => exact ⟨_, _, by simp [signs], rfl⟩
  | optional => exact ⟨_, _, by simp [signs], rfl⟩
  | exactly => exact ⟨_, _, by simp [signs], rfl⟩
  | atLeast => exact ⟨_, _, by simp [signs], rfl⟩
  | between => exact ⟨_, _, by simp [signs], rfl⟩

theorem Repetition.head (repetition : Repetition fits t) : ∃ c u, c ∈ signs ∧ t = c :: u := by
  cases repetition with
  | greedy quantifier => exact quantifier.head
  | «lazy» quantifier =>
    obtain ⟨c, u, mem, rfl⟩ := quantifier.head
    exact ⟨c, u ++ ['?'], mem, rfl⟩

theorem Repetition.special (repetition : Repetition fits t) : ∀ c ∈ (t ++ rest).head?, isOrdinary c = false := by
  obtain ⟨c, u, mem, rfl⟩ := repetition.head
  simp only [signs, List.mem_cons, List.not_mem_nil, or_false] at mem
  rcases mem with rfl | rfl | rfl | rfl <;> (rintro _ ⟨⟩; rfl)

/-- An atom is a character, or begins in a way of its own. -/
theorem Atom.cases_head (atom : Atom inner t names) :
    (∃ c, isOrdinary c = true ∧ t = [c] ∧ names = []) ∨ ∃ c u, isOrdinary c = false ∧ c ∉ signs ∧ t = c :: u := by
  cases atom with
  | any => exact .inr ⟨_, _, rfl, by simp [signs], rfl⟩
  | character ordinary => exact .inl ⟨_, ordinary, rfl, rfl⟩
  | group => exact .inr ⟨_, _, rfl, by simp [signs], rfl⟩
  | uncaptured => exact .inr ⟨_, _, rfl, by simp [signs], rfl⟩
  | named => exact .inr ⟨_, _, rfl, by simp [signs], rfl⟩

/-- No atom begins like a lookaround. -/
theorem Atom.not_looks (atom : Atom inner t names) (head : ∀ {t names}, inner t names → t.head? ≠ some '?') :
    ∀ opening ∈ looks, ¬ opening <+: t ++ rest := by
  rintro opening mem ⟨u, same⟩
  simp only [looks, List.mem_cons, List.not_mem_nil, or_false] at mem
  cases atom with
  | any => rcases mem with rfl | rfl | rfl | rfl <;> cases same
  | character ordinary => rcases mem with rfl | rfl | rfl | rfl <;> cases same <;> cases ordinary
  | group contents =>
    rename_i t
    cases t with
    | nil => rcases mem with rfl | rfl | rfl | rfl <;> cases same
    | cons c t =>
      refine head contents (congrArg some ?_)
      rcases mem with rfl | rfl | rfl | rfl <;> exact (List.cons.inj (List.cons.inj same).2).1.symm
  | uncaptured => rcases mem with rfl | rfl | rfl | rfl <;> cases same
  | named isName =>
    obtain ⟨first, -⟩ := isName
    rcases mem with rfl | rfl | rfl | rfl <;> cases same <;> cases first

theorem Term.cases_head (term : Term fits inner t names) :
    (∃ c u, isOrdinary c = true ∧ t = c :: u ∧ names = [] ∧ (u = [] ∨ Repetition fits u)) ∨
      ∃ c u, isOrdinary c = false ∧
    c ∉ signs ∧ t = c :: u := by
  cases term with
  | start => exact .inr ⟨_, _, rfl, by simp [signs], rfl⟩
  | stop => exact .inr ⟨_, _, rfl, by simp [signs], rfl⟩
  | look opens contents =>
    simp only [looks, List.mem_cons, List.not_mem_nil, or_false] at opens
    rcases opens with rfl | rfl | rfl | rfl <;> exact .inr ⟨_, _, rfl, by simp [signs], rfl⟩
  | once atom =>
    obtain ⟨c, ordinary, rfl, rfl⟩ | opened := atom.cases_head
    · exact .inl ⟨c, [], ordinary, rfl, rfl, .inl rfl⟩
    · exact .inr opened
  | repeated atom repetition =>
    obtain ⟨c, ordinary, rfl, rfl⟩ | ⟨c, u, special, unsigned, rfl⟩ := atom.cases_head
    · exact .inl ⟨c, _, ordinary, rfl, rfl, .inr repetition⟩
    · exact .inr ⟨c, _, special, unsigned, rfl⟩

/-- Only quantifiers begin with the signs of quantifiers. -/
theorem Term.avoids (term : Term fits inner t names) : Avoids signs t := by
  intro c mem head
  obtain ⟨b, u, ordinary, rfl, -⟩ | ⟨b, u, -, unsigned, rfl⟩ := term.cases_head
  · obtain rfl := Option.some.inj head
    simp only [signs, List.mem_cons, List.not_mem_nil, or_false] at mem
    rcases mem with rfl | rfl | rfl | rfl <;> cases ordinary
  · obtain rfl := Option.some.inj head
    exact unsigned mem

theorem Alternative.avoids (alternative : Alternative fits inner t names) : Avoids signs t := by
  induction alternative with
  | nil => exact fun _ _ => nofun
  | cons term rest ih => exact avoids_append term.avoids ih

theorem Disjunction.avoids (disjunction : Disjunction fits inner t names) : Avoids signs t := by
  cases disjunction with
  | last alternative => exact alternative.avoids
  | or alternative rest => exact avoids_append alternative.avoids (by simp [Avoids, signs])

end

theorem Nested.avoids {fits : Nat → Option Nat → Prop} {depth : Nat}
    (nested : Nested fits depth t names) : Avoids signs t := by
  cases depth with
  | zero => exact nested.elim
  | succ depth => exact Disjunction.avoids nested

end Core

/-! ### Steps that take a text -/

/-- The step takes a text in which groups with the names begin. -/
def Takes (d : Dialect) (p : Progress) (step : PatternM α) (a : α) (t : List Char) (names : List String) : Prop :=
  ∃ q, step d p = .ok a q ∧ Past p t names q

theorem Past.nodup (past : Past p t names q) (distinct : (p.labels ++ (names ++ more)).Nodup) :
    (q.labels ++ more).Nodup := by
  rwa [past.labels, List.append_assoc]

section

variable (core : d.IsCore)
include core

omit core in
theorem Core.Avoids.at' {cs : List Char} (avoids : Avoids cs text) (at' : d.TextAt p.pos text) :
    ∀ c ∈ cs, d.at? d.unicode p.pos ≠ some c.toNat := fun c mem => at'.ne (avoids c mem)

/-! ### Quantifiers -/

theorem bracedQuantifier_takes (head : t.head? = some '{') (quantifier : Quantifier InOrder t)
    (at' : d.TextAt p.pos (t ++ rest)) :
    bracedQuantifier false d p = .ok true (p.skip t) := by
  have stop {c : Char} (other : Alphabet.isDecimalDigit c = false) (rest : List Char) :
      ∀ b ∈ (c :: rest).head?, Alphabet.isDecimalDigit b = false := by simpa using other
  cases quantifier with
  | star => cases head
  | plus => cases head
  | optional => cases head
  | exactly low =>
    rename_i ds _
    simp only [List.cons_append, List.append_assoc, List.nil_append] at at'
    have at1 := at'.step
    have at2 := at1.skip
    unfold bracedQuantifier
    rw [run_bind position_run, run_bind (eat_text core.whole at'), if_pos rfl,
      run_bind (number_takes low (stop (by decide) _) at1)]
    show (eat ',' >>= _) d _ = _
    rw [run_bind (at2.eat_other (by simp))]
    show (eat '}' >>= _) d _ = _
    rw [run_bind (eat_text core.whole at2), Progress.skip_skip, Progress.skip_skip]
    rfl
  | atLeast low =>
    rename_i ds _
    simp only [List.cons_append, List.append_assoc, List.nil_append] at at'
    have at1 := at'.step
    have at2 := at1.skip
    have at3 := at2.step
    have none' : eatDecimal d (((p.skip ['{']).skip ds).skip [',']) = .ok none (((p.skip ['{']).skip ds).skip [',']) :=
      eatDecimal_text at3
    unfold bracedQuantifier
    rw [run_bind position_run, run_bind (eat_text core.whole at'), if_pos rfl,
      run_bind (number_takes low (stop (by decide) _) at1)]
    show (eat ',' >>= _) d _ = _
    rw [run_bind (eat_text core.whole at2), if_pos rfl, run_bind none']
    show (eat '}' >>= _) d _ = _
    rw [run_bind (eat_text core.whole at3), Progress.skip_skip, Progress.skip_skip, Progress.skip_skip]
    rfl
  | between low high fit => exact (bracedQuantifier_bounds low high at').trans (if_neg (Nat.not_lt.2 (fit _ rfl)))

theorem sign_takes (quantifier : Quantifier InOrder t) (at' : d.TextAt p.pos (t ++ rest)) :
    anyMatch [eat '*', eat '+', eat '?', bracedQuantifier false] d p = .ok true (p.skip t) := by
  have missed {c : Char} (other : (t ++ rest).head? ≠ some c) {steps : List (PatternM Bool)} :
      anyMatch (eat c :: steps) d p = anyMatch steps d p := anyMatch_missed (at'.eat_other other)
  by_cases brace : t.head? = some '{'
  · obtain ⟨u, same⟩ := List.head?_eq_some_iff.1 brace
    rw [missed (by simp [same]), missed (by simp [same]), missed (by simp [same])]
    exact anyMatch_run (bracedQuantifier_takes core brace quantifier at')
  · cases quantifier with
    | star => exact anyMatch_run (eat_text core.whole at')
    | plus =>
      rw [missed (by simp)]
      exact anyMatch_run (eat_text core.whole at')
    | optional =>
      rw [missed (by simp), missed (by simp)]
      exact anyMatch_run (eat_text core.whole at')
    | exactly => exact absurd rfl brace
    | atLeast => exact absurd rfl brace
    | between => exact absurd rfl brace

/-- A quantifier is read to its end, which no question mark may follow. -/
theorem quantifier_takes (repetition : Repetition InOrder t) (stop : rest.head? ≠ some '?')
    (at' : d.TextAt p.pos (t ++ rest)) :
    quantifier false d p = .ok true (p.skip t) := by
  unfold quantifier
  cases repetition with
  | greedy quantifier =>
    have at'' : d.TextAt (p.skip t).pos rest := at'.past
    rw [run_bind (sign_takes core quantifier at'), if_pos rfl, run_bind (at''.eat_other stop)]
    rfl
  | «lazy» quantifier =>
    rw [List.append_assoc] at at'
    have at'' : d.TextAt (p.skip _).pos ('?' :: rest) := at'.past
    rw [run_bind (sign_takes core quantifier at'), if_pos rfl, run_bind (eat_text core.whole at''), Progress.skip_skip]
    rfl

/-! ### Groups -/

/-- A step inside a group that takes the texts of a language, which never begin with a question mark. -/
structure Accepts (d : Dialect) (inner : PatternM Unit) (L : List Char → List String → Prop) : Prop where
  takes : ∀ {p : Progress} {t rest : List Char} {names : List String}, L t names → d.TextAt p.pos (t ++ ')' :: rest) →
    (p.labels ++ names).Nodup → Takes d p inner () t names
  head : ∀ {t : List Char} {names : List String}, L t names → t.head? ≠ some '?'

variable {inner : PatternM Unit} {L : List Char → List String → Prop}

theorem closedDisjunction_takes (within : Accepts d inner L) (contents : L t names)
    (at' : d.TextAt p.pos (t ++ ')' :: rest))
    (distinct : (p.labels ++ names).Nodup) : Takes d p (closedDisjunction inner) () (t ++ [')']) names := by
  obtain ⟨q, run, past⟩ := within.takes contents at' distinct
  refine ⟨q.skip [')'], ?_, by simpa using past.trans .skip⟩
  unfold closedDisjunction
  rw [run_bind run, run_bind (eat_text core.whole (past.textAt at'))]
  rfl

theorem uncapturingGroup_takes (within : Accepts d inner L) (contents : L t names)
    (at' : d.TextAt p.pos ('(' :: '?' :: ':' :: (t ++ ')' :: rest))) (distinct : (p.labels ++ names).Nodup) :
    Takes d p (uncapturingGroup inner) true ('(' :: '?' :: ':' :: (t ++ [')'])) names := by
  obtain ⟨q, run, past⟩ := closedDisjunction_takes (p := p.skip ['(', '?', ':']) core within contents
    (at'.skip (t := ['(', '?', ':'])) distinct
  refine ⟨q, ?_, by simpa using Past.skip.trans past⟩
  rw [uncapturingGroup_text core at', run_bind run]
  rfl

theorem groupName_takes {name : List Char} (isName : IsName name)
    (at' : d.TextAt p.pos ('<' :: (name ++ '>' :: rest))) :
    groupName d p = .ok (some (String.ofList name)) (p.skip ('<' :: (name ++ ['>']))) := by
  obtain ⟨first, later⟩ := isName
  rename_i c cs
  have at1 : d.TextAt (p.skip ['<']).pos (c :: (cs ++ '>' :: rest)) := at'.step
  have stop : (cs ++ '>' :: rest).takeWhile (belongsToName false) = cs :=
    takeWhile_append_stop later (by simpa using (by decide : belongsToName false '>' = false))
  have named := identifierName_text core at1 first
  rw [stop] at named
  have at2 : d.TextAt ((p.skip ['<']).skip (c :: cs)).pos ('>' :: rest) := at1.skip
  unfold groupName
  rw [run_bind (eat_text core.whole at'), if_pos rfl, run_bind named]
  show (eat '>' >>= _) d _ = _
  rw [run_bind (eat_text core.whole at2), Progress.skip_skip, Progress.skip_skip]
  rfl

theorem declareGroup_takes {name : String} (new : name ∉ p.labels) : Takes d p (declareGroup name) () [] [name] := by
  have accepted : p.refuses d name = false := Bool.not_eq_true _ |>.mp fun refused => new ((refuses_iff core).1 refused)
  refine ⟨_, ?_, .declare new⟩
  unfold declareGroup
  rw [run_bind get_run, run_bind read_run, accepted]
  rfl

theorem groupSpecifier_takes {name : List Char} (isName : IsName name) (new : String.ofList name ∉ p.labels)
    (at' : d.TextAt p.pos ('?' :: '<' :: (name ++ '>' :: rest))) :
    Takes d p groupSpecifier () ('?' :: '<' :: (name ++ ['>'])) [String.ofList name] := by
  obtain ⟨q, run, past⟩ := declareGroup_takes (p := (p.skip ['?']).skip ('<' :: (name ++ ['>']))) core new
  refine ⟨q, ?_, by simpa using (Past.skip.trans .skip).trans past⟩
  unfold groupSpecifier
  rw [run_bind (eat_text core.whole at'), if_pos rfl, run_bind (groupName_takes core isName at'.step)]
  exact run

/-- Past the parenthesis stands a name or nothing. -/
theorem capturingHead_takes (at' : d.TextAt p.pos ('(' :: rest))
    (specifier : Takes d (p.skip ['(']) groupSpecifier () t names) :
    Takes d p capturingHead true ('(' :: t) names := by
  obtain ⟨q, run, past⟩ := specifier
  refine ⟨q, ?_, by simpa using Past.skip.trans past⟩
  unfold capturingHead
  rw [run_bind (eat_text core.whole at'), if_pos rfl, run_bind read_run, if_pos core.late, run_bind run]
  rfl

theorem capturingGroup_takes (within : Accepts d inner L) {opening : List Char}
    (head : Takes d p capturingHead true opening names)
    (contents : L t more) (at' : d.TextAt p.pos (opening ++ (t ++ ')' :: rest)))
    (distinct : (p.labels ++ (names ++ more)).Nodup) :
    Takes d p (capturingGroup inner) true (opening ++ (t ++ [')'])) (names ++ more) := by
  obtain ⟨q, run, past⟩ := head
  obtain ⟨r, run', past'⟩ := closedDisjunction_takes core within contents (past.textAt at') (past.nodup distinct)
  refine ⟨{ r with groups := r.groups + 1 }, ?_, by simpa using (past.trans past').trans .count⟩
  rw [capturingGroup_eq, run_bind run, if_pos rfl, run_bind run']
  rfl

/-! ### Atoms -/

/-- All the characters that stand for themselves are taken. -/
theorem word_takes (ordinary : ∀ c ∈ w, isOrdinary c = true) (stop : ∀ c ∈ rest.head?, isOrdinary c = false)
    (at' : d.TextAt p.pos (w ++ rest)) :
    (do return !(← eatRun fun code => !isSyntaxCharacter code).isEmpty : PatternM Bool) d p = .ok (!w.isEmpty)
    (p.skip w) := by
  have special {c : Char} (stops : isOrdinary c = false) : (!isSyntaxCharacter c.toNat) = false := by
    rw [isSyntaxCharacter_iff.2 (.inl stops)]
    rfl
  have plain (c : Char) (mem : c ∈ w) : (!isSyntaxCharacter c.toNat) = true := by
    have outside := at'.plain core (List.mem_append_left rest mem)
    simpa [ordinary c mem, outside] using mt (isSyntaxCharacter_iff (c := c)).1
  have run := eatRun_text (tells_of_unicode core.unicode fun code => !isSyntaxCharacter code) at'
  rw [takeWhile_append_stop plain fun c mem => special (stop c mem)] at run
  rw [run_bind run]
  cases w <;> rfl

/-- Before a parenthesis the atom is a group. -/
theorem strictAtom_group {depth : Nat} (at' : d.TextAt p.pos ('(' :: text)) :
    strictAtom inner depth d p = anyMatch [uncapturingGroup inner, capturingGroup inner] d p := by
  unfold strictAtom
  rw [anyMatch_missed (word_takes (w := []) core (by simp) (by rintro _ ⟨⟩; rfl) at'),
    Progress.skip_nil, anyMatch_missed (at'.eat_other (by simp)), anyMatch_missed
      (escapedAtom_missed (at'.other core (by simp))),
    anyMatch_missed (characterClass_missed (at'.other core (by simp)))]

theorem strictAtom_capturing {depth : Nat} (other : ¬ ['(', '?', ':'] <+: '(' :: text)
    (at' : d.TextAt p.pos ('(' :: text))
    (group : Takes d p (capturingGroup inner) true t names) : Takes d p (strictAtom inner depth) true t names := by
  obtain ⟨q, run, past⟩ := group
  refine ⟨q, ?_, past⟩
  rw [strictAtom_group core at', anyMatch_missed (uncapturingGroup_other core at' other), anyMatch_run run]

/-- An atom that is no character. -/
theorem strictAtom_takes {depth : Nat} (within : Accepts d inner L) (atom : Atom L t names)
    (special : ∀ c ∈ t.head?, isOrdinary c = false) (at' : d.TextAt p.pos (t ++ rest))
    (distinct : (p.labels ++ names).Nodup) :
    Takes d p (strictAtom inner depth) true t names := by
  cases atom with
  | any =>
    refine ⟨p.skip ['.'], ?_, .skip⟩
    unfold strictAtom
    rw [anyMatch_missed (word_takes (w := []) core (by simp) (by rintro _ ⟨⟩; rfl) at'),
      Progress.skip_nil, anyMatch_run (eat_text core.whole at')]
  | character ordinary => cases ordinary.symm.trans (special _ rfl)
  | group contents =>
    rename_i t
    simp only [List.cons_append, List.append_assoc, List.nil_append] at at'
    have unnamed : (t ++ ')' :: rest).head? ≠ some '?' := by
      cases t with
      | nil => simp
      | cons c t => exact fun head => within.head contents head
    have specifier : Takes d (p.skip ['(']) groupSpecifier () [] [] := by
      refine ⟨p.skip ['('], ?_, .refl⟩
      unfold groupSpecifier
      rw [run_bind (at'.step.eat_other unnamed)]
      rfl
    refine strictAtom_capturing core ?_ at' (capturingGroup_takes core within
      (capturingHead_takes core at' specifier) contents at' distinct)
    rintro ⟨u, same⟩
    exact unnamed (by simp [← (List.cons.inj same).2])
  | uncaptured contents =>
    simp only [List.cons_append, List.append_assoc, List.nil_append] at at'
    obtain ⟨q, run, past⟩ := uncapturingGroup_takes core within contents at' distinct
    exact ⟨q, by rw [strictAtom_group core at', anyMatch_run run], past⟩
  | named isName contents =>
    rename_i name t names
    simp only [List.cons_append, List.append_assoc, List.nil_append] at at'
    have new : String.ofList name ∉ (p.skip ['(']).labels := fun known =>
      (List.nodup_append.1 distinct).2.2 _ known _ (.head _) rfl
    have head := capturingHead_takes core at' (groupSpecifier_takes core isName new at'.step)
    have group := capturingGroup_takes core within head contents (by simpa using at') (by simpa using distinct)
    exact strictAtom_capturing core (by simp) at' (by simpa using group)

/-! ### Terms -/

/-- Behind an atom a quantifier is taken where there is one. -/
theorem quantifier_optional (optional : u = [] ∨ Repetition InOrder u) (stop : Avoids signs rest)
    (at' : d.TextAt p.pos (u ++ rest)) :
    ∃ matched, quantifier false d p = .ok matched (p.skip u) := by
  obtain rfl | repetition := optional
  · exact ⟨false, quantifier_missed (stop.at' at')⟩
  · exact ⟨true, quantifier_takes core repetition (stop '?' (by simp [signs])) at'⟩

theorem term_single {depth : Nat} (none' : assertion inner d p = .ok none p)
    (atom : Takes d p (strictAtom inner depth) true t names)
    (optional : u = [] ∨ Repetition InOrder u) (stop : Avoids signs rest) (at' : d.TextAt p.pos (t ++ (u ++ rest))) :
    Takes d p (term inner depth) true (t ++ u) names := by
  obtain ⟨q, run, past⟩ := atom
  obtain ⟨matched, quantified⟩ := quantifier_optional core optional stop (past.textAt at')
  refine ⟨q.skip u, ?_, by simpa using past.trans .skip⟩
  unfold term
  rw [run_bind read_run, run_bind none', core.unicode]
  show (strictAtom inner depth >>= _) d p = _
  rw [run_bind run]
  show (quantifier false >>= _) d q = _
  rw [run_bind quantified]
  rfl

/-- The characters that stand for themselves are one term, with the quantifier of the last. -/
theorem term_word {depth : Nat} (nonempty : w ≠ []) (ordinary : ∀ c ∈ w, isOrdinary c = true)
    (optional : u = [] ∨ Repetition InOrder u) (stop : Avoids signs rest)
    (ends : ∀ c ∈ (u ++ rest).head?, isOrdinary c = false)
    (at' : d.TextAt p.pos (w ++ (u ++ rest))) : Takes d p (term inner depth) true (w ++ u) [] := by
  refine term_single core ?_ ⟨p.skip w, ?_, .skip⟩ optional stop at'
  · cases w with
    | nil => exact absurd rfl nonempty
    | cons c w =>
      have first := ordinary c (.head _)
      refine assertion_missed fun b mem => ?_
      simp only [List.mem_cons, List.not_mem_nil, or_false] at mem
      rcases mem with rfl | rfl | rfl | rfl
      · exact at'.ne (by rintro ⟨⟩; cases first)
      · exact at'.ne (by rintro ⟨⟩; cases first)
      · exact at'.other core (by simp)
      · exact at'.ne (by rintro ⟨⟩; cases first)
  · refine anyMatch_run ((word_takes core ordinary ends at').trans ?_)
    cases w with
    | nil => exact absurd rfl nonempty
    | cons c w => rfl

theorem term_sign {depth : Nat} (mem : c ∈ ['^', '$']) (at' : d.TextAt p.pos (c :: rest)) :
    Takes d p (term inner depth) true [c] [] := by
  refine ⟨p.skip [c], ?_, .skip⟩
  unfold term
  rw [run_bind read_run, run_bind (assertion_sign core mem at')]
  rfl

theorem term_look {depth : Nat} (within : Accepts d inner L) {opening : List Char} (opens : opening ∈ looks)
    (contents : L t names)
    (stop : Avoids signs rest) (at' : d.TextAt p.pos (opening ++ (t ++ ')' :: rest)))
    (distinct : (p.labels ++ names).Nodup) :
    Takes d p (term inner depth) true (opening ++ (t ++ [')'])) names := by
  obtain ⟨q, run, past⟩ := closedDisjunction_takes (p := p.skip opening) core within contents at'.skip distinct
  have after : d.TextAt q.pos rest := past.textAt (by simpa using at'.skip)
  have look : assertion inner d p = .ok (some (opening.length == 3)) q := by
    rw [assertion_look core opens at', run_bind run]
    rfl
  refine ⟨q, ?_, by simpa using Past.skip.trans past⟩
  unfold term
  rw [run_bind read_run, run_bind look]
  cases opening.length == 3 with
  | false => rfl
  | true =>
    show (quantifier false >>= _) d q = _
    rw [run_bind (quantifier_missed (stop.at' after))]
    rfl

/-- An atom that is no character, and what may stand behind it. -/
theorem term_opener {depth : Nat} (within : Accepts d inner L) (atom : Atom L t names)
    (special : ∀ c ∈ t.head?, isOrdinary c = false) (optional : u = [] ∨ Repetition InOrder u)
    (stop : Avoids signs rest) (at' : d.TextAt p.pos (t ++ (u ++ rest)))
    (distinct : (p.labels ++ names).Nodup) : Takes d p (term inner depth) true (t ++ u) names := by
  refine term_single core (assertion_other core at' ?_ (atom.not_looks within.head))
    (strictAtom_takes core within atom special at' distinct) optional stop at'
  intro c mem
  simp only [List.mem_cons, List.not_mem_nil, or_false] at mem
  cases atom with
  | character ordinary => rcases mem with rfl | rfl <;> rintro ⟨⟩ <;> cases ordinary
  | any => rcases mem with rfl | rfl <;> simp
  | group => rcases mem with rfl | rfl <;> simp
  | uncaptured => rcases mem with rfl | rfl <;> simp
  | named => rcases mem with rfl | rfl <;> simp

theorem term_takes {depth : Nat} (within : Accepts d inner L) (term' : Term InOrder L t names)
    (special : ∀ c ∈ t.head?, isOrdinary c = false) (stop : Avoids signs rest) (at' : d.TextAt p.pos (t ++ rest))
    (distinct : (p.labels ++ names).Nodup) :
    Takes d p (term inner depth) true t names := by
  cases term' with
  | start => exact term_sign core (by simp) at'
  | «stop» => exact term_sign core (by simp) at'
  | look opens contents =>
    exact term_look core within opens contents stop (by simpa using at') distinct
  | once atom => simpa using term_opener core within atom special (.inl rfl) stop at' distinct
  | repeated atom repetition =>
    refine term_opener core within atom ?_ (.inr repetition) stop (by simpa using at') distinct
    cases atom <;> exact special

/-! ### Alternatives -/

/-- No term begins where an alternative ends. -/
theorem term_ends {depth : Nat} (ends : Delimits text) (at' : d.TextAt p.pos text) :
    term inner depth d p = .ok false p := by
  have missed {c : Char} (mem : c ∉ ['|', ')']) : d.at? d.unicode p.pos ≠ some c.toNat :=
    at'.ne fun head => mem (ends c head)
  have none' : assertion inner d p = .ok none p := by
    refine assertion_missed fun c mem => ?_
    simp only [List.mem_cons, List.not_mem_nil, or_false] at mem
    rcases mem with rfl | rfl | rfl | rfl
    · exact missed (by simp)
    · exact missed (by simp)
    · exact at'.other core (by simp)
    · exact missed (by simp)
  have atom : strictAtom inner depth d p = .ok false p := by
    unfold strictAtom
    rw [anyMatch_missed (word_takes (w := []) core (by simp) ends.special at'), Progress.skip_nil, anyMatch_missed
      (eat_missed (missed (by simp))),
      anyMatch_missed (escapedAtom_missed (at'.other core (by simp))), anyMatch_missed
        (characterClass_missed (at'.other core (by simp))),
      anyMatch_missed (uncapturingGroup_missed (missed (by simp))), anyMatch_missed
        (capturingGroup_missed (missed (by simp)))]
    rfl
  unfold term
  rw [run_bind read_run, run_bind none', core.unicode]
  show (strictAtom inner depth >>= _) d p = _
  rw [run_bind atom]
  rfl

omit core in
theorem whileMatch_takes {step : PatternM Bool} {fuel : Nat} (first : Takes d p step true t names)
    (later : ∀ q, Past p t names q → Takes d q (whileMatch step fuel) () u more) :
    Takes d p (whileMatch step (fuel + 1)) () (t ++ u) (names ++ more) := by
  obtain ⟨q, run, past⟩ := first
  obtain ⟨r, run', past'⟩ := later q past
  refine ⟨r, ?_, past.trans past'⟩
  unfold whileMatch
  rw [run_bind run]
  exact run'

theorem terms_end {depth fuel : Nat} (ends : Delimits text) (at' : d.TextAt p.pos text) :
    Takes d p (whileMatch (term inner depth) fuel) () [] [] := by
  refine ⟨p, ?_, .refl⟩
  cases fuel with
  | zero => rfl
  | succ fuel =>
    unfold whileMatch
    rw [run_bind (term_ends core ends at')]
    rfl

/-- A word, with the quantifier of its last character, and then other terms. -/
theorem word_then {depth fuel : Nat} (nonempty : w ≠ []) (ordinary : ∀ c ∈ w, isOrdinary c = true)
    (optional : u = [] ∨ Repetition InOrder u) (stop : Avoids signs rest)
    (special : ∀ c ∈ (u ++ rest).head?, isOrdinary c = false)
    (at' : d.TextAt p.pos (w ++ (u ++ rest))) (distinct : (p.labels ++ names).Nodup)
    (later : ∀ q, d.TextAt q.pos rest → (q.labels ++ names).Nodup → Takes d q (whileMatch (term inner depth) fuel)
    () t names) :
    Takes d p (whileMatch (term inner depth) (fuel + 1)) () (w ++ (u ++ t)) names := by
  rw [← List.append_assoc]
  exact whileMatch_takes (term_word core nonempty ordinary optional stop special at') fun q past =>
    later q (past.textAt (by rwa [List.append_assoc])) (past.nodup distinct)

/-- Characters may have been found already that are still to be read. -/
theorem terms_take {depth fuel : Nat} (within : Accepts d inner L) (alternative : Alternative InOrder L t names)
    (ends : Delimits rest) (ordinary : ∀ c ∈ w, isOrdinary c = true) (at' : d.TextAt p.pos (w ++ (t ++ rest)))
    (distinct : (p.labels ++ names).Nodup) (enough : w.length + t.length < fuel) :
    Takes d p (whileMatch (term inner depth) fuel) () (w ++ t) names := by
  induction alternative generalizing w p fuel with
  | nil =>
    by_cases nonempty : w = []
    · subst nonempty
      exact terms_end core ends at'
    · obtain ⟨fuel, rfl⟩ : ∃ n, fuel = n + 1 := ⟨fuel - 1, by omega⟩
      exact word_then core nonempty ordinary (.inl rfl) (ends.avoids (by simp [signs])) ends.special at' distinct
        fun q at' _ => terms_end core ends at'
  | cons term' following ih =>
    rename_i t tail names more
    have stop : Avoids signs (tail ++ rest) := avoids_append following.avoids (ends.avoids (by simp [signs]))
    rw [List.append_assoc] at at'
    rw [List.length_append] at enough
    obtain ⟨c, u, plain, rfl, rfl, optional⟩ | ⟨c, u, special, unsigned, rfl⟩ := term'.cases_head
    · -- A character more is found, and what follows it is a quantifier or the rest.
      have longer : ∀ b ∈ w ++ [c], isOrdinary b = true := by simpa [or_imp, forall_and] using ⟨ordinary, plain⟩
      simp only [List.length_cons] at enough
      obtain rfl | repetition := optional
      · simpa using ih longer (by simpa using at') distinct
          (by simpa using (by omega : w.length + 1 + tail.length < fuel))
      · obtain ⟨fuel, rfl⟩ : ∃ n, fuel = n + 1 := ⟨fuel - 1, by omega⟩
        have found : Takes d p (whileMatch (term inner depth) (fuel + 1)) () (w ++ [c] ++ _) _ :=
          word_then core (by simp)
          longer (.inr repetition) stop repetition.special (by simpa using at') distinct fun q at' distinct =>
            ih (w := []) (by simp) at' distinct (by simp; omega)
        simpa using found
    · -- The term that begins is not part of a word.
      have others {p : Progress} {fuel : Nat} (at' : d.TextAt p.pos ((c :: u) ++ (tail ++ rest)))
          (distinct : (p.labels ++ (names ++ more)).Nodup) (enough : (c :: u).length + tail.length < fuel) :
          Takes d p (whileMatch (term inner depth) fuel) () ((c :: u) ++ tail) (names ++ more) := by
        obtain ⟨fuel, rfl⟩ : ∃ n, fuel = n + 1 := ⟨fuel - 1, by omega⟩
        have first : (p.labels ++ names).Nodup := distinct.sublist (by simp)
        refine whileMatch_takes (term_takes core within term' (by simpa using special) stop at' first) fun q past => ?_
        rw [List.length_cons] at enough
        exact ih (w := []) (by simp) (past.textAt at') (past.nodup distinct) (by simp; omega)
      by_cases nonempty : w = []
      · subst nonempty
        exact others at' distinct (by simpa using enough)
      · obtain ⟨fuel, rfl⟩ : ∃ n, fuel = n + 1 := ⟨fuel - 1, by omega⟩
        have longer := List.length_pos_iff.2 nonempty
        exact word_then (u := []) core nonempty ordinary (.inl rfl) (avoids_append term'.avoids stop)
          (by simpa using special) at'
          distinct fun q at' distinct => others at' distinct (by omega)

theorem alternative_takes (depth : Nat) (within : Accepts d inner L) (found : Alternative InOrder L t names)
    (ends : Delimits rest)
    (at' : d.TextAt p.pos (t ++ rest)) (distinct : (p.labels ++ names).Nodup) :
    Takes d p (alternative inner depth) () t names := by
  have enough := at'.length_lt
  rw [List.length_append] at enough
  obtain ⟨q, run, past⟩ : Takes d p (whileMatch (term inner depth) (d.units.size + 1 - p.pos)) () t names :=
    terms_take (w := []) core within found ends (by simp) at' distinct (by simp; omega)
  refine ⟨q, ?_, past⟩
  unfold alternative exhaust
  rw [run_bind read_run, run_bind position_run]
  exact run

/-! ### Disjunctions -/

theorem alternatives_take {depth fuel : Nat} (within : Accepts d inner L) (disjunction : Disjunction InOrder L t names)
    (ends : ∀ c ∈ rest.head?, c = ')') (at' : d.TextAt p.pos (t ++ rest)) (distinct : (p.labels ++ names).Nodup)
    (enough : t.length < fuel) :
    Takes d p (do alternative inner depth; alternatives inner depth fuel) () t names := by
  obtain ⟨fuel, rfl⟩ : ∃ n, fuel = n + 1 := ⟨fuel - 1, by omega⟩
  induction disjunction generalizing p fuel with
  | last found =>
    obtain ⟨q, run, past⟩ := alternative_takes core depth within found
      (fun c mem => by simp [ends c mem]) at' distinct
    refine ⟨q, ?_, past⟩
    have bar : rest.head? ≠ some '|' := fun head => by cases ends _ head
    rw [run_bind run]
    unfold alternatives
    rw [run_bind ((past.textAt at').eat_other bar)]
    rfl
  | or found others ih =>
    rename_i t u names more
    simp only [List.append_assoc, List.cons_append] at at'
    obtain ⟨q, run, past⟩ := alternative_takes core depth within found (by simp [Delimits]) at'
      (distinct.sublist (by simp) : (p.labels ++ names).Nodup)
    have at1 : d.TextAt q.pos ('|' :: (u ++ rest)) := past.textAt at'
    obtain ⟨fuel, rfl⟩ : ∃ n, fuel = n + 1 := ⟨fuel - 1, by simp at enough; omega⟩
    obtain ⟨r, run', past'⟩ := ih (p := q.skip ['|']) at1.step (past.nodup distinct) fuel (by simp at enough; omega)
    refine ⟨r, ?_, by simpa using past.trans (Past.skip.trans past')⟩
    rw [run_bind run, alternatives, run_bind (eat_text core.whole at1), if_pos rfl, run_bind (branch_run core).2.1]
    exact run'

theorem disjunction_takes {depth : Nat} (nested : Nested InOrder depth t names) (ends : ∀ c ∈ rest.head?, c = ')')
    (at' : d.TextAt p.pos (t ++ rest)) (distinct : (p.labels ++ names).Nodup) : Takes d p (disjunction depth)
    () t names := by
  induction depth generalizing p t rest names with
  | zero => exact nested.elim
  | succ depth ih =>
    have within : Accepts d (disjunction depth) (Nested InOrder depth) :=
      ⟨fun nested at' distinct => ih nested (by simp) at' distinct, fun nested => nested.avoids '?' (by simp [signs])⟩
    have enough := at'.length_lt
    rw [List.length_append] at enough
    obtain ⟨q, run, past⟩ :
        Takes d p (do alternative (disjunction depth) depth; alternatives _ depth (d.units.size + 1)) () t names :=
      alternatives_take core within nested ends at' distinct (by omega)
    refine ⟨q, ?_, past⟩
    have at'' : d.TextAt q.pos rest := past.textAt at'
    have delimits : Delimits rest := fun c mem => by simp [ends c mem]
    obtain ⟨_, r, first, others⟩ := bind_eq_ok.1 run
    have unsigned := (delimits.avoids (by simp [signs]) : Avoids signs rest).at' at''
    unfold disjunction
    rw [run_bind (branch_run core).1, run_bind first, run_bind read_run, run_bind others,
      run_bind (branch_run core).2.2,
      run_bind (quantifier_missed unsigned)]
    show (eat '{' >>= _) d q = _
    rw [run_bind (eat_missed (unsigned '{' (by simp [signs])))]
    rfl

end

/-! ### Patterns and literals -/

/-- A pattern of the core is read exactly if it is derivable. -/
theorem readPattern_core [d.Narrow] (core : d.IsCore) (at' : d.TextAt 0 text) : (∃ p, d.readPattern = .ok p) ↔
    IsPattern InOrder text := by
  simp only [readPattern_eq_ok, pattern_eq_ok]
  constructor
  · rintro ⟨q, run, finishes⟩
    have whole := readPattern_rests (readPattern_eq_ok.2 (pattern_eq_ok.2 ⟨run, finishes⟩))
    obtain ⟨t, rest, names, rfl, nested, past⟩ := disjunction_reads core maxDepth {} text at' _ q run
    obtain rfl := (past.textAt at').nil_of_size whole
    have distinct := past.distinct List.nodup_nil
    rw [past.labels] at distinct
    rw [List.append_nil]
    exact ⟨names, nested, distinct⟩
  · rintro ⟨names, nested, distinct⟩
    have whole : d.TextAt 0 (text ++ []) := by rwa [List.append_nil]
    obtain ⟨q, run, past⟩ := disjunction_takes (p := {}) core nested (by simp) whole distinct
    have last : q.pos = d.units.size := (past.textAt whole).size
    obtain ⟨⟨groups, rfl⟩, -⟩ := past
    exact ⟨_, run, fun inside => absurd last inside, Nat.zero_le _, by simp [Progress.skip]⟩

variable {edition : Nat} {pattern : List Char}

theorem isCore_ofFlags (late : 9 ≤ edition) (early : edition ≤ 15) (noEscape : '\\' ∉ pattern)
    (noClass : '[' ∉ pattern) :
    (Dialect.ofFlags pattern ['u'] edition).IsCore where
  unicode := by simp [Dialect.ofFlags, Nat.le_trans (by decide : 6 ≤ 9) late]
  late := late
  early := early
  plain c mem unit := by
    have inside : c.toNat ∈ codeUnits pattern := by simpa [Dialect.ofFlags] using unit
    simp only [List.mem_cons, List.not_mem_nil, or_false] at mem
    rcases mem with rfl | rfl
    · exact noEscape (mem_of_mem_codeUnits (by decide) inside)
    · exact noClass (mem_of_mem_codeUnits (by decide) inside)

/-- With named groups from the start a pattern is read once. -/
theorem validate_named_once {d : Dialect} (named : d.namedGroups = true) : d.validate.1 = .ok () ↔ ∃ p,
    d.readPattern = .ok p := by
  unfold Dialect.validate
  cases d.readPattern <;> simp [named]

theorem checkFlags_unicode (late : 9 ≤ edition) : checkFlags edition ['u'] = .ok () := by
  have known : 6 ≤ edition := Nat.le_trans (by decide) late
  simp [checkFlags, checkEachFlag, permittedFlags, known]

/-- In unicode mode a pattern that has neither escapes nor classes is accepted exactly if the grammar of the core
derives it. Bounds of quantifiers count up to the largest number there is. -/
theorem validateLiteral_core (edition : Nat) (pattern : List Char) (late : 9 ≤ edition) (early : edition ≤ 15)
    (noEscape : '\\' ∉ pattern) (noClass : '[' ∉ pattern) :
    validateLiteral edition pattern ['u'] = .ok () ↔ Core.IsPattern Core.InOrder pattern := by
  have core := isCore_ofFlags late early noEscape noClass
  have named : (Dialect.ofFlags pattern ['u'] edition).namedGroups = true :=
    (namedGroups_ofFlags late).trans core.unicode
  rw [validateLiteral_eq_ok, checkFlags_unicode late, validate_named_once named, readPattern_core core textAt_ofFlags]
  simp

/-- A named group, a lazy quantifier and a lookaround. -/
theorem validateLiteral_core_named :
    let pattern := "(?<a>b|c{2,3}?)(?!d)".toList
    (9 ≤ 12 ∧ 12 ≤ 15 ∧ '\\' ∉ pattern ∧ '[' ∉ pattern) ∧ Core.IsPattern Core.InOrder pattern := by
  intro pattern
  have plain : '\\' ∉ pattern ∧ '[' ∉ pattern := by decide
  exact ⟨⟨by decide, by decide, plain⟩,
    (validateLiteral_core 12 pattern (by decide) (by decide) plain.1 plain.2).1 (by decide +kernel)⟩

/-! ### Bounds as they are written -/

namespace Core

variable {fits : Nat → Option Nat → Prop} {inner : List Char → List String → Prop} {b : Char} {q ds es : List Char}

theorem IsNumber.unique (number : IsNumber ds) (number' : IsNumber es) (other : Alphabet.isDecimalDigit b = false)
    (same : es ++ b :: rest = ds ++ ['}']) : es = ds := by
  have digits := congrArg (List.takeWhile Alphabet.isDecimalDigit) same
  rwa [takeWhile_append_stop number'.decimal (by simpa using other), takeWhile_append_stop number.decimal
    (by simp [Alphabet.isDecimalDigit])] at digits

theorem Quantifier.exactly_fits (number : IsNumber ds) (quantifier : Quantifier fits q)
    (same : q ++ rest = '{' :: (ds ++ ['}'])) :
    fits (numberIn ds) none := by
  cases quantifier with
  | star => cases same
  | plus => cases same
  | optional => cases same
  | exactly low fit =>
    obtain rfl := number.unique (b := '}') low (by decide) (by simpa using (List.cons.inj same).2)
    exact fit
  | atLeast low fit =>
    obtain rfl := number.unique (b := ',') low (by decide) (by simpa using (List.cons.inj same).2)
    exact fit
  | between low high fit =>
    obtain rfl := number.unique (b := ',') low (by decide) (by simpa using (List.cons.inj same).2)
    simp at same

theorem Alternative.exactly_fits (ordinary : isOrdinary c = true) (number : IsNumber ds)
    (alternative : Alternative fits inner t names)
    (ends : Delimits rest) (same : t ++ rest = c :: '{' :: (ds ++ ['}'])) : fits (numberIn ds) none := by
  cases alternative with
  | nil =>
    have special := ends.special c (by simp [show rest = _ from same])
    cases ordinary.symm.trans special
  | cons term following =>
    rename_i t tail _ _
    obtain ⟨b, u, -, rfl, -, optional⟩ | ⟨b, u, special, -, rfl⟩ := term.cases_head
    · rw [List.append_assoc, List.cons_append] at same
      obtain ⟨-, same⟩ := List.cons.inj same
      obtain rfl | repetition := optional
      · have stop : Avoids signs (tail ++ rest) := avoids_append following.avoids (ends.avoids (by simp [signs]))
        exact absurd (by rw [show tail ++ rest = _ from same]; rfl) (stop '{' (by simp [signs]))
      · cases repetition with
        | greedy quantifier => exact quantifier.exactly_fits number same
        | «lazy» quantifier => exact quantifier.exactly_fits number (by rw [← same, List.append_assoc])
    · obtain rfl := (List.cons.inj same).1
      cases ordinary.symm.trans special

/-- A bound fits where it stands in a pattern. -/
theorem IsPattern.exactly_fits (ordinary : isOrdinary c = true) (number : IsNumber ds)
    (pattern : IsPattern fits (c :: '{' :: (ds ++ ['}']))) : fits (numberIn ds) none := by
  obtain ⟨names, nested, -⟩ := pattern
  generalize same : c :: '{' :: (ds ++ ['}']) = text at nested
  cases (nested : Disjunction fits (Nested fits 999) text names) with
  | last alternative =>
    rw [← List.append_nil text] at same
    exact alternative.exactly_fits ordinary number (by simp [Delimits]) same.symm
  | or alternative => exact alternative.exactly_fits ordinary number (by simp [Delimits]) same.symm

end Core

/-- A bound above all numbers is read as the largest. -/
theorem validateLiteral_core_saturates :
    let pattern := "a{18446744073709551616}".toList
    ¬ (validateLiteral 9 pattern ['u'] = .ok () ↔ Core.IsPattern Core.Bounded pattern) := by
  intro pattern same
  have accepted : validateLiteral 9 pattern ['u'] = .ok () := by decide +kernel
  have number : IsNumber "18446744073709551616".toList := ⟨by decide, by simp [Alphabet.isDecimalDigit]⟩
  have written : Core.IsPattern Core.Bounded ('a' :: '\x7b' :: ("18446744073709551616".toList ++ ['\x7d'])) :=
    same.1 accepted
  have bounded := written.exactly_fits (by decide) number
  exact absurd bounded.1 (by decide +kernel)

end RegExp
end ScriptSyntax
