import ScriptSyntax.Proofs.RegExp.Core.Text

/-!
What unicode mode accepts is derivable: each step that succeeds has read a text that the grammar has for it.
-/

namespace ScriptSyntax
namespace RegExp

variable {α β : Type} {d : Dialect} {p q r : Progress} {c : Char} {text t u rest : List Char} {names more : List String}

/-- The names of the groups so far. -/
def Progress.labels (p : Progress) : List String := p.names.map (·.1)

/-- From one state to the other the cursor moves past a text, in which groups with the names begin. -/
structure Past (p : Progress) (text : List Char) (names : List String) (q : Progress) : Prop where
  state : ∃ groups, q = { p.skip text with groups, names := p.names ++ names.map (·, p.branch) }
  distinct : p.labels.Nodup → q.labels.Nodup

namespace Past

theorem refl : Past p [] [] p := ⟨⟨p.groups, by simp⟩, id⟩

theorem skip : Past p t [] (p.skip t) := ⟨⟨p.groups, by simp [Progress.skip]⟩, id⟩

theorem trans (first : Past p t names q) (second : Past q u more r) : Past p (t ++ u) (names ++ more) r := by
  obtain ⟨⟨groups, rfl⟩, distinct⟩ := first
  obtain ⟨⟨groups', rfl⟩, distinct'⟩ := second
  refine ⟨⟨groups', ?_⟩, distinct' ∘ distinct⟩
  simp only [Progress.skip, codeUnits_append, List.length_append, List.map_append, List.append_assoc, Nat.add_assoc]

theorem textAt (past : Past p t names q) (at' : d.TextAt p.pos (t ++ rest)) : d.TextAt q.pos rest := by
  obtain ⟨⟨groups, rfl⟩, -⟩ := past
  exact at'.past

theorem labels (past : Past p t names q) : q.labels = p.labels ++ names := by
  obtain ⟨⟨groups, rfl⟩, -⟩ := past
  simp [Progress.labels, Function.comp_def]

theorem declare {name : String} (new : name ∉ p.labels) : Past p [] [name]
    { p with names := p.names ++ [(name, p.branch)] } := by
  refine ⟨⟨p.groups, rfl⟩, fun distinct => ?_⟩
  have labels : Progress.labels { p with names := p.names ++ [(name, p.branch)] } = p.labels ++ [name] := by
    simp [Progress.labels]
  rw [labels]
  exact List.nodup_append.2 ⟨distinct, by simp, by simpa using fun _ known => ne_of_mem_of_not_mem known new⟩

theorem count {n : Nat} : Past p [] [] { p with groups := n } := ⟨⟨n, by simp⟩, id⟩

end Past

/-- Whenever the step succeeds, it has read a text for which its value is right. -/
def Reads (d : Dialect) (p : Progress) (text : List Char) (step : PatternM α)
    (R : α → List Char → List String → Prop) : Prop :=
  ∀ a q, step d p = .ok a q → ∃ t rest names, text = t ++ rest ∧ R a t names ∧ Past p t names q

/-- Wherever the step stands, it matches nothing or a text of the language. -/
def Matches (d : Dialect) (step : PatternM Bool) (L : List Char → List String → Prop) : Prop :=
  ∀ p text, d.TextAt p.pos text → Reads d p text step fun matched t names =>
    matched = true ∧ L t names ∨ matched = false ∧ t = [] ∧ names = []

namespace Reads

variable {m : PatternM α} {f : α → PatternM β} {R R' : α → List Char → List String → Prop}
    {Q : β → List Char → List String → Prop}

theorem pure {a : α} (done : R a [] []) : Reads d p text (pure a) R := by
  rintro _ _ ⟨⟩
  exact ⟨[], text, [], rfl, done, .refl⟩

theorem throw {fault : Fault} : Reads d p text (throw fault : PatternM α) R := fun _ _ run => by cases run

theorem throwing {fault : Fault} : Reads d p text (MonadExcept.throw fault >>= f) Q := fun _ _ run => by cases run

/-- Counting groups is not seen. -/
theorem counting {a : α} {g : Progress → Nat} (done : R a [] []) :
    Reads d p text (do modify fun p => { p with groups := g p }; return a) R := by
  rintro _ _ ⟨⟩
  exact ⟨[], text, [], rfl, done, .count⟩

theorem weaken (reads : Reads d p text m R) (after : ∀ a t names, R a t names → R' a t names) :
    Reads d p text m R' := by
  intro a q run
  obtain ⟨t, rest, names, split, done, past⟩ := reads a q run
  exact ⟨t, rest, names, split, after a t names done, past⟩

theorem bind (at' : d.TextAt p.pos text) (first : Reads d p text m R)
    (next : ∀ a t rest names q, text = t ++ rest → R a t names → Past p t names q → d.TextAt q.pos rest →
      Reads d q rest (f a) fun b u more => Q b (t ++ u) (names ++ more)) :
    Reads d p text (m >>= f) Q := by
  intro b r run
  obtain ⟨a, q, run, run'⟩ := bind_eq_ok.1 run
  obtain ⟨t, rest, names, rfl, done, past⟩ := first a q run
  obtain ⟨u, rest', more, rfl, done', past'⟩ := next a t rest names q rfl done past (past.textAt at') b r run'
  exact ⟨t ++ u, rest', names ++ more, (List.append_assoc ..).symm, done', past.trans past'⟩

theorem read {f : Dialect → PatternM β} (next : Reads d p text (f d) Q) : Reads d p text (read >>= f) Q := next

/-- What the step does past the text that it begins with. -/
theorem onward {n : PatternM α} (same : m d p = n d (p.skip t))
    (next : Reads d (p.skip t) rest n fun a u more => R a (t ++ u) more)
    (split : text = t ++ rest) : Reads d p text m R := by
  intro a q run
  rw [same] at run
  obtain ⟨u, rest', more, rfl, done, past⟩ := next a q run
  exact ⟨t ++ u, rest', more, by rw [split, List.append_assoc], done, Past.skip.trans past⟩

theorem known {a : α} (run : m d p = .ok a (p.skip t)) (next : Reads d (p.skip t) rest (f a) fun b u more => Q b
    (t ++ u) more)
    (split : text = t ++ rest) : Reads d p text (m >>= f) Q := onward (run_bind run) next split

theorem stay {a : α} (run : m d p = .ok a p) (next : Reads d p text (f a) Q) : Reads d p text (m >>= f) Q :=
  fun b r run' => next b r (by rwa [run_bind run] at run')

theorem ite {c : Prop} [Decidable c] {x y : PatternM α} (yes : c → Reads d p text x R) (no : ¬ c → Reads d p text y R) :
    Reads d p text (if c then x else y) R := by
  split
  · exact yes ‹_›
  · exact no ‹_›

end Reads

namespace Matches

variable {step : PatternM Bool} {steps : List (PatternM Bool)} {L L' : List Char → List String → Prop}

theorem mono (h : Matches d step L) (weaker : ∀ t names, L t names → L' t names) : Matches d step L' :=
  fun p text at' => (h p text at').weaken fun _ t names done => done.imp (.imp_right (weaker t names)) id

theorem none (h : ∀ p text, d.TextAt p.pos text → step d p = .ok false p) : Matches d step L := by
  intro p text at' a q run
  rw [h p text at'] at run
  cases run
  exact ⟨[], text, [], rfl, .inr ⟨rfl, rfl, rfl⟩, .refl⟩

theorem nil : Matches d (anyMatch []) L := fun _ _ _ => .pure (.inr ⟨rfl, rfl, rfl⟩)

theorem cons (first : Matches d step L) (others : Matches d (anyMatch steps) L) : Matches d
    (anyMatch (step :: steps)) L := by
  intro p text at'
  refine .bind at' (first p text at') fun a t rest names q _ done _ at'' => ?_
  obtain ⟨rfl, found⟩ | ⟨rfl, rfl, rfl⟩ := done
  · exact .pure (.inl ⟨rfl, by simpa using found⟩)
  · simpa using others q rest at''

end Matches

variable (core : d.IsCore)
include core

theorem Matches.eat : Matches d (eat c) fun t names => t = [c] ∧ names = [] := by
  intro p text at' a q run
  by_cases head : text.head? = some c
  · obtain ⟨rest, rfl⟩ := List.head?_eq_some_iff.1 head
    rw [eat_text core.whole at'] at run
    cases run
    exact ⟨[c], rest, [], rfl, .inl ⟨rfl, rfl, rfl⟩, .skip⟩
  · rw [at'.eat_other head] at run
    cases run
    exact ⟨[], text, [], rfl, .inr ⟨rfl, rfl, rfl⟩, .refl⟩

theorem Reads.eat {x y : PatternM β} {Q : β → List Char → List String → Prop} (at' : d.TextAt p.pos text)
    (yes : ∀ rest, text = c :: rest → d.TextAt (p.skip [c]).pos rest →
      Reads d (p.skip [c]) rest x fun b t names => Q b (c :: t) names)
    (no : text.head? ≠ some c → Reads d p text y Q) : Reads d p text (do if ← eat c then x else y) Q := by
  by_cases head : text.head? = some c
  · obtain ⟨rest, rfl⟩ := List.head?_eq_some_iff.1 head
    exact .known (eat_text core.whole at') (yes rest rfl (at'.past (t := [c]))) rfl
  · exact .stay (at'.eat_other head) (no head)

/-- Before the sixteenth edition no alternatives are told apart. -/
theorem branch_run : openBranch d p = .ok () p ∧ nextBranch d p = .ok () p ∧ closeBranch d p = .ok () p := by
  have early := core.notTracked
  refine ⟨?_, ?_, ?_⟩
  · unfold openBranch
    rw [run_bind read_run, early]
    rfl
  · unfold nextBranch
    rw [run_bind read_run, early]
    rfl
  · unfold closeBranch
    rw [run_bind read_run, early]
    rfl

/-! ### Quantifiers -/

/-- A character is eaten or it is not. -/
theorem eat_skips (at' : d.TextAt (p.skip t).pos text) : ∃ matched u rest, eat c d (p.skip t) = .ok matched (p.skip u) ∧
    d.TextAt (p.skip u).pos rest ∧ (matched = false → u = t) := by
  by_cases head : text.head? = some c
  · obtain ⟨rest, rfl⟩ := List.head?_eq_some_iff.1 head
    exact ⟨true, t ++ [c], rest, by rw [eat_text core.whole at', Progress.skip_skip], Progress.skip_skip ▸ at'.past
      (t := [c]), nofun⟩
  · exact ⟨false, t, text, at'.eat_other head, at', fun _ => rfl⟩

omit core in
theorem eatDecimal_skips (at' : d.TextAt (p.skip t).pos text) :
    ∃ n u rest, eatDecimal d (p.skip t) = .ok n (p.skip u) ∧ d.TextAt (p.skip u).pos rest := by
  have whole := List.takeWhile_append_dropWhile (p := Alphabet.isDecimalDigit) (l := text)
  have ate := eatDecimal_text at'
  have past : d.TextAt ((p.skip t).skip (text.takeWhile Alphabet.isDecimalDigit)).pos _ := (whole.symm ▸ at').past
  rw [Progress.skip_skip] at ate past
  exact ⟨_, _, _, ate, past⟩

/-- Where bounds in braces are not read, the cursor goes back. -/
theorem bracedQuantifier_stays {lenient : Bool} (at' : d.TextAt p.pos text)
    (run : bracedQuantifier lenient d p = .ok false q) : q = p := by
  have gives_up {t : List Char} (run : (do
      if (← read).unicode && !lenient then throw .incompleteQuantifier
      moveTo p.pos
      return false : PatternM Bool) d (p.skip t) = .ok false q) : q = p := by
    rw [run_bind read_run] at run
    split at run
    · cases run
    · cases run
      rfl
  have closes {t rest : List Char} {unordered : Bool} (at' : d.TextAt (p.skip t).pos rest) (run : (do
      if ← eat '}' then
        if unordered && !lenient then throw .quantifierOutOfOrder
        return true
      if (← read).unicode && !lenient then throw .incompleteQuantifier
      moveTo p.pos
      return false : PatternM Bool) d (p.skip t) = .ok false q) : q = p := by
    obtain ⟨closed, u, _, ate, -, -⟩ := eat_skips (c := '}') core at'
    rw [run_bind ate] at run
    cases closed with
    | true =>
      rw [if_pos rfl] at run
      split at run <;> cases run
    | false => exact gives_up run
  obtain ⟨opened, t, _, ate, at1, missed⟩ := eat_skips (p := p) (t := []) (c := '{') core at'
  unfold bracedQuantifier at run
  rw [run_bind position_run, run_bind (p := p) ate] at run
  cases opened with
  | false =>
    obtain rfl := missed rfl
    cases run
    rfl
  | true =>
    obtain ⟨low, t, _, ate, at2⟩ := eatDecimal_skips at1
    rw [if_pos rfl, run_bind ate] at run
    cases low with
    | none => exact gives_up run
    | some low =>
      obtain ⟨comma, t, _, ate, at3, -⟩ := eat_skips (c := ',') core at2
      change (eat ',' >>= _) d _ = _ at run
      rw [run_bind ate] at run
      cases comma with
      | false => exact closes at3 run
      | true =>
        obtain ⟨high, t, _, ate, at4⟩ := eatDecimal_skips at3
        rw [if_pos rfl, run_bind ate] at run
        exact closes at4 run

theorem eat_stays (at' : d.TextAt p.pos text) (run : eat c d p = .ok false q) : q = p := by
  obtain ⟨matched, t, -, ate, -, missed⟩ := eat_skips (p := p) (t := []) (c := c) core at'
  cases ate.symm.trans run
  rw [missed rfl, Progress.skip_nil]

omit core in
theorem anyMatch_stays {steps : List (PatternM Bool)}
    (stay : ∀ step ∈ steps, ∀ q, step d p = .ok false q → q = p) (run : anyMatch steps d p = .ok false q) : q = p := by
  induction steps with
  | nil =>
    cases run
    rfl
  | cons step steps ih =>
    obtain ⟨matched, r, first, rest⟩ := bind_eq_ok.1 run
    cases matched with
    | true => cases rest
    | false =>
      obtain rfl := stay step (.head _) r first
      exact ih (fun step mem => stay step (.tail _ mem)) rest

theorem quantifier_stays {lenient : Bool} (at' : d.TextAt p.pos text) (run : quantifier lenient d p = .ok false q) :
    q = p := by
  obtain ⟨matched, r, signs, rest⟩ := bind_eq_ok.1 run
  cases matched with
  | true =>
    rw [if_pos rfl] at rest
    obtain ⟨_, _, _, rest⟩ := bind_eq_ok.1 rest
    cases rest
  | false =>
    cases rest
    refine anyMatch_stays (fun step mem q => ?_) signs
    simp only [List.mem_cons, List.not_mem_nil, or_false] at mem
    rcases mem with rfl | rfl | rfl | rfl
    · exact eat_stays core at'
    · exact eat_stays core at'
    · exact eat_stays core at'
    · exact bracedQuantifier_stays core at'

open RegExp.Core

omit core in
theorem number_reads (at' : d.TextAt p.pos text) : Reads d p text eatDecimal fun n t names => names = [] ∧
    (n = none ∧ t = [] ∨ n = some (min (numberIn t) maxNumber) ∧ IsNumber t) := by
  intro n q run
  rw [eatDecimal_text at'] at run
  cases run
  refine ⟨_, _, [], (List.takeWhile_append_dropWhile (p := Alphabet.isDecimalDigit)).symm, ⟨rfl, ?_⟩, .skip⟩
  split
  · exact .inl ⟨rfl, ‹_›⟩
  · exact .inr ⟨rfl, ‹_›, List.all_eq_true.1 List.all_takeWhile⟩

theorem bracedQuantifier_matches :
    Matches d (bracedQuantifier false) fun t names => Quantifier InOrder t ∧ names = [] := by
  intro p text at'
  have incomplete {q : Progress} {text : List Char} {x : PatternM Bool} {Q : Bool → List Char → List String → Prop} :
      Reads d q text (do
        if (← read).unicode && !false then throw .incompleteQuantifier
        x) Q :=
    .read (.ite (fun _ => .throwing) fun lenient => absurd core.unicode (by simpa using lenient))
  -- The brace that closes the bounds, once they are known.
  have closes {q : Progress} {text : List Char} {x : PatternM Bool} {low : Nat} {high : Option Nat}
      {Q : Bool → List Char → List String → Prop} (at' : d.TextAt q.pos text)
        (done : high.any (· < low) = false → Q true ['}'] []) :
      Reads d q text (do
        if ← eat '}' then
          if high.any (· < low) && !false then throw .quantifierOutOfOrder
          return true
        if (← read).unicode && !false then throw .incompleteQuantifier
        x) Q :=
    .eat core at' (fun _ _ _ => .ite (fun _ => .throwing) fun inOrder => .pure (done (by simpa using inOrder)))
      fun _ => incomplete
  refine .stay position_run (.eat core at' (fun rest _ at'' => ?_) fun _ => .pure (.inr ⟨rfl, rfl, rfl⟩))
  refine .bind at'' (number_reads at'') fun low t _ _ q _ number past at3 => ?_
  obtain ⟨rfl, ⟨rfl, rfl⟩ | ⟨rfl, low⟩⟩ := number
  · exact incomplete
  refine .eat core at3 (fun _ _ at4 => .bind at4 (number_reads at4) fun high t' _ _ r _ number' _ at5 => ?_)
    fun _ => .stay rfl (closes at3 fun _ => .inl ⟨rfl, ⟨.exactly low nofun, rfl⟩⟩)
  obtain ⟨rfl, ⟨rfl, rfl⟩ | ⟨rfl, high⟩⟩ := number'
  · exact closes at5 fun _ => .inl ⟨rfl, ⟨.atLeast low nofun, rfl⟩⟩
  · refine closes at5 fun inOrder => .inl ⟨rfl, ⟨.between low high ?_, rfl⟩⟩
    rintro _ ⟨⟩
    exact Nat.not_lt.1 (of_decide_eq_false inOrder)

theorem quantifier_matches : Matches d (quantifier false) fun t names => Repetition InOrder t ∧ names = [] := by
  have signs : Matches d (anyMatch [eat '*', eat '+', eat '?', bracedQuantifier false])
      fun t names => Quantifier InOrder t ∧ names = [] :=
    .cons ((Matches.eat core).mono fun _ _ sign => ⟨sign.1 ▸ .star, sign.2⟩) <|
    .cons ((Matches.eat core).mono fun _ _ sign => ⟨sign.1 ▸ .plus, sign.2⟩) <|
    .cons ((Matches.eat core).mono fun _ _ sign => ⟨sign.1 ▸ .optional, sign.2⟩) <|
    .cons (bracedQuantifier_matches core) .nil
  intro p text at'
  refine .bind at' (signs p text at') fun sign t _ _ q _ done _ at'' => ?_
  obtain ⟨rfl, quantifier, rfl⟩ | ⟨rfl, rfl, rfl⟩ := done
  · refine .bind at'' (Matches.eat core q _ at'') fun lazy u _ _ r _ done _ _ => .pure (.inl ⟨rfl, ?_⟩)
    obtain ⟨-, rfl, rfl⟩ | ⟨-, rfl, rfl⟩ := done
    · exact ⟨.lazy quantifier, rfl⟩
    · exact ⟨by simpa using .greedy quantifier, rfl⟩
  · exact .pure (.inr ⟨rfl, rfl, rfl⟩)

/-! ### Groups -/

/-- A step inside a group that reads nothing but a text of the language. -/
def ReadsAll (d : Dialect) (inner : PatternM Unit) (L : List Char → List String → Prop) : Prop :=
  ∀ p text, d.TextAt p.pos text → Reads d p text inner fun _ => L

variable {inner : PatternM Unit} {L : List Char → List String → Prop} (within : ReadsAll d inner L)
include within

theorem closedDisjunction_reads (at' : d.TextAt p.pos text) :
    Reads d p text (closedDisjunction inner) fun _ t names => ∃ u, t = u ++ [')'] ∧ L u names := by
  refine .bind at' (within p text at') fun _ u _ _ q _ contents _ at'' => ?_
  refine .eat core at'' (fun _ _ _ => .pure ⟨u, rfl, by simpa using contents⟩) fun _ => .throw

omit within in
theorem groupName_reads (at' : d.TextAt p.pos text) : Reads d p text groupName fun found t names =>
    names = [] ∧ (found = none ∧ t = [] ∨ ∃ name, IsName name ∧ found = some (String.ofList name) ∧ t = '<' ::
      (name ++ ['>'])) := by
  refine .eat core at' (fun rest _ at'' => ?_) fun _ => .pure ⟨rfl, .inl ⟨rfl, rfl⟩⟩
  cases rest with
  | nil => exact .stay (identifierName_other core at'' (by simp)) .throw
  | cons c rest =>
    cases first : belongsToName true c with
    | false => exact .stay (identifierName_other core at'' (by simpa using first)) .throw
    | true =>
      have whole : c :: rest = (c :: rest.takeWhile (belongsToName false)) ++ rest.dropWhile (belongsToName false) := by
        rw [List.cons_append, List.takeWhile_append_dropWhile]
      have isName : IsName (c :: rest.takeWhile (belongsToName false)) :=
        .mk first (List.all_eq_true.1 List.all_takeWhile)
      refine .known (identifierName_text core at'' first) ?_ whole
      exact .eat core (whole ▸ at'').past (fun _ _ _ => .pure ⟨rfl, .inr ⟨_, isName, rfl, by simp⟩⟩) fun _ => .throw

theorem uncapturingGroup_matches : Matches d (uncapturingGroup inner) (Atom L) := by
  intro p text at'
  by_cases opens : ['(', '?', ':'] <+: text
  · obtain ⟨rest, rfl⟩ := opens
    have at'' : d.TextAt (p.skip ['(', '?', ':']).pos rest := at'.past
    refine .onward (uncapturingGroup_text core at') (.bind at'' (closedDisjunction_reads core within at'') ?_) rfl
    rintro _ _ _ names q - ⟨u, rfl, contents⟩ - -
    exact .pure (.inl ⟨rfl, by simpa using .uncaptured contents⟩)
  · intro a q run
    rw [uncapturingGroup_other core at' opens] at run
    cases run
    exact ⟨[], text, [], rfl, .inr ⟨rfl, rfl, rfl⟩, .refl⟩

omit within in
/-- A name is refused where it is known already. -/
theorem refuses_iff {name : String} : p.refuses d name = true ↔ name ∈ p.labels := by
  simp [Progress.refuses, Progress.labels, core.notTracked]

omit within in
theorem declareGroup_reads {name : String} : Reads d p text (declareGroup name) fun _ t names => t = [] ∧
    names = [name] := by
  intro a q run
  unfold declareGroup at run
  rw [run_bind get_run, run_bind read_run] at run
  cases refused : p.refuses d name with
  | true =>
    rw [refused] at run
    cases run
  | false =>
    rw [refused] at run
    cases run
    have new : name ∉ p.labels := fun known => by simp [(refuses_iff core).2 known] at refused
    exact ⟨[], text, [name], rfl, ⟨rfl, rfl⟩, .declare new⟩

omit within in
theorem groupSpecifier_reads (at' : d.TextAt p.pos text) : Reads d p text groupSpecifier fun _ t names =>
    t = [] ∧ names = [] ∨ ∃ name, IsName name ∧ t = '?' :: '<' :: (name ++ ['>']) ∧ names = [String.ofList name] := by
  refine .eat core at' (fun rest _ at'' => .bind at'' (groupName_reads core at'') ?_) fun _ => .pure (.inl ⟨rfl, rfl⟩)
  rintro found t _ _ q - ⟨rfl, ⟨rfl, rfl⟩ | ⟨name, isName, rfl, rfl⟩⟩ - -
  · exact .throw
  · exact (declareGroup_reads core).weaken fun _ _ _ => by rintro ⟨rfl, rfl⟩; exact .inr ⟨name, isName, by simp, rfl⟩

theorem capturingGroup_matches : Matches d (capturingGroup inner) (Atom L) := by
  intro p text at'
  refine .eat core at' (fun rest _ at'' => .read (.ite (fun _ => ?_) fun early => absurd core.late early))
    fun _ => .pure (.inr ⟨rfl, rfl, rfl⟩)
  refine .bind at'' (groupSpecifier_reads core at'') fun _ t rest' names q _ specified _ at3 => ?_
  refine .bind at3 (closedDisjunction_reads core within at3) ?_
  rintro _ _ _ more r - ⟨u, rfl, contents⟩ - -
  refine .counting (.inl ⟨rfl, ?_⟩)
  obtain ⟨rfl, rfl⟩ | ⟨name, isName, rfl, rfl⟩ := specified
  · simpa using .group contents
  · simpa using .named isName contents

theorem assertion_reads (at' : d.TextAt p.pos text) : Reads d p text (assertion inner) fun found t names =>
    found = none ∧ t = [] ∧ names = [] ∨ found.isSome = true ∧ Term InOrder L t names := by
  by_cases sign : ∃ c ∈ ['^', '$'], text.head? = some c
  · obtain ⟨c, mem, head⟩ := sign
    obtain ⟨rest, rfl⟩ := List.head?_eq_some_iff.1 head
    intro a q run
    rw [assertion_sign core mem at'] at run
    cases run
    refine ⟨[c], rest, [], rfl, .inr ⟨rfl, ?_⟩, .skip⟩
    simp only [List.mem_cons, List.not_mem_nil, or_false] at mem
    rcases mem with rfl | rfl
    · exact .start
    · exact .stop
  by_cases look : ∃ opening ∈ looks, opening <+: text
  · obtain ⟨opening, opens, rest, rfl⟩ := look
    have at'' : d.TextAt (p.skip opening).pos rest := at'.past
    refine .onward (assertion_look core opens at') (.bind at'' (closedDisjunction_reads core within at'') ?_) rfl
    rintro _ _ _ names q - ⟨u, rfl, contents⟩ - -
    exact .pure (.inr ⟨rfl, by simpa using .look opens contents⟩)
  · intro a q run
    rw [assertion_other core at' (fun c mem head => sign ⟨c, mem, head⟩) fun opening mem opens => look
      ⟨opening, mem, opens⟩] at run
    cases run
    exact ⟨[], text, [], rfl, .inl ⟨rfl, rfl, rfl⟩, .refl⟩

/-! ### Terms -/

/-- Atoms are read one by one, but characters that stand for themselves as long as there are any. -/
theorem strictAtom_matches {depth : Nat} : Matches d (strictAtom inner depth) fun t names =>
    Atom L t names ∨ t ≠ [] ∧ (∀ c ∈ t, isOrdinary c = true) ∧ names = [] := by
  refine .cons (fun p text at' => ?_) <|
    .cons ((Matches.eat core).mono fun _ _ dot => .inl ?_) <|
    .cons (.none fun p text at' => escapedAtom_missed (at'.other core (by simp))) <|
    .cons (.none fun p text at' => characterClass_missed (at'.other core (by simp))) <|
    .cons ((uncapturingGroup_matches core within).mono fun _ _ => .inl) <|
    .cons ((capturingGroup_matches core within).mono fun _ _ => .inl) .nil
  · intro a q run
    rw [run_bind (eatRun_text (tells_of_unicode core.unicode _) at')] at run
    cases run
    refine ⟨_, _, [], (List.takeWhile_append_dropWhile (p := fun c => !isSyntaxCharacter c.toNat)).symm, ?_, .skip⟩
    have ordinary : ∀ c ∈ text.takeWhile fun c => !isSyntaxCharacter c.toNat, isOrdinary c = true := by
      intro c mem
      have plain : (!isSyntaxCharacter c.toNat) = true := List.all_eq_true.1 List.all_takeWhile c mem
      cases special : isOrdinary c with
      | true => rfl
      | false =>
        rw [isSyntaxCharacter_iff.2 (.inl special)] at plain
        cases plain
    cases found : text.takeWhile fun c => !isSyntaxCharacter c.toNat with
    | nil => exact .inr ⟨rfl, rfl, rfl⟩
    | cons c w => exact .inl ⟨rfl, .inr ⟨List.cons_ne_nil c w, found ▸ ordinary, rfl⟩⟩
  · obtain ⟨rfl, rfl⟩ := dot
    exact .any

theorem term_matches {depth : Nat} : Matches d (term inner depth) (Alternative InOrder L) := by
  intro p text at'
  refine .read (.bind at' (assertion_reads core within at') fun found t rest names q _ asserted _ at'' => ?_)
  obtain ⟨rfl, rfl, rfl⟩ | ⟨some', asserted⟩ := asserted
  · simp only [core.unicode, if_true]
    refine .bind at'' (strictAtom_matches core within q rest at'') fun matched t _ names r _ atom _ at3 => ?_
    obtain ⟨rfl, atom⟩ | ⟨rfl, rfl, rfl⟩ := atom
    · refine .bind at3 (quantifier_matches core r _ at3) fun _ u _ _ _ _ quantified _ _ => .pure (.inl ⟨rfl, ?_⟩)
      obtain ⟨-, repetition, rfl⟩ | ⟨-, rfl, rfl⟩ := quantified
      · obtain atom | ⟨nonempty, ordinary, rfl⟩ := atom
        · simpa using .single (.repeated atom repetition)
        · simpa using .word_repeated nonempty ordinary repetition
      · obtain atom | ⟨-, ordinary, rfl⟩ := atom
        · simpa using .single (.once atom)
        · simpa using .word ordinary
    · exact .pure (.inr ⟨rfl, rfl, rfl⟩)
  · obtain ⟨quantifiable, rfl⟩ := Option.isSome_iff_exists.1 some'
    have done : Alternative InOrder L (t ++ []) (names ++ []) := by simpa using .single asserted
    refine .ite (fun _ => ?_) fun _ => .pure (.inl ⟨rfl, done⟩)
    refine .bind at'' (quantifier_matches core q rest at'') fun _ u _ _ _ _ quantified _ _ => ?_
    obtain ⟨rfl, -⟩ | ⟨rfl, rfl, rfl⟩ := quantified
    · simp only [core.unicode, if_true]
      exact .throwing
    · exact .pure (.inl ⟨rfl, done⟩)

theorem alternative_reads {depth : Nat} (at' : d.TextAt p.pos text) :
    Reads d p text (alternative inner depth) fun _ => Alternative InOrder L := by
  suffices all : ∀ fuel p text, d.TextAt p.pos text →
      Reads d p text (whileMatch (term inner depth) fuel) fun _ => Alternative InOrder L from .read (all _ p text at')
  intro fuel
  induction fuel with
  | zero => exact fun _ _ _ => .pure .nil
  | succ fuel ih =>
    intro p text at'
    refine .bind at' (term_matches core within p text at') fun _ t rest names q _ found _ at'' => ?_
    obtain ⟨rfl, found⟩ | ⟨rfl, rfl, rfl⟩ := found
    · exact (ih q rest at'').weaken fun _ _ _ later => .append found later
    · exact .pure .nil

theorem alternatives_reads {depth fuel : Nat} (at' : d.TextAt p.pos text) {t : List Char} {names : List String}
    (first : Alternative InOrder L t names) :
    Reads d p text (alternatives inner depth fuel) fun _ u more => Disjunction InOrder L (t ++ u) (names ++ more) := by
  induction fuel generalizing p text t names with
  | zero => exact .pure (by simpa using .last first)
  | succ fuel ih =>
    refine .eat core at' (fun rest _ at'' => .stay (branch_run core).2.1 ?_) fun _ => .pure (by simpa using .last first)
    refine .bind at'' (alternative_reads core within at'') fun _ t' _ names' _ _ second _ at3 => ?_
    exact (ih at3 second).weaken fun _ _ _ later => by simpa using .or first later

/-! ### Disjunctions -/

omit within in
/-- Past the alternatives nothing is read. -/
theorem rejects_reads (at' : d.TextAt p.pos text) : Reads d p text (do
    if ← quantifier true then throw .nothingToRepeat
    if ← eat '{' then throw .loneQuantifierBrackets) fun _ t names => t = [] ∧ names = [] := by
  intro a r run
  obtain ⟨matched, q, quantified, rest⟩ := bind_eq_ok.1 run
  cases matched with
  | true => cases rest
  | false =>
    obtain rfl := quantifier_stays core at' quantified
    have open' : Reads d q text (do if ← eat '{' then throw .loneQuantifierBrackets) fun _ t names =>
      t = [] ∧ names = [] :=
      .eat core at' (fun _ _ _ => .throw) fun _ => .pure ⟨rfl, rfl⟩
    exact open' a r rest

omit within in
theorem disjunction_reads (depth : Nat) : ReadsAll d (disjunction depth) (Nested InOrder depth) := by
  induction depth with
  | zero => exact fun _ _ _ => .throw
  | succ depth ih =>
    intro p text at'
    refine .stay (branch_run core).1 (.bind at' (alternative_reads core ih at') ?_)
    refine fun _ t rest names q _ first _ at'' => .read ?_
    refine .bind at'' (alternatives_reads core ih at'' first) fun _ u _ more r _ all _ at3 =>
      .stay (branch_run core).2.2 ?_
    refine (rejects_reads core at3).weaken fun _ t' names' none => ?_
    obtain ⟨rfl, rfl⟩ := none
    rw [List.append_nil, List.append_nil]
    exact all

end RegExp
end ScriptSyntax
