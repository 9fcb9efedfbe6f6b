import ScriptSyntax.Proofs.RegExp.Text
import ScriptSyntax.Proofs.RegExp.Whole

/-!
Patterns of unicode mode that have neither escapes nor classes, as texts: the names in them, and what their groups
begin with.
-/

namespace ScriptSyntax
namespace RegExp

variable {α β : Type} {d : Dialect} {p q r : Progress} {i : Nat} {c : Char} {text t u rest : List Char}

/-- The pattern is read in unicode mode, knows named groups and keeps their names apart, and has neither escapes nor
classes. -/
structure Dialect.IsCore (d : Dialect) : Prop where
  unicode : d.unicode = true
  late : 9 ≤ d.edition
  early : d.edition ≤ 15
  plain : ∀ c ∈ ['\\', '['], c.toNat ∉ d.units.toList

variable (core : d.IsCore)
include core

theorem Dialect.IsCore.whole : d.Whole c := .inl core.unicode

theorem Dialect.IsCore.notTracked : d.tracksBranches = false :=
  decide_eq_false (Nat.not_le.2 (Nat.lt_succ_of_le core.early))

namespace Dialect.TextAt

variable (at' : d.TextAt p.pos text)
include at'

/-- The characters of the text are no backslashes and no brackets. -/
theorem plain (mem : c ∈ text) : c ≠ '\\' ∧ c ≠ '[' := by
  obtain ⟨before, units, -⟩ := at'
  have inside (small : c.toNat < 0x10000) : c.toNat ∈ d.units.toList := by
    obtain ⟨t, u, rfl⟩ := List.append_of_mem mem
    rw [units, codeUnits_append, codeUnits_cons, codeUnits_narrow small]
    simp
  exact ⟨fun same => core.plain '\\' (by decide) (same ▸ inside (same ▸ by decide)),
    fun same => core.plain '[' (by decide) (same ▸ inside (same ▸ by decide))⟩

/-- Neither an escape nor a class begins anywhere. -/
theorem other (mem : c ∈ ['\\', '[']) : d.at? d.unicode p.pos ≠ some c.toNat := by
  refine at'.ne fun head => ?_
  have inside := at'.plain core (List.mem_of_mem_head? head)
  simp only [List.mem_cons, List.not_mem_nil, or_false] at mem
  exact mem.elim inside.1 inside.2

end Dialect.TextAt

/-! ### Names -/

section

variable {atStart joined : Bool}

theorem nameCode_text (at' : d.TextAt p.pos (c :: rest)) : nameCode joined d p = .ok (some c.toNat) (p.skip [c]) := by
  have plain : (some c.toNat == some '\\'.toNat) = false := by
    refine beq_eq_false_iff_ne.2 fun same => ?_
    exact (at'.plain core (.head _)).1 (Char.toNat_inj.1 (Option.some.inj same))
  have peeked : peekJoined joined d p = .ok (some c.toNat) p := by
    show EStateM.Result.ok (d.at? (joined || d.unicode) p.pos) p = _
    rw [core.unicode, Bool.or_true, at'.at?_cons]
  have moved : advanceJoined joined d p = .ok () (p.skip [c]) := by
    show EStateM.Result.ok () { p with pos := d.next (joined || d.unicode) p.pos } = _
    rw [core.unicode, Bool.or_true, at'.next]
    rfl
  unfold nameCode
  rw [run_bind peeked, run_bind moved, plain]
  rfl

theorem nameCode_end (at' : d.TextAt p.pos []) : nameCode joined d p = .ok none p := by
  have peeked : peekJoined joined d p = .ok none p := by
    show EStateM.Result.ok (d.at? (joined || d.unicode) p.pos) p = _
    rw [core.unicode, Bool.or_true, at'.at?_nil]
  have moved : advanceJoined joined d p = .ok () p := by
    show EStateM.Result.ok () { p with pos := d.next (joined || d.unicode) p.pos } = _
    rw [core.unicode, Bool.or_true, at'.next_nil]
  unfold nameCode
  rw [run_bind peeked, run_bind moved]
  rfl

theorem nameCharacter_text (at' : d.TextAt p.pos (c :: rest)) (belongs : belongsToName atStart c = true) :
    nameCharacter atStart d p = .ok (some c) (p.skip [c]) := by
  show ((nameCode _ >>= _) >>= _) d p = _
  rw [bind_assoc, run_bind (nameCode_text core at')]
  simp [scalar?_toNat, Option.filter, belongs]
  rfl

theorem nameCharacter_other (at' : d.TextAt p.pos text) (other : ∀ c ∈ text.head?, belongsToName atStart c = false) :
    nameCharacter atStart d p = .ok none p := by
  cases text with
  | nil =>
    refine orRewind_missed (q := p) ?_
    rw [run_bind read_run, run_bind (nameCode_end core at')]
    rfl
  | cons c text =>
    refine orRewind_missed (q := p.skip [c]) ?_
    rw [run_bind read_run, run_bind (nameCode_text core at')]
    simp [scalar?_toNat, Option.filter, other c rfl]
    rfl

theorem nameRest_text {fuel : Nat} (at' : d.TextAt p.pos text) (enough : text.length < fuel) :
    nameRest fuel d p = .ok (text.takeWhile (belongsToName false)) (p.skip (text.takeWhile (belongsToName false))) := by
  induction fuel generalizing p text with
  | zero => exact absurd enough (Nat.not_lt_zero _)
  | succ fuel ih =>
    unfold nameRest
    cases text with
    | nil =>
      rw [run_bind (nameCharacter_other core at' (by simp))]
      rfl
    | cons c text =>
      rw [List.takeWhile_cons]
      cases belongs : belongsToName false c with
      | false =>
        rw [run_bind (nameCharacter_other core at' (by simpa using belongs))]
        rfl
      | true =>
        have later : d.TextAt (p.skip [c]).pos text := at'.past (t := [c])
        rw [run_bind (nameCharacter_text core at' belongs)]
        show (nameRest fuel >>= _) d (p.skip [c]) = _
        rw [run_bind (ih later (Nat.lt_of_succ_lt_succ enough)), Progress.skip_skip]
        rfl

end

/-- A name goes as far as its characters go. -/
theorem identifierName_text (at' : d.TextAt p.pos (c :: rest)) (belongs : belongsToName true c = true) :
    identifierName d p = .ok (some (String.ofList (c :: rest.takeWhile (belongsToName false))))
      (p.skip (c :: rest.takeWhile (belongsToName false))) := by
  have later : d.TextAt (p.skip [c]).pos rest := at'.past (t := [c])
  unfold identifierName
  rw [run_bind (nameCharacter_text core at' belongs)]
  show ((read : PatternM Dialect) >>= _) d (p.skip [c]) = _
  rw [run_bind read_run, run_bind (nameRest_text core later (Nat.lt_of_lt_of_le later.length_lt (Nat.sub_le ..))),
    Progress.skip_skip]
  rfl

theorem identifierName_other (at' : d.TextAt p.pos text) (other : ∀ c ∈ text.head?, belongsToName true c = false) :
    identifierName d p = .ok none p := by
  unfold identifierName
  rw [run_bind (nameCharacter_other core at' other)]
  rfl

/-! ### What groups begin with -/

variable {inner : PatternM Unit}

/-- Groups have no modifiers yet. -/
theorem uncapturingHead_early (at' : d.TextAt p.pos ('(' :: '?' :: rest)) :
    uncapturingHead d p = eat ':' d ((p.skip ['(']).skip ['?']) := by
  have second : d.TextAt (p.skip ['(']).pos ('?' :: rest) := at'.past (t := ['('])
  have early : ¬ 16 ≤ d.edition := Nat.not_le.2 (Nat.lt_succ_of_le core.early)
  unfold uncapturingHead
  rw [run_bind (eat_text core.whole at'), if_pos rfl, run_bind (eat_text core.whole second), if_pos rfl,
    run_bind read_run]
  show (if 16 ≤ d.edition then _ else _ : PatternM Bool) d _ = _
  rw [if_neg early]

theorem uncapturingGroup_text (at' : d.TextAt p.pos ('(' :: '?' :: ':' :: rest)) :
    uncapturingGroup inner d p = (do closedDisjunction inner; return true : PatternM Bool) d
      (p.skip ['(', '?', ':']) := by
  have third : d.TextAt ((p.skip ['(']).skip ['?']).pos (':' :: rest) := (at'.past (t := ['('])).past (t := ['?'])
  have head : uncapturingHead d p = .ok true (p.skip ['(', '?', ':']) := by
    rw [uncapturingHead_early core at', eat_text core.whole third, Progress.skip_skip, Progress.skip_skip]
    rfl
  rw [uncapturingGroup_eq, run_bind position_run, run_bind head]
  rfl

theorem uncapturingGroup_other (at' : d.TextAt p.pos text) (other : ¬ ['(', '?', ':'] <+: text) :
    uncapturingGroup inner d p = .ok false p := by
  -- The cursor may have moved, but goes back.
  suffices head : ∃ t, uncapturingHead d p = .ok false (p.skip t) by
    obtain ⟨t, head⟩ := head
    rw [uncapturingGroup_eq, run_bind position_run, run_bind head]
    rfl
  by_cases left : text.head? = some '('
  · obtain ⟨text, rfl⟩ := List.head?_eq_some_iff.1 left
    have second : d.TextAt (p.skip ['(']).pos text := at'.past (t := ['('])
    by_cases question : text.head? = some '?'
    · obtain ⟨text, rfl⟩ := List.head?_eq_some_iff.1 question
      have third : d.TextAt ((p.skip ['(']).skip ['?']).pos text := second.past (t := ['?'])
      refine ⟨['('] ++ ['?'], ?_⟩
      rw [uncapturingHead_early core at', third.eat_other, Progress.skip_skip]
      intro colon
      obtain ⟨rest, rfl⟩ := List.head?_eq_some_iff.1 colon
      exact other ⟨rest, rfl⟩
    · refine ⟨['('], ?_⟩
      unfold uncapturingHead
      rw [run_bind (eat_text core.whole at'), if_pos rfl, run_bind (second.eat_other question)]
      rfl
  · refine ⟨[], ?_⟩
    unfold uncapturingHead
    rw [run_bind (at'.eat_other left)]
    rfl

theorem assertion_sign (mem : c ∈ ['^', '$']) (at' : d.TextAt p.pos (c :: rest)) :
    assertion inner d p = .ok (some false) (p.skip [c]) := by
  have sign : anyMatch [eat '^', eat '$'] d p = .ok true (p.skip [c]) := by
    simp only [List.mem_cons, List.not_mem_nil, or_false] at mem
    rcases mem with rfl | rfl
    · exact anyMatch_run (eat_text core.whole at')
    · exact (anyMatch_missed (at'.eat_other (by simp))).trans (anyMatch_run (eat_text core.whole at'))
  show ((anyMatch [eat '^', eat '$'] >>= _) >>= _) d p = _
  rw [bind_assoc, run_bind sign]
  rfl

/-- Past what is no sign, no escape and begins with a parenthesis and a question mark. -/
theorem assertionHead_question (at' : d.TextAt p.pos ('(' :: '?' :: rest)) :
    assertionHead d p = (do
      let behind ← eat '<'
      if ← anyMatch [eat '=', eat '!'] then return some (true, !behind)
      return none : PatternM (Option (Bool × Bool))) d (p.skip ['(', '?']) := by
  have missed {c : Char} (other : c ≠ '(') : eat c d p = .ok false p := at'.eat_other (by simpa using other.symm)
  have sign : anyMatch [eat '^', eat '$'] d p = .ok false p :=
    (anyMatch_missed (missed (by decide))).trans (anyMatch_missed (missed (by decide)))
  have slash {c : Char} : eatPair '\\' c d p = .ok false p := eatPair_missed (at'.ne (by simp))
  unfold assertionHead
  rw [run_bind sign]
  show (eatPair '\\' 'B' >>= _) d p = _
  rw [run_bind slash]
  show (eatPair '\\' 'b' >>= _) d p = _
  rw [run_bind slash]
  show (eatPair '(' '?' >>= _) d p = _
  rw [run_bind (eatPair_text core.whole core.whole at'), if_pos rfl, run_bind read_run, if_pos core.late]

theorem assertionHead_look {opening : List Char} (opens : opening ∈ Core.looks)
    (at' : d.TextAt p.pos (opening ++ rest)) :
    assertionHead d p = .ok (some (true, opening.length == 3)) (p.skip opening) := by
  -- The sign after what says whether the assertion looks behind.
  have sign {c : Char} {q : Progress} {rest : List Char} (mem : c ∈ ['=', '!']) (at' : d.TextAt q.pos (c :: rest)) :
      anyMatch [eat '=', eat '!'] d q = .ok true (q.skip [c]) := by
    simp only [List.mem_cons, List.not_mem_nil, or_false] at mem
    rcases mem with rfl | rfl
    · exact anyMatch_run (eat_text core.whole at')
    · exact (anyMatch_missed (at'.eat_other (by simp))).trans (anyMatch_run (eat_text core.whole at'))
  have ahead {c : Char} (mem : c ∈ ['=', '!']) (at' : d.TextAt p.pos (['(', '?', c] ++ rest)) :
      assertionHead d p = .ok (some (true, true)) (p.skip ['(', '?', c]) := by
    have third : d.TextAt (p.skip ['(', '?']).pos (c :: rest) := at'.past (t := ['(', '?'])
    rw [assertionHead_question core at', run_bind (third.eat_other (by rintro ⟨⟩; simp at mem)),
      run_bind (sign mem third), Progress.skip_skip]
    rfl
  have behind {c : Char} (mem : c ∈ ['=', '!']) (at' : d.TextAt p.pos (['(', '?', '<', c] ++ rest)) :
      assertionHead d p = .ok (some (true, false)) (p.skip ['(', '?', '<', c]) := by
    have third : d.TextAt (p.skip ['(', '?']).pos ('<' :: c :: rest) := at'.past (t := ['(', '?'])
    have fourth : d.TextAt ((p.skip ['(', '?']).skip ['<']).pos (c :: rest) := third.past (t := ['<'])
    rw [assertionHead_question core at', run_bind (eat_text core.whole third), run_bind (sign mem fourth),
      Progress.skip_skip,
      Progress.skip_skip]
    rfl
  simp only [Core.looks, List.mem_cons, List.not_mem_nil, or_false] at opens
  rcases opens with rfl | rfl | rfl | rfl
  · exact ahead (by simp) at'
  · exact ahead (by simp) at'
  · exact behind (by simp) at'
  · exact behind (by simp) at'

theorem assertion_look {opening : List Char} (opens : opening ∈ Core.looks) (at' : d.TextAt p.pos (opening ++ rest)) :
    assertion inner d p = (do closedDisjunction inner; return some (opening.length == 3) : PatternM (Option Bool)) d
      (p.skip opening) := by
  rw [assertion_eq]
  show ((assertionHead >>= _) >>= _) d p = _
  rw [bind_assoc, run_bind (assertionHead_look core opens at')]
  simp only [if_true, bind_assoc, pure_bind]

theorem assertion_other (at' : d.TextAt p.pos text) (sign : ∀ c ∈ ['^', '$'], text.head? ≠ some c)
    (look : ∀ opening ∈ Core.looks, ¬ opening <+: text) : assertion inner d p = .ok none p := by
  suffices head : ∃ t, assertionHead d p = .ok none (p.skip t) by
    obtain ⟨t, head⟩ := head
    rw [assertion_eq, orRewind_missed (q := p.skip t)]
    · rfl
    · rw [run_bind head]
      rfl
  by_cases opens : ['(', '?'] <+: text
  · obtain ⟨rest, rfl⟩ := opens
    have third : d.TextAt (p.skip ['(', '?']).pos rest := at'.past (t := ['(', '?'])
    have missed {q : Progress} {rest : List Char} (at' : d.TextAt q.pos rest) (equal : rest.head? ≠ some '=')
        (bang : rest.head? ≠ some '!') : anyMatch [eat '=', eat '!'] d q = .ok false q :=
      (anyMatch_missed (at'.eat_other equal)).trans (anyMatch_missed (at'.eat_other bang))
    -- No sign stands after what begins so.
    have unsigned (opening : List Char) {c : Char} {u : List Char} (mem : opening ++ [c] ∈ Core.looks)
        (text : ['(', '?'] ++ rest = opening ++ u) : u.head? ≠ some c := by
      intro head
      obtain ⟨u, rfl⟩ := List.head?_eq_some_iff.1 head
      exact look _ mem ⟨u, by rw [text, List.append_assoc]; rfl⟩
    rw [assertionHead_question core at']
    by_cases behind : rest.head? = some '<'
    · obtain ⟨rest, rfl⟩ := List.head?_eq_some_iff.1 behind
      have fourth : d.TextAt ((p.skip ['(', '?']).skip ['<']).pos rest := third.past (t := ['<'])
      refine ⟨['(', '?'] ++ ['<'], ?_⟩
      rw [run_bind (eat_text core.whole third), run_bind
        (missed fourth (unsigned ['(', '?', '<'] (by simp [Core.looks]) rfl)
        (unsigned ['(', '?', '<'] (by simp [Core.looks]) rfl)), Progress.skip_skip]
      rfl
    · refine ⟨['(', '?'], ?_⟩
      rw [run_bind (third.eat_other behind), run_bind (missed third (unsigned ['(', '?'] (by simp [Core.looks]) rfl)
        (unsigned ['(', '?'] (by simp [Core.looks]) rfl))]
      rfl
  · refine ⟨[], ?_⟩
    have sign' : anyMatch [eat '^', eat '$'] d p = .ok false p :=
      (anyMatch_missed (at'.eat_other (sign _ (by simp)))).trans
      (anyMatch_missed (at'.eat_other (sign _ (by simp))))
    have slash {c : Char} : eatPair '\\' c d p = .ok false p := eatPair_missed (at'.other core (by simp))
    unfold assertionHead
    rw [run_bind sign']
    show (eatPair '\\' 'B' >>= _) d p = _
    rw [run_bind slash]
    show (eatPair '\\' 'b' >>= _) d p = _
    rw [run_bind slash]
    show (eatPair '(' '?' >>= _) d p = _
    rw [run_bind (eatPair_other core.whole at' opens)]
    rfl

end RegExp
end ScriptSyntax
