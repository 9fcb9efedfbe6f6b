import ScriptSyntax.Number.Digits
import ScriptSyntax.RegExp.Validator

/-!
What steps over a pattern give where the code at the cursor is known.  Groups and assertions come apart into what stands
before their disjunction and the disjunction itself.
-/

namespace ScriptSyntax
namespace RegExp

variable {α β : Type} {d : Dialect} {p q : Progress} {code : Nat}

theorem run_bind {x : PatternM α} {f : α → PatternM β} {a : α} (run : x d p = .ok a q) :
    (x >>= f) d p = f a d q := by
  simp only [Bind.bind, ReaderT.bind, EStateM.bind, run]

theorem run_fails {x : PatternM α} {f : α → PatternM β} {fault : Fault} (run : x d p = .error fault q) :
    (x >>= f) d p = .error fault q := by
  simp only [Bind.bind, ReaderT.bind, EStateM.bind, run]

theorem position_run : position d p = .ok p.pos p := rfl

theorem read_run : (read : PatternM Dialect) d p = .ok d p := rfl

theorem get_run : (get : PatternM Progress) d p = .ok p p := rfl

theorem peek_run : peek d p = .ok (d.at? d.unicode p.pos) p := by
  show EStateM.Result.ok (d.at? (false || d.unicode) p.pos) p = _
  rw [Bool.false_or]

theorem sees_run {c : Char} : sees c d p = .ok (d.at? d.unicode p.pos == some c.toNat) p := by
  unfold sees
  rw [run_bind peek_run]
  rfl

theorem eat_missed {c : Char} (other : d.at? d.unicode p.pos ≠ some c.toNat) : eat c d p = .ok false p := by
  unfold eat
  rw [run_bind sees_run, beq_eq_false_iff_ne.2 other]
  rfl

theorem eat_run {c : Char} (stands : d.at? d.unicode p.pos = some c.toNat) :
    eat c d p = .ok true { p with pos := d.next d.unicode p.pos } := by
  unfold eat
  rw [run_bind sees_run, stands, beq_self_eq_true]
  show EStateM.Result.ok true { p with pos := d.next (false || d.unicode) p.pos } = _
  rw [Bool.false_or]

theorem eatCode_missed {inClass : Nat → Bool}
    (other : ∀ code, d.at? d.unicode p.pos = some code → inClass code = false) : eatCode inClass d p = .ok none p := by
  unfold eatCode
  rw [run_bind peek_run]
  cases stands : d.at? d.unicode p.pos with
  | none => rfl
  | some code => simp only [other code stands]; rfl

theorem eatCode_run {inClass : Nat → Bool} (stands : d.at? d.unicode p.pos = some code) (is : inClass code = true) :
    eatCode inClass d p = .ok (some code) { p with pos := d.next d.unicode p.pos } := by
  unfold eatCode
  rw [run_bind peek_run, stands]
  simp only [is, if_true]
  show EStateM.Result.ok (some code) { p with pos := d.next (false || d.unicode) p.pos } = _
  rw [Bool.false_or]

theorem eatRun_run {inClass : Nat → Bool} : eatRun inClass d p = .ok (d.run inClass (d.units.size + 1) p.pos).1
    { p with pos := (d.run inClass (d.units.size + 1) p.pos).2 } := rfl

/-- A number that counts no further than the largest is the number written, or the largest. -/
theorem numberOf_eq {radix : Nat} (positive : 0 < radix) (digits : List Nat) :
    numberOf radix digits = min (Number.natOfDigits radix digits) maxNumber := by
  suffices all : ∀ total, digits.foldl (fun total digit => min (total * radix + digit) maxNumber)
      (min total maxNumber) =
      min (digits.foldl (fun total digit => total * radix + digit) total) maxNumber from all 0
  induction digits with
  | nil => exact fun _ => rfl
  | cons digit digits ih =>
    intro total
    rw [List.foldl_cons, List.foldl_cons, ← ih]
    congr 1
    rcases Nat.le_total total maxNumber with small | large
    · rw [Nat.min_eq_left small]
    · have counts : maxNumber ≤ maxNumber * radix := Nat.le_mul_of_pos_right _ positive
      have more : maxNumber * radix ≤ total * radix := Nat.mul_le_mul_right _ large
      rw [Nat.min_eq_right large, Nat.min_eq_right (by omega), Nat.min_eq_right (by omega)]

theorem eatDecimal_eq : eatDecimal d p = .ok
    (if (d.run isDigitCode (d.units.size + 1) p.pos).1 = [] then none
      else some (numberOf 10 ((d.run isDigitCode (d.units.size + 1) p.pos).1.map (· - '0'.toNat))))
    { p with pos := (d.run isDigitCode (d.units.size + 1) p.pos).2 } := by
  unfold eatDecimal
  rw [run_bind eatRun_run]
  cases (d.run isDigitCode (d.units.size + 1) p.pos).1 <;> rfl

theorem eatHex_eq : eatHex d p = .ok
    (if (d.run (fun code => (hexValue? code).isSome) (d.units.size + 1) p.pos).1 = [] then none
      else some (numberOf 16
        ((d.run (fun code => (hexValue? code).isSome) (d.units.size + 1) p.pos).1.filterMap hexValue?)))
    { p with pos := (d.run (fun code => (hexValue? code).isSome) (d.units.size + 1) p.pos).2 } := by
  unfold eatHex
  rw [run_bind eatRun_run]
  cases (d.run (fun code => (hexValue? code).isSome) (d.units.size + 1) p.pos).1 <;> rfl

theorem orRewind_missed {step : PatternM (Option α)} {q : Progress} (run : step d p = .ok none q) :
    orRewind step d p = .ok none { q with pos := p.pos } := by
  show (step >>= _) d p = _
  rw [run_bind run]
  rfl

theorem anyMatch_missed {step : PatternM Bool} {steps : List (PatternM Bool)} (run : step d p = .ok false q) :
    anyMatch (step :: steps) d p = anyMatch steps d q := by
  show (step >>= _) d p = _
  rw [run_bind run]
  rfl

theorem anyMatch_run {step : PatternM Bool} {steps : List (PatternM Bool)} (run : step d p = .ok true q) :
    anyMatch (step :: steps) d p = .ok true q := by
  show (step >>= _) d p = _
  rw [run_bind run]
  rfl

theorem firstMatch_missed {step : PatternM (Option α)} {steps : List (PatternM (Option α))}
    (run : step d p = .ok none q) :
    firstMatch (step :: steps) d p = firstMatch steps d q := by
  show (step >>= _) d p = _
  rw [run_bind run]

/-! ### Steps that match nothing there -/

section

variable {inner : PatternM Unit}

theorem eatPair_missed {c c' : Char} (other : d.at? d.unicode p.pos ≠ some c.toNat) :
    eatPair c c' d p = .ok false p := by
  unfold eatPair
  rw [run_bind position_run, run_bind (eat_missed other)]
  rfl

theorem escapedAtom_missed (other : d.at? d.unicode p.pos ≠ some '\\'.toNat) : escapedAtom d p = .ok false p := by
  unfold escapedAtom
  rw [run_bind position_run, run_bind (eat_missed other)]
  rfl

theorem characterClass_missed {depth : Nat} (other : d.at? d.unicode p.pos ≠ some '['.toNat) :
    characterClass depth d p = .ok false p := by
  unfold characterClass
  rw [run_bind (eat_missed other)]
  rfl

theorem characterClass_matched {depth : Nat} {matched : Bool} (stands : d.at? d.unicode p.pos = some '['.toNat)
    (run : characterClass depth d p = .ok matched q) : matched = true := by
  unfold characterClass at run
  rw [run_bind (eat_run stands), if_pos rfl] at run
  cases inner : bracketed (nestedClass depth) (throw .unterminatedClass) d { p with pos := d.next d.unicode p.pos } with
  | ok set r =>
    rw [run_bind inner] at run
    cases run
    rfl
  | error fault r =>
    rw [run_fails inner] at run
    cases run

theorem uncapturingGroup_missed (other : d.at? d.unicode p.pos ≠ some '('.toNat) :
    uncapturingGroup inner d p = .ok false p := by
  unfold uncapturingGroup
  rw [run_bind position_run, run_bind (eat_missed other)]
  rfl

theorem capturingGroup_missed (other : d.at? d.unicode p.pos ≠ some '('.toNat) :
    capturingGroup inner d p = .ok false p := by
  unfold capturingGroup
  rw [run_bind (eat_missed other)]
  rfl

theorem bracedQuantifier_missed {lenient : Bool} (other : d.at? d.unicode p.pos ≠ some '{'.toNat) :
    bracedQuantifier lenient d p = .ok false p := by
  unfold bracedQuantifier
  rw [run_bind position_run, run_bind (eat_missed other)]
  rfl

theorem strayQuantifier_missed (other : d.at? d.unicode p.pos ≠ some '{'.toNat) :
    strayQuantifier d p = .ok false p := by
  unfold strayQuantifier
  rw [run_bind (bracedQuantifier_missed other)]
  rfl

theorem assertion_missed (other : ∀ c ∈ ['^', '$', '\\', '('], d.at? d.unicode p.pos ≠ some c.toNat) :
    assertion inner d p = .ok none p := by
  simp only [List.mem_cons, List.not_mem_nil, or_false, forall_eq_or_imp, forall_eq] at other
  obtain ⟨caret, dollar, slash, left⟩ := other
  refine orRewind_missed (q := p) ?_
  rw [run_bind (show anyMatch [eat '^', eat '$'] d p = .ok false p from
    (anyMatch_missed (eat_missed caret)).trans (anyMatch_missed (eat_missed dollar)))]
  show (eatPair '\\' 'B' >>= _) d p = _
  rw [run_bind (eatPair_missed slash)]
  show (eatPair '\\' 'b' >>= _) d p = _
  rw [run_bind (eatPair_missed slash)]
  show (eatPair '(' '?' >>= _) d p = _
  rw [run_bind (eatPair_missed left)]
  rfl

theorem quantifier_missed {lenient : Bool} (other : ∀ c ∈ ['*', '+', '?', '{'], d.at? d.unicode p.pos ≠ some c.toNat) :
    quantifier lenient d p = .ok false p := by
  simp only [List.mem_cons, List.not_mem_nil, or_false, forall_eq_or_imp, forall_eq] at other
  obtain ⟨star, plus, question, brace⟩ := other
  unfold quantifier
  rw [run_bind ((anyMatch_missed (eat_missed star)).trans ((anyMatch_missed (eat_missed plus)).trans
    ((anyMatch_missed (eat_missed question)).trans (anyMatch_missed (bracedQuantifier_missed brace)))))]
  rfl

/-- Neither a class nor a group nor a quantifier begins there. -/
theorem atom_missed {depth : Nat} {steps : List (PatternM Bool)}
    (other : ∀ c ∈ ['[', '(', '{'], d.at? d.unicode p.pos ≠ some c.toNat) :
    anyMatch (characterClass depth :: uncapturingGroup inner :: capturingGroup inner :: strayQuantifier :: steps) d p =
      anyMatch steps d p := by
  simp only [List.mem_cons, List.not_mem_nil, or_false, forall_eq_or_imp, forall_eq] at other
  obtain ⟨bracket, left, brace⟩ := other
  rw [anyMatch_missed (characterClass_missed bracket), anyMatch_missed (uncapturingGroup_missed left),
    anyMatch_missed (capturingGroup_missed left), anyMatch_missed (strayQuantifier_missed brace)]

end

/-! ### Escapes of a single character -/

section

variable (facing : d.at? d.unicode p.pos = some code)
include facing

/-- Neither a control character nor a hexadecimal escape begins there. -/
theorem characterEscape_late (control : controlValue? code = none) (other : isOneOf ['c', '0', 'x'] code = false) :
    characterEscape d p = firstMatch [unicodeEscape false, if d.unicode then return none else octalEscape,
      identityEscape] d p := by
  have missed {x : PatternM (Option Nat)} (run : x d p = .ok none p) {steps} :
      firstMatch (x :: steps) d p = firstMatch steps d p := firstMatch_missed run
  have others {c : Char} (mem : isOneOf ['c', '0', 'x'] c.toNat = true) : d.at? d.unicode p.pos ≠ some c.toNat := by
    rw [facing]
    intro same
    cases same
    cases mem.symm.trans other
  show firstMatch [controlEscape, controlLetterEscape, zeroEscape, hexEscape, unicodeEscape false,
    if d.unicode then return none else octalEscape, identityEscape] d p = _
  rw [missed, missed, missed, missed]
  · unfold hexEscape
    rw [run_bind position_run, run_bind (eat_missed (others rfl))]
    rfl
  · unfold zeroEscape
    rw [run_bind sees_run, beq_eq_false_iff_ne.2 (others rfl)]
    rfl
  · refine orRewind_missed (q := p) ?_
    rw [run_bind (eat_missed (others rfl))]
    rfl
  · show (peek >>= _) d p = _
    rw [run_bind peek_run, facing, Option.bind_some, control]
    rfl

theorem octalDigit_missed (other : isOctalCode code = false) : octalDigit d p = .ok none p := by
  unfold octalDigit
  rw [run_bind (eatCode_missed fun code stands => by cases facing.symm.trans stands; exact other)]
  rfl

end

/-! ### An escaped `k` -/

section

variable (facing : d.at? d.unicode p.pos = some 'k'.toNat)
include facing

theorem other_than_k {c : Char} (other : (c == 'k') = false) : d.at? d.unicode p.pos ≠ some c.toNat := by
  rw [facing]
  intro same
  have same' : 'k' = c := Char.toNat_inj.1 (Option.some.inj same)
  simp [← same'] at other

theorem numberedReference_k : numberedReference d p = .ok false p := by
  unfold numberedReference
  rw [run_bind position_run, run_bind peek_run, facing]
  rfl

theorem classEscape_k : classEscape d p = .ok none p := by
  unfold classEscape
  have one {cs : List Char} (other : isOneOf cs 'k'.toNat = false) : eatCode (isOneOf cs) d p = .ok none p :=
    eatCode_missed fun code stands => by
      cases facing.symm.trans stands
      exact other
  rw [run_bind read_run, run_bind (one rfl)]
  show (if d.unicode && 9 ≤ d.edition then _ else _ : PatternM (Option CharSet)) d p = _
  split
  · rw [run_bind (one rfl)]
    rfl
  · rfl

theorem characterEscape_k : characterEscape d p = identityEscape d p := by
  have missed {x : PatternM (Option Nat)} (run : x d p = .ok none p) {steps} :
      firstMatch (x :: steps) d p = firstMatch steps d p := firstMatch_missed run
  rw [characterEscape_late facing rfl rfl, missed, missed]
  · cases run : identityEscape d p with
    | ok code q =>
      show (identityEscape >>= _) d p = _
      rw [run_bind run]
      cases code <;> rfl
    | error fault q => exact run_fails run
  · split
    · rfl
    · show (octalDigit >>= _) d p = _
      rw [run_bind (octalDigit_missed facing rfl)]
      rfl
  · unfold unicodeEscape
    rw [run_bind position_run, run_bind read_run, run_bind (eat_missed (other_than_k facing rfl))]
    rfl

theorem identityEscape_k (refused : d.unicode = true ∨ d.namedGroups = true) : identityEscape d p = .ok none p := by
  have missed {inClass : Nat → Bool} (other : inClass 'k'.toNat = false) : eatCode inClass d p = .ok none p :=
    eatCode_missed fun code stands => by
      cases facing.symm.trans stands
      exact other
  show (if d.unicode then _ else _ : PatternM (Option Nat)) d p = _
  split
  · exact missed rfl
  · rename_i lenient
    exact missed (by simp [refused.resolve_left lenient])

/-- A reference by name is one, or a fault. -/
theorem namedReference_eq_ok {matched : Bool} (run : namedReference d p = .ok matched q) : matched = true ∧
    ∃ name r, groupName d { p with pos := d.next d.unicode p.pos } = .ok (some name) r ∧
      q = { r with references := r.references ++ [name] } := by
  unfold namedReference at run
  rw [run_bind (eat_run facing), if_pos rfl] at run
  cases reads : groupName d { p with pos := d.next d.unicode p.pos } with
  | error fault r =>
    rw [run_fails reads] at run
    cases run
  | ok name r =>
    rw [run_bind reads] at run
    cases name with
    | none => cases run
    | some name =>
      cases run
      exact ⟨rfl, name, r, rfl, rfl⟩

/-- Nothing else than a reference by name begins with that letter, where such references are read. -/
theorem atomEscape_k (named : d.namedGroups = true) {matched : Bool} (run : atomEscape d p = .ok matched q) :
    namedReference d p = .ok matched q := by
  have missed : anyMatch [numberedReference, return (← classEscape).isSome, return (← characterEscape).isSome,
      (if d.namedGroups then namedReference else return false)] d p = anyMatch [namedReference] d p := by
    rw [anyMatch_missed (numberedReference_k facing),
      anyMatch_missed (q := p) (by rw [run_bind (classEscape_k facing)]; rfl),
      anyMatch_missed (q := p) (by
        rw [run_bind ((characterEscape_k facing).trans (identityEscape_k facing (.inr named)))]; rfl), if_pos named]
  unfold atomEscape at run
  rw [run_bind read_run] at run
  cases reads : namedReference d p with
  | error fault r =>
    rw [run_fails (missed.trans (run_fails reads))] at run
    cases run
  | ok found r =>
    obtain ⟨rfl, -⟩ := namedReference_eq_ok facing reads
    rw [run_bind (missed.trans (anyMatch_run reads))] at run
    cases run
    rfl

end

/-! ### What stands before the disjunction of a group -/

section

variable {inner : PatternM Unit}

/-- What stands before the disjunction of a group that does not capture. -/
def uncapturingHead : PatternM Bool := do
  if ← eat '(' then
    if ← eat '?' then
      if 16 ≤ (← read).edition then modifiers
      return ← eat ':'
  return false

theorem uncapturingGroup_eq : uncapturingGroup inner = do
    let start ← position
    if ← uncapturingHead then
      closedDisjunction inner
      return true
    moveTo start
    return false := by
  funext d p
  unfold uncapturingGroup uncapturingHead
  simp only [bind_assoc]
  rw [run_bind position_run, run_bind position_run]
  by_cases left : d.at? d.unicode p.pos = some '('.toNat
  · rw [run_bind (eat_run left), run_bind (eat_run left)]
    simp only [if_true, bind_assoc]
    refine congrFun (congrFun (bind_congr fun question => ?_) _) _
    cases question
    · rfl
    · simp only [if_true, bind_assoc]
      refine bind_congr fun d' => ?_
      split
      · simp only [bind_assoc]
      · rfl
  · rw [run_bind (eat_missed left), run_bind (eat_missed left)]
    rfl

/-- What stands before the disjunction of a capturing group. -/
def capturingHead : PatternM Bool := do
  if ← eat '(' then
    if 9 ≤ (← read).edition then groupSpecifier
    else if ← sees '?' then throw .invalidGroup
    return true
  else return false

theorem capturingGroup_eq : capturingGroup inner = do
    if ← capturingHead then
      closedDisjunction inner
      modify fun p => { p with groups := p.groups + 1 }
      return true
    else return false := by
  unfold capturingGroup capturingHead
  simp only [bind_assoc]
  refine bind_congr fun left => ?_
  cases left
  · rfl
  · simp only [if_true, bind_assoc]
    refine bind_congr fun d' => ?_
    split
    · simp only [bind_assoc, pure_bind, if_true]
    · simp only [bind_assoc]
      refine bind_congr fun seen => ?_
      split
      · rfl
      · simp only [pure_bind, if_true]

/-- What stands before the disjunction of an assertion, if it has one, and may it be quantified? -/
def assertionHead : PatternM (Option (Bool × Bool)) := do
  if ← anyMatch [eat '^', eat '$'] then return some (false, false)
  if ← eatPair '\\' 'B' then return some (false, false)
  if ← eatPair '\\' 'b' then return some (false, false)
  if ← eatPair '(' '?' then
    let behind ← if 9 ≤ (← read).edition then eat '<' else pure false
    if ← anyMatch [eat '=', eat '!'] then return some (true, !behind)
  return none

theorem assertion_eq : assertion inner = orRewind do
    match ← assertionHead with
    | none => return none
    | some (opens, quantifiable) =>
      if opens then closedDisjunction inner
      return some quantifiable := by
  unfold assertion assertionHead
  congr 1
  simp only [bind_assoc]
  refine bind_congr fun sign => ?_
  split
  · rfl
  · simp only [bind_assoc]
    refine bind_congr fun other => ?_
    split
    · rfl
    · simp only [bind_assoc]
      refine bind_congr fun boundary => ?_
      split
      · rfl
      · simp only [bind_assoc]
        refine bind_congr fun left => ?_
        split
        · simp only [bind_assoc]
          refine bind_congr fun d' => ?_
          split
          · simp only [bind_assoc]
            refine bind_congr fun behind => ?_
            refine bind_congr fun signed => ?_
            split
            · rfl
            · rfl
          · simp only [pure_bind, bind_assoc]
            refine bind_congr fun signed => ?_
            split
            · rfl
            · rfl
        · rfl

end

end RegExp
end ScriptSyntax
