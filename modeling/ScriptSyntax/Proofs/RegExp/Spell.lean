import ScriptSyntax.Proofs.RegExp.Class
import ScriptSyntax.Proofs.RegExp.Name

/-!
How a pattern is read outside unicode mode where no reference is read: the name in angle brackets behind
an escaped `k` is so many terms, whatever it is spelled with.
-/

namespace ScriptSyntax
namespace RegExp

variable {d : Dialect} {inner : PatternM Unit} {depth : Nat} {p q r : Progress}

/-- Outside unicode mode code units are read one by one, and forgiven a lot. -/
structure Dialect.Lax (d : Dialect) : Prop where
  lenient : d.unicode = false

/-- Terms lead from one state to another. -/
inductive Walk (d : Dialect) (inner : PatternM Unit) (depth : Nat) : Progress → Progress → Prop
  | here (p : Progress) : Walk d inner depth p p
  | step {p q r : Progress} : term inner depth d p = .ok true q → p.pos < q.pos → Walk d inner depth q r →
      Walk d inner depth p r

theorem Walk.trans (first : Walk d inner depth p q) (second : Walk d inner depth q r) : Walk d inner depth p r := by
  induction first with
  | here => exact second
  | step run further _ ih => exact .step run further (ih second)

theorem Walk.forward (walk : Walk d inner depth p q) : p.pos ≤ q.pos := by
  induction walk with
  | here => exact Nat.le_refl _
  | step _ further _ ih => omega

/-- Whatever is tried as long as terms match goes that way, if it may try often enough. -/
theorem Walk.whileMatch (walk : Walk d inner depth p q) (inside : q.pos ≤ d.units.size) :
    ∀ fuel, d.units.size + 1 ≤ fuel + p.pos → ∃ left, d.units.size + 1 ≤ left + q.pos ∧
      RegExp.whileMatch (term inner depth) fuel d p = RegExp.whileMatch (term inner depth) left d q := by
  induction walk with
  | here => exact fun fuel enough => ⟨fuel, enough, rfl⟩
  | @step p q r run further walk ih =>
    intro fuel enough
    have forward := walk.forward
    match fuel with
    | 0 => omega
    | fuel + 1 =>
      obtain ⟨left, enough', same⟩ := ih inside fuel (by omega)
      refine ⟨left, enough', ?_⟩
      rw [← same]
      show (term inner depth >>= _) d p = _
      rw [run_bind run]
      rfl

/-! ### Single terms -/

/-- No quantifier begins there. -/
def Dialect.Unquantified (d : Dialect) (i : Nat) : Prop := ∀ c ∈ ['*', '+', '?', '{'], d.units[i]? ≠ some c.toNat

/-- From an offset on, whatever the state is, terms lead to another. -/
def Dialect.Leads (d : Dialect) (inner : PatternM Unit) (depth i j : Nat) : Prop :=
  ∀ p : Progress, p.pos = i → Walk d inner depth p { p with pos := j }

variable {i j k : Nat}

theorem Dialect.Leads.refl (i : Nat) : d.Leads inner depth i i := fun p at' => at' ▸ .here p

theorem Dialect.Leads.trans (first : d.Leads inner depth i j) (second : d.Leads inner depth j k) :
    d.Leads inner depth i k :=
  fun p at' => (first p at').trans (second { p with pos := j } rfl)

section

variable [d.Narrow] (lax : d.Lax)
include lax

omit [d.Narrow] in
theorem Dialect.Lax.at? (i : Nat) : d.at? d.unicode i = d.units[i]? := by
  unfold Dialect.at?
  rw [lax.lenient]
  cases d.units[i]? <;> rfl

theorem Dialect.Lax.next {unit : Nat} (stands : d.units[i]? = some unit) : d.next d.unicode i = i + 1 := by
  unfold Dialect.next
  rw [lax.at?, stands]
  exact if_neg (Nat.not_lt.2 (Dialect.Narrow.le (d := d) i unit stands))

omit [d.Narrow] in
theorem Dialect.Lax.other {unit : Nat} {c : Char} (stands : d.units[i]? = some unit) (other : unit ≠ c.toNat) :
    d.at? d.unicode i ≠ some c.toNat := by
  rw [lax.at?, stands]
  exact fun same => other (Option.some.inj same)

omit [d.Narrow] in
theorem Dialect.Lax.unquantified (next : d.Unquantified j) (p : Progress) (at' : p.pos = j) :
    quantifier false d p = .ok false { p with pos := j } := by
  subst at'
  exact quantifier_missed fun c mem => by rw [lax.at?]; exact next c mem

omit [d.Narrow] in
/-- A term that is an atom, perhaps with a quantifier. -/
theorem term_atom {matched : Bool} (missed : assertion inner d p = .ok none p)
    (atom : lenientAtom inner depth d p = .ok true q)
    (quantified : quantifier false d q = .ok matched r) : term inner depth d p = .ok true r := by
  unfold term
  rw [run_bind read_run, run_bind missed]
  simp only [lax.lenient, Bool.false_eq_true, if_false]
  rw [run_bind atom]
  simp only [if_true]
  rw [run_bind quantified]
  rfl

theorem lenientAtom_literal {unit : Nat} (stands : d.units[p.pos]? = some unit)
    (literal : isLenientCharacter unit = true)
    (other : isOneOf ['\\', '{'] unit = false) :
    lenientAtom inner depth d p = .ok true { p with pos := p.pos + 1 } := by
  have others : ∀ c ∈ ['.', '\\', '[', '(', '{'], d.at? d.unicode p.pos ≠ some c.toNat := by
    simp only [List.mem_cons, List.not_mem_nil, or_false, forall_eq_or_imp, forall_eq]
    refine ⟨?_, ?_, ?_, ?_, ?_⟩ <;> refine lax.other stands fun same => ?_ <;> subst same
    · cases literal
    · cases other
    · cases literal
    · cases literal
    · cases other
  have eaten : eatCode isLenientCharacter d p = .ok (some unit) { p with pos := p.pos + 1 } := by
    rw [eatCode_run ((lax.at? _).trans stands) literal, lax.next stands]
  unfold lenientAtom
  rw [anyMatch_missed (eat_missed (others _ (.head _))),
    anyMatch_missed (escapedAtom_missed (others _ (.tail _ (.head _)))),
    atom_missed fun c mem => others c (.tail _ (.tail _ mem))]
  refine anyMatch_run ?_
  rw [run_bind eaten]
  rfl

theorem leads_literal {unit : Nat} (stands : d.units[i]? = some unit) (literal : isLenientCharacter unit = true)
    (other : isOneOf ['\\', '{'] unit = false) (next : d.Unquantified (i + 1)) : d.Leads inner depth i (i + 1) := by
  rintro p rfl
  have missed : assertion inner d p = .ok none p := by
    refine assertion_missed ?_
    simp only [List.mem_cons, List.not_mem_nil, or_false, forall_eq_or_imp, forall_eq]
    refine ⟨?_, ?_, ?_, ?_⟩ <;> refine lax.other stands fun same => ?_ <;> subst same
    · cases literal
    · cases literal
    · cases other
    · cases literal
  exact .step (term_atom lax missed (lenientAtom_literal lax stands literal other)
    (lax.unquantified next { p with pos := p.pos + 1 } rfl)) (Nat.lt_succ_self _) (.here _)

theorem leads_dollar (stands : d.units[i]? = some '$'.toNat) : d.Leads inner depth i (i + 1) := by
  rintro p rfl
  have eaten : eat '$' d p = .ok true { p with pos := p.pos + 1 } := by
    rw [eat_run ((lax.at? _).trans stands), lax.next stands]
  have found : assertion inner d p = .ok (some false) { p with pos := p.pos + 1 } := by
    unfold assertion orRewind
    rw [run_bind position_run, run_bind (a := some false) (q := { p with pos := p.pos + 1 })]
    · rfl
    · rw [run_bind ((anyMatch_missed (eat_missed (lax.other stands (by decide)))).trans (anyMatch_run eaten))]
      rfl
  have run : term inner depth d p = .ok true { p with pos := p.pos + 1 } := by
    unfold term
    rw [run_bind read_run, run_bind found]
    rfl
  exact .step run (Nat.lt_succ_self _) (.here _)

/-! ### Escapes -/

/-- An escape of another character than those of word boundaries is no assertion. -/
theorem assertion_escape {unit : Nat} (slash : d.units[p.pos]? = some '\\'.toNat)
    (escapes : d.units[p.pos + 1]? = some unit)
    (other : isOneOf ['b', 'B', 'd', 'D', 's', 'S', 'w', 'W'] unit = false) : assertion inner d p = .ok none p := by
  have eaten : eat '\\' d p = .ok true { p with pos := p.pos + 1 } := by
    rw [eat_run ((lax.at? _).trans slash), lax.next slash]
  have pair {c : Char} (apart : unit ≠ c.toNat) : eatPair '\\' c d p = .ok false p := by
    unfold eatPair
    rw [run_bind position_run, run_bind eaten, if_pos rfl, run_bind (eat_missed (lax.other escapes apart))]
    rfl
  have apart {c : Char} (mem : isOneOf ['b', 'B', 'd', 'D', 's', 'S', 'w', 'W'] c.toNat = true) : unit ≠ c.toNat := by
    rintro rfl
    cases mem.symm.trans other
  refine orRewind_missed (q := p) ?_
  rw [run_bind ((anyMatch_missed (eat_missed (lax.other slash (by decide)))).trans
    (anyMatch_missed (eat_missed (lax.other slash (by decide)))))]
  show (eatPair '\\' 'B' >>= _) d p = _
  rw [run_bind (pair (apart rfl))]
  show (eatPair '\\' 'b' >>= _) d p = _
  rw [run_bind (pair (apart rfl))]
  show (eatPair '(' '?' >>= _) d p = _
  rw [run_bind (eatPair_missed (lax.other slash (by decide)))]
  rfl

/-- A backslash and an escape of a single character. -/
theorem leads_escape {unit value : Nat} (slash : d.units[i]? = some '\\'.toNat) (escapes : d.units[i + 1]? = some unit)
    (other : isOneOf ['b', 'B', 'd', 'D', 's', 'S', 'w', 'W'] unit = false ∧ isDigitCode unit = false)
    (reads : ∀ p : Progress, p.pos = i + 1 → characterEscape d p = .ok (some value) { p with pos := j })
    {matched : Bool}
    (quantified : ∀ p : Progress, p.pos = j → quantifier false d p = .ok matched { p with pos := k })
      (further : i < k) :
    d.Leads inner depth i k := by
  rintro p rfl
  have facing : d.at? d.unicode (p.pos + 1) = some unit := (lax.at? _).trans escapes
  have eaten : eat '\\' d p = .ok true { p with pos := p.pos + 1 } := by
    rw [eat_run ((lax.at? _).trans slash), lax.next slash]
  have number : numberedReference d { p with pos := p.pos + 1 } = .ok false { p with pos := p.pos + 1 } := by
    unfold numberedReference
    rw [run_bind position_run, run_bind peek_run]
    dsimp only
    rw [facing, Option.any_some, other.2]
    rfl
  have class' : classEscape d { p with pos := p.pos + 1 } = .ok none { p with pos := p.pos + 1 } := by
    unfold classEscape
    rw [run_bind read_run, run_bind (eatCode_missed fun code stands => ?_)]
    · simp only [lax.lenient]
      rfl
    · cases facing.symm.trans stands
      simp only [isOneOf, List.any_cons, List.any_nil, Bool.or_eq_false_iff] at other ⊢
      exact other.1.2.2
  have escape : atomEscape d { p with pos := p.pos + 1 } = .ok true { p with pos := j } := by
    have third : (do return (← characterEscape).isSome : PatternM Bool) d { p with pos := p.pos + 1 } =
        .ok true { p with pos := j } := by
      rw [run_bind (reads { p with pos := p.pos + 1 } rfl)]
      rfl
    have second : (do return (← classEscape).isSome : PatternM Bool) d { p with pos := p.pos + 1 } =
        .ok false { p with pos := p.pos + 1 } := by
      rw [run_bind class']
      rfl
    unfold atomEscape
    rw [run_bind read_run, run_bind ((anyMatch_missed number).trans
      ((anyMatch_missed second).trans (anyMatch_run third)))]
    rfl
  have atom : lenientAtom inner depth d p = .ok true { p with pos := j } := by
    refine (anyMatch_missed (eat_missed (lax.other slash (by decide)))).trans (anyMatch_run ?_)
    unfold escapedAtom
    rw [run_bind position_run, run_bind eaten, if_pos rfl, run_bind escape]
    rfl
  exact .step (term_atom lax (assertion_escape lax slash escapes other.1) atom (quantified { p with pos := j } rfl))
    further (.here _)

omit [d.Narrow] in
theorem identityEscape_lax {code : Nat} (facing : d.at? d.unicode p.pos = some code)
    (itself : (code != 'c'.toNat && !(d.namedGroups && code == 'k'.toNat)) = true) :
    identityEscape d p = .ok (some code) { p with pos := d.next d.unicode p.pos } := by
  have eaten : eatCode (fun code => code != 'c'.toNat && !(d.namedGroups && code == 'k'.toNat)) d p = _ :=
    eatCode_run facing itself
  rw [← eaten]
  show (if d.unicode then _ else _ : PatternM (Option Nat)) d p = _
  rw [lax.lenient]
  rfl

/-- Where named references are not read, an escaped `k` stands for itself. -/
theorem leads_k (unnamed : d.namedGroups = false) (slash : d.units[i]? = some '\\'.toNat)
    (letter : d.units[i + 1]? = some 'k'.toNat) (next : d.Unquantified (i + 2)) : d.Leads inner depth i (i + 2) := by
  have reads (p : Progress) (at' : p.pos = i + 1) : characterEscape d p =
      .ok (some 'k'.toNat) { p with pos := i + 2 } := by
    have facing : d.at? d.unicode p.pos = some 'k'.toNat := (lax.at? _).trans (at' ▸ letter)
    have next : d.next d.unicode p.pos = i + 2 := by rw [lax.next (at' ▸ letter), at']
    rw [characterEscape_k facing, ← next]
    exact identityEscape_lax lax facing (by rw [unnamed]; rfl)
  exact leads_escape lax slash letter ⟨rfl, rfl⟩ reads (lax.unquantified next) (by omega)

/-- What the letter of an escape by code point comes to. -/
theorem characterEscape_u {value : Option Nat} (at' : p.pos = i + 1) (letter : d.units[i + 1]? = some 'u'.toNat)
    (reads : ∀ p : Progress, p.pos = i + 2 → eatFixedHex 4 d p = .ok value { p with pos := j }) :
    characterEscape d p = .ok (some (value.getD 'u'.toNat)) { p with pos := bif value.isSome then j else i + 2 } := by
  have facing : d.at? d.unicode p.pos = some 'u'.toNat := (lax.at? _).trans (at' ▸ letter)
  have next : d.next d.unicode p.pos = i + 2 := by rw [lax.next (at' ▸ letter), at']
  have eaten : eat 'u' d p = .ok true { p with pos := i + 2 } := by rw [eat_run facing, next]
  have unicode : unicodeEscape false d p = .ok value { p with pos := bif value.isSome then j else p.pos } := by
    unfold unicodeEscape
    rw [run_bind position_run, run_bind read_run]
    simp only [lax.lenient, Bool.or_false]
    rw [run_bind eaten, if_pos rfl, run_bind (reads { p with pos := i + 2 } rfl)]
    cases value <;> rfl
  rw [characterEscape_late facing rfl rfl]
  cases value with
  | some value =>
    show (unicodeEscape false >>= _) d p = _
    rw [run_bind unicode]
    rfl
  | none =>
    rw [firstMatch_missed unicode, lax.lenient, firstMatch_missed]
    · show (identityEscape >>= _) d p = _
      rw [run_bind (identityEscape_lax lax facing (by rw [Bool.and_comm d.namedGroups]; rfl)), next]
      rfl
    · show (octalDigit >>= _) d p = _
      rw [run_bind (octalDigit_missed facing rfl)]
      rfl

theorem leads_fixed {value : Nat} (slash : d.units[i]? = some '\\'.toNat) (letter : d.units[i + 1]? = some 'u'.toNat)
    (reads : ∀ p : Progress, p.pos = i + 2 → eatFixedHex 4 d p = .ok (some value) { p with pos := j }) (further : i < j)
    (next : d.Unquantified j) : d.Leads inner depth i j :=
  leads_escape lax slash letter ⟨rfl, rfl⟩ (fun _ at' => characterEscape_u lax at' letter reads)
    (lax.unquantified next) further

/-! ### Code points in braces -/

/-- The units of a run belong to its class. -/
theorem run_mem (inClass : Nat → Bool) (fuel : Nat) : ∀ i, i ≤ (d.run inClass fuel i).2 ∧
    ∀ k, i ≤ k → k < (d.run inClass fuel i).2 → ∃ unit, d.units[k]? = some unit ∧ inClass unit = true := by
  induction fuel with
  | zero => exact fun i => ⟨Nat.le_refl i, fun k above below => absurd below (Nat.not_lt.2 above)⟩
  | succ fuel ih =>
    intro i
    have stays : i ≤ i ∧ ∀ k, i ≤ k → k < i → ∃ unit, d.units[k]? = some unit ∧ inClass unit = true :=
      ⟨Nat.le_refl i, fun k above below => absurd below (Nat.not_lt.2 above)⟩
    unfold Dialect.run
    rw [lax.at?]
    cases stands : d.units[i]? with
    | none => exact stays
    | some unit =>
      dsimp only
      split
      · rename_i is
        have later := ih (d.next d.unicode i)
        rw [lax.next stands] at later ⊢
        refine ⟨Nat.le_of_succ_le later.1, fun k above below => ?_⟩
        rcases Nat.eq_or_lt_of_le above with rfl | above
        · exact ⟨unit, stands, is⟩
        · exact later.2 k above below
      · exact stays

/-- Digits in braces are a quantifier, and anything else in braces is none. -/
theorem bracedQuantifier_lax {lenient : Bool} {digits : List Nat} {stop : Nat} (left : d.units[p.pos]? = some '{'.toNat)
    (ran : d.run isDigitCode (d.units.size + 1) (p.pos + 1) = (digits, stop))
    (single : d.units[stop]? ≠ some ','.toNat) :
    bracedQuantifier lenient d p =
      if digits ≠ [] ∧ d.units[stop]? = some '}'.toNat then .ok true { p with pos := stop + 1 } else .ok false p := by
  have eaten : eat '{' d p = .ok true { p with pos := p.pos + 1 } := by
    rw [eat_run ((lax.at? _).trans left), lax.next left]
  have decimal : eatDecimal d { p with pos := p.pos + 1 } = .ok (if digits = [] then none
      else some (numberOf 10 (digits.map (· - '0'.toNat)))) { p with pos := stop } := by
    rw [eatDecimal_eq]
    dsimp only
    rw [ran]
  unfold bracedQuantifier
  rw [run_bind position_run, run_bind eaten, if_pos rfl, run_bind decimal]
  by_cases none : digits = []
  · rw [if_pos none, if_neg (fun both => both.1 none)]
    simp only
    rw [run_bind read_run, lax.lenient]
    rfl
  · rw [if_neg none]
    simp only
    rw [run_bind (eat_missed (by rw [lax.at?]; exact single))]
    by_cases closes : d.units[stop]? = some '}'.toNat
    · have eaten : eat '}' d { p with pos := stop } = .ok true { p with pos := stop + 1 } := by
        rw [eat_run ((lax.at? _).trans closes), lax.next closes]
      refine .trans ?_ (if_pos ⟨none, closes⟩).symm
      simp only [Bool.false_eq_true, if_false, pure_bind]
      rw [run_bind eaten]
      rfl
    · refine .trans ?_ (if_neg fun both => closes both.2).symm
      simp only [Bool.false_eq_true, if_false, pure_bind]
      rw [run_bind (eat_missed (by rw [lax.at?]; exact closes))]
      simp only [Bool.false_eq_true, if_false]
      rw [run_bind read_run, lax.lenient]
      rfl

omit [d.Narrow] in
/-- Where an opening brace stands, a quantifier is what the braces say. -/
theorem quantifier_braces {matched : Bool} (left : d.units[p.pos]? = some '{'.toNat)
    (braced : bracedQuantifier false d p = .ok matched { p with pos := k })
    (next : matched = true → d.units[k]? ≠ some '?'.toNat) : quantifier false d p =
      .ok matched { p with pos := k } := by
  have other {c : Char} (other : (c == '{') = false) : eat c d p = .ok false p :=
    eat_missed (lax.other left fun same => by
      have same : '{' = c := Char.toNat_inj.1 same
      simp [← same] at other)
  have tried : anyMatch [eat '*', eat '+', eat '?', bracedQuantifier false] d p = .ok matched { p with pos := k } := by
    rw [anyMatch_missed (other rfl), anyMatch_missed (other rfl), anyMatch_missed (other rfl)]
    cases matched with
    | true => exact anyMatch_run braced
    | false => exact anyMatch_missed braced
  unfold quantifier
  rw [run_bind tried]
  cases matched with
  | false => rfl
  | true =>
    simp only [if_true]
    rw [run_bind (eat_missed (by rw [lax.at?]; exact next rfl))]
    rfl

/-- An opening brace that begins no quantifier stands for itself. -/
theorem leads_brace (left : d.units[i]? = some '{'.toNat)
    (braced : ∀ p : Progress, p.pos = i → bracedQuantifier true d p = .ok false p) (next : d.Unquantified (i + 1)) :
    d.Leads inner depth i (i + 1) := by
  rintro p rfl
  have others (c : Char) (other : (c == '{') = false) : d.at? d.unicode p.pos ≠ some c.toNat :=
    lax.other left fun same => by
      have same : '{' = c := Char.toNat_inj.1 same
      simp [← same] at other
  have missed : assertion inner d p = .ok none p := by
    refine assertion_missed fun c mem => others c ?_
    simp only [List.mem_cons, List.not_mem_nil, or_false] at mem
    rcases mem with rfl | rfl | rfl | rfl <;> rfl
  have eaten : eatCode isLenientCharacter d p = .ok (some '{'.toNat) { p with pos := p.pos + 1 } := by
    rw [eatCode_run ((lax.at? _).trans left) rfl, lax.next left]
  have stray : strayQuantifier d p = .ok false p := by
    unfold strayQuantifier
    rw [run_bind (braced p rfl)]
    rfl
  have atom : lenientAtom inner depth d p = .ok true { p with pos := p.pos + 1 } := by
    unfold lenientAtom
    rw [anyMatch_missed (eat_missed (others _ rfl)), anyMatch_missed (escapedAtom_missed (others _ rfl)),
      anyMatch_missed (characterClass_missed (others _ rfl)), anyMatch_missed (uncapturingGroup_missed (others _ rfl)),
      anyMatch_missed (capturingGroup_missed (others _ rfl)), anyMatch_missed stray]
    refine anyMatch_run ?_
    rw [run_bind eaten]
    rfl
  exact .step (term_atom lax missed atom (lax.unquantified next { p with pos := p.pos + 1 } rfl))
    (Nat.lt_succ_self _) (.here _)

omit [d.Narrow] lax in
/-- What belongs to fewer characters. -/
theorem isOneOf_of_subset {few many : List Char} {unit : Nat} (other : isOneOf many unit = false)
    (subset : (few.all many.contains) = true) : isOneOf few unit = false := by
  simp only [isOneOf, List.any_eq_false, beq_iff_eq] at other ⊢
  exact fun c mem => other c (by simpa using List.all_eq_true.1 subset c mem)

omit [d.Narrow] lax in
theorem unquantified_of_unit {unit : Nat} (stands : d.units[i]? = some unit)
    (other : isOneOf ['*', '+', '?', '{'] unit = false) :
    d.Unquantified i := by
  intro c mem same
  cases stands.symm.trans same
  exact List.any_eq_false.1 other c mem (beq_self_eq_true _)

omit [d.Narrow] lax in
/-- A hexadecimal digit is none of the characters that mean something. -/
theorem other_of_hexValue? {unit : Nat} (hex : (hexValue? unit).isSome = true) :
    isOneOf ['$', '(', ')', '*', '+', '.', '?', '[', '^', '|', '\\', '{', '}', ','] unit = false := by
  have none : (['$', '(', ')', '*', '+', '.', '?', '[', '^', '|', '\\', '{', '}', ','].all fun c =>
    !(hexValue? c.toNat).isSome) = true := rfl
  refine List.any_eq_false.2 fun c mem same => ?_
  rw [← eq_of_beq same] at hex
  simpa [hex] using List.all_eq_true.1 none c mem

omit [d.Narrow] lax in
theorem unquantified_digits (right : d.units[k]? = some '}'.toNat) (le : j ≤ k)
    (hex : ∀ i, j ≤ i → i < k → ∃ unit, d.units[i]? = some unit ∧ (hexValue? unit).isSome = true) :
    d.Unquantified j := by
  rcases Nat.lt_or_eq_of_le le with inside | rfl
  · obtain ⟨unit, stands, digit⟩ := hex j (Nat.le_refl j) inside
    exact unquantified_of_unit stands (isOneOf_of_subset (other_of_hexValue? digit) rfl)
  · exact unquantified_of_unit right rfl

/-- From a digit on, or from the brace that closes, each unit is a term. -/
theorem leads_digits (right : d.units[k]? = some '}'.toNat) (next : d.Unquantified (k + 1)) (n : Nat) :
    ∀ j, j + n = k → (∀ i, j ≤ i → i < k → ∃ unit, d.units[i]? = some unit ∧ (hexValue? unit).isSome = true) →
      d.Leads inner depth j (k + 1) := by
  induction n with
  | zero =>
    rintro j rfl -
    exact leads_literal lax right rfl rfl next
  | succ n ih =>
    intro j last hex
    obtain ⟨unit, stands, digit⟩ := hex j (Nat.le_refl j) (by omega)
    have other := other_of_hexValue? digit
    have literal : isLenientCharacter unit = true := by
      unfold isLenientCharacter
      rw [isOneOf_of_subset other rfl]
      rfl
    have later : ∀ i, j + 1 ≤ i → i < k → ∃ unit, d.units[i]? = some unit ∧ (hexValue? unit).isSome = true :=
      fun i above below => hex i (Nat.le_of_succ_le above) below
    exact (leads_literal lax stands literal (isOneOf_of_subset other rfl)
      (unquantified_digits right (by omega) later)).trans
      (ih (j + 1) (by omega) later)

/-- An escape by a code point in braces is a quantifier behind the letter, or several terms. -/
theorem leads_braces (slash : d.units[i]? = some '\\'.toNat) (letter : d.units[i + 1]? = some 'u'.toNat)
    (left : d.units[i + 2]? = some '{'.toNat) (some' : i + 3 ≤ k) (right : d.units[k]? = some '}'.toNat)
    (hex : ∀ j, i + 3 ≤ j → j < k → ∃ unit, d.units[j]? = some unit ∧ (hexValue? unit).isSome = true)
    (next : d.Unquantified (k + 1)) : d.Leads inner depth i (k + 1) := by
  obtain ⟨digits, stop, ran⟩ : ∃ digits stop, d.run isDigitCode (d.units.size + 1) (i + 2 + 1) =
    (digits, stop) := ⟨_, _, rfl⟩
  have digit : i + 3 ≤ stop ∧ ∀ k, i + 3 ≤ k → k < stop → ∃ unit, d.units[k]? = some unit ∧
      isDigitCode unit = true := by
    have mem := run_mem lax isDigitCode (d.units.size + 1) (i + 2 + 1)
    rwa [ran] at mem
  have inside : stop ≤ k := by
    refine Nat.le_of_not_lt fun past => ?_
    obtain ⟨unit, stands, is⟩ := digit.2 k some' past
    cases right.symm.trans stands
    cases is
  have stops (stands : d.units[stop]? = some '}'.toNat) : stop = k := by
    rcases Nat.lt_or_eq_of_le inside with before | same
    · obtain ⟨unit, stands', digit⟩ := hex stop digit.1 before
      cases stands.symm.trans stands'
      cases digit
    · exact same
  have single : d.units[stop]? ≠ some ','.toNat := by
    intro comma
    rcases Nat.lt_or_eq_of_le inside with before | same
    · obtain ⟨unit, stands', digit⟩ := hex stop digit.1 before
      cases comma.symm.trans stands'
      cases digit
    · cases right.symm.trans (same ▸ comma)
  have braced (lenient : Bool) (p : Progress) (at' : p.pos = i + 2) : bracedQuantifier lenient d p = _ :=
    bracedQuantifier_lax lax (at' ▸ left) (at' ▸ ran) single
  -- The letter alone is the escape.
  have unread (p : Progress) (at' : p.pos = i + 2) : eatFixedHex 4 d p = .ok none { p with pos := i + 2 } := by
    rw [eatFixedHex_missed (at' ▸ left) rfl, ← at']
  have reads (p : Progress) (at' : p.pos = i + 1) :
      characterEscape d p = .ok (some 'u'.toNat) { p with pos := i + 2 } := characterEscape_u lax at' letter unread
  by_cases closes : digits ≠ [] ∧ d.units[stop]? = some '}'.toNat
  · refine leads_escape lax slash letter ⟨rfl, rfl⟩ reads (fun p at' => (?_ : _ = EStateM.Result.ok true _)) (by omega)
    refine quantifier_braces lax (at' ▸ left) ?_ fun _ => next '?' (by simp)
    rw [braced false p at', if_pos closes, stops closes.2]
  · refine Dialect.Leads.trans (j := i + 2) ?_ (Dialect.Leads.trans (j := i + 3) ?_ ?_)
    · refine leads_escape lax slash letter ⟨rfl, rfl⟩ reads
        (fun p at' => (?_ : _ = EStateM.Result.ok false _)) (by omega)
      refine quantifier_braces lax (at' ▸ left) ?_ fun no => by cases no
      rw [braced false p at', if_neg closes, ← at']
    · refine leads_brace lax left (fun p at' => ?_) ?_
      · rw [braced true p at', if_neg closes]
      · exact unquantified_digits right some' hex
    · exact leads_digits lax right next (k - (i + 3)) (i + 3) (by omega) hex

/-! ### Names -/

omit [d.Narrow] lax in
theorem Dialect.HexAt.mem {digits : List Nat} (hex : d.HexAt i digits) :
    ∀ k, i ≤ k → k < i + digits.length → ∃ unit, d.units[k]? = some unit ∧ (hexValue? unit).isSome = true := by
  induction digits generalizing i with
  | nil => exact fun k above below => absurd below (Nat.not_lt.2 above)
  | cons digit digits ih =>
    obtain ⟨⟨unit, stands, value⟩, later⟩ := hex
    intro k above below
    rcases Nat.eq_or_lt_of_le above with rfl | above
    · exact ⟨unit, stands, by rw [value]; rfl⟩
    · exact ih later k above (by rw [List.length_cons] at below; omega)

theorem leads_unit_escape {unit : Nat} (escape : d.EscapesUnit i unit) (next : d.Unquantified (i + 6)) :
    d.Leads inner depth i (i + 6) := by
  obtain ⟨slash, letter, digits, length, hex, same⟩ := escape
  have reads (p : Progress) (at' : p.pos = i + 2) : eatFixedHex 4 d p = .ok (some unit) { p with pos := i + 6 } :=
    eatFixedHex_eq_some.2 ⟨digits, length, at' ▸ hex, same, by rw [at']⟩
  exact leads_fixed lax slash letter reads (by omega) next

/-- An escape by code point, with its backslash. -/
theorem leads_unicodeEscape {joined : Bool} {code : Nat} (escape : d.Escapes joined i j code)
    (next : d.Unquantified j) :
    d.Leads inner depth i j := by
  cases escape with
  | unit escape => exact leads_unit_escape lax escape next
  | pair _ first second =>
    have between : d.Unquantified (i + 6) := unquantified_of_unit second.slash rfl
    exact (leads_unit_escape lax first between).trans (leads_unit_escape lax second next)
  | @braces digits _ slash letter left some' hex right =>
    have stop : i + 4 + digits.length = i + 3 + digits.length + 1 := by omega
    rw [stop] at next ⊢
    exact leads_braces lax slash letter left (by omega) right hex.mem next

omit [d.Narrow] lax in
/-- But for the dollar sign, what belongs to a name is none of the characters that mean something. -/
theorem other_of_belongsToName {atStart : Bool} {unit : Nat} {c : Char} (scalar : scalar? unit = some c)
    (belongs : belongsToName atStart c = true) :
    isOneOf ['(', ')', '*', '+', '.', '?', '[', '^', '|', '\\', '{'] unit = false := by
  have none : (['(', ')', '*', '+', '.', '?', '[', '^', '|', '\\', '{'].all fun c =>
    !(scalar? c.toNat).any (belongsToName atStart)) = true := by cases atStart <;> rfl
  refine List.any_eq_false.2 fun c mem same => ?_
  rw [← eq_of_beq same] at scalar
  have refused := List.all_eq_true.1 none c mem
  rw [scalar, Option.any_some, belongs] at refused
  cases refused

/-- A unit of a name that stands for itself. -/
theorem leads_unit {unit : Nat} (stands : d.units[i]? = some unit)
    (other : isOneOf ['(', ')', '*', '+', '.', '?', '[', '^', '|', '\\', '{'] unit = false)
    (next : d.Unquantified (i + 1)) :
    d.Unquantified i ∧ d.Leads inner depth i (i + 1) := by
  refine ⟨unquantified_of_unit stands (isOneOf_of_subset other rfl), ?_⟩
  by_cases dollar : unit = '$'.toNat
  · exact leads_dollar lax (dollar ▸ stands)
  · refine leads_literal lax stands ?_ (isOneOf_of_subset other rfl) next
    show (!(('$'.toNat == unit) || isOneOf ['(', ')', '*', '+', '.', '?', '[', '^', '|'] unit)) = true
    rw [beq_eq_false_iff_ne.2 (Ne.symm dollar), isOneOf_of_subset other rfl]
    rfl

/-- A character of a name, however it is written. -/
theorem leads_writes {atStart joined : Bool} {c : Char} (belongs : belongsToName atStart c = true)
    (writes : d.Writes joined i j c.toNat) (next : d.Unquantified j) : d.Unquantified i ∧ d.Leads inner depth i j := by
  have other := other_of_belongsToName (scalar?_toNat c) belongs
  generalize c.toNat = code at writes other
  cases writes with
  | escaped escape => exact ⟨unquantified_of_unit escape.slash rfl, leads_unicodeEscape lax escape next⟩
  | plain stands =>
    obtain ⟨stands, single⟩ | ⟨high, low, first, second, largeHigh, largeLow, -, pair⟩ := Dialect.at?_cases stands
    · rw [single] at next ⊢
      exact leads_unit lax stands other next
    · have surrogate {unit : Nat} (large : 0xd800 ≤ unit) :
          isOneOf ['(', ')', '*', '+', '.', '?', '[', '^', '|', '\\', '{'] unit = false := by
        refine List.any_eq_false.2 fun c mem same => ?_
        have small :
            (['(', ')', '*', '+', '.', '?', '[', '^', '|', '\\', '{'].all fun c => decide (c.toNat < 0xd800)) = true :=
          rfl
        have lt := of_decide_eq_true (List.all_eq_true.1 small c mem)
        rw [eq_of_beq same] at lt
        omega
      rw [pair] at next ⊢
      obtain ⟨middle, trail⟩ := leads_unit lax second (surrogate largeLow) next
      obtain ⟨start, lead⟩ := leads_unit lax first (surrogate largeHigh) middle
      exact ⟨start, lead.trans trail⟩

theorem leads_writesRest {cs : List Char} (writes : d.WritesRest i cs j) (next : d.Unquantified j) :
    d.Unquantified i ∧ d.Leads inner depth i j := by
  induction cs generalizing i with
  | nil =>
    obtain rfl : i = j := writes
    exact ⟨next, .refl _⟩
  | cons c cs ih =>
    obtain ⟨belongs, k, first, rest⟩ := writes
    obtain ⟨middle, trail⟩ := ih rest
    obtain ⟨start, lead⟩ := leads_writes lax belongs first middle
    exact ⟨start, lead.trans trail⟩

/-- A name in angle brackets, up to the one that closes. -/
theorem leads_groupName {name : String} (run : groupName d p = .ok (some name) r) : d.units[p.pos]? = some '<'.toNat ∧
    ∃ k, p.pos < k ∧ d.units[k]? = some '>'.toNat ∧ r.pos = k + 1 ∧ d.Leads inner depth p.pos k := by
  obtain ⟨left, k, ⟨c, cs, j, -, belongs, first, rest⟩, right, stop⟩ := groupName_writes run
  obtain ⟨middle, trail⟩ := leads_writesRest lax rest (unquantified_of_unit right rfl)
  obtain ⟨start, lead⟩ := leads_writes lax belongs first middle
  have forward := first.lt
  have further := rest.le
  exact ⟨left, k, by omega, right, stop, (leads_literal lax left rfl rfl start).trans (lead.trans trail)⟩

end

end RegExp
end ScriptSyntax
