import ScriptSyntax.Proofs.RegExp.Mirror
import ScriptSyntax.Proofs.RegExp.Run

/-!
The name of a group as it is written.  Between the brackets each character stands for itself or is escaped by its code,
and the name that is read is the one that is written there.
-/

namespace ScriptSyntax
namespace RegExp

open Number

variable {α : Type} {d : Dialect} {i j : Nat} {p q : Progress} {joined : Bool}

/-! ### What is written -/

/-- Hexadecimal digits of these values stand from an offset on. -/
def Dialect.HexAt (d : Dialect) : Nat → List Nat → Prop
  | _, [] => True
  | i, digit :: digits => (∃ unit, d.units[i]? = some unit ∧ hexValue? unit = some digit) ∧ d.HexAt (i + 1) digits

/-- A backslash, the letter `u` and the four digits of a code unit. -/
structure Dialect.EscapesUnit (d : Dialect) (i unit : Nat) : Prop where
  slash : d.units[i]? = some '\\'.toNat
  letter : d.units[i + 1]? = some 'u'.toNat
  digits : ∃ digits, digits.length = 4 ∧ d.HexAt (i + 2) digits ∧ unit = natOfDigits 16 digits

/-- From an offset up to another stands an escape of a code: that of a unit or, where code points count, those of two
surrogates or digits in braces. -/
inductive Dialect.Escapes (d : Dialect) (joined : Bool) (i : Nat) : Nat → Nat → Prop where
  | unit {unit : Nat} (escape : d.EscapesUnit i unit) : Escapes d joined i (i + 6) unit
  | pair {high low : Nat} (joins : joined = true) (first : d.EscapesUnit i high) (second : d.EscapesUnit (i + 6) low)
      (isHigh : isHighSurrogate high = true) (isLow : isLowSurrogate low = true) :
      Escapes d joined i (i + 12) (joinSurrogates high low)
  | braces {digits : List Nat} (joins : joined = true) (slash : d.units[i]? = some '\\'.toNat)
      (letter : d.units[i + 1]? = some 'u'.toNat) (left : d.units[i + 2]? = some '{'.toNat) (some' : digits ≠ [])
      (hex : d.HexAt (i + 3) digits) (right : d.units[i + 3 + digits.length]? = some '}'.toNat)
      (small : natOfDigits 16 digits ≤ 0x10ffff) :
      Escapes d joined i (i + 4 + digits.length) (natOfDigits 16 digits)

theorem Dialect.Escapes.slash {code : Nat} (escape : d.Escapes joined i j code) : d.units[i]? = some '\\'.toNat := by
  cases escape with
  | unit escape => exact escape.slash
  | pair _ first => exact first.slash
  | braces _ slash => exact slash

/-- From an offset up to another stands a code, as it is or escaped. -/
inductive Dialect.Writes (d : Dialect) (joined : Bool) (i : Nat) : Nat → Nat → Prop where
  | plain {code : Nat} (stands : d.at? joined i = some code) (other : code ≠ '\\'.toNat) :
      Writes d joined i (d.next joined i) code
  | escaped {j code : Nat} (escape : d.Escapes joined i j code) : Writes d joined i j code

/-- Do code points count in names? -/
def Dialect.joinsNames (d : Dialect) : Bool := decide (11 ≤ d.edition) || d.unicode

/-- The rest of a name is written from an offset up to another. -/
def Dialect.WritesRest (d : Dialect) : Nat → List Char → Nat → Prop
  | i, [], k => i = k
  | i, c :: cs, k => belongsToName false c = true ∧ ∃ j, d.Writes d.joinsNames i j c.toNat ∧ d.WritesRest j cs k

/-- A name is written from an offset up to another. -/
def Dialect.WritesName (d : Dialect) (i : Nat) (name : String) (k : Nat) : Prop :=
  ∃ c cs j, name = String.ofList (c :: cs) ∧ belongsToName true c = true ∧ d.Writes d.joinsNames i j c.toNat ∧
    d.WritesRest j cs k

/-- A name in angle brackets is written from an offset up to another. -/
structure Dialect.WritesGroupName (d : Dialect) (i : Nat) (name : String) (k : Nat) : Prop where
  left : d.units[i]? = some '<'.toNat
  name : ∃ j, d.WritesName (i + 1) name j ∧ d.units[j]? = some '>'.toNat ∧ k = j + 1

/-! ### Steps that may go back -/

theorem orRewind_eq_some {x : PatternM (Option α)} {a : α} :
    orRewind x d p = .ok (some a) q ↔ x d p = .ok (some a) q := by
  unfold orRewind
  rw [run_bind position_run]
  constructor
  · intro run
    obtain ⟨found, q', inner, ends⟩ := bind_eq_ok.1 run
    cases found with
    | some found =>
      cases ends
      exact inner
    | none =>
      obtain ⟨_, _, -, no⟩ := bind_eq_ok.1 ends
      cases no
  · intro run
    rw [run_bind run]
    rfl

theorem orRewind_eq_none {x : PatternM (Option α)} (run : orRewind x d p = .ok none q) : q.pos = p.pos := by
  obtain ⟨start, p', same, rest⟩ := bind_eq_ok.1 run
  cases same
  obtain ⟨found, q', inner, ends⟩ := bind_eq_ok.1 rest
  cases found with
  | some found => cases ends
  | none =>
    obtain ⟨_, _, back, ends⟩ := bind_eq_ok.1 ends
    cases back
    cases ends
    rfl

theorem advance_run : advance d p = .ok ⟨⟩ { p with pos := d.next d.unicode p.pos } := by
  show EStateM.Result.ok _ { p with pos := d.next (false || d.unicode) p.pos } = _
  rw [Bool.false_or]

variable [d.Narrow]

/-- A character below the surrogates is eaten where its unit stands, and nowhere else. -/
theorem eat_eq {c : Char} (small : c.toNat < 0xd800) : eat c d p =
    if d.units[p.pos]? = some c.toNat then .ok true { p with pos := p.pos + 1 } else .ok false p := by
  split
  · next stands =>
    have here : d.at? d.unicode p.pos = some c.toNat := Dialect.at?_of_unit stands small
    rw [eat_run here, (Dialect.at?_char here small).2]
  · next other => exact eat_missed fun stands => other (Dialect.at?_char stands small).1

/-! ### Digits -/

omit [d.Narrow] in
theorem lt_of_hexValue? {code digit : Nat} (hex : hexValue? code = some digit) : code < 0xd800 := by
  obtain ⟨c, scalar, value⟩ := Option.bind_eq_some_iff.1 hex
  rw [← scalar?_eq_some scalar]
  have letter : c ≤ 'z' := by
    obtain ⟨value, -⟩ := Option.filter_eq_some_iff.1 value
    unfold Alphabet.digitValue? Alphabet.isDecimalDigit at value
    simp only [Bool.and_eq_true, decide_eq_true_eq] at value
    split at value
    · next digit => exact Char.le_trans digit.2 (by decide)
    split at value
    · next lower => exact lower.2
    split at value
    · next upper => exact Char.le_trans upper.2 (by decide)
    · cases value
  exact Nat.lt_of_le_of_lt (UInt32.le_iff_toNat_le.1 letter) (by decide)

/-- So many digits are read if they stand there. -/
theorem eatFixedHex_eq_some {count value : Nat} : eatFixedHex count d p = .ok (some value) q ↔
    ∃ digits, digits.length = count ∧ d.HexAt p.pos digits ∧ value = natOfDigits 16 digits ∧
      q = { p with pos := p.pos + count } := by
  suffices all : ∀ start count total p, eatFixedHex.go start count total d p = .ok (some value) q ↔
      ∃ digits, digits.length = count ∧ d.HexAt p.pos digits ∧
        value = digits.foldl (fun total digit => total * 16 + digit) total ∧ q = { p with pos := p.pos + count } by
    exact all p.pos count 0 p
  intro start count
  induction count with
  | zero =>
    intro total p
    constructor
    · intro run
      cases run
      exact ⟨[], rfl, trivial, rfl, rfl⟩
    · rintro ⟨digits, none, -, rfl, rfl⟩
      rw [List.length_eq_zero_iff.1 none]
      rfl
  | succ count ih =>
    intro total p
    show (peek >>= _) d p = _ ↔ _
    rw [run_bind peek_run]
    cases found : (d.at? d.unicode p.pos).bind hexValue? with
    | none =>
      constructor
      · intro run
        cases run
      · rintro ⟨digits, length, hex, -, -⟩
        cases digits with
        | nil => cases length
        | cons digit digits =>
          obtain ⟨⟨unit, stands, value⟩, -⟩ := hex
          rw [Dialect.at?_of_unit stands (lt_of_hexValue? value), Option.bind_some, value] at found
          cases found
    | some digit =>
      obtain ⟨code, here, value⟩ := Option.bind_eq_some_iff.1 found
      obtain ⟨stands, next⟩ := Dialect.at?_char here (lt_of_hexValue? value)
      show (advance >>= _) d p = _ ↔ _
      rw [run_bind advance_run, next, ih]
      constructor
      · rintro ⟨digits, length, hex, value', rfl⟩
        exact ⟨digit :: digits, by rw [List.length_cons, length], ⟨⟨code, stands, value⟩, hex⟩, value',
          by rw [Nat.add_right_comm]; rfl⟩
      · rintro ⟨digits, length, hex, value', rfl⟩
        cases digits with
        | nil => cases length
        | cons digit' digits =>
          obtain ⟨⟨unit, stands', same⟩, hex⟩ := hex
          cases stands.symm.trans stands'
          cases value.symm.trans same
          exact ⟨digits, Nat.succ.inj length, hex, value', by rw [Nat.add_right_comm]; rfl⟩

/-- Digits that are not found leave the cursor where it was. -/
theorem eatFixedHex_missed {unit count : Nat} (stands : d.units[p.pos]? = some unit) (other : hexValue? unit = none) :
    eatFixedHex (count + 1) d p = .ok none p := by
  unfold eatFixedHex
  rw [run_bind position_run]
  show (peek >>= _) d p = _
  have missed : (d.at? d.unicode p.pos).bind hexValue? = none := by
    rw [Option.bind_eq_none_iff]
    intro code here
    cases value : hexValue? code with
    | none => rfl
    | some digit =>
      cases stands.symm.trans (Dialect.at?_char here (lt_of_hexValue? value)).1
      cases other.symm.trans value
  rw [run_bind peek_run, missed]
  rfl

/-- A run of digits is what stands there. -/
theorem run_hexAt (fuel : Nat) : ∀ i, ∃ digits,
    (d.run (fun code => (hexValue? code).isSome) fuel i).1.filterMap hexValue? = digits ∧
    (d.run (fun code => (hexValue? code).isSome) fuel i).1.length = digits.length ∧ d.HexAt i digits ∧
    (d.run (fun code => (hexValue? code).isSome) fuel i).2 = i + digits.length := by
  induction fuel with
  | zero => exact fun i => ⟨[], rfl, rfl, trivial, rfl⟩
  | succ fuel ih =>
    intro i
    unfold Dialect.run
    cases here : d.at? d.unicode i with
    | none => exact ⟨[], rfl, rfl, trivial, rfl⟩
    | some code =>
      cases value : hexValue? code with
      | none => exact ⟨[], by simp [value], by simp [value], trivial, by simp [value]⟩
      | some digit =>
        obtain ⟨stands, next⟩ := Dialect.at?_char here (lt_of_hexValue? value)
        obtain ⟨digits, same, length, hex, stop⟩ := ih (i + 1)
        refine ⟨digit :: digits, ?_, ?_, ⟨⟨code, stands, value⟩, hex⟩, ?_⟩
        · simp [value, next, same]
        · simp [value, next, length]
        · simp [value, next, stop]
          omega

/-- Digits that stand there, and no more, are the run. -/
theorem run_of_hexAt {digits : List Nat} (hex : d.HexAt i digits)
    (stop : ∀ unit, d.units[i + digits.length]? = some unit → hexValue? unit = none) {fuel : Nat}
    (enough : digits.length ≤ fuel) :
    (d.run (fun code => (hexValue? code).isSome) fuel i).1.filterMap hexValue? = digits ∧
    (d.run (fun code => (hexValue? code).isSome) fuel i).2 = i + digits.length := by
  induction digits generalizing i fuel with
  | nil =>
    cases fuel with
    | zero => exact ⟨rfl, rfl⟩
    | succ fuel =>
      unfold Dialect.run
      cases here : d.at? d.unicode i with
      | none => exact ⟨rfl, rfl⟩
      | some code =>
        cases value : hexValue? code with
        | none => simp [value]
        | some digit => cases value.symm.trans (stop code (Dialect.at?_char here (lt_of_hexValue? value)).1)
  | cons digit digits ih =>
    cases fuel with
    | zero => cases enough
    | succ fuel =>
      obtain ⟨⟨unit, stands, value⟩, hex⟩ := hex
      have here : d.at? d.unicode i = some unit := Dialect.at?_of_unit stands (lt_of_hexValue? value)
      have next := (Dialect.at?_char here (lt_of_hexValue? value)).2
      have later := ih hex (fun unit stands => stop unit (by
        rwa [List.length_cons, Nat.add_comm digits.length, ← Nat.add_assoc]))
        (Nat.le_of_succ_le_succ enough)
      unfold Dialect.run
      simp only [here, value, Option.isSome_some, if_true, next, List.filterMap_cons, later, List.length_cons]
      exact ⟨trivial, by omega⟩

theorem eatHex_hexAt {value : Nat} (run : eatHex d p = .ok (some value) q) :
    ∃ digits, digits ≠ [] ∧ d.HexAt p.pos digits ∧ value = min (natOfDigits 16 digits) maxNumber ∧
      q.pos = p.pos + digits.length := by
  obtain ⟨digits, same, length, hex, stop⟩ := run_hexAt (d := d) (d.units.size + 1) p.pos
  rw [eatHex_eq] at run
  obtain ⟨found, rfl⟩ := EStateM.Result.ok.inj run
  obtain ⟨some', found⟩ := Option.ite_none_left_eq_some.1 found
  refine ⟨digits, ?_, hex, ?_, stop⟩
  · rintro rfl
    exact some' (List.length_eq_zero_iff.1 length)
  · rw [← Option.some.inj found, same, numberOf_eq (by decide)]

theorem eatHex_of_hexAt {digits : List Nat} (some' : digits ≠ []) (hex : d.HexAt p.pos digits)
    (stop : d.units[p.pos + digits.length]? = some '}'.toNat) :
    eatHex d p = .ok (some (min (natOfDigits 16 digits) maxNumber)) { p with pos := p.pos + digits.length } := by
  have inside := (Array.getElem?_eq_some_iff.1 stop).1
  have enough : digits.length ≤ d.units.size + 1 := by omega
  obtain ⟨same, next⟩ := run_of_hexAt hex (fun unit stands => by cases stop.symm.trans stands; decide) enough
  rw [eatHex_eq, if_neg, same, next, numberOf_eq (by decide)]
  intro none
  rw [none] at same
  exact some' same.symm

/-! ### Escapes -/

theorem eatPair_eq_true {c c' : Char} (small : c.toNat < 0xd800) (small' : c'.toNat < 0xd800) :
    eatPair c c' d p = .ok true q ↔
      d.units[p.pos]? = some c.toNat ∧ d.units[p.pos + 1]? = some c'.toNat ∧ q = { p with pos := p.pos + 2 } := by
  unfold eatPair
  rw [run_bind position_run]
  by_cases first : d.units[p.pos]? = some c.toNat
  · rw [run_bind ((eat_eq small).trans (if_pos first)), if_pos rfl]
    by_cases second : d.units[p.pos + 1]? = some c'.toNat
    · rw [run_bind ((eat_eq small').trans (if_pos second)), if_pos rfl]
      constructor
      · intro run
        cases run
        exact ⟨first, second, rfl⟩
      · rintro ⟨-, -, rfl⟩
        rfl
    · rw [run_bind ((eat_eq small').trans (if_neg second))]
      exact ⟨fun run => (by cases run), fun both => absurd both.2.1 second⟩
  · rw [run_bind ((eat_eq small).trans (if_neg first))]
    exact ⟨fun run => (by cases run), fun both => absurd both.1 first⟩

theorem lowSurrogateEscape_eq_some {low : Nat} : lowSurrogateEscape d p = .ok (some low) q ↔
    d.EscapesUnit p.pos low ∧ isLowSurrogate low = true ∧ q = { p with pos := p.pos + 6 } := by
  unfold lowSurrogateEscape
  rw [orRewind_eq_some]
  constructor
  · intro run
    obtain ⟨both, q', pair, rest⟩ := bind_eq_ok.1 run
    cases both with
    | false => cases rest
    | true =>
      obtain ⟨slash, letter, rfl⟩ := (eatPair_eq_true (by decide) (by decide)).1 pair
      obtain ⟨value, q', fixed, ends⟩ := bind_eq_ok.1 rest
      cases value with
      | none => cases ends
      | some value =>
        obtain ⟨digits, length, hex, rfl, rfl⟩ := eatFixedHex_eq_some.1 fixed
        obtain ⟨found, rfl⟩ := EStateM.Result.ok.inj ends
        obtain ⟨isLow, found⟩ := Option.ite_none_right_eq_some.1 found
        cases found
        exact ⟨⟨slash, letter, digits, length, hex, rfl⟩, isLow, rfl⟩
  · rintro ⟨⟨slash, letter, digits, length, hex, rfl⟩, isLow, rfl⟩
    rw [run_bind ((eatPair_eq_true (by decide) (by decide)).2 ⟨slash, letter, rfl⟩), if_pos rfl,
      run_bind (eatFixedHex_eq_some.2 ⟨digits, length, hex, rfl, rfl⟩)]
    simp only [isLow, if_true]
    rfl

omit [d.Narrow] in
theorem fixedHex_back {count : Nat} (run : eatFixedHex count d p = .ok none q) : q.pos = p.pos := by
  have goes (start : Nat) : ∀ count total p, eatFixedHex.go start count total d p = .ok none q → q.pos = start := by
    intro count
    induction count with
    | zero => exact fun _ _ no => by cases no
    | succ count ih =>
      intro total p run
      obtain ⟨code, t, peeks, rest⟩ := bind_eq_ok.1 run
      cases found : code.bind hexValue? with
      | some digit =>
        rw [found] at rest
        obtain ⟨_, t, _, rest⟩ := bind_eq_ok.1 rest
        exact ih _ _ rest
      | none =>
        rw [found] at rest
        obtain ⟨_, t, back, ends⟩ := bind_eq_ok.1 rest
        cases back
        cases ends
        rfl
  exact goes p.pos count 0 p run

/-- What is read as an escape is one. -/
theorem unicodeEscape_escapes {value : Nat} (slash : d.units[i]? = some '\\'.toNat) (at' : p.pos = i + 1)
    (run : unicodeEscape joined d p = .ok (some value) q) : d.Escapes (joined || d.unicode) i q.pos value := by
  unfold unicodeEscape at run
  rw [run_bind position_run, run_bind read_run] at run
  dsimp only at run
  generalize (joined || d.unicode) = joined at run ⊢
  by_cases letter : d.units[p.pos]? = some 'u'.toNat
  · rw [run_bind ((eat_eq (by decide)).trans (if_pos letter)), if_pos rfl] at run
    rw [at'] at letter
    obtain ⟨fixed, q', four, rest⟩ := bind_eq_ok.1 run
    cases fixed with
    | some fixed =>
      obtain ⟨digits, length, hex, same, rfl⟩ := eatFixedHex_eq_some.1 four
      dsimp only at hex rest
      rw [at'] at hex rest
      have first : d.EscapesUnit i fixed := ⟨slash, letter, digits, length, hex, same⟩
      split at rest
      · next high =>
        obtain ⟨joins, isHigh⟩ := Bool.and_eq_true_iff.1 high
        obtain ⟨low, t, follows, ends⟩ := bind_eq_ok.1 rest
        cases low with
        | some low =>
          obtain ⟨second, isLow, rfl⟩ := lowSurrogateEscape_eq_some.1 follows
          obtain ⟨found, rfl⟩ := EStateM.Result.ok.inj ends
          obtain rfl := Option.some.inj found
          exact .pair joins first second isHigh isLow
        | none =>
          cases ends
          rw [orRewind_eq_none follows]
          exact .unit first
      · cases rest
        exact .unit first
    | none =>
      have back : q'.pos = i + 2 := (fixedHex_back four).trans (congrArg (· + 1) at')
      simp only at rest
      split at rest
      · next joins =>
        obtain ⟨left, t, opens, rest⟩ := bind_eq_ok.1 rest
        rw [eat_eq (by decide)] at opens
        split at opens
        · next left =>
          cases opens
          rw [back] at left rest
          obtain ⟨code, t, braced, rest⟩ := bind_eq_ok.1 rest
          cases code with
          | none =>
            obtain ⟨_, _, no, _⟩ := bind_eq_ok.1 rest
            cases no
          | some code =>
            obtain ⟨digits, some', hex, number, stop⟩ := eatHex_hexAt braced
            obtain ⟨right, t', closes, rest⟩ := bind_eq_ok.1 rest
            rw [eat_eq (by decide)] at closes
            split at closes
            · next right =>
              cases closes
              simp only [if_true] at rest
              split at rest
              · next small =>
                cases rest
                dsimp only at hex stop
                have counts : 0x10ffff < maxNumber := by decide
                have same : value = natOfDigits 16 digits := by omega
                rw [stop] at right
                rw [same, stop, show i + 2 + 1 + digits.length + 1 = i + 4 + digits.length by omega]
                exact .braces joins slash letter left some' hex right (same ▸ small)
              · obtain ⟨_, _, no, _⟩ := bind_eq_ok.1 rest
                cases no
            · cases closes
              obtain ⟨_, _, no, _⟩ := bind_eq_ok.1 rest
              cases no
        · cases opens
          obtain ⟨_, _, no, _⟩ := bind_eq_ok.1 rest
          cases no
      · obtain ⟨_, _, _, ends⟩ := bind_eq_ok.1 rest
        cases ends
  · rw [run_bind ((eat_eq (by decide)).trans (if_neg letter))] at run
    cases run

/-- The escape of a character is read whole. -/
theorem unicodeEscape_of_escapes {c : Char} (escape : d.Escapes (joined || d.unicode) i j c.toNat)
    (at' : p.pos = i + 1) :
    unicodeEscape joined d p = .ok (some c.toNat) { p with pos := j } := by
  have single : isHighSurrogate c.toNat = false := by
    have valid : c.toNat.isValidChar := c.valid
    simp only [isHighSurrogate, Bool.and_eq_false_iff, decide_eq_false_iff_not]
    unfold Nat.isValidChar at valid
    omega
  unfold unicodeEscape
  rw [run_bind position_run, run_bind read_run]
  dsimp only
  generalize (joined || d.unicode) = joined at escape ⊢
  -- The letter and what it is followed by, whatever the escape is.
  have begins (letter : d.units[i + 1]? = some 'u'.toNat) :
      eat 'u' d p = .ok true { p with pos := i + 2 } := by
    rw [eat_eq (by decide), at', if_pos letter]
  have four {unit k : Nat} (escape : d.EscapesUnit k unit) (q : Progress) (there : q.pos = k + 2) :
      eatFixedHex 4 d q = .ok (some unit) { q with pos := k + 6 } := by
    obtain ⟨digits, length, hex, same⟩ := escape.digits
    exact eatFixedHex_eq_some.2 ⟨digits, length, there ▸ hex, same, by rw [there]⟩
  generalize code : c.toNat = value at escape single ⊢
  cases escape with
  | unit escape =>
    rw [run_bind (begins escape.letter), if_pos rfl, run_bind (four escape _ rfl)]
    simp only [single, Bool.and_false, Bool.false_eq_true, if_false]
    rfl
  | pair joins first second isHigh isLow =>
    rw [run_bind (begins first.letter), if_pos rfl, run_bind (four first _ rfl)]
    simp only [joins, isHigh, Bool.and_true, if_true]
    rw [run_bind (lowSurrogateEscape_eq_some.2 ⟨second, isLow, rfl⟩)]
    rfl
  | @braces digits joins slash letter left some' hex right small =>
    have counts : 0x10ffff < maxNumber := by decide
    rw [run_bind (begins letter), if_pos rfl, run_bind (eatFixedHex_missed left (by decide))]
    simp only [joins, if_true]
    rw [run_bind ((eat_eq (by decide)).trans (if_pos left)), if_pos rfl, run_bind (eatHex_of_hexAt some' hex right)]
    simp only [Nat.min_eq_left (Nat.le_trans small (Nat.le_of_lt counts))]
    rw [run_bind ((eat_eq (by decide)).trans (if_pos right)), if_pos rfl, if_pos small]
    rw [show i + 2 + 1 + digits.length + 1 = i + 4 + digits.length by omega]
    rfl

/-! ### Characters of a name -/

omit [d.Narrow] in
theorem nameCode_eq : nameCode joined d p =
    (if d.at? (joined || d.unicode) p.pos == some '\\'.toNat then (do
      match ← unicodeEscape joined with
      | some value => return some value
      | none => return d.at? (joined || d.unicode) p.pos : PatternM (Option Nat))
    else return d.at? (joined || d.unicode) p.pos) d { p with pos := d.next (joined || d.unicode) p.pos } := rfl

theorem not_belongsToName_backslash (atStart : Bool) : belongsToName atStart '\\' = false := by
  cases atStart <;> decide

theorem nameCharacter_writes {atStart : Bool} {c : Char} (run : nameCharacter atStart d p = .ok (some c) q) :
    belongsToName atStart c = true ∧ d.Writes d.joinsNames p.pos q.pos c.toNat := by
  obtain ⟨edition, t, same, rest⟩ := bind_eq_ok.1 (orRewind_eq_some.1 run)
  cases same
  obtain ⟨code, t, reads, ends⟩ := bind_eq_ok.1 rest
  obtain ⟨found, rfl⟩ := EStateM.Result.ok.inj ends
  obtain ⟨scalar, belongs⟩ := Option.filter_eq_some_iff.1 found
  obtain ⟨unit, rfl, scalar⟩ := Option.bind_eq_some_iff.1 scalar
  obtain rfl := scalar?_eq_some scalar
  refine ⟨belongs, ?_⟩
  have other : c.toNat ≠ '\\'.toNat := fun same => by
    rw [Char.toNat_inj.1 same, not_belongsToName_backslash] at belongs
    cases belongs
  rw [nameCode_eq] at reads
  split at reads
  · next slash =>
    obtain ⟨stands, next⟩ := Dialect.at?_char (eq_of_beq slash) (by decide)
    obtain ⟨value, t, escape, ends⟩ := bind_eq_ok.1 reads
    cases value with
    | some value =>
      obtain ⟨found, rfl⟩ := EStateM.Result.ok.inj ends
      obtain rfl := Option.some.inj found
      exact .escaped (unicodeEscape_escapes stands next escape)
    | none =>
      obtain ⟨found, -⟩ := EStateM.Result.ok.inj ends
      exact absurd (Option.some.inj (found.symm.trans (eq_of_beq slash))) other
  · obtain ⟨found, rfl⟩ := EStateM.Result.ok.inj reads
    exact .plain found other

theorem nameCharacter_of_writes {atStart : Bool} {c : Char} (belongs : belongsToName atStart c = true)
    (writes : d.Writes d.joinsNames p.pos j c.toNat) :
    nameCharacter atStart d p = .ok (some c) { p with pos := j } := by
  unfold nameCharacter
  rw [orRewind_eq_some, run_bind read_run]
  suffices reads : nameCode (decide (11 ≤ d.edition)) d p = .ok (some c.toNat) { p with pos := j } by
    rw [run_bind reads, Option.bind_some, scalar?_toNat, Option.filter_some_pos belongs]
    rfl
  rw [nameCode_eq]
  generalize code : c.toNat = value at writes
  cases writes with
  | plain stands other =>
    rw [if_neg]
    · show EStateM.Result.ok (d.at? d.joinsNames p.pos) _ = _
      rw [stands]
      rfl
    · rw [beq_iff_eq]
      exact fun slash => other (Option.some.inj (stands.symm.trans slash))
  | escaped escape =>
    have here : d.at? (decide (11 ≤ d.edition) || d.unicode) p.pos = some '\\'.toNat :=
      Dialect.at?_of_unit escape.slash (by decide)
    have next := (Dialect.at?_char here (by decide)).2
    rw [if_pos (beq_iff_eq.2 here), run_bind (unicodeEscape_of_escapes (code ▸ escape) next), code]
    rfl

omit [d.Narrow] in
theorem nameCharacter_missed {atStart : Bool} {c : Char} (stands : d.units[p.pos]? = some c.toNat)
    (small : c.toNat < 0xd800) (plain : c ≠ '\\') (refused : belongsToName atStart c = false) :
    nameCharacter atStart d p = .ok none p := by
  have here (joined : Bool) : d.at? joined p.pos = some c.toNat := Dialect.at?_of_unit stands small
  unfold nameCharacter
  refine orRewind_missed (q := { p with pos := d.next d.joinsNames p.pos }) ?_
  rw [run_bind read_run]
  have reads : nameCode (decide (11 ≤ d.edition)) d p =
      .ok (some c.toNat) { p with pos := d.next d.joinsNames p.pos } := by
    rw [nameCode_eq, here, if_neg]
    · rfl
    · rw [beq_iff_eq]
      exact fun same => plain (Char.toNat_inj.1 (Option.some.inj same))
  rw [run_bind reads, Option.bind_some, scalar?_toNat, Option.filter_some_neg (by simp [refused])]
  rfl

/-! ### Names -/

omit [d.Narrow] in
theorem Dialect.Writes.lt {code : Nat} (writes : d.Writes joined i j code) : i < j := by
  cases writes with
  | plain stands => exact Dialect.lt_next stands
  | escaped escape => cases escape <;> omega

omit [d.Narrow] in
theorem Dialect.WritesRest.le {cs : List Char} (writes : d.WritesRest i cs j) : i + cs.length ≤ j := by
  induction cs generalizing i with
  | nil => exact Nat.le_of_eq writes
  | cons c cs ih =>
    obtain ⟨-, k, first, rest⟩ := writes
    have lt := first.lt
    have le := ih rest
    rw [List.length_cons]
    omega

theorem nameRest_writes {fuel : Nat} {cs : List Char} (run : nameRest fuel d p = .ok cs q) :
    d.WritesRest p.pos cs q.pos := by
  induction fuel generalizing p cs with
  | zero =>
    cases run
    rfl
  | succ fuel ih =>
    obtain ⟨c, t, first, later⟩ := bind_eq_ok.1 run
    cases c with
    | none =>
      cases later
      exact (orRewind_eq_none first).symm
    | some c =>
      obtain ⟨cs, t', rest, ends⟩ := bind_eq_ok.1 later
      cases ends
      obtain ⟨belongs, writes⟩ := nameCharacter_writes first
      exact ⟨belongs, t.pos, writes, ih rest⟩

theorem nameRest_of_writes {fuel : Nat} {cs : List Char} (writes : d.WritesRest p.pos cs j)
    (right : d.units[j]? = some '>'.toNat) (enough : cs.length ≤ fuel) :
    nameRest fuel d p = .ok cs { p with pos := j } := by
  induction cs generalizing p fuel with
  | nil =>
    obtain rfl : p.pos = j := writes
    cases fuel with
    | zero => rfl
    | succ fuel =>
      unfold nameRest
      rw [run_bind (nameCharacter_missed right (by decide) (by decide) (by decide))]
      rfl
  | cons c cs ih =>
    obtain ⟨belongs, k, first, rest⟩ := writes
    cases fuel with
    | zero => cases enough
    | succ fuel =>
      unfold nameRest
      rw [run_bind (nameCharacter_of_writes belongs first)]
      show (nameRest fuel >>= _) d { p with pos := k } = _
      rw [run_bind (ih (p := { p with pos := k }) rest (Nat.le_of_succ_le_succ enough))]
      rfl

/-- The name that is read stands between the brackets. -/
theorem groupName_writes {name : String} (run : groupName d p = .ok (some name) q) :
    d.WritesGroupName p.pos name q.pos := by
  obtain ⟨left, t, opens, rest⟩ := bind_eq_ok.1 run
  rw [eat_eq (by decide)] at opens
  split at opens
  · next left =>
    cases opens
    obtain ⟨found, t, reads, rest⟩ := bind_eq_ok.1 rest
    cases found with
    | none => cases rest
    | some found =>
      obtain ⟨right, t', closes, ends⟩ := bind_eq_ok.1 rest
      rw [eat_eq (by decide)] at closes
      split at closes
      · next right =>
        cases closes
        cases ends
        obtain ⟨c, t', first, later⟩ := bind_eq_ok.1 reads
        cases c with
        | none => cases later
        | some c =>
          obtain ⟨e, t'', same, later⟩ := bind_eq_ok.1 later
          cases same
          obtain ⟨cs, t'', rest, ends⟩ := bind_eq_ok.1 later
          cases ends
          obtain ⟨belongs, writes⟩ := nameCharacter_writes first
          exact ⟨left, _, ⟨c, cs, _, rfl, belongs, writes, nameRest_writes rest⟩, right, rfl⟩
      · cases closes
        cases ends
  · cases opens
    cases rest

/-- A name that stands between brackets is read. -/
theorem groupName_of_writes {name : String} (writes : d.WritesGroupName p.pos name j) :
    groupName d p = .ok (some name) { p with pos := j } := by
  obtain ⟨left, k, ⟨c, cs, i, rfl, belongs, first, rest⟩, right, rfl⟩ := writes
  have inside := (Array.getElem?_eq_some_iff.1 right).1
  have le := rest.le
  have reads : identifierName d { p with pos := p.pos + 1 } =
      .ok (some (String.ofList (c :: cs))) { p with pos := k } := by
    unfold identifierName
    rw [run_bind (nameCharacter_of_writes belongs first)]
    show ((read : PatternM Dialect) >>= _) d _ = _
    rw [run_bind read_run, run_bind (nameRest_of_writes rest right (by omega))]
    rfl
  unfold groupName
  rw [run_bind ((eat_eq (by decide)).trans (if_pos left)), if_pos rfl, run_bind reads]
  show (eat '>' >>= _) d { p with pos := k } = _
  rw [run_bind ((eat_eq (by decide)).trans (if_pos right))]
  rfl

/-- The name of a group is the one that is written between brackets behind its question mark. -/
theorem Dialect.nameAt?_eq_some {name : String} : d.nameAt? i = some name ↔
    d.units[i + 1]? = some '?'.toNat ∧ ∃ j, d.WritesGroupName (i + 2) name j := by
  unfold Dialect.nameAt?
  constructor
  · intro named
    split at named
    · next question =>
      split at named
      · next run =>
        cases named
        exact ⟨question, _, groupName_writes run⟩
      · cases named
    · cases named
  · rintro ⟨question, j, writes⟩
    rw [if_pos question, groupName_of_writes (p := { pos := i + 2 }) writes]

end RegExp
end ScriptSyntax
