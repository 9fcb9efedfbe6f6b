import ScriptSyntax.Proofs.RegExp.Sets.Grammar

/-!
Characters and class escapes of set expressions are read to their end.
-/

namespace ScriptSyntax
namespace RegExp

open Sets

variable {α β : Type} {d : Dialect} {p q : Progress} {c : Char} {code count : Nat} {text t u rest digits : List Char}

theorem firstMatch_run {step : PatternM (Option α)} {steps : List (PatternM (Option α))} {a : α}
    (run : step d p = .ok (some a) q) : firstMatch (step :: steps) d p = .ok (some a) q := by
  show (step >>= _) d p = _
  rw [run_bind run]
  rfl

theorem orRewind_run {step : PatternM (Option α)} {a : α} (run : step d p = .ok (some a) q) :
    orRewind step d p = .ok (some a) q := by
  show (step >>= _) d p = _
  rw [run_bind run]
  rfl

variable (unicode : d.unicode = true)
include unicode

/-! ### Looking at a text -/

theorem peek_text (at' : d.TextAt p.pos text) : peek d p = .ok (text.head?.map Char.toNat) p := by
  rw [peek_run, unicode, at'.at?]

theorem peekSecond_text (at' : d.TextAt p.pos (c :: text)) : peekSecond d p = .ok (text.head?.map Char.toNat) p := by
  have later : d.TextAt (d.next d.unicode p.pos) text := unicode ▸ at'.next ▸ at'.past (t := [c])
  show EStateM.Result.ok (d.at? d.unicode (d.next d.unicode p.pos)) p = _
  rw [unicode] at later ⊢
  rw [later.at?]

theorem advance_text (at' : d.TextAt p.pos (c :: text)) : advance d p = .ok () (p.skip [c]) := by
  show EStateM.Result.ok () { p with pos := d.next (false || d.unicode) p.pos } = _
  rw [unicode, Bool.or_true, at'.next]
  rfl

theorem eatCode_text {inClass : Nat → Bool} (at' : d.TextAt p.pos (c :: text)) (is : inClass c.toNat = true) :
    eatCode inClass d p = .ok (some c.toNat) (p.skip [c]) := by
  have stands : d.at? d.unicode p.pos = some c.toNat := by rw [unicode, at'.at?_cons]
  rw [eatCode_run stands is, Dialect.next_of_at? stands]
  rfl

theorem eatCode_other {inClass : Nat → Bool} (at' : d.TextAt p.pos (c :: text)) (other : inClass c.toNat = false) :
    eatCode inClass d p = .ok none p := by
  refine eatCode_missed fun code stands => ?_
  rw [unicode, at'.at?_cons] at stands
  exact Option.some.inj stands ▸ other

/-! ### Hexadecimal digits -/

omit unicode in
theorem hexValue?_toNat (c : Char) : hexValue? c.toNat = Alphabet.digit? 16 c := by
  rw [hexValue?, scalar?_toNat]
  rfl

theorem eatFixedHex_go {values : List Nat} (start total : Nat) (hex : digits.map (Alphabet.digit? 16) = values.map some)
    (at' : d.TextAt p.pos (digits ++ rest)) : eatFixedHex.go start digits.length total d p =
      .ok (some (values.foldl (fun total digit => total * 16 + digit) total)) (p.skip digits) := by
  induction digits generalizing p total values with
  | nil =>
    obtain rfl : values = [] := by simpa using hex.symm
    rfl
  | cons c digits ih =>
    obtain ⟨value, values, rfl, head, tail⟩ := List.map_eq_cons_iff.1 hex.symm
    show (peek >>= _) d p = _
    rw [run_bind (peek_text unicode at')]
    simp only [List.cons_append, List.head?_cons, Option.map_some, Option.bind_some, hexValue?_toNat, ← head]
    rw [run_bind (advance_text unicode at'), ih _ tail.symm at'.step, Progress.skip_skip]
    rfl

/-- Where there are too few digits the cursor goes back. -/
theorem eatFixedHex_go_none (start total : Nat) (at' : d.TextAt p.pos text)
    (few : ∀ digits more code, text = digits ++ more → digits.length = count → ¬ SpellsHex digits code) :
    eatFixedHex.go start count total d p = .ok none { p with pos := start } := by
  induction count generalizing p total text with
  | zero => exact absurd ⟨[], rfl, rfl⟩ (few [] text 0 rfl rfl)
  | succ count ih =>
    show (peek >>= _) d p = _
    rw [run_bind (peek_text unicode at')]
    cases text with
    | nil => rfl
    | cons c text =>
      simp only [List.head?_cons, Option.map_some, Option.bind_some, hexValue?_toNat]
      cases digit : Alphabet.digit? 16 c with
      | none => rfl
      | some value =>
        show (advance >>= _) d p = _
        rw [run_bind (advance_text unicode at'), ih _ at'.step]
        · rfl
        · rintro digits more _ same length ⟨values, hex, -⟩
          exact few (c :: digits) more _ (by rw [same]; rfl) (by rw [List.length_cons, length])
            ⟨value :: values, by rw [List.map_cons, List.map_cons, hex, digit], rfl⟩

theorem eatFixedHex_text (hex : SpellsHex digits code) (length : digits.length = count)
    (at' : d.TextAt p.pos (digits ++ rest)) : eatFixedHex count d p = .ok (some code) (p.skip digits) := by
  obtain ⟨values, hex, rfl⟩ := hex
  exact length ▸ eatFixedHex_go unicode p.pos 0 hex at'

theorem eatFixedHex_none (at' : d.TextAt p.pos text)
    (few : ∀ digits more code, text = digits ++ more → digits.length = count → ¬ SpellsHex digits code) :
    eatFixedHex count d p = .ok none p := eatFixedHex_go_none unicode p.pos 0 at' few

theorem eatHex_text (nonempty : digits ≠ []) (hex : SpellsHex digits code) (small : code ≤ 0x10ffff)
    (stop : ∀ c ∈ rest.head?, Alphabet.digit? 16 c = none) (at' : d.TextAt p.pos (digits ++ rest)) :
    eatHex d p = .ok (some code) (p.skip digits) := by
  obtain ⟨values, hex, rfl⟩ := hex
  have known (c : Char) (mem : c ∈ digits) : (hexValue? c.toNat).isSome = true := by
    obtain ⟨⟨value, digit⟩, -⟩ := hex_plain hex mem
    simp [hexValue?_toNat, digit]
  have read : (digits.map Char.toNat).filterMap hexValue? = values := by
    have same : (digits.map Char.toNat).map hexValue? = values.map some := by
      rw [List.map_map, ← hex]
      exact List.map_congr_left fun c _ => hexValue?_toNat c
    simpa [List.filterMap_map] using congrArg (List.filterMap id) same
  have run := eatRun_text (tells_of_unicode unicode fun code => (hexValue? code).isSome) at'
  rw [takeWhile_append_stop known fun c mem => by simp [hexValue?_toNat, stop c mem]] at run
  unfold eatHex
  rw [run_bind run]
  cases digits with
  | nil => exact absurd rfl nonempty
  | cons c digits =>
    show EStateM.Result.ok (some (numberOf 16 (((c :: digits).map Char.toNat).filterMap hexValue?))) _ = _
    rw [read, numberOf_eq (by decide), Nat.min_eq_left (Nat.le_trans small (by decide))]

/-! ### Escapes of a single character -/

omit unicode in
theorem of_isOneOf {cs : List Char} {P : Char → Bool} (all : cs.all P = true)
    (is : isOneOf cs c.toNat = true) : P c = true := by
  obtain ⟨b, mem, same⟩ := List.any_eq_true.1 is
  exact Char.toNat_inj.1 (beq_iff_eq.1 same) ▸ List.all_eq_true.1 all b mem

/-- Behind a backslash the character is no escape, or one that is the character itself. -/
def isInert (c : Char) : Bool := (controlValue? c.toNat).isNone && !isOneOf ['c', '0', 'x', 'u'] c.toNat

omit unicode in
theorem unicodeEscape_missed {joined : Bool} (other : d.at? d.unicode p.pos ≠ some 'u'.toNat) :
    unicodeEscape joined d p = .ok none p := by
  unfold unicodeEscape
  rw [run_bind position_run, run_bind read_run, run_bind (eat_missed other)]
  rfl

theorem characterEscape_eq :
    characterEscape d p = firstMatch [controlEscape, controlLetterEscape, zeroEscape, hexEscape,
    unicodeEscape false, return none, identityEscape] d p := by
  unfold characterEscape
  rw [run_bind read_run, unicode]
  rfl

theorem characterEscape_inert (inert : isInert c = true) (at' : d.TextAt p.pos (c :: rest)) :
    characterEscape d p = identityEscape d p := by
  obtain ⟨control, other⟩ : controlValue? c.toNat = none ∧ isOneOf ['c', '0', 'x', 'u'] c.toNat = false := by
    simpa [isInert] using inert
  have facing : d.at? d.unicode p.pos = some c.toNat := by rw [unicode, at'.at?_cons]
  have apart {b : Char} (mem : isOneOf ['c', '0', 'x', 'u'] b.toNat = true) : d.at? d.unicode p.pos ≠ some b.toNat := by
    rw [facing]
    intro same
    rw [Option.some.inj same] at other
    cases mem.symm.trans other
  have late : isOneOf ['c', '0', 'x'] c.toNat = false := by
    simp only [isOneOf, List.any_cons, List.any_nil, Bool.or_false, Bool.or_eq_false_iff] at other ⊢
    exact ⟨other.1, other.2.1, other.2.2.1⟩
  rw [characterEscape_late facing control late, firstMatch_missed (unicodeEscape_missed (apart rfl)),
    unicode, if_pos rfl,
    firstMatch_missed rfl]
  cases run : identityEscape d p with
  | ok code q =>
    show (identityEscape >>= _) d p = _
    rw [run_bind run]
    cases code <;> rfl
  | error fault q => exact run_fails run

theorem identityEscape_eq : identityEscape d p = eatCode isIdentity d p := by
  unfold identityEscape
  rw [run_bind read_run, unicode]
  rfl

theorem characterEscape_none (inert : isInert c = true) (plain : isIdentity c.toNat = false)
    (at' : d.TextAt p.pos (c :: rest)) : characterEscape d p = .ok none p := by
  rw [characterEscape_inert unicode inert at', identityEscape_eq unicode]
  exact eatCode_other unicode at' plain

theorem controlEscape_missed (control : controlValue? c.toNat = none) (at' : d.TextAt p.pos (c :: rest)) :
    controlEscape d p = .ok none p := by
  unfold controlEscape
  rw [run_bind (peek_text unicode at')]
  simp only [List.head?_cons, Option.map_some, Option.bind_some, control]
  rfl

omit unicode in
theorem controlLetterEscape_missed (other : d.at? d.unicode p.pos ≠ some 'c'.toNat) :
    controlLetterEscape d p = .ok none p := by
  refine orRewind_missed (q := p) ?_
  rw [run_bind (eat_missed other)]
  rfl

omit unicode in
theorem zeroEscape_missed (other : d.at? d.unicode p.pos ≠ some '0'.toNat) : zeroEscape d p = .ok none p := by
  unfold zeroEscape
  rw [run_bind sees_run, beq_eq_false_iff_ne.2 other]
  rfl

omit unicode in
theorem hexEscape_missed (other : d.at? d.unicode p.pos ≠ some 'x'.toNat) : hexEscape d p = .ok none p := by
  unfold hexEscape
  rw [run_bind position_run, run_bind (eat_missed other)]
  rfl

theorem characterEscape_control (known : controlValue? c.toNat = some code) (at' : d.TextAt p.pos (c :: rest)) :
    characterEscape d p = .ok (some code) (p.skip [c]) := by
  refine firstMatch_run ?_
  unfold controlEscape
  rw [run_bind (peek_text unicode at')]
  simp only [List.head?_cons, Option.map_some, Option.bind_some, known]
  rw [run_bind (advance_text unicode at')]
  rfl

theorem characterEscape_letter (alpha : c.isAlpha = true) (at' : d.TextAt p.pos ('c' :: c :: rest)) :
    characterEscape d p = .ok (some (c.toNat % 0x20)) (p.skip ['c', c]) := by
  have letter : isLetterCode c.toNat = true := by simp [isLetterCode, scalar?_toNat, alpha]
  rw [characterEscape_eq unicode, firstMatch_missed (controlEscape_missed unicode (by decide) at')]
  refine firstMatch_run (orRewind_run ?_)
  rw [run_bind (eat_text (.inl unicode) at'), if_pos rfl, run_bind (eatCode_text unicode at'.step letter),
    Progress.skip_skip]
  rfl

theorem characterEscape_zero (single : ∀ c ∈ rest.head?, Alphabet.isDecimalDigit c = false)
    (at' : d.TextAt p.pos ('0' :: rest)) : characterEscape d p = .ok (some 0) (p.skip ['0']) := by
  have second : (rest.head?.map Char.toNat).any isDigitCode = false := by
    cases rest with
    | nil => rfl
    | cons c rest => simp [isDigitCode, scalar?_toNat, single c rfl]
  rw [characterEscape_eq unicode, firstMatch_missed (controlEscape_missed unicode (by decide) at'),
    firstMatch_missed (controlLetterEscape_missed (at'.ne (by simp)))]
  refine firstMatch_run ?_
  unfold zeroEscape
  rw [run_bind sees_run, unicode, at'.at?_cons, beq_self_eq_true, run_bind (peekSecond_text unicode at'), second]
  show (advance >>= _) d p = _
  rw [run_bind (advance_text unicode at')]
  rfl

theorem characterEscape_hex (two : digits.length = 2) (hex : SpellsHex digits code)
    (at' : d.TextAt p.pos ('x' :: (digits ++ rest))) :
    characterEscape d p = .ok (some code) (p.skip ('x' :: digits)) := by
  rw [characterEscape_eq unicode, firstMatch_missed (controlEscape_missed unicode (by decide) at'),
    firstMatch_missed (controlLetterEscape_missed (at'.ne (by simp))),
    firstMatch_missed (zeroEscape_missed (at'.ne (by simp)))]
  refine firstMatch_run ?_
  unfold hexEscape
  rw [run_bind position_run, run_bind (eat_text (.inl unicode) at'), if_pos rfl,
    run_bind (eatFixedHex_text unicode hex two at'.step),
    Progress.skip_skip]
  rfl

theorem characterEscape_unicode (at' : d.TextAt p.pos ('u' :: rest))
    (run : unicodeEscape false d p = .ok (some code) q) :
    characterEscape d p = .ok (some code) q := by
  rw [characterEscape_eq unicode, firstMatch_missed (controlEscape_missed unicode (by decide) at'),
    firstMatch_missed (controlLetterEscape_missed (at'.ne (by simp))),
    firstMatch_missed (zeroEscape_missed (at'.ne (by simp))), firstMatch_missed (hexEscape_missed (at'.ne (by simp)))]
  exact firstMatch_run run

/-! ### Escapes of a code point -/

/-- No low surrogate follows. -/
theorem lowSurrogateEscape_missed (at' : d.TextAt p.pos rest)
    (alone : ∀ more after low, rest = '\\' :: 'u' :: (more ++ after) → more.length = 4 → SpellsHex more low →
      isLowSurrogate low = false) : lowSurrogateEscape d p = .ok none p := by
  suffices inner : ∃ t reads, lowSurrogateEscape = orRewind reads ∧ reads d p = .ok none (p.skip t) by
    obtain ⟨t, reads, same, inner⟩ := inner
    exact same ▸ (orRewind_missed inner : orRewind reads d p = .ok none { p.skip t with pos := p.pos })
  by_cases opens : ['\\', 'u'] <+: rest
  · obtain ⟨rest, rfl⟩ := opens
    have inside : d.TextAt (p.skip ['\\', 'u']).pos rest := at'.skip (t := ['\\', 'u'])
    by_cases four : ∃ digits more code, rest = digits ++ more ∧ digits.length = 4 ∧ SpellsHex digits code
    · obtain ⟨digits, more, code, rfl, length, hex⟩ := four
      refine ⟨['\\', 'u'] ++ digits, _, rfl, ?_⟩
      rw [run_bind (eatPair_text (.inl unicode) (.inl unicode) at')]
      show (eatFixedHex 4 >>= _) d _ = _
      rw [run_bind (eatFixedHex_text unicode hex length inside), Progress.skip_skip]
      show (pure (if isLowSurrogate code = true then some code else none) : PatternM (Option Nat)) d _ = _
      rw [alone digits more code rfl length hex]
      rfl
    · refine ⟨['\\', 'u'], _, rfl, ?_⟩
      rw [run_bind (eatPair_text (.inl unicode) (.inl unicode) at')]
      show (eatFixedHex 4 >>= _) d _ = _
      rw [run_bind (eatFixedHex_none unicode inside fun digits more code same length hex =>
        four ⟨digits, more, code, same, length, hex⟩)]
      rfl
  · refine ⟨[], _, rfl, ?_⟩
    rw [run_bind (eatPair_other (.inl unicode) at' opens)]
    rfl

theorem lowSurrogateEscape_text (four : digits.length = 4) (hex : SpellsHex digits code)
    (low : isLowSurrogate code = true) (at' : d.TextAt p.pos ('\\' :: 'u' :: (digits ++ rest))) :
    lowSurrogateEscape d p = .ok (some code) (p.skip ('\\' :: 'u' :: digits)) := by
  refine orRewind_run ?_
  rw [run_bind (eatPair_text (.inl unicode) (.inl unicode) at'), if_pos rfl,
    run_bind (eatFixedHex_text unicode hex four (at'.skip (t := ['\\', 'u']))), Progress.skip_skip]
  show (pure (if isLowSurrogate code = true then some code else none) : PatternM (Option Nat)) d _ = _
  rw [if_pos low]
  rfl

section

variable (four : digits.length = 4) (hex : SpellsHex digits code)
include four hex

theorem unicodeEscape_four (at' : d.TextAt p.pos ('u' :: (digits ++ rest)))
    (alone : isHighSurrogate code = true → ∀ more after low, rest = '\\' :: 'u' :: (more ++ after) → more.length = 4 →
      SpellsHex more low → isLowSurrogate low = false) :
    unicodeEscape false d p = .ok (some code) (p.skip ('u' :: digits)) := by
  have later : d.TextAt (p.skip ('u' :: digits)).pos rest := at'.skip (t := 'u' :: digits)
  unfold unicodeEscape
  rw [run_bind position_run, run_bind read_run, run_bind (eat_text (.inl unicode) at'), if_pos rfl,
    run_bind (eatFixedHex_text unicode hex four at'.step), Progress.skip_skip, unicode]
  by_cases high : isHighSurrogate code = true
  · simp only [Bool.false_or, Bool.true_and, high, if_true]
    show (lowSurrogateEscape >>= _) d (p.skip ('u' :: digits)) = _
    rw [run_bind (lowSurrogateEscape_missed unicode later (alone high))]
    rfl
  · simp only [Bool.false_or, Bool.true_and, high]
    rfl

theorem unicodeEscape_pair {more : List Char} {low : Nat} (four' : more.length = 4) (hex' : SpellsHex more low)
    (high : isHighSurrogate code = true) (isLow : isLowSurrogate low = true)
    (at' : d.TextAt p.pos ('u' :: (digits ++ '\\' :: 'u' :: (more ++ rest)))) :
    unicodeEscape false d p = .ok (some (joinSurrogates code low))
      (p.skip ('u' :: (digits ++ '\\' :: 'u' :: more))) := by
  have later : d.TextAt (p.skip ('u' :: digits)).pos ('\\' :: 'u' :: (more ++ rest)) := at'.skip (t := 'u' :: digits)
  unfold unicodeEscape
  rw [run_bind position_run, run_bind read_run, run_bind (eat_text (.inl unicode) at'), if_pos rfl,
    run_bind (eatFixedHex_text unicode hex four at'.step), Progress.skip_skip, unicode]
  simp only [Bool.false_or, Bool.true_and, high, if_true]
  show (lowSurrogateEscape >>= _) d (p.skip ('u' :: digits)) = _
  rw [run_bind (lowSurrogateEscape_text unicode four' hex' isLow later), Progress.skip_skip]
  rfl

end

theorem unicodeEscape_braces (nonempty : digits ≠ []) (hex : SpellsHex digits code) (small : code ≤ 0x10ffff)
    (at' : d.TextAt p.pos ('u' :: '{' :: (digits ++ '}' :: rest))) :
    unicodeEscape false d p = .ok (some code) (p.skip ('u' :: '{' :: (digits ++ ['}']))) := by
  have inside : d.TextAt ((p.skip ['u']).skip ['{']).pos (digits ++ '}' :: rest) := at'.step.step
  have brace : ∀ digits' more code, '{' :: (digits ++ '}' :: rest) = digits' ++ more → digits'.length = 4 →
      ¬ SpellsHex digits' code := by
    rintro (_ | ⟨c, digits'⟩) more code same length ⟨values, spelled, -⟩
    · cases length
    · obtain ⟨⟨value, digit⟩, -⟩ := hex_plain spelled (.head _)
      rw [← (List.cons.inj same).1] at digit
      cases digit
  unfold unicodeEscape
  rw [run_bind position_run, run_bind read_run, run_bind (eat_text (.inl unicode) at'), if_pos rfl,
    run_bind (eatFixedHex_none unicode at'.step brace), unicode]
  simp only [Bool.false_or, if_true]
  show (eat '{' >>= _) d (p.skip ['u']) = _
  rw [run_bind (eat_text (.inl unicode) at'.step), if_pos rfl,
    run_bind (eatHex_text unicode nonempty hex small
      (by simpa using (by decide : Alphabet.digit? 16 '}' = none)) inside)]
  show (eat '}' >>= _) d (((p.skip ['u']).skip ['{']).skip digits) = _
  rw [run_bind (eat_text (.inl unicode) inside.skip), if_pos rfl, if_pos small, Progress.skip_skip, Progress.skip_skip,
    Progress.skip_skip]
  rfl

/-! ### Characters -/

section

variable (at' : d.TextAt p.pos ('\\' :: text))
include at'

theorem setCharacter_escape (run : characterEscape d (p.skip ['\\']) = .ok (some code) ((p.skip ['\\']).skip t)) :
    setCharacter d p = .ok (some code) (p.skip ('\\' :: t)) := by
  rw [Progress.skip_skip] at run
  unfold setCharacter
  rw [run_bind position_run, run_bind (eat_text (.inl unicode) at'), if_pos rfl, run_bind run]
  rfl

/-- An escape of no single character in general. -/
theorem setCharacter_eq (none' : characterEscape d (p.skip ['\\']) = .ok none (p.skip ['\\'])) :
    setCharacter d p = (do
      if let some code ← eatCode isReservedPunctuator then return some code
      if ← eat 'b' then return some 0x08
      moveTo p.pos
      return none : PatternM (Option Nat)) d (p.skip ['\\']) := by
  unfold setCharacter
  rw [run_bind position_run, run_bind (eat_text (.inl unicode) at'), if_pos rfl]
  exact run_bind none'

end

theorem setCharacter_plain (ordinary : isSetSyntaxCharacter c.toNat = false)
    (single : isReservedDouble c.toNat = true → rest.head? ≠ some c) (at' : d.TextAt p.pos (c :: rest)) :
    setCharacter d p = .ok (some c.toNat) (p.skip [c]) := by
  have slash : c ≠ '\\' := by
    rintro rfl
    cases ordinary
  have apart : (rest.head?.map Char.toNat == some c.toNat && isReservedDouble c.toNat) = false := by
    cases reserved : isReservedDouble c.toNat with
    | false => rw [Bool.and_false]
    | true =>
      rw [Bool.and_true, beq_eq_false_iff_ne]
      intro same
      obtain ⟨b, head, same⟩ := Option.map_eq_some_iff.1 same
      exact single reserved (Char.toNat_inj.1 same ▸ head)
  unfold setCharacter
  rw [run_bind position_run, run_bind (at'.eat_other (by simpa using slash))]
  show (peek >>= _) d p = _
  rw [run_bind (peek_text unicode at')]
  show (peekSecond >>= _) d p = _
  rw [run_bind (peekSecond_text unicode at'), apart, ordinary]
  show (advance >>= _) d p = _
  rw [run_bind (advance_text unicode at')]
  rfl

/-- No character begins with a character of the syntax, or at the end. -/
theorem setCharacter_syntax (slash : text.head? ≠ some '\\')
    (special : ∀ c ∈ text.head?, isSetSyntaxCharacter c.toNat = true)
    (at' : d.TextAt p.pos text) : setCharacter d p = .ok none p := by
  unfold setCharacter
  rw [run_bind position_run, run_bind (at'.eat_other slash)]
  show (peek >>= _) d p = _
  rw [run_bind (peek_text unicode at')]
  cases text with
  | nil => rfl
  | cons c text =>
    show (peekSecond >>= _) d p = _
    rw [run_bind (peekSecond_text unicode at')]
    rw [show isSetSyntaxCharacter c.toNat = true from special c rfl]
    split <;> rfl

/-- Nor with the letter of another escape. -/
theorem setCharacter_letter (letter : isOneOf ['q', 'p', 'P', 'd', 'D', 's', 'S', 'w', 'W'] c.toNat = true)
    (at' : d.TextAt p.pos ('\\' :: c :: rest)) : setCharacter d p = .ok none p := by
  have known : (isInert c && !isIdentity c.toNat && !isReservedPunctuator c.toNat && c != 'b') = true :=
    of_isOneOf (P := fun c => isInert c && !isIdentity c.toNat && !isReservedPunctuator c.toNat && c != 'b') rfl letter
  simp only [Bool.and_eq_true, Bool.not_eq_true', bne_iff_ne] at known
  obtain ⟨⟨⟨inert, plain⟩, unreserved⟩, other⟩ := known
  have inside := at'.step
  rw [setCharacter_eq unicode at' (characterEscape_none unicode inert plain inside),
    run_bind (eatCode_other unicode inside unreserved)]
  show (eat 'b' >>= _) d (p.skip ['\\']) = _
  rw [run_bind (inside.eat_other (by simpa using other))]
  rfl

/-- A character is read as it is written. -/
theorem setCharacter_text (written : Character code t rest) (at' : d.TextAt p.pos (t ++ rest)) :
    setCharacter d p = .ok (some code) (p.skip t) := by
  cases written with
  | plain ordinary single => exact setCharacter_plain unicode ordinary single at'
  | control known => exact setCharacter_escape unicode at' (characterEscape_control unicode known at'.step)
  | letter alpha => exact setCharacter_escape unicode at' (characterEscape_letter unicode alpha at'.step)
  | zero single => exact setCharacter_escape unicode at' (characterEscape_zero unicode single at'.step)
  | twoDigits two hex => exact setCharacter_escape unicode at' (characterEscape_hex unicode two hex at'.step)
  | fourDigits four hex alone =>
    exact setCharacter_escape unicode at' (characterEscape_unicode unicode at'.step
      (unicodeEscape_four unicode four hex at'.step alone))
  | pair four first isHigh four' second isLow =>
    simp only [List.cons_append, List.append_assoc] at at'
    exact setCharacter_escape unicode at' (characterEscape_unicode unicode at'.step
      (unicodeEscape_pair unicode four first four' second isHigh isLow at'.step))
  | braces nonempty hex small =>
    simp only [List.cons_append, List.append_assoc, List.nil_append] at at'
    exact setCharacter_escape unicode at' (characterEscape_unicode unicode at'.step
      (unicodeEscape_braces unicode nonempty hex small at'.step))
  | identity special =>
    have all : ['$', '(', ')', '*', '+', '.', '?', '[', '\\', ']', '^', '{', '|', '}', '/'].all isInert = true := rfl
    have inert : isInert _ = true :=
      of_isOneOf all (by simpa [isIdentity, isSyntaxCharacter, isOneOf, or_assoc, @eq_comm _ 47] using special)
    refine setCharacter_escape unicode at' ?_
    rw [characterEscape_inert unicode inert at'.step, identityEscape_eq unicode]
    exact eatCode_text unicode at'.step special
  | punctuator reserved =>
    have known := of_isOneOf (P := fun c => isInert c && !isIdentity c.toNat) rfl reserved
    simp only [Bool.and_eq_true, Bool.not_eq_true'] at known
    rw [setCharacter_eq unicode at' (characterEscape_none unicode known.1 known.2 at'.step),
      run_bind (eatCode_text unicode at'.step reserved), Progress.skip_skip]
    rfl
  | backspace =>
    rw [setCharacter_eq unicode at' (characterEscape_none unicode rfl rfl at'.step),
      run_bind (eatCode_other unicode at'.step rfl)]
    show (eat 'b' >>= _) d (p.skip ['\\']) = _
    rw [run_bind (eat_text (.inl unicode) at'.step), if_pos rfl, Progress.skip_skip]
    rfl

/-! ### Class escapes -/

/-- Characters only, or strings too. -/
def setOf (strings : Bool) : CharSet := if strings then .strings else .characters

theorem classEscape_letter {letter : Char} (known : letter ∈ classLetters) (at' : d.TextAt p.pos (letter :: rest)) :
    classEscape d p = .ok (some .characters) (p.skip [letter]) := by
  have is : isOneOf ['d', 'D', 's', 'S', 'w', 'W'] letter.toNat = true := by
    exact List.any_eq_true.2 ⟨letter, known, beq_self_eq_true _⟩
  unfold classEscape
  rw [run_bind read_run, run_bind (eatCode_text unicode at' is)]
  rfl

omit unicode in
theorem textOf_map (word : List Char) : textOf (word.map Char.toNat) = String.ofList word := by
  have same : (word.map Char.toNat).filterMap scalar? = word := by
    rw [List.filterMap_map, show scalar? ∘ Char.toNat = some from funext scalar?_toNat, List.filterMap_some]
  rw [textOf, same]

omit unicode in
theorem ofList_ne {word : List Char} (nonempty : word ≠ []) : (String.ofList word != "") = true := by
  simpa [bne_iff_ne, String.ext_iff] using nonempty

theorem eatPropertyName_text (at' : d.TextAt p.pos text) : eatPropertyName d p =
    .ok (String.ofList (text.takeWhile isNameCharacter)) (p.skip (text.takeWhile isNameCharacter)) := by
  have same : (fun c : Char => (scalar? c.toNat).any fun c => c.isAlpha || c == '_') = isNameCharacter := by
    funext c
    rw [scalar?_toNat]
    rfl
  unfold eatPropertyName
  rw [run_bind (eatRun_text (tells_of_unicode unicode _) at'), same, textOf_map]
  rfl

theorem eatPropertyValue_text (at' : d.TextAt p.pos text) : eatPropertyValue d p =
    .ok (String.ofList (text.takeWhile isValueCharacter)) (p.skip (text.takeWhile isValueCharacter)) := by
  have same : (fun c : Char => (scalar? c.toNat).any fun c => c.isAlphanum || c == '_') = isValueCharacter := by
    funext c
    rw [scalar?_toNat]
    rfl
  unfold eatPropertyValue
  rw [run_bind (eatRun_text (tells_of_unicode unicode _) at'), same, textOf_map]
  rfl

omit unicode in
theorem checkPropertyValue_run {name value : String} (known : isKnownValue d.edition name value = true) :
    checkPropertyValue d.edition name value d p = .ok () p := by
  unfold isKnownValue at known
  unfold checkPropertyValue
  split
  · rename_i category
    rw [if_pos category] at known
    show (if Property.isGeneralCategory value then pure () else throw .invalidPropertyValue : PatternM Unit) d p = _
    rw [if_pos known]
    rfl
  · rename_i other
    rw [if_neg other, Bool.and_eq_true] at known
    rw [if_pos known.1]
    show (if Property.isScript d.edition value then pure () else throw .invalidPropertyValue : PatternM Unit) d p = _
    rw [if_pos known.2]
    rfl

omit unicode in
/-- Properties of strings are no others. -/
theorem not_known_of_strings {edition : Nat} {name : String} (strings : Property.isOfStrings name = true) :
    (Property.isBinary edition name || Property.isGeneralCategory name) = false := by
  have listed : Property.stringNames.all (fun name => !Property.binaryNames.contains name && name !=
      "Extended_Pictographic" &&
      !Property.emojiShortNames.contains name && !Property.isGeneralCategory name) = true := by decide +kernel
  have apart := List.all_eq_true.1 listed name (List.contains_iff_mem.1 strings)
  simp only [Bool.and_eq_true, Bool.not_eq_true', bne_iff_ne] at apart
  obtain ⟨⟨⟨binary, pictographic⟩, short⟩, category⟩ := apart
  rw [Property.isBinary, binary, short, category, beq_eq_false_iff_ne.2 pictographic]
  simp

omit unicode in
theorem loneProperty_run (sets : d.unicodeSets = true) {complement : Bool} {name : List Char}
    (known : (Property.isBinary d.edition (String.ofList name) || Property.isGeneralCategory (String.ofList name) ||
      (Property.isOfStrings (String.ofList name) && !complement)) = true) :
    loneProperty d (String.ofList name) d p = .ok (setOf (Tree.property complement name none).mayHoldStrings) p := by
  unfold loneProperty
  cases strings : Property.isOfStrings (String.ofList name) with
  | true => simp [not_known_of_strings strings, sets, Tree.mayHoldStrings, setOf, strings]; rfl
  | false =>
    rw [strings, Bool.false_and, Bool.or_false] at known
    simp [known, Tree.mayHoldStrings, setOf, strings]
    rfl

omit unicode in
/-- No equals sign stands behind the part of a lone name that could be the name before a value. -/
theorem head_dropWhile_name (belongs : ∀ c ∈ t, isValueCharacter c = true) :
    ((t ++ '}' :: rest).dropWhile isNameCharacter).head? ≠ some '=' := by
  induction t with
  | nil =>
    have closes : isNameCharacter '}' = false := by decide
    simp [closes]
  | cons c t ih =>
    rw [List.cons_append, List.dropWhile_cons]
    split
    · exact ih fun b mem => belongs b (.tail _ mem)
    · rintro ⟨⟩
      have equals : isValueCharacter '=' = true := belongs '=' (.head _)
      cases equals

theorem propertyExpression_text (sets : d.unicodeSets = true) {complement : Bool} {name : List Char}
    {value : Option (List Char)}
    (written : PropertyText d.edition complement name value t) (at' : d.TextAt p.pos (t ++ '}' :: rest)) :
    propertyExpression d p = .ok (some (setOf (Tree.property complement name value).mayHoldStrings)) (p.skip t) := by
  have first := eatPropertyName_text unicode at'
  cases written with
  | value isName isValue known =>
    rename_i value
    rw [List.append_assoc, List.cons_append] at at' first
    rw [takeWhile_append_stop isName.belongs (by simpa using (by decide : isNameCharacter '=' = false))] at first
    have second := eatPropertyValue_text unicode at'.skip.step
    rw [takeWhile_append_stop isValue.belongs (by simpa using (by decide : isValueCharacter '}' = false))] at second
    unfold propertyExpression
    rw [run_bind read_run, run_bind position_run, run_bind first, if_pos (ofList_ne isName.nonempty),
      run_bind (eat_text (.inl unicode) at'.skip), if_pos rfl, run_bind second, if_pos (ofList_ne isValue.nonempty),
      run_bind (checkPropertyValue_run known), Progress.skip_skip, Progress.skip_skip]
    rfl
  | lone isName known =>
    -- The name is read twice: a value might have followed.
    have again := eatPropertyValue_text unicode at'
    rw [takeWhile_append_stop isName.belongs (by simpa using (by decide : isValueCharacter '}' = false))] at again
    have back : (moveTo p.pos >>= fun _ => (do
        let name ← eatPropertyValue
        if name != "" then return some (← loneProperty d name) else return none : PatternM (Option CharSet))) d
        (p.skip ((t ++ '}' :: rest).takeWhile isNameCharacter)) =
          .ok (some (setOf (Tree.property complement t none).mayHoldStrings)) (p.skip t) := by
      rw [run_bind moveTo_skip, run_bind again, if_pos (ofList_ne isName.nonempty),
        run_bind (loneProperty_run sets known)]
      rfl
    have stop : d.TextAt (p.skip ((t ++ '}' :: rest).takeWhile isNameCharacter)).pos
        ((t ++ '}' :: rest).dropWhile isNameCharacter) := by
      refine Dialect.TextAt.skip ?_
      rwa [List.takeWhile_append_dropWhile]
    unfold propertyExpression
    rw [run_bind read_run, run_bind position_run, run_bind first]
    split
    · rw [run_bind (stop.eat_other (head_dropWhile_name isName.belongs))]
      exact back
    · exact back

/-- A property in its braces, behind the backslash. -/
theorem classEscape_property (sets : d.unicodeSets = true) (late : 9 ≤ d.edition) {complement : Bool} {name : List Char}
    {value : Option (List Char)} (written : PropertyText d.edition complement name value t)
    (at' : d.TextAt p.pos (propertyLetter complement :: '{' :: (t ++ '}' :: rest))) :
    classEscape d p = .ok (some (setOf (Tree.property complement name value).mayHoldStrings))
      (p.skip (propertyLetter complement :: '{' :: (t ++ ['}']))) := by
  have letter : isOneOf ['p', 'P'] (propertyLetter complement).toNat = true := by cases complement <;> rfl
  have other : isOneOf ['d', 'D', 's', 'S', 'w', 'W'] (propertyLetter complement).toNat = false := by
    cases complement <;> rfl
  have inside : d.TextAt ((p.skip [propertyLetter complement]).skip ['{']).pos (t ++ '}' :: rest) := at'.step.step
  -- A property of strings has no complement.
  have lawful : ((propertyLetter complement).toNat == 'P'.toNat &&
      setOf (Tree.property complement name value).mayHoldStrings == .strings) = false := by
    cases complement with
    | false => rfl
    | true =>
      cases written with
      | value => rfl
      | lone _ known =>
        cases strings : Property.isOfStrings (String.ofList t) with
        | false => simp [Tree.mayHoldStrings, strings, setOf]
        | true => simp [not_known_of_strings strings] at known
  unfold classEscape
  rw [run_bind read_run, run_bind (eatCode_other unicode at' other)]
  show (if d.unicode && 9 ≤ d.edition then _ else _ : PatternM (Option CharSet)) d p = _
  rw [unicode, Bool.true_and, if_pos (decide_eq_true late), run_bind (eatCode_text unicode at' letter)]
  show (eat '{' >>= _) d (p.skip [propertyLetter complement]) = _
  rw [run_bind (eat_text (.inl unicode) at'.step), if_pos rfl,
    run_bind (propertyExpression_text unicode sets written inside)]
  show (eat '}' >>= _) d _ = _
  rw [run_bind (eat_text (.inl unicode) inside.skip), if_pos rfl, lawful, Progress.skip_skip, Progress.skip_skip,
    Progress.skip_skip]
  rfl

end RegExp
end ScriptSyntax
