import ScriptSyntax.Proofs.Lexer.Items
import ScriptSyntax.Proofs.Lexer.Numeral

/-!
Texts with one token.  A text gives a number and the end of the text just where a numeral is written in it, with white
space and comments around.
-/

namespace ScriptSyntax

open LexM

variable {s : Setting} {html hashBang fresh fresh' : Bool} {P : List Char → Prop}
  {u text rest rest' before lit after : List Char}
  {l l' m : Lexer} {n : Numeral} {t e : Token}

/-! ### The first line -/

/-- What opens a text: nothing, or a line for other programs, if that is allowed. -/
inductive Opening (allowed : Bool) (rest : List Char) : List Char → Prop
  | nothing : Opening allowed rest []
  | line {body : List Char} (known : allowed = true) (inside : breaksLine body = false) (ends : LineEnds rest) :
    Opening allowed rest ('#' :: '!' :: body)

theorem Opening.congr (opening : Opening hashBang rest u) (same : rest'.head? = rest.head?) :
    Opening hashBang rest' u := by
  cases opening with
  | nothing => exact .nothing
  | line known inside ends => exact .line known inside (by rwa [LineEnds, same])

/-- A new lexer stands behind what opens the text. -/
theorem lexerAt_faces (at' : s.source.TextAt 0 (u ++ rest)) (opening : Opening s.options.hashBangAllowed rest u)
    (bare : u = [] → ¬ s.OpensWithComment) : (s.lexerAt 0).Faces s true rest := by
  have last : (s.lexerAt 0).last.stop = 0 := show (s.lexerAt 0).frame.last.stop = 0 by rw [lexerAt_frame]; rfl
  have pos : (s.lexerAt 0).pos = width u := by
    cases opening with
    | nothing => exact lexerAt_pos (bare rfl)
    | @line body known inside ends =>
      obtain ⟨l, zero, -, ⟨other, -⟩ | ⟨-, run⟩⟩ := lexerAt_cases s
      · exact (other ⟨known, at'.charAt, at'.step.charAt⟩).elim
      · have here : s.source.TextAt l.pos (['#', '!'] ++ (body ++ rest)) := by
          rw [zero]
          exact at'
        obtain ⟨l', run', passes⟩ := skipLineComment_over here inside ends
        cases run.symm.trans run'
        exact passes.pos.trans (by rw [zero, Nat.zero_add]; rfl)
  exact ⟨u, by rwa [last], by rw [last, pos, Nat.zero_add], by simp [last]⟩

theorem exists_opening (at' : s.source.TextAt 0 text) :
    ∃ u rest, text = u ++ rest ∧ Opening s.options.hashBangAllowed rest u ∧ (s.lexerAt 0).Faces s true rest := by
  by_cases opens : s.OpensWithComment
  · obtain ⟨known, mark, bang⟩ := opens
    rw [at'.charAt] at mark
    obtain ⟨text, rfl⟩ := List.head?_eq_some_iff.mp mark
    have next : s.source.charAt 1 = text.head? := at'.step.charAt
    obtain ⟨text, rfl⟩ := List.head?_eq_some_iff.mp (next.symm.trans bang)
    obtain ⟨body, rest, rfl, inside, ends⟩ := exists_line text
    have opening : Opening s.options.hashBangAllowed rest ('#' :: '!' :: body) := .line known inside ends
    exact ⟨_, rest, rfl, opening, lexerAt_faces at' opening (by simp)⟩
  · exact ⟨[], text, rfl, .nothing, lexerAt_faces (u := []) at' .nothing fun _ => opens⟩

/-! ### Around the token -/

/-- Around a token of the text are only white space and comments. -/
def Lone (html hashBang : Bool) (P : List Char → Prop) (before lit after : List Char) : Prop :=
  ∃ opening gap fresh fresh', before = opening ++ gap ∧ Opening hashBang (gap ++ (lit ++ after)) opening ∧
    Skips html P true (gap ++ (lit ++ after)) fresh (lit ++ after) ∧ Skips html P false after fresh' []

theorem Alphabet.isGap_of_isIdentifierPart_or {c : Char} (part : isIdentifierPart true c = true ∨ c = '.') :
    isGap c = false ∧ c ≠ '/' ∧ c ≠ '<' ∧ c ≠ '-' := by
  obtain part | rfl := part
  · refine ⟨isGap_of_isIdentifierPart part, ?_⟩
    refine ⟨?_, ?_, ?_⟩ <;> (rintro rfl; cases part)
  · decide

/-- What is behind a token and no token is apart from it. -/
theorem Skips.apart (skips : Skips html P fresh text fresh' []) : Apart text := fun c first => by
  by_contra other
  have part : Alphabet.isIdentifierPart true c = true ∨ c = '.' := by
    rw [not_and_or, Bool.not_eq_false, not_not] at other
    exact other
  exact skips.head_ne (Alphabet.isGap_of_isIdentifierPart_or part) (by simp) first

/-- A numeral begins with a digit or a point. -/
theorem Numeral.Allowed.head {strict : Bool} (allowed : n.Allowed strict) :
    ∃ c t, n.spelling = c :: t ∧ (Alphabet.isDecimalDigit c = true ∨ c = '.') := by
  have decimal {r : List Char} (digits : DigitsOf 10 r) (more : List Char) : ∃ c t, r ++ more = c :: t ∧
      (Alphabet.isDecimalDigit c = true ∨ c = '.') := by
    obtain ⟨c, t, rfl, digit⟩ := digits.head
    obtain ⟨n, value⟩ := Option.isSome_iff_exists.mp digit
    exact ⟨c, t ++ more, rfl, .inl (isDecimalDigit_of_digit? (Nat.le_refl 10) value)⟩
  cases allowed with
  | marked => exact ⟨_, _, rfl, .inl (by decide)⟩
  | bigint fits => exact decimal fits ['n']
  | octal _ _ _ fits =>
    have begins := decimal fits.decimal []
    rwa [List.append_nil] at begins
  | decimal fits =>
    obtain ⟨rfl, digits, rfl, -⟩ | ⟨fits, -⟩ := fits
    · exact ⟨_, _, rfl, .inr rfl⟩
    · exact decimal fits _

section Plain

variable (plain : s.reader = none)
include plain

/-- A number leaves the contexts alone, and no line begins behind it. -/
theorem finish_num_leaves {value : TokenValue} (at' : s.source.TextAt l.pos (lit ++ after)) (some : lit ≠ [])
    (run : Runs s (finish .num value) { l.begin with pos := l.pos + width lit } ⟨⟩ l') :
    (l'.leave s).Faces s false after ∧ (l'.leave s).context = l.context := by
  obtain ⟨pos, -, token, -⟩ := finish_spec plain run
  have pos : l'.pos = l.pos + width lit := pos
  have stop : l'.token.stop = l.pos + width lit := by rw [token]
  have moved : 0 < width lit := Nat.lt_of_lt_of_le (List.length_pos_iff.mpr some) (length_le_width lit)
  have contexts : l'.contexts = l.contexts := by
    simp [finish, LexM.updateContext, plain, Cursor.updateContext, TokenKind.isKeyword, TokenKind.keyword?,
      Cursor.allow] at run
    rw [run]
    rfl
  refine ⟨⟨[], ?_, ?_, ?_⟩, ?_⟩
  · show s.source.TextAt l'.token.stop after
    rw [stop]
    exact at'.past
  · show l'.pos = l'.token.stop + 0
    rw [pos, stop]
    rfl
  · show false = (l'.token.stop == 0 || false)
    rw [stop]
    simp
    omega
  · show l'.contexts.head?.getD .blockBraces = _
    rw [contexts]
    rfl

variable (late : 12 ≤ s.edition)
include late

/-- A text of one number is a numeral, with white space and comments around it. -/
theorem tokenize_numeral (at' : s.source.TextAt 0 text) (run : s.tokenize = (.ok [t, e], l)) (number : t.kind = .num) :
    ∃ (before : List Char) (n : Numeral) (after : List Char), text = before ++ (n.spelling ++ after) ∧
      Lone (!s.inModule) s.options.hashBangAllowed (NotedIn l.comments) before n.spelling after ∧
      n.Allowed s.inModule ∧ t.value = n.value ∧ t.start = width before ∧ t.stop = width (before ++ n.spelling) := by
  obtain ⟨m, first, rfl, -, second, rfl, ended⟩ := tokenize_pair_iff.mp run
  obtain ⟨u, rest, rfl, opening, faces⟩ := exists_opening at'
  obtain ⟨k, fresh, rest', reach, ⟨-, eof⟩ | ⟨c, head, read⟩⟩ := readNext_over plain (lexerAt_outside s) faces first
  · have kind : m.kind = .num := number
    simp [(finish_spec plain eof).2.1] at kind
  have here : s.source.TextAt k.begin.pos rest' := reach.faces.textAt
  obtain ⟨n, after, rfl, allowed, finished⟩ := readToken_numeral plain late here head number read
  have strict : k.begin.strict = s.inModule := show k.frame.strict = _ by rw [reach.frame, lexerAt_frame]; rfl
  rw [strict] at allowed
  obtain ⟨d, v, some, -⟩ := allowed.head
  obtain ⟨faces', context⟩ := finish_num_leaves plain here (by simp [some]) finished
  have outside : (m.leave s).context ≠ .templateText := by
    rw [context]
    exact fun inside => lexerAt_outside s ((Lexer.context_of_frame reach.frame).symm.trans inside)
  obtain ⟨k', fresh', rest', reach', ⟨rfl, eof⟩ | ⟨c', head', read'⟩⟩ := readNext_over plain outside faces' second
  swap
  · have here' : s.source.charAt k'.begin.pos = Option.some c' := reach'.faces.textAt.charAt.trans head'
    exact (((readToken_spec plain here' read').resolve_right (by simp)).2.kind ended).elim
  have reported : m.comments ⊆ l.comments := fun c mem => by
    rw [(finish_spec plain eof).2.2.2.2.2]
    exact reach'.comments mem
  have same : m.comments = k.comments := (finish_spec plain finished).2.2.2.2.2
  have skips :=
    reach.skips.mono fun body ⟨c, mem, noted⟩ => (⟨c, reported (same ▸ mem), noted⟩ : NotedIn l.comments body)
  have skips' := reach'.skips.mono fun body ⟨c, mem, noted⟩ =>
    (⟨c, (finish_spec plain eof).2.2.2.2.2 ▸ mem, noted⟩ : NotedIn l.comments body)
  obtain ⟨gap, rfl, -⟩ := skips.replace
  have start : k.begin.pos = width (u ++ gap) := by
    rw [← List.append_assoc] at at'
    rw [at'.moved here, Nat.zero_add]
  have token : m.token.start = k.begin.pos ∧ m.token.stop = k.begin.pos + width n.spelling := by
    rw [(finish_spec plain finished).2.2.1]
    exact ⟨rfl, rfl⟩
  exact ⟨u ++ gap, n, after, by rw [List.append_assoc], ⟨u, gap, fresh, fresh', rfl, opening, skips, skips'⟩, allowed,
    finish_value plain finished, token.1.trans start, by rw [width_append, ← start]; exact token.2⟩

/-- White space and comments around a numeral make no difference. -/
theorem tokenize_lone (at' : s.source.TextAt 0 (before ++ (n.spelling ++ after)))
    (lone : Lone (!s.inModule) s.options.hashBangAllowed P before n.spelling after) (allowed : n.Allowed s.inModule) :
    ∃ t e l, s.tokenize = (.ok [t, e], l) ∧ t.kind = .num ∧ t.value = n.value ∧ e.kind = .eof := by
  obtain ⟨u, gap, fresh, fresh', rfl, opening, skips, skips'⟩ := lone
  obtain ⟨c, v, some, first⟩ := allowed.head
  rw [List.append_assoc] at at'
  have bare : u = [] → ¬ s.OpensWithComment := by
    rintro rfl ⟨-, mark, -⟩
    have hash : (n.spelling ++ after).head? ≠ Option.some '#' := by
      rw [some]
      rintro same
      obtain rfl : c = '#' := by simpa using same
      exact absurd first (by decide)
    exact skips.head_ne (by decide) hash (at'.charAt.symm.trans mark)
  obtain ⟨m, leads, faces, frame⟩ := skips.leads plain (lexerAt_outside s) (lexerAt_faces at' opening bare)
  have outside : m.context ≠ .templateText :=
    fun inside => lexerAt_outside s ((Lexer.context_of_frame frame).symm.trans inside)
  have strict : m.begin.strict = s.inModule := show m.frame.strict = _ by rw [frame, lexerAt_frame]; rfl
  obtain ⟨r, finished⟩ := Runs.exists_finish plain .num n.value { m.begin with pos := m.pos + width n.spelling }
  have at'' : s.source.TextAt m.begin.pos (n.spelling ++ after) := faces.textAt
  obtain ⟨d, head, mark, read⟩ := n.reads late (strict.symm ▸ allowed) skips'.apart at'' finished
  have here : s.source.charAt m.pos = Option.some d := at''.charAt.trans (by rw [List.head?_append, head]; rfl)
  have gap : Runs s skipBlank m ⟨⟩ m := by
    obtain rfl : c = d := by simpa [some] using head
    refine skipBlank_literal here mark ?_
    have slash : c ≠ '/' := by
      rintro rfl
      exact absurd first (by decide)
    simp [Source.opensComment, Source.spells, Source.has, here, slash]
  have number : Runs s readNext (s.lexerAt 0) ⟨⟩ r :=
    leads r (readNext_of_token plain outside gap here ((readToken_literal mark).mpr read))
  obtain ⟨faces', context⟩ := finish_num_leaves plain faces.textAt (by simp [some]) finished
  obtain ⟨k, leads', faces'', -⟩ := skips'.leads plain (context ▸ outside) faces'
  have ended : s.source.size ≤ k.pos := Nat.le_of_eq (by simpa using faces''.textAt.size.symm)
  obtain ⟨l, eof, kind⟩ := readNext_end plain ended faces''.textAt.charAt_nil
  have isNumber : r.kind = .num := (finish_spec plain finished).2.1
  refine ⟨_, _, l, tokenize_pair_iff.mpr ⟨r, number, rfl, ?_, leads' l eof, rfl, kind⟩, isNumber,
    finish_value plain finished, kind⟩
  show r.kind ≠ .eof
  simp [isNumber]

end Plain

end ScriptSyntax
