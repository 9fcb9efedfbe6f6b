import ScriptSyntax.Parser.Program
import ScriptSyntax.Proofs.Chain.Tree
import ScriptSyntax.Proofs.Lexer.Alone
import ScriptSyntax.Proofs.Lexer.CommentFree
import ScriptSyntax.Proofs.Lexer.Spelling

/-!
The text of a chain of names, and how the lexer reads it: names and operators take turns, each with a space before it
but the first.
-/

namespace ScriptSyntax

open LexM

/-! ### Texts -/

/-- An operator and a name, each after a space. -/
def Link.text (k : Link) : List Char := ' ' :: k.operator.kind.label.toList ++ ' ' :: k.operand.toList

def linksText (links : List Link) : List Char := links.flatMap Link.text

def NameChain.text (c : NameChain) : String := String.ofList (c.first.toList ++ linksText c.links)

/-- The names of a chain. -/
def NameChain.names (c : NameChain) : List String := c.first :: c.links.map Link.operand

/-- A word that stands for itself at the top of a program: no keyword, not reserved, and not `await` where that has an
operand. -/
structure Options.Names (o : Options) (name : String) : Prop where
  letters : ∃ c rest, name.toList = c :: rest ∧ Alphabet.isIdentifierStart (6 ≤ o.edition) c = true ∧
    ∀ d ∈ rest, Alphabet.isIdentifierPart (6 ≤ o.edition) d = true
  noKeyword : Word.isKeyword o.edition o.isModule name = false
  free : let words : ReservedWords := ⟨o.edition, o.isModule, o.reservedPolicy == .yes⟩
    (if o.isModule then words.containsStrict name else words.contains name) = false
  noOperator : name = "await" → o.allowAwaitOutsideFunction = false ∧ ¬ (o.isModule = true ∧ 13 ≤ o.edition)

/-! ### Gaps -/

/-- Sets of code points that lie apart have none in common. -/
theorem Unicode.Ranges.contains_eq_false_of_apart {ranges others : Ranges} {code : Nat}
    (apart : (ranges.all fun r => others.all fun o => r.2.blt o.1 || o.2.blt r.1) = true)
    (within : others.contains code = true) :
    ranges.contains code = false := by
  rw [← Bool.not_eq_true]
  intro inside
  obtain ⟨r, mem, low, high⟩ := contains_iff.mp inside
  obtain ⟨o, mem', low', high'⟩ := contains_iff.mp within
  have := List.all_eq_true.mp (List.all_eq_true.mp apart r mem) o mem'
  simp only [Bool.or_eq_true, Nat.blt_eq] at this
  omega

namespace Alphabet

/-- The characters outside ASCII that are gaps. -/
def gaps : Unicode.Ranges :=
  [(0xa0, 0xa0), (0x1680, 0x1680), (0x2000, 0x200a), (0x2028, 0x2029), (0x202f, 0x202f),
   (0x205f, 0x205f), (0x3000, 0x3000),
   (0xfeff, 0xfeff)]

theorem identifierStart_apart :
    (Unicode.identifierStart.all fun r => gaps.all fun o => r.2.blt o.1 || o.2.blt r.1) = true := by
  decide +kernel

theorem identifierOnlyPart_apart :
    (Unicode.identifierOnlyPart.all fun r => gaps.all fun o => r.2.blt o.1 || o.2.blt r.1) = true := by
  decide +kernel

/-- A gap is in ASCII, where it continues no identifier, or one of the others. -/
theorem gaps_of_isGap {c : Char} (gap : isGap c = true) :
    (c.toNat < 0x80 ∧ ∀ astral, isIdentifierPart astral c = false) ∨
      ¬ c.toNat < 0x80 ∧ gaps.contains c.toNat = true := by
  by_cases space : 0x2000 ≤ c.toNat ∧ c.toNat ≤ 0x200a
  · exact .inr ⟨by omega, Unicode.Ranges.contains_iff.mpr ⟨(0x2000, 0x200a), by simp [gaps], space⟩⟩
  · simp only [isGap, isBlank, isLineTerminator, Bool.or_eq_true, Bool.and_eq_true, decide_eq_true_eq,
      space, or_false] at gap
    rcases gap with
      (((((((((rfl | rfl) | rfl) | rfl) | rfl) | rfl) | rfl) | rfl) | rfl) | rfl) | (((rfl | rfl) | rfl) | rfl)
    all_goals first | exact .inl ⟨by decide, fun _ => rfl⟩ | exact .inr ⟨by decide, rfl⟩

theorem isGap_of_isIdentifierPart {astral : Bool} {c : Char} (part : isIdentifierPart astral c = true) :
    isGap c = false := by
  rw [← Bool.not_eq_true]
  intro gap
  obtain ⟨-, none⟩ | ⟨wide, within⟩ := gaps_of_isGap gap
  · cases part.symm.trans (none astral)
  · have joiner : c ≠ zeroWidthNonJoiner ∧ c ≠ zeroWidthJoiner := by
      constructor <;> (rintro rfl; cases within)
    simp [isIdentifierPart, wide, joiner, Unicode.Ranges.contains_eq_false_of_apart identifierStart_apart within,
      Unicode.Ranges.contains_eq_false_of_apart identifierOnlyPart_apart within] at part

end Alphabet

variable {s : Setting} {l l' m : Lexer} {c : Char} {t rest : List Char}

/-- The text ends, or a token begins that is no slash before another mark. -/
def Solid : List Char → Prop
  | [] => True
  | c :: rest => Alphabet.isGap c = false ∧ (c = '/' → rest.head? = some ' ')

theorem Source.skipBlank_solid {source : Source} {offset : Nat} (solid : Solid rest) (at' : source.TextAt offset rest) :
    source.skipBlank offset = offset := by
  cases rest with
  | nil => exact skipBlank_end at'.charAt_nil
  | cons c rest =>
    refine skipBlank_stop at'.charAt_cons solid.1 ?_
    rintro rfl
    have next := at'.step.charAt
    rw [solid.2 rfl] at next
    have space : source.charAt (offset + 1) = some ' ' := next
    simp [Source.has, space]

/-- One space is skipped. -/
theorem skipBlank_space (solid : Solid rest) (at' : s.source.TextAt l.pos (' ' :: rest)) :
    Runs s skipBlank l ⟨⟩ { l with pos := l.pos + 1 } := by
  have space : Runs s skipBlankPass l (.again ()) { l with pos := l.pos + 1 } := by
    simp [skipBlankPass, at'.charAt_cons]
    decide
  have done : Runs s skipBlankPass { l with pos := l.pos + 1 } (.done ()) { l with pos := l.pos + 1 } :=
    skipBlankPass_stop (Source.skipBlank_solid solid at'.step)
  simp only [skipBlank, repeatForward, Runs.bind_iff, Runs.lexSource_iff, Runs.pos_iff, Runs.exists_look, loop]
  exact ⟨_, _, space, Runs.bind_iff.mpr ⟨_, _, done, Runs.pure_iff.mpr ⟨rfl, rfl⟩⟩⟩

/-- No name begins a gap. -/
theorem Options.Names.solid {name : String} (names : s.options.Names name) : Solid (name.toList ++ rest) := by
  obtain ⟨c, more, same, first, -⟩ := names.letters
  have part := Alphabet.isIdentifierPart_of_isIdentifierStart first
  rw [same]
  refine ⟨Alphabet.isGap_of_isIdentifierPart part, ?_⟩
  rintro rfl
  simp [Alphabet.isIdentifierStart] at first

/-! ### Words -/

theorem loop_word (parts : ∀ c ∈ t, Alphabet.isIdentifierPart s.astral c = true)
    (stop : ∀ c ∈ rest.head?, Alphabet.isIdentifierPart s.astral c = false ∧ c ≠ '\\')
    (at' : s.source.TextAt l.pos (t ++ rest)) {fuel : Nat} (enough : t.length < fuel) (before : List Char) :
    Runs s (loop wordPass fuel before) l (t.reverse ++ before) { l with pos := l.pos + width t } := by
  induction t generalizing l fuel before with
  | nil =>
    obtain ⟨fuel, rfl⟩ : ∃ n, fuel = n + 1 := Nat.exists_eq_add_one.mpr enough
    have pass : Runs s (wordPass before) l (.done before) l := by
      rw [List.nil_append] at at'
      simp only [wordPass, Runs.bind_iff, Runs.peek_iff, Runs.exists_look, at'.charAt]
      cases head : rest.head? with
      | none => simp
      | some c => simp [stop c head]
    exact Runs.bind_iff.mpr ⟨_, _, pass, Runs.pure_iff.mpr ⟨rfl, rfl⟩⟩
  | cons c t ih =>
    obtain ⟨fuel, rfl⟩ : ∃ n, fuel = n + 1 := Nat.exists_eq_add_one.mpr (by omega)
    have pass : Runs s (wordPass before) l (.again (c :: before)) { l with pos := l.pos + c.utf8Size } := by
      simp [wordPass, at'.charAt_cons, parts c (.head _)]
    refine Runs.bind_iff.mpr ⟨_, _, pass, ?_⟩
    have more := ih (l := { l with pos := l.pos + c.utf8Size }) (fun d mem => parts d (.tail _ mem)) at'.step
      (show t.length < fuel by simpa using enough) (c :: before)
    simpa [width_cons, Nat.add_assoc] using more

/-- A word is read up to the first character that cannot belong to it. -/
theorem readWordText_run (parts : ∀ c ∈ t, Alphabet.isIdentifierPart s.astral c = true)
    (stop : ∀ c ∈ rest.head?, Alphabet.isIdentifierPart s.astral c = false ∧ c ≠ '\\')
    (at' : s.source.TextAt l.pos (t ++ rest)) :
    Runs s readWordText l (String.ofList t) { l with pos := l.pos + width t, containsEscape := false } := by
  have enough : t.length < s.source.size - l.pos + 2 := by
    have size := at'.size
    have le := length_le_width t
    rw [width_append] at size
    omega
  simp only [readWordText, repeatForward, Runs.bind_iff, Runs.modify_iff, Runs.exists_unit, exists_eq_left,
    Runs.lexSource_iff, Runs.pos_iff,
    Runs.exists_look]
  exact ⟨_, _, loop_word (l := { l with containsEscape := false }) parts stop at' enough [], by simp⟩

theorem readWord_run (parts : ∀ c ∈ t, Alphabet.isIdentifierPart s.astral c = true)
    (stop : ∀ c ∈ rest.head?, Alphabet.isIdentifierPart s.astral c = false ∧ c ≠ '\\')
    (at' : s.source.TextAt l.pos (t ++ rest)) (escape : l.containsEscape = false) (kind : TokenKind)
    (known : (if Word.isKeyword s.edition s.inModule (String.ofList t)
      then (TokenKind.ofKeyword? (String.ofList t)).getD .name else .name) = kind)
    (run : Runs s (finish kind (.name (String.ofList t))) { l with pos := l.pos + width t } ⟨⟩ l') :
    Runs s readWord l ⟨⟩ l' := by
  have word := readWordText_run parts stop at'
  simp only [← escape] at word
  simp only [readWord, Runs.bind_iff, Runs.read_iff]
  exact ⟨_, _, word, s, _, ⟨rfl, rfl⟩, by rwa [known]⟩

/-! ### Operators -/

/-- Narrow characters stand at consecutive offsets. -/
theorem Source.TextAt.charAt_add {source : Source} {offset i : Nat} (at' : source.TextAt offset (t ++ rest))
    (narrow : ∀ c ∈ t, c.utf8Size = 1) (le : i ≤ t.length) : source.charAt (offset + i) = (t ++ rest)[i]? := by
  induction t generalizing offset i with
  | nil =>
    obtain rfl : i = 0 := Nat.le_zero.mp le
    simpa [List.head?_eq_getElem?] using at'.charAt
  | cons c t ih =>
    cases i with
    | zero => simpa using at'.charAt
    | succ i =>
      have more := ih (narrow c (.head _) ▸ at'.step) (fun d mem => narrow d (.tail _ mem)) (Nat.le_of_succ_le_succ le)
      rw [List.cons_append, List.getElem?_cons_succ, ← more, Nat.add_assoc, Nat.add_comm 1 i]

/-- How the operators between operands are written. -/
theorem TokenKind.label_operators :
    pipePipe.label = "||" ∧ ampAmp.label = "&&" ∧ questionQuestion.label = "??" ∧ pipe.label = "|" ∧ caret.label = "^" ∧
    amp.label = "&" ∧ eqEq.label = "==" ∧ notEq.label = "!=" ∧ eqEqEq.label = "===" ∧
      notEqEq.label = "!==" ∧ lt.label = "<" ∧
    gt.label = ">" ∧ ltEq.label = "<=" ∧ gtEq.label = ">=" ∧ ltLt.label = "<<" ∧ gtGt.label = ">>" ∧
      gtGtGt.label = ">>>" ∧
    plus.label = "+" ∧ minus.label = "-" ∧ percent.label = "%" ∧ star.label = "*" ∧ slash.label = "/" ∧
      kwIn.label = "in" ∧
    kwInstanceof.label = "instanceof" := by
  and_intros <;> rfl

theorem Connective.narrow (o : Connective) : ∀ c ∈ o.kind.label.toList, c.utf8Size = 1 := by
  obtain ⟨kind, precedence, joins⟩ := o
  cases kind <;> cases joins
  all_goals simp [TokenKind.label_operators, Char.utf8Size]

theorem readToken_operator (o : Connective) (late : 11 ≤ s.edition) (divides : l.exprAllowed = false)
    (escape : l.containsEscape = false)
    (at' : s.source.TextAt l.pos (o.kind.label.toList ++ ' ' :: rest)) : ∃ c value, s.source.charAt l.pos = some c ∧
      ∀ l', Runs s (finish o.kind value) { l with pos := l.pos + width o.kind.label.toList } ⟨⟩ l' →
        Runs s (readToken c) l true l' := by
  have seen (i : Nat) := at'.charAt_add (i := i) o.narrow
  obtain ⟨kind, precedence, joins⟩ := o
  dsimp only at at' seen ⊢
  have word (t : List Char) (same : kind.label.toList = t)
      (parts : ∀ c ∈ t, Alphabet.isIdentifierPart s.astral c = true)
      (known : (if Word.isKeyword s.edition s.inModule (String.ofList t)
        then (TokenKind.ofKeyword? (String.ofList t)).getD .name
        else .name) = kind) (l' : Lexer) (run : Runs s (finish kind (.name (String.ofList t)))
          { l with pos := l.pos + width t } ⟨⟩ l') :
      Runs s readWord l ⟨⟩ l' :=
    readWord_run parts (by simp [Alphabet.isIdentifierPart]) (same ▸ at') escape kind known run
  cases kind <;> cases joins
  case kwIn =>
    refine ⟨'i', .name "in", seen 0 (Nat.zero_le _), fun l' run => ?_⟩
    simpa [readToken, Alphabet.isIdentifierStart] using word ['i', 'n'] rfl
      (by simp [Alphabet.isIdentifierPart]) rfl l' run
  case kwInstanceof =>
    refine ⟨'i', .name "instanceof", seen 0 (Nat.zero_le _), fun l' run => ?_⟩
    simpa [readToken, Alphabet.isIdentifierStart] using
      word ['i', 'n', 's', 't', 'a', 'n', 'c', 'e', 'o', 'f'] rfl (by simp [Alphabet.isIdentifierPart]) rfl l' run
  case pipe | caret | amp | lt | gt | plus | minus | percent | star | slash =>
    have h0 := seen 0 (by simp [TokenKind.label_operators])
    have h1 := seen 1 (by simp [TokenKind.label_operators])
    simp [TokenKind.label_operators] at h0 h1
    refine ⟨_, .none, h0, fun l' run => ?_⟩
    have run : Runs s (finish _ .none) { l with pos := l.pos + 1 } ⟨⟩ l' := run
    simpa [readToken, Alphabet.isIdentifierStart, readLogical, readLess, readGreater, readPlus, readMinus, readStar,
      readSlash, readAssignable,
      finishOperator, divides, h1] using run
  case eqEq | notEq | ltEq | gtEq | ltLt | gtGt =>
    have h0 := seen 0 (by simp [TokenKind.label_operators])
    have h1 := seen 1 (by simp [TokenKind.label_operators])
    have h2 := seen 2 (by simp [TokenKind.label_operators])
    simp [TokenKind.label_operators] at h0 h1 h2
    refine ⟨_, .none, h0, fun l' run => ?_⟩
    have run : Runs s (finish _ .none) { l with pos := l.pos + 2 } ⟨⟩ l' := run
    simpa [readToken, Alphabet.isIdentifierStart, readLess, readGreater, readEquals, readBang, readAssignable,
      finishOperator, h1, h2] using run
  case pipePipe | ampAmp | questionQuestion =>
    have h0 := seen 0 (by simp [TokenKind.label_operators])
    have h1 := seen 1 (by simp [TokenKind.label_operators])
    have h2 := seen 2 (by simp [TokenKind.label_operators])
    simp [TokenKind.label_operators] at h0 h1 h2
    refine ⟨_, .none, h0, fun l' run => ?_⟩
    have run : Runs s (finish _ .none) { l with pos := l.pos + 2 } ⟨⟩ l' := run
    simp [readToken, Alphabet.isIdentifierStart, readLogical, readQuestion, readAssignable, finishOperator, h1, h2]
    -- Only later editions look for an assignment.
    have := Nat.lt_or_ge s.edition 12
    grind
  case eqEqEq | notEqEq | gtGtGt =>
    have h0 := seen 0 (by simp [TokenKind.label_operators])
    have h1 := seen 1 (by simp [TokenKind.label_operators])
    have h2 := seen 2 (by simp [TokenKind.label_operators])
    have h3 := seen 3 (by simp [TokenKind.label_operators])
    simp [TokenKind.label_operators] at h0 h1 h2 h3
    refine ⟨_, .none, h0, fun l' run => ?_⟩
    have run : Runs s (finish _ .none) { l with pos := l.pos + 3 } ⟨⟩ l' := run
    simpa [readToken, Alphabet.isIdentifierStart, readGreater, readEquals, readBang, readAssignable, finishOperator,
      h1, h2, h3] using run

/-- No operator begins a gap. -/
theorem Connective.solid (o : Connective) : Solid (o.kind.label.toList ++ ' ' :: rest) := by
  obtain ⟨kind, precedence, joins⟩ := o
  cases kind <;> cases joins
  all_goals simp [TokenKind.label_operators, Solid, Alphabet.isGap, Alphabet.isBlank, Alphabet.isLineTerminator]

/-! ### Tokens -/

/-- Between two tokens of a chain, before a text; `allowed` says whether an operand comes next. -/
structure Lexer.Before (s : Setting) (allowed : Bool) (text : List Char) (l : Lexer) : Prop where
  contexts : l.contexts = [.blockBraces]
  allowed : l.exprAllowed = allowed
  escape : l.containsEscape = false
  strict : l.strict = s.inModule
  prev : l.kind ≠ .dot ∧ l.kind ≠ .kwFunction
  text : s.source.TextAt l.pos text

/-- The tokens of a chain leave the contexts alone. -/
theorem Cursor.updateContext_chain (source : Source) (edition : Nat) {prev : TokenKind} {c : Cursor}
    (other : prev ≠ .dot ∧ prev ≠ .kwFunction)
    (known : c.kind = .eof ∨ (∃ n, c.kind.precedence? = some n) ∨ c.kind = .name ∧ c.exprAllowed = true ∧
      c.contexts = [.blockBraces]) :
    c.updateContext source edition prev = c.allow c.kind.beforeExpr := by
  rcases known with ended | ⟨n, joins⟩ | ⟨name, allowed, contexts⟩
  · simp [updateContext, ended, TokenKind.isKeyword, TokenKind.keyword?]
  · cases kind : c.kind
    all_goals simp [kind, TokenKind.precedence?] at joins
    all_goals simp [updateContext, kind, other, TokenKind.beforeExpr, TokenKind.precedence?]
  · simp [updateContext, name, allowed, inGenerator, contexts, TokenKind.isKeyword, TokenKind.keyword?,
      TokenKind.beforeExpr,
      TokenKind.precedence?, TokenKind.isAssign]

theorem finish_chain (plain : s.reader = none) (kind : TokenKind) (value : TokenValue) {allowed : Bool}
    (before : l.Before s allowed rest)
    (known : kind = .eof ∨ (∃ n, kind.precedence? = some n) ∨ kind = .name ∧ allowed = true) :
    ∃ l', Runs s (finish kind value) l ⟨⟩ l' ∧ l'.kind = kind ∧ l'.value = value ∧
      l'.Before s kind.beforeExpr rest := by
  have kept := Cursor.updateContext_chain s.source s.edition before.prev
    (c := { l.toCursor with kind, value, token := { l.token with stop := l.pos, stopPosition := l.position } })
    (known.imp_right (.imp_right fun ⟨name, same⟩ => ⟨name, same ▸ before.allowed, before.contexts⟩))
  refine ⟨_, by simp [finish, LexM.updateContext, plain]; rfl, ?_⟩
  rw [kept]
  refine ⟨rfl, rfl, before.contexts, rfl, before.escape, before.strict, ?_, before.text⟩
  rcases known with rfl | ⟨n, joins⟩ | ⟨rfl, -⟩
  · simp [Cursor.allow]
  · constructor
    all_goals
      rintro rfl
      cases joins
  · simp [Cursor.allow]

theorem Lexer.Before.outside {allowed : Bool} (before : l.Before s allowed rest) : l.context ≠ .templateText := by
  simp [Cursor.context, before.contexts]

theorem Lexer.Before.past {allowed : Bool} (before : l.Before s allowed (t ++ rest)) :
    Lexer.Before s allowed rest { l with pos := l.pos + width t } :=
  { before with text := before.text.past }

theorem Lexer.Before.begin {allowed : Bool} (before : l.Before s allowed rest) :
    l.begin.Before s allowed rest := { before with }

theorem linksText_stop {links : List Link} :
    ∀ c ∈ (linksText links).head?, Alphabet.isIdentifierPart s.astral c = false ∧ c ≠ '\\' := by
  cases links with
  | nil => simp [linksText]
  | cons k links => simp [linksText, Link.text, Alphabet.isIdentifierPart]

/-- The current token is a name of a chain, and the links come after it. -/
structure Lexer.AtName (s : Setting) (name : String) (links : List Link) (l : Lexer) : Prop where
  kind : l.kind = .name
  value : l.value = .name name
  before : l.Before s false (linksText links)

/-- The current token is the operator of the first link, or the end if there are no links. -/
def Lexer.AtLinks (s : Setting) : List Link → Lexer → Prop
  | [], l => l.kind = .eof ∧ l.Before s false []
  | k :: links, l => l.kind = k.operator.kind ∧ l.Before s true (' ' :: (k.operand.toList ++ linksText links))

section Tokens

variable {links : List Link} {k : Link} {name : String} (plain : s.reader = none)
include plain

theorem readNext_name (names : s.options.Names name) (outside : l.context ≠ .templateText)
    (gap : Runs s skipBlank l ⟨⟩ m)
    (before : m.Before s true (name.toList ++ linksText links)) :
    ∃ l', Runs s readNext l ⟨⟩ l' ∧ l'.AtName s name links := by
  obtain ⟨l', finished, kind, value, after⟩ :=
    finish_chain plain .name (.name name) before.begin.past (.inr (.inr ⟨rfl, rfl⟩))
  obtain ⟨c, rest, same, first, parts⟩ := names.letters
  have first : Alphabet.isIdentifierStart s.astral c = true := first
  have noKeyword : Word.isKeyword s.edition s.inModule name = false := names.noKeyword
  have here : s.source.charAt m.pos = some c := by
    rw [before.text.charAt, same]
    rfl
  have all : ∀ d ∈ name.toList, Alphabet.isIdentifierPart s.astral d = true := by
    rw [same]
    exact List.forall_mem_cons.mpr ⟨Alphabet.isIdentifierPart_of_isIdentifierStart first, parts⟩
  have word : Runs s readWord m.begin ⟨⟩ l' :=
    readWord_run all linksText_stop before.begin.text before.begin.escape .name (by simp [noKeyword])
      (by rwa [String.ofList_toList])
  exact ⟨l', readNext_of_token plain outside gap here (by simpa [readToken, first] using word), kind, value, after⟩

theorem readNext_operator (late : 11 ≤ s.edition) (before : l.Before s false (linksText (k :: links))) :
    ∃ l', Runs s readNext l ⟨⟩ l' ∧ l'.AtLinks s (k :: links) := by
  have split : linksText (k :: links) = [' '] ++
      (k.operator.kind.label.toList ++ ' ' :: (k.operand.toList ++ linksText links)) := by
    simp [linksText, Link.text]
  rw [split] at before
  have moved : Lexer.Before s false (k.operator.kind.label.toList ++ ' ' :: (k.operand.toList ++ linksText links))
    { l with pos := l.pos + 1 } :=
    before.past
  have gap := skipBlank_space k.operator.solid before.text
  obtain ⟨c, value, here, reads⟩ :=
    readToken_operator k.operator late moved.begin.allowed moved.begin.escape moved.begin.text
  obtain ⟨l', finished, kind, -, after⟩ :=
    finish_chain plain _ value moved.begin.past (.inr (.inl ⟨_, k.operator.joins⟩))
  rw [show k.operator.kind.beforeExpr = true by simp [TokenKind.beforeExpr, k.operator.joins]] at after
  exact ⟨l', readNext_of_token plain before.outside gap here (reads l' finished), kind, after⟩

theorem readNext_ended {allowed : Bool} (before : l.Before s allowed []) :
    ∃ l', Runs s readNext l ⟨⟩ l' ∧ l'.AtLinks s [] := by
  obtain ⟨l', finished, kind, -, after⟩ := finish_chain plain .eof .none before.begin (.inl rfl)
  have blank : Runs s skipBlank l ⟨⟩ l :=
    Runs.of_first_pass (skipBlankPass_stop (Source.skipBlank_end before.text.charAt_nil))
  have atEnd : s.source.size ≤ l.pos := Nat.le_of_eq (by simpa using before.text.size.symm)
  exact ⟨l', readNext_of_eof plain (fun inside => (before.outside inside).elim)
    (fun _ => blank) atEnd finished, kind, after⟩

/-- After a name its links are read. -/
theorem Lexer.AtName.next (late : 11 ≤ s.edition) (h : l.AtName s name links) :
    ∃ l', Runs s LexM.next l ⟨⟩ l' ∧ l'.AtLinks s links := by
  have before : Lexer.Before s false (linksText links)
    { l with tokens := s.currentToken l.toCursor :: l.tokens, last := l.token } :=
    { h.before with }
  cases links with
  | nil =>
    obtain ⟨l', run, after⟩ := readNext_ended plain before
    exact ⟨l', by simpa [LexM.next] using run, after⟩
  | cons k links =>
    obtain ⟨l', run, after⟩ := readNext_operator plain late before
    exact ⟨l', by simpa [LexM.next] using run, after⟩

/-- After an operator its operand is read. -/
theorem Lexer.AtLinks.next (h : l.AtLinks s (k :: links)) (names : s.options.Names k.operand) :
    ∃ l', Runs s LexM.next l ⟨⟩ l' ∧ l'.AtName s k.operand links := by
  have before : Lexer.Before s true ([' '] ++ (k.operand.toList ++ linksText links))
      { l with tokens := s.currentToken l.toCursor :: l.tokens, last := l.token } := { h.2 with }
  obtain ⟨l', run, after⟩ :=
    readNext_name plain names before.outside (skipBlank_space names.solid before.text) before.past
  exact ⟨l', by simpa [LexM.next] using run, after⟩

end Tokens

namespace Lexer.AtLinks

variable {links : List Link} {kind : TokenKind} (h : l.AtLinks s links)
include h

theorem kind_eq : l.kind = (links.head?.map (·.operator.kind)).getD .eof := by
  cases links with
  | nil => exact h.1
  | cons k links => exact h.1

theorem other (loose : kind.precedence? = none) (more : kind ≠ .eof) : l.kind ≠ kind := by
  rw [h.kind_eq]
  cases links with
  | nil => exact more.symm
  | cons k links =>
    rintro rfl
    cases k.operator.joins.symm.trans loose

theorem strict : l.strict = s.inModule := by
  cases links with
  | nil => exact h.2.strict
  | cons k links => exact h.2.strict

end Lexer.AtLinks

end ScriptSyntax
