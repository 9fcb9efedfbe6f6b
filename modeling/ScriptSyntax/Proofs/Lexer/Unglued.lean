import ScriptSyntax.Proofs.Lexer.Alone
import ScriptSyntax.Proofs.Lexer.CommentFree

/-!
Where numbers end.  No word begins where a number ends, unless the number is a big integer with a mark of its radix.
-/

namespace ScriptSyntax

open LexM

/-- No identifier begins at the offset. -/
def Setting.WordFree (s : Setting) (offset : Nat) : Prop :=
  (s.source.charAt offset).any (Alphabet.isIdentifierStart s.astral) = false

/-- A big integer whose digits stand behind a mark of their radix. -/
def TokenValue.IsMarked (edition : Nat) (value : TokenValue) : Prop :=
  ∃ mark radix digits, radixMark? edition mark = some radix ∧ value = .bigint (String.ofList ('0' :: mark :: digits))

/-- The current token is a number, and if a word begins where it ends, a big integer with a mark. -/
def Lexer.Unglued (s : Setting) (l : Lexer) : Prop :=
  l.kind = .num ∧ (s.WordFree l.token.stop ∨ l.value.IsMarked s.edition)

variable {s : Setting} {l m l' : Lexer} {u : Unit} {c : Char}

/-! ### The readers of numbers -/

section Readers

variable (plain : s.reader = none)
include plain

/-- A number that was checked for its end. -/
theorem finish_unglued {value : TokenValue} (ends : s.WordFree l.pos) (run : Runs s (finish .num value) l u l') :
    l'.Unglued s := by
  obtain ⟨-, kind, token, -⟩ := finish_spec plain run
  have stop : l'.token.stop = l.pos := by rw [token]
  exact ⟨kind, .inl (stop ▸ ends)⟩

theorem numberRest_unglued {source : Source} {start : Nat} {startsWithDot leadingZero : Bool} {whole : List Char}
    (run : Runs s (numberRest source start startsWithDot leadingZero whole) l u l') : l'.Unglued s := by
  simp [numberRest, bigintDigits] at run
  obtain ⟨-, ⟨-, ends, run⟩ | ⟨-, ⟨-, ends, run⟩ | ⟨-, m, -, n, -, ends, run⟩⟩⟩ := run
  · exact finish_unglued plain (l := { l with pos := l.pos + 1 }) ends run
  · exact finish_unglued plain ends run
  · exact finish_unglued plain ends run

theorem readNumber_unglued {startsWithDot : Bool} (run : Runs s (readNumber startsWithDot) l u l') : l'.Unglued s := by
  cases startsWithDot <;> simp [readNumber_eq] at run
  · obtain ⟨-, m, -, -, run⟩ := run
    exact numberRest_unglued plain run
  · exact numberRest_unglued plain run

/-- The check is left out after the digits of a big integer. -/
theorem readRadixNumber_unglued {radix radix' : Nat} (zero : s.source.charAt l.pos = some '0')
    (mark : s.source.charAt (l.pos + 1) = some c)
    (known : radixMark? s.edition c = some radix) (run : Runs s (readRadixNumber radix') l u l') : l'.Unglued s := by
  simp [readRadixNumber, bigintDigits] at run
  obtain ⟨digits, m, read, run⟩ := run
  split at run
  · simp at run
  simp at run
  obtain ⟨⟨-, big⟩, run⟩ | ⟨-, ends, run⟩ := run
  · refine ⟨(finish_spec plain run).2.1, .inr ?_⟩
    have narrow : c.utf8Size = 1 ∧ c ≠ '_' := by
      unfold radixMark? at known
      split at known <;> first | exact ⟨rfl, by decide⟩ | cases known
    have past : l.pos + 2 ≤ m.pos := (readDigits_forward read).pos_le
    have boundary := Source.isBoundary_of_charAt big
    have first := Source.chars_cons zero boundary (show l.pos + '0'.utf8Size ≤ m.pos from Nat.le_of_succ_le past)
    have second := Source.chars_cons mark boundary (show l.pos + 1 + c.utf8Size ≤ m.pos by rw [narrow.1]; exact past)
    have digits : (s.source.chars l.pos m.pos).filter (· != '_') =
        '0' :: c :: (s.source.chars (l.pos + 1 + c.utf8Size) m.pos).filter (· != '_') := by
      rw [first, show l.pos + '0'.utf8Size = l.pos + 1 from rfl, second]
      simp [narrow.2]
    exact ⟨c, radix, _, known, (finish_value plain run).trans (by rw [digits])⟩
  · exact finish_unglued plain ends run

theorem readZero_unglued (zero : s.source.charAt l.pos = some '0') (run : Runs s readZero l u l') : l'.Unglued s := by
  simp only [readZero, Runs.bind_iff, Runs.charAhead_iff, Runs.lexEdition_iff, Runs.exists_look] at run
  split at run
  · next radix found =>
    obtain ⟨c, mark, known⟩ := Option.bind_eq_some_iff.mp found
    exact readRadixNumber_unglued plain zero mark known run
  · exact readNumber_unglued plain run

theorem literalReader_unglued (here : s.source.charAt l.pos = some c) (number : l'.kind = .num)
    (run : Runs s (literalReader c) l u l') :
    l'.Unglued s := by
  obtain ⟨rfl, run⟩ | ⟨-, -, run⟩ | run := literalReader_num plain number run
  · exact readZero_unglued plain here run
  · exact readNumber_unglued plain run
  · exact readNumber_unglued plain run

theorem readNext_unglued (run : Runs s readNext l u l') (number : l'.kind = .num) : l'.Unglued s := by
  have ordinary : l'.kind.isTemplatePart = false := by rw [number]; rfl
  obtain ⟨m, c, -, here, -, read⟩ := readNext_token plain ordinary run
  have opens := ((readToken_opens plain (l := m.begin) here read).resolve_right (by simp)).2
  exact literalReader_unglued plain (l := m.begin) here number
    ((readToken_literal (mem_literalMarks_of_opens here (.inl number) opens)).mp read)

end Readers

/-! ### Whole texts -/

/-- Each token of a text is the current one after some read. -/
theorem tokenize_read {tokens : List Token} (run : s.tokenize = (.ok tokens, l)) {t : Token} (mem : t ∈ tokens) :
    ∃ m m', Runs s readNext m ⟨⟩ m' ∧ t = s.currentToken m'.toCursor := by
  have read := tokenize_iff.mp run
  simp [allTokens] at read
  obtain ⟨first, reads, rest⟩ := read
  let Read (t : Token) : Prop := ∃ m m', Runs s readNext m ⟨⟩ m' ∧ t = s.currentToken m'.toCursor
  -- The tokens behind the lexer were read, and so was the current one.
  obtain ⟨found, last, ⟨before, current⟩, done⟩ := Runs.of_lexLoop
    (fun found m => (∀ t ∈ found, Read t) ∧ Read (s.currentToken m.toCursor)) ⟨by simp, _, _, reads, rfl⟩ (by
      rintro found after m m' ⟨before, current⟩ pass
      simp [tokenPass, LexM.next] at pass
      obtain ⟨-, moved, rfl⟩ := pass
      exact ⟨List.forall_mem_cons.mpr ⟨current, before⟩, _, _, moved, rfl⟩) rest
  simp [tokenPass] at done
  obtain ⟨-, rfl, -⟩ := done
  obtain mem | rfl : t ∈ found ∨ t = s.currentToken last.toCursor := by simpa using mem
  · exact before t mem
  · exact current

/-- Where a number of a text ends no word begins, unless the number is a big integer with a mark of its radix. -/
theorem tokenize_unglued (text : String) (o : Options) (tokens : List Token) (l : Lexer)
    (run : Setting.tokenize ⟨.ofString text, o, none⟩ = (.ok tokens, l)) : ∀ t ∈ tokens, t.kind = .num →
      Setting.WordFree ⟨.ofString text, o, none⟩ t.stop ∨ t.value.IsMarked o.edition := by
  intro t mem number
  obtain ⟨m, m', read, rfl⟩ := tokenize_read run mem
  exact (readNext_unglued rfl read number).2

/-- Numbers of all shapes, one of them glued to a word. -/
def numberShapes : String := "0x1f 017 3n .5e1/0b1nin"

theorem tokenize_unglued_shapes : ∃ tokens l, Setting.tokenize ⟨.ofString numberShapes, {}, none⟩ = (.ok tokens, l) ∧
    ∀ t ∈ tokens, t.kind = .num → Setting.WordFree ⟨.ofString numberShapes, {}, none⟩ t.stop ∨
      t.value.IsMarked (Options.edition {}) := by
  have reads : (Setting.tokenize ⟨.ofString numberShapes, {}, none⟩).1.isOk = true := by decide +kernel
  generalize result : Setting.tokenize ⟨.ofString numberShapes, {}, none⟩ = r at reads
  obtain ⟨_ | tokens, l⟩ := r
  · cases reads
  · exact ⟨tokens, l, rfl, tokenize_unglued numberShapes {} tokens l result⟩

end ScriptSyntax
