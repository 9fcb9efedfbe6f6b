import ScriptSyntax.Parser.Lookahead
import ScriptSyntax.Proofs.Lexer.Token

/-!
What a look ahead in the text says about the token that is read next.
-/

namespace ScriptSyntax

/-- A text between two offsets begins with the character at the first one. -/
theorem Source.charAt_of_chars {s : Source} {start stop : Nat} {c : Char} {text : List Char}
    (chars : s.chars start stop = c :: text) : s.charAt start = some c := by
  unfold Source.chars at chars
  split at chars
  · next boundary =>
    rw [Array.toList_extract, List.extract_eq_take_drop] at chars
    simp only [isBoundary, Bool.and_eq_true, Bool.or_eq_true, beq_iff_eq] at boundary
    rcases boundary.1 with atEnd | here
    · have nothing : s.cells.toList.drop start = [] := List.drop_eq_nil_of_le (by simp [atEnd, size])
      simp [nothing] at chars
    · obtain ⟨d, here⟩ := Option.isSome_iff_exists.mp here
      obtain ⟨lt, cell⟩ := List.getElem?_eq_some_iff.mp
        (by simpa [charAt, Option.join_eq_some_iff] using here : s.cells.toList[start]? = some (some d))
      rw [List.drop_eq_getElem_cons lt, cell] at chars
      cases width : stop - start with
      | zero => simp [width] at chars
      | succ n =>
        simp [width] at chars
        rw [here, chars.1]
  · cases chars

/-- A word that is seen ahead begins with its first character. -/
theorem Source.charAt_of_hasWord {s : Source} {word : String} {offset : Nat} {c : Char}
    (ahead : s.hasWord word offset = true) (first : word.toList.head? = some c) :
    s.charAt offset = some c := by
  simp only [hasWord, Bool.and_eq_true, beq_iff_eq] at ahead
  have same := congrArg String.toList ahead.1
  obtain ⟨text, spelling⟩ := List.head?_eq_some_iff.mp first
  rw [slice, String.toList_ofList, spelling] at same
  exact charAt_of_chars same

section Words

open LexM

variable {s : Setting} {l l' : Lexer} {u : Unit} (plain : s.reader = none)
include plain

theorem readWord_kind (run : Runs s readWord l u l') : l'.kind = .name ∨ l'.kind.isKeyword = true := by
  simp [readWord] at run
  obtain ⟨word, m, -, run⟩ := run
  rw [(finish_spec plain run).2.1]
  split
  · cases known : TokenKind.ofKeyword? word with
    | none => exact .inl rfl
    | some kind => exact .inr (isKeyword_of_ofKeyword? known)
  · exact .inl rfl

/-- Outside a template a word is read where the gap ends before one. -/
theorem readPass_word {c : Char} {x : Pass Unit Unit} (outside : l.context ≠ .templateText)
    (ahead : s.source.charAt (s.source.skipBlank l.pos) = some c)
    (starts : Alphabet.isIdentifierStart s.astral c = true) (run : Runs s (readPass ()) l x l') :
    x = .done () ∧ (l'.kind = .name ∨ l'.kind.isKeyword = true) := by
  have notEnd := Nat.not_le_of_lt (Source.lt_size_of_charAt ahead)
  simp [readPass, readExtension, plain, Context.keepsBlank, outside] at run
  obtain ⟨m, blank, run⟩ := run
  rw [← (skipBlank_spec blank).2] at ahead notEnd
  rcases run with ⟨atEnd, -⟩ | ⟨-, run⟩
  · exact (notEnd atEnd).elim
  · simp [ahead, readToken, starts] at run
    obtain ⟨read, rfl⟩ := run
    exact ⟨rfl, readWord_kind plain read⟩

theorem readNext_word {c : Char} (outside : l.context ≠ .templateText)
    (ahead : s.source.charAt (s.source.skipBlank l.pos) = some c)
    (starts : Alphabet.isIdentifierStart s.astral c = true) (run : Runs s readNext l u l') :
    l'.kind = .name ∨ l'.kind.isKeyword = true := by
  obtain ⟨_, m, rfl, done⟩ := Runs.of_repeatForward (fun _ m => m = l) rfl (by
    rintro _ _ m n rfl run
    cases (readPass_word plain outside ahead starts run).1) run
  exact (readPass_word plain outside ahead starts done).2

/-- In a template the next token is a part of it. -/
theorem readNext_template (inside : l.context = .templateText) (run : Runs s readNext l u l') :
    l'.InTemplate := by
  have pass {x : Pass Unit Unit} {m : Lexer} (run : Runs s (readPass ()) l x m) :
      x = .done () ∧ m.InTemplate := by
    simp [readPass, readExtension, plain, Context.keepsBlank, inside] at run
    rcases run with ⟨-, ended, rfl⟩ | ⟨-, template, rfl⟩
    · exact ⟨rfl, finish_template plain (l := l.begin) inside rfl ended⟩
    · exact ⟨rfl, (readTemplate_spec plain (l := l.begin) template).2 inside⟩
  obtain ⟨_, m, rfl, done⟩ := Runs.of_repeatForward (fun _ m => m = l) rfl (by
    rintro _ _ m n rfl run
    cases (pass run).1) run
  exact (pass done).2

theorem next_word {c : Char} (outside : l.context ≠ .templateText)
    (ahead : s.source.charAt (s.source.skipBlank l.pos) = some c)
    (starts : Alphabet.isIdentifierStart s.astral c = true) (run : Runs s LexM.next l u l') :
    l'.kind = .name ∨ l'.kind.isKeyword = true := by
  simp [LexM.next] at run
  refine readNext_word (c := c) plain ?_ ?_ starts run
  · exact outside
  · exact ahead

theorem next_template (inside : l.context = .templateText) (run : Runs s LexM.next l u l') :
    l'.InTemplate := by
  simp [LexM.next] at run
  refine readNext_template plain ?_ run
  exact inside

end Words
end ScriptSyntax
