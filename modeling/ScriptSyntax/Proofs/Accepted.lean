import ScriptSyntax.Proofs.Parser.Program

/-!
What holds of every accepted program: its spans are nested, its tokens and comments make up the text, its
tree keeps the tokens that hold text, and what only patterns may hold stands in patterns.  The last two
have exceptions, which are stated as they are.
-/

namespace ScriptSyntax

open Node

variable {s : Setting} {start : Nat} {a : Program} {l : Lexer}

theorem exists_of_isOk {ε α β : Type} {x : Except ε α × β} (accepts : x.1.isOk = true) :
    ∃ a b, x = (.ok a, b) := by
  match x with
  | (.ok a, b) => exact ⟨a, b, rfl⟩
  | (.error e, b) => simp [Except.isOk, Except.toBool] at accepts

/-- The target of the assignment that a program begins with. -/
def Program.firstTarget? (a : Program) : Option Pattern :=
  match a.body with
  | .expressionStatement _ (.assignment _ _ target _) _ :: _ => some target
  | _ => none

theorem Program.within_of_firstTarget? {p : Pattern} (found : a.firstTarget? = some p) :
    Within (pattern p) (program a) := by
  unfold Program.firstTarget? at found
  split at found <;> cases found
  next body => exact .step (by simp [children, body]; exact .inl rfl) (.step (.head _) (.of_child (.head _)))

/-- An array of one member, whose object is a literal with a default for a shorthand property. -/
def Pattern.hidesDefault : Pattern → Bool
  | .array _ [some (.member ⟨_, .object _ [m], _, _, _⟩)] => m.isShorthandDefault
  | _ => false

/-- An object of a rest and a member after it. -/
def Pattern.beginsWithRest : Pattern → Bool
  | .object _ [.rest .., _] => true
  | _ => false

namespace Setting

/-- A program that begins with an assignment is accepted, and its target passes a test. -/
theorem exists_target (test : Pattern → Bool)
    (accepts : s.parseProgram.1.toOption.any (fun a => a.firstTarget?.any test) = true) :
    ∃ a l p, s.parseProgram = (.ok a, l) ∧ Within (pattern p) (program a) ∧ test p = true := by
  match same : s.parseProgram with
  | (.ok a, l) =>
    cases found : a.firstTarget? with
    | none => simp [same, Except.toOption, found] at accepts
    | some p =>
      have passes : test p = true := by simpa [same, Except.toOption, found] using accepts
      exact ⟨a, l, p, rfl, a.within_of_firstTarget? found, passes⟩
  | (.error e, l) => simp [same, Except.toOption] at accepts

/-! ### Spans -/

/-- Every node of a program lies in the text and contains its children, and a program that begins with the
text spans all of it. -/
structure SpansNested (source : Source) (start : Nat) (a : Program) : Prop where
  inside : ∀ n, Within n (program a) → n.span.start ≤ n.span.stop ∧ n.span.stop ≤ source.size
  children : ∀ n, Within n (program a) → ∀ c ∈ n.children,
    n.span.start ≤ c.span.start ∧ c.span.stop ≤ n.span.stop
  whole : start = 0 → a.span.start = 0 ∧ a.span.stop = source.size

theorem parseProgram_nested (plain : s.reader = none) (run : s.parseProgram start = (.ok a, l)) :
    SpansNested s.source start a := by
  have parsed := parseProgram_parsed plain run
  have nested := parsed.sound.nested
  refine ⟨fun n within => ⟨(nested n within).start_le, ?_⟩,
    fun n within c child => (nested n within).le child, fun zero => ⟨?_, parsed.stops⟩⟩
  · have contained : (program a).span.start ≤ n.span.start ∧ n.span.stop ≤ (program a).span.stop := by
      simpa [Span.contains] using contains_of_within nested within
    exact parsed.stops ▸ contained.2
  · rw [parsed.starts, zero, Nat.zero_min]

/-- A pattern that was read as an object first, with a shorthand property. -/
theorem parseProgram_nested_pattern :
    ∃ a l, parseProgram { source := .ofString "({a, b: [c]} = d)", options := {} } = (.ok a, l) ∧
      SpansNested (.ofString "({a, b: [c]} = d)") 0 a := by
  obtain ⟨a, l, run⟩ := exists_of_isOk
    (x := parseProgram { source := .ofString "({a, b: [c]} = d)", options := {} }) (by decide +kernel)
  exact ⟨a, l, run, parseProgram_nested rfl run⟩

/-! ### Tokens and comments -/

/-- Tokens and comments make up the text, in `tokenize` and in the parse of a program. -/
theorem tokens_cover (plain : s.reader = none) :
    (∀ tokens l, s.tokenize = (.ok tokens, l) → Tokenized s.source 0 tokens l.comments.reverse) ∧
      ∀ a l, s.parseProgram = (.ok a, l) →
        Tokenized s.source 0 l.tokens.reverse l.comments.reverse := by
  refine ⟨fun tokens l run => tokenize_tokenized plain run, fun a l run => ?_⟩
  have tokenized := (parseProgram_parsed plain run).tokenized
  rwa [Nat.zero_min] at tokenized

theorem tokens_cover_comments :
    ∃ s : Setting, s.source = .ofString "#!a\n/* b */ c = `d`\n<!-- e" ∧
      (∃ tokens l, s.tokenize = (.ok tokens, l) ∧ Tokenized s.source 0 tokens l.comments.reverse) ∧
      ∃ a l, s.parseProgram = (.ok a, l) ∧ Tokenized s.source 0 l.tokens.reverse l.comments.reverse := by
  let s : Setting := { source := .ofString "#!a\n/* b */ c = `d`\n<!-- e", options := {} }
  obtain ⟨tokens, l, scan⟩ := exists_of_isOk (x := s.tokenize) (by decide +kernel)
  obtain ⟨a, l', run⟩ := exists_of_isOk (x := s.parseProgram) (by decide +kernel)
  obtain ⟨scanned, parsed⟩ := tokens_cover (s := s) rfl
  exact ⟨s, rfl, ⟨tokens, l, scan, scanned tokens l scan⟩, a, l', run, parsed a l' run⟩

/-- A token with a text, a number or a private name has a node of its own, or an async arrow function
drops it. -/
theorem parseProgram_keeps (plain : s.reader = none) (run : s.parseProgram start = (.ok a, l)) {t : Token}
    (mem : t ∈ l.tokens) (tracked : t.kind.isTracked = true) : (program a).Keeps t :=
  (parseProgram_parsed plain run).keeps t mem tracked

/-- The number is dropped. -/
theorem parseProgram_keeps_async :
    ∃ a l, parseProgram { source := .ofString "async[1](y) => z", options := {} } = (.ok a, l) ∧
      ∃ t ∈ l.tokens, t.kind = .num ∧ (program a).Keeps t := by
  let s : Setting := { source := .ofString "async[1](y) => z", options := {} }
  obtain ⟨a, l, run⟩ := exists_of_isOk (x := s.parseProgram) (by decide +kernel)
  obtain ⟨t, mem, number⟩ : ∃ t ∈ l.tokens, t.kind = .num := by
    have found : s.parseProgram.2.tokens.any (fun t => t.kind == .num) = true := by decide +kernel
    simpa [run] using found
  exact ⟨a, l, run, t, mem, number, parseProgram_keeps (s := s) rfl run mem (by rw [number]; rfl)⟩

/-! ### Patterns -/

/-- An object literal that has to be a pattern is exposed in the object of a member that a pattern assigns
to. -/
theorem parseProgram_leftover (plain : s.reader = none) (run : s.parseProgram start = (.ok a, l))
    {x : Expression} (left : x.Leftover s.edition) (within : Within (expression x) (program a)) :
    (program a).Excuses x :=
  (parseProgram_parsed plain run).sound.allSettled x left within

/-- The literal is the object of a member in an array of targets. -/
theorem parseProgram_leftover_member :
    ∃ a l x, parseProgram { source := .ofString "[{a = 1}.b] = c", options := {} } = (.ok a, l) ∧
      x.Leftover 17 ∧ Within (expression x) (program a) ∧ (program a).Excuses x := by
  let s : Setting := { source := .ofString "[{a = 1}.b] = c", options := {} }
  obtain ⟨a, l, p, run, within, passes⟩ := exists_target (s := s) Pattern.hidesDefault (by decide +kernel)
  unfold Pattern.hidesDefault at passes
  split at passes
  · next array member object m _ _ _ =>
    have left : (Expression.object object [m]).Leftover s.edition := Or.inl ⟨m, .head _, passes⟩
    have inside : Within (expression (.object object [m])) (program a) :=
      .trans (.step (.head _) (.of_child (.head _))) within
    exact ⟨a, l, _, run, left, inside, parseProgram_leftover (s := s) rfl run left inside⟩
  · cases passes

/-- No rest has a default, and where something follows a rest a default after it makes that forgotten. -/
theorem parseProgram_rests (plain : s.reader = none) (run : s.parseProgram start = (.ok a, l)) {n : Node}
    (within : Within n (program a)) :
    n.RestPlain ∧ (¬ n.RestLast → ∃ m, Within m (program a) ∧ HidesRest m.slots) := by
  have sound := (parseProgram_parsed plain run).sound
  exact ⟨sound.restPlain n within, fun early => sound.rests ⟨n, within, early⟩⟩

/-- A property with a default follows the rest. -/
theorem parseProgram_rests_default :
    ∃ a l n, parseProgram { source := .ofString "({...a, b: c = 1} = d)", options := {} } = (.ok a, l) ∧
      Within n (program a) ∧ ¬ n.RestLast ∧ ∃ m, Within m (program a) ∧ HidesRest m.slots := by
  let s : Setting := { source := .ofString "({...a, b: c = 1} = d)", options := {} }
  obtain ⟨a, l, p, run, within, passes⟩ := exists_target (s := s) Pattern.beginsWithRest (by decide +kernel)
  unfold Pattern.beginsWithRest at passes
  split at passes
  · next span rest argument m =>
    have early : ¬ (pattern (.object span [.rest rest argument, m])).RestLast := fun last => by
      simpa [Pattern.isRest] using last (.rest rest argument) (.head _)
    exact ⟨a, l, _, run, within, early, (parseProgram_rests (s := s) rfl run within).2 early⟩
  · cases passes

end Setting
end ScriptSyntax
