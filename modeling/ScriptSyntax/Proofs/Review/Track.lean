import ScriptSyntax.Proofs.Parser.Look
import ScriptSyntax.Proofs.Parser.Reads
import ScriptSyntax.Proofs.Tree.Mark

/-!
The strict and the lenient reading side by side.  A log holds the uses of private names and the jumps that the lenient
reading passes over; the strict one goes the same way, until it meets the first of them that is a fault.
-/

namespace ScriptSyntax

open Node

/-! ### Logs -/

/-- What a lenient reading passes over: uses of private names that no class body around them declares so
far, and jumps that nothing around them catches. -/
@[ext] structure Log where
  uses : List (String × Nat) := []
  jumps : List Nat := []

namespace Log

instance : Append Log := ⟨fun a b => ⟨a.uses ++ b.uses, a.jumps ++ b.jumps⟩⟩

@[simp] theorem uses_append (a b : Log) : (a ++ b).uses = a.uses ++ b.uses := rfl

@[simp] theorem jumps_append (a b : Log) : (a ++ b).jumps = a.jumps ++ b.jumps := rfl

@[simp] theorem append_empty (a : Log) : a ++ ({} : Log) = a := Log.ext (List.append_nil _) (List.append_nil _)

@[simp] theorem empty_append (a : Log) : ({} : Log) ++ a = a := rfl

theorem append_assoc (a b c : Log) : a ++ b ++ c = a ++ (b ++ c) :=
  Log.ext (List.append_assoc ..) (List.append_assoc ..)

/-- The entries lie in a part of the text, and uses in source order. -/
structure Placed (start stop : Nat) (log : Log) : Prop where
  uses : ∀ u ∈ log.uses, start ≤ u.2 ∧ u.2 < stop
  jumps : ∀ pos ∈ log.jumps, start ≤ pos ∧ pos < stop
  sorted : log.uses.Pairwise (·.2 < ·.2)

/-- The mark of a node read from `start` to `stop` agrees with the log, where `labels` are around the
node. -/
def Admits (s : Setting) (labels : List Label) (start stop : Nat) (log : Log) : Mark → Prop
  | .use name pos known => (start ≤ pos ∧ pos < stop) ∧
      if known then ∀ u ∈ log.uses, u.2 ≠ pos
      else s.options.checkPrivateFields = true → (name, pos) ∈ log.uses
  | .jump j pos reach => (start ≤ pos ∧ pos < stop) ∧
      match reach with
      | .free => pos ∈ log.jumps ↔ labels.any (·.accepts j.isBreak j.target) = false
      | .caught => pos ∉ log.jumps
      | .lost => pos ∈ log.jumps
  | .label name near => near = true → ∀ l ∈ labels, l.name ≠ some name
  | .clash | .misdeclared => False
  | .body span elements => (start ≤ span.start ∧ span.stop ≤ stop) ∧
      ∀ u ∈ log.uses, span.start ≤ u.2 ∧ u.2 < span.stop → (classBody span elements).declares u.1 = false

end Log

/-- Notes uses in the innermost class body. -/
def PrivateNames.note (uses : List (String × Nat)) (p : PrivateNames) : PrivateNames :=
  match p.classes with
  | [] => p
  | body :: outer => ⟨{ body with used := body.used ++ uses } :: outer⟩

/-- The parser without the outermost class body. -/
def Parser.bare (p : Parser) : Parser := { p with privateNames := ⟨p.privateNames.classes.dropLast⟩ }

/-- How many class bodies are around. -/
def Parser.depth (p : Parser) : Nat := p.privateNames.classes.length

/-- Where a reading may go on. -/
structure Steady (s : Setting) (p : Parser) : Prop where
  plain : s.reader = none
  ordered : p.lexer.Ordered s.source
  enclosed : 0 < p.depth
  labels : ∀ l ∈ p.labels, ∀ n ∈ l.statementStart, n ≤ p.lexer.token.start

/-- No label stands directly before the current token. -/
def Parser.Behind (p : Parser) : Prop := ∀ l ∈ p.labels, ∀ n ∈ l.statementStart, n < p.lexer.token.start

/-- The token is the private name that a use, with its offset, is noted for. -/
def Token.IsUse (t : Token) (u : String × Nat) : Prop :=
  t.kind = .privateId ∧ t.value.text?.getD "" = u.1 ∧ t.start = u.2

/-- A jump begins with the token, at the offset. -/
def Token.IsJump (t : Token) (pos : Nat) : Prop := (t.kind = .kwBreak ∨ t.kind = .kwContinue) ∧ t.start = pos

/-- What a lenient reading from `p` to `q` gives: nodes whose marks agree with the log.  If `moved` says
so, a token was read after the last label. -/
structure Trace (s : Setting) (p q : Parser) (moved : Bool) (ns : List Node) (log : Log) : Prop where
  ready : Steady s q
  token_le : p.lexer.token.start ≤ q.lexer.token.start
  tokens : p.lexer.tokens <:+ q.lexer.tokens
  behind : moved = true → q.Behind
  names : q.privateNames = p.privateNames.note log.uses
  placed : log.Placed p.lexer.token.start q.lexer.token.start
  unchecked : s.options.checkPrivateFields = false → log.uses = []
  read : ∀ u ∈ log.uses, ∃ t ∈ q.lexer.tokens, t.IsUse u
  jumped : ∀ pos ∈ log.jumps, ∃ t ∈ q.lexer.tokens, t.IsJump pos
  marks : ∀ n ∈ ns, ∀ k, n.Has k → log.Admits s q.labels p.lexer.token.start q.lexer.token.start k

/-- The nodes `ns` were read since `p`, and the labels are those at `p`. -/
def Since (s : Setting) (p : Parser) (moved : Bool) (ns : List Node) (q : Parser) (log : Log) : Prop :=
  q.labels = p.labels ∧ Trace s p q moved ns log

/-- The fault that makes a strict reading from `p` stop is the first in the log. -/
inductive Log.Blames (log : Log) (p : Parser) (e : SyntaxError) : Prop
  | jump (isJump : e.fault = .unsyntacticBreak ∨ e.fault = .unsyntacticContinue)
    (first : log.jumps.head? = some e.pos)
  | use (outside : p.depth = 1) (name : String)
    (isUse : e.fault = .privateUndeclared name ∨ e.fault = .unexpectedToken)
    (first : log.uses.head? = some (name, e.pos))

/-- Nothing in the log makes a strict reading from `p` stop. -/
def Log.Clean (log : Log) (p : Parser) : Prop := log.jumps = [] ∧ (p.depth = 1 → log.uses = [])

/-- How a strict reading ends where a lenient one gives `a` and leaves `q` behind. -/
inductive Outcome {α : Type} (p : Parser) (log : Log) (a : α) (q : Parser) :
    EStateM.Result SyntaxError Parser α → Prop
  | passes (clean : log.Clean p) : Outcome p log a q (.ok a q.bare)
  | stops {e : SyntaxError} {r : Parser} (blames : log.Blames p e) : Outcome p log a q (.error e r)

/-- From states where `P` holds, the strict step fails if the lenient one does, and else the lenient one
ends where `Q` holds, and the strict one ends as the log says. -/
def Tracks {α : Type} (s : Setting) (P : Parser → Log → Prop) (strict lenient : ParseM α)
    (Q : α → Parser → Log → Prop) : Prop :=
  ∀ p log, P p log → match lenient s p with
    | .error _ _ => ∃ e r, strict s p.bare = .error e r
    | .ok a q => ∃ new, q.depth = p.depth ∧ Q a q (log ++ new) ∧ Outcome p new a q (strict s p.bare)

variable {s : Setting} {α β : Type} {P : Parser → Log → Prop} {Q : β → Parser → Log → Prop}
  {p q r : Parser} {b c : Bool} {ns ms : List Node} {log new : Log}

/-- A stretch only moves forward. -/
theorem Stretch.onward {d : Option Deferred} {l l' : Lexer} (h : Stretch s d l l' b ns) :
    l'.Ordered s.source ∧ l.token.start ≤ l'.token.start ∧ l.tokens <:+ l'.tokens := by
  obtain ⟨new, same, -⟩ := h.tokens
  exact ⟨h.ordered, h.token_le, new, same.symm⟩

/-! ### Placed logs -/

theorem Log.placed_empty {start stop : Nat} : ({} : Log).Placed start stop := ⟨nofun, nofun, .nil⟩

theorem Log.Placed.append {start mid stop : Nat} (first : log.Placed start mid) (second : new.Placed mid stop)
    (le : start ≤ mid) (le' : mid ≤ stop) : (log ++ new).Placed start stop where
  uses u mem := by
    rcases List.mem_append.mp mem with mem | mem
    · exact ⟨(first.uses u mem).1, Nat.lt_of_lt_of_le (first.uses u mem).2 le'⟩
    · exact ⟨Nat.le_trans le (second.uses u mem).1, (second.uses u mem).2⟩
  jumps pos mem := by
    rcases List.mem_append.mp mem with mem | mem
    · exact ⟨(first.jumps pos mem).1, Nat.lt_of_lt_of_le (first.jumps pos mem).2 le'⟩
    · exact ⟨Nat.le_trans le (second.jumps pos mem).1, (second.jumps pos mem).2⟩
  sorted := List.pairwise_append.mpr ⟨first.sorted, second.sorted, fun u mem v mem' =>
    Nat.lt_of_lt_of_le (first.uses u mem).2 (second.uses v mem').1⟩

/-- A mark agrees with a longer log that has the same entries where the mark lies. -/
theorem Log.Admits.extend {labels : List Label} {start stop start' stop' : Nat} {k : Mark}
    (admits : log.Admits s labels start stop k) (le : start' ≤ start) (le' : stop ≤ stop')
    (uses : ∀ u, start ≤ u.2 → u.2 < stop → (u ∈ new.uses ↔ u ∈ log.uses))
    (jumps : ∀ pos, start ≤ pos → pos < stop → (pos ∈ new.jumps ↔ pos ∈ log.jumps)) :
    new.Admits s labels start' stop' k := by
  cases k with
  | use name pos known =>
    obtain ⟨⟨after, before⟩, admits⟩ := admits
    refine ⟨⟨Nat.le_trans le after, Nat.lt_of_lt_of_le before le'⟩, ?_⟩
    cases known with
    | true =>
      rintro u mem rfl
      exact admits u ((uses u after before).mp mem) rfl
    | false => exact fun check => (uses (name, pos) after before).mpr (admits check)
  | jump j pos reach =>
    obtain ⟨⟨after, before⟩, admits⟩ := admits
    refine ⟨⟨Nat.le_trans le after, Nat.lt_of_lt_of_le before le'⟩, ?_⟩
    cases reach with
    | free => exact (jumps pos after before).trans admits
    | caught => exact fun mem => admits ((jumps pos after before).mp mem)
    | lost => exact (jumps pos after before).mpr admits
  | label name near => exact admits
  | clash => exact admits
  | misdeclared => exact admits
  | body span elements =>
    obtain ⟨⟨after, before⟩, admits⟩ := admits
    refine ⟨⟨Nat.le_trans le after, Nat.le_trans before le'⟩, fun u mem within => ?_⟩
    exact admits u ((uses u (Nat.le_trans after within.1) (Nat.lt_of_lt_of_le within.2 before)).mp mem) within

/-! ### Traces -/

@[simp] theorem PrivateNames.note_nil (names : PrivateNames) : names.note [] = names := by
  cases names with
  | mk classes => cases classes <;> simp [note]

theorem PrivateNames.note_note (names : PrivateNames) (first second : List (String × Nat)) :
    (names.note first).note second = names.note (first ++ second) := by
  cases names with
  | mk classes => cases classes <;> simp [note]

/-- Nothing is read where the labels and the private names stay the same. -/
theorem Since.still (ready : Steady s q) (token_le : p.lexer.token.start ≤ q.lexer.token.start)
    (tokens : p.lexer.tokens <:+ q.lexer.tokens)
    (labels : q.labels = p.labels) (names : q.privateNames = p.privateNames) : Since s p false [] q {} where
  left := labels
  right :=
    { ready := ready
      token_le := token_le
      tokens := tokens
      behind := nofun
      names := by simp [names]
      placed := Log.placed_empty
      unchecked := fun _ => rfl
      read := nofun
      jumped := nofun
      marks := by simp }

theorem Since.refl (ready : Steady s p) : Since s p false [] p {} :=
  .still ready (Nat.le_refl _) List.suffix_rfl rfl rfl

theorem Trace.trans (first : Trace s p q b ns log) (second : Trace s q r c ms new)
    (labels : b = true ∨ ns ≠ [] → r.labels = q.labels) : Trace s p r (b || c) (ns ++ ms) (log ++ new) where
  ready := second.ready
  token_le := Nat.le_trans first.token_le second.token_le
  tokens := first.tokens.trans second.tokens
  behind moved := by
    cases b with
    | true =>
      intro l mem n start
      exact Nat.lt_of_lt_of_le (first.behind rfl l (labels (.inl rfl) ▸ mem) n start) second.token_le
    | false => exact second.behind moved
  names := by rw [second.names, first.names, PrivateNames.note_note, Log.uses_append]
  placed := first.placed.append second.placed first.token_le second.token_le
  unchecked check := by simp [first.unchecked check, second.unchecked check]
  read u mem := by
    rcases List.mem_append.mp mem with mem | mem
    · obtain ⟨t, read, is⟩ := first.read u mem
      exact ⟨t, second.tokens.mem read, is⟩
    · exact second.read u mem
  jumped pos mem := by
    rcases List.mem_append.mp mem with mem | mem
    · obtain ⟨t, read, is⟩ := first.jumped pos mem
      exact ⟨t, second.tokens.mem read, is⟩
    · exact second.jumped pos mem
  marks n mem k has := by
    rcases List.mem_append.mp mem with mem | mem
    · rw [labels (.inr (List.ne_nil_of_mem mem))]
      refine (first.marks n mem k has).extend (Nat.le_refl _) second.token_le (fun u _ before => ?_)
        fun pos _ before => ?_
      · have other : u ∉ new.uses := fun mem => absurd (second.placed.uses u mem).1 (by omega)
        simp [other]
      · have other : pos ∉ new.jumps := fun mem => absurd (second.placed.jumps pos mem).1 (by omega)
        simp [other]
    · refine (second.marks n mem k has).extend first.token_le (Nat.le_refl _) (fun u after _ => ?_)
        fun pos after _ => ?_
      · have other : u ∉ log.uses := fun mem => absurd (first.placed.uses u mem).2 (by omega)
        simp [other]
      · have other : pos ∉ log.jumps := fun mem => absurd (first.placed.jumps pos mem).2 (by omega)
        simp [other]

theorem Since.trans (first : Since s p b ns q log) (second : Since s q c ms r new) :
    Since s p (b || c) (ns ++ ms) r (log ++ new) :=
  ⟨second.1.trans first.1, first.2.trans second.2 fun _ => second.1⟩

theorem Trace.weaken (h : Trace s p q b ns log) (moved : c = true → b = true)
    (covered : ∀ n ∈ ms, n.Covered ns) : Trace s p q c ms log :=
  { h with
    behind := fun past => h.behind (moved past)
    marks := fun n mem k has => by
      obtain ⟨m, mem, has⟩ := covered n mem k has
      exact h.marks m mem k has }

theorem Since.weaken (h : Since s p b ns q log) (moved : c = true → b = true)
    (covered : ∀ n ∈ ms, n.Covered ns) : Since s p c ms q log :=
  ⟨h.1, h.2.weaken moved covered⟩

/-! ### Rules for steps -/

theorem Log.Blames.append_left {e : SyntaxError} (h : log.Blames p e) : (log ++ new).Blames p e := by
  cases h with
  | jump isJump first => exact .jump isJump (by simp [List.head?_append, first])
  | use outside name isUse first => exact .use outside name isUse (by simp [List.head?_append, first])

theorem Log.Blames.append_right {e : SyntaxError} (clean : log.Clean p) (depth : q.depth = p.depth)
    (h : new.Blames q e) : (log ++ new).Blames p e := by
  cases h with
  | jump isJump first => exact .jump isJump (by simp [clean.1, first])
  | use outside name isUse first =>
    exact .use (depth ▸ outside) name isUse (by simp [clean.2 (depth ▸ outside), first])

theorem Log.Clean.append (first : log.Clean p) (depth : q.depth = p.depth) (second : new.Clean q) :
    (log ++ new).Clean p :=
  ⟨by simp [first.1, second.1], fun outside => by simp [first.2 outside, second.2 (depth ▸ outside)]⟩

theorem Log.clean_empty : ({} : Log).Clean p := ⟨rfl, fun _ => rfl⟩

namespace Tracks

variable {R : α → Parser → Log → Prop} {m₀ m₁ n₀ n₁ : ParseM α} {f₀ f₁ : α → ParseM β}

theorem bind (first : Tracks s P m₀ m₁ R) (next : ∀ a, Tracks s (R a) (f₀ a) (f₁ a) Q) :
    Tracks s P (m₀ >>= f₀) (m₁ >>= f₁) Q := by
  intro p log h
  have first := first p log h
  simp only [Bind.bind, ReaderT.bind, EStateM.bind]
  split at first
  · next ended =>
    obtain ⟨e, r, failed⟩ := first
    simp [ended, failed]
  · next x q ended =>
    obtain ⟨new, depth, holds, outcome⟩ := first
    have next := next x q (log ++ new) holds
    simp only [ended]
    generalize m₀ s p.bare = result at outcome
    split
    · next failed =>
      simp only [failed] at next
      cases outcome with
      | passes => exact next
      | stops => exact ⟨_, _, rfl⟩
    · next y r run =>
      simp only [run] at next
      obtain ⟨more, depth', holds', outcome'⟩ := next
      refine ⟨new ++ more, depth'.trans depth, Log.append_assoc .. ▸ holds', ?_⟩
      cases outcome with
      | stops blames => exact .stops blames.append_left
      | passes clean =>
        simp only
        generalize f₀ x s q.bare = result' at outcome' ⊢
        cases outcome' with
        | stops blames => exact .stops (blames.append_right clean depth)
        | passes clean' => exact .passes (clean.append depth clean')

theorem weaken {R' : α → Parser → Log → Prop} (h : Tracks s P m₀ m₁ R)
    (after : ∀ a q log, R a q log → R' a q log) : Tracks s P m₀ m₁ R' := by
  intro p log before
  have h := h p log before
  split
  · next failed => simpa only [failed] using h
  · next run =>
    simp only [run] at h
    obtain ⟨new, depth, holds, outcome⟩ := h
    exact ⟨new, depth, after _ _ _ holds, outcome⟩

theorem strengthen {P' : Parser → Log → Prop} (h : Tracks s P m₀ m₁ R)
    (before : ∀ q log, P' q log → P q log) : Tracks s P' m₀ m₁ R :=
  fun p log holds => h p log (before p log holds)

/-- What is known before the step. -/
theorem known {V : Prop} (h : V → Tracks s P m₀ m₁ R) : Tracks s (fun q log => V ∧ P q log) m₀ m₁ R :=
  fun p log ⟨value, before⟩ => h value p log before

theorem pure {a : α} (after : ∀ q log, P q log → R a q log) : Tracks s P (pure a) (pure a) R :=
  fun p log before =>
    ⟨{}, rfl, (Log.append_empty log).symm ▸ after p log before, .passes Log.clean_empty⟩

theorem given {a : α} (next : Tracks s P (f₀ a) (f₁ a) Q) :
    Tracks s P (Pure.pure a >>= f₀) (Pure.pure a >>= f₁) Q := by
  simpa only [pure_bind] using next

theorem ite {c : Prop} [Decidable c] (yes : c → Tracks s P m₀ m₁ R) (no : ¬ c → Tracks s P n₀ n₁ R) :
    Tracks s P (if c then m₀ else n₀) (if c then m₁ else n₁) R := by
  by_cases h : c
  · simpa only [if_pos h] using yes h
  · simpa only [if_neg h] using no h

end Tracks

/-- A pass ends where `I` holds, or where `Q` does if it was the last. -/
def Pass.Ends {α β : Type} (I : α → Parser → Log → Prop) (Q : β → Parser → Log → Prop) :
    Pass α β → Parser → Log → Prop
  | .again next => I next
  | .done result => Q result

@[simp] theorem Pass.ends_again {α β : Type} {I : α → Parser → Log → Prop} {Q : β → Parser → Log → Prop}
    {next : α} : Pass.Ends I Q (.again next) = I next := rfl

/-- The state is `p`, and nothing was read. -/
def At (p : Parser) (q : Parser) (log : Log) : Prop := q = p ∧ log = {}

/-- From any state that is ready on, a lenient step reads the nodes `N`, past a token if `moved` says so,
and the strict step does what the log says. -/
def Adds (s : Setting) (moved : Bool) (strict lenient : ParseM α) (N : α → List Node) : Prop :=
  ∀ p, Steady s p → Tracks s (At p) strict lenient fun a => Since s p moved (N a)

/-- A step that gives no nodes, and is the same in the strict and in the lenient reading. -/
def Quiet (s : Setting) (m : ParseM α) : Prop := Adds s false m m fun _ => []

/-- As `Adds`, from a state with no label directly before the current token. -/
def AddsBehind (s : Setting) (moved : Bool) (strict lenient : ParseM α) (N : α → List Node) : Prop :=
  ∀ p, Steady s p → p.Behind → Tracks s (At p) strict lenient fun a => Since s p moved (N a)

section Rules

variable {m m₀ m₁ : ParseM α} {f₀ f₁ : α → ParseM β} {N : α → List Node} {moved : Bool}

/-- Reading goes on from where it stands, as if nothing had been read before. -/
theorem Tracks.resume {R : α → Parser → Log → Prop}
    (h : ∀ q log, P q log → Tracks s (At q) m₀ m₁ fun a r new => R a r (log ++ new)) : Tracks s P m₀ m₁ R :=
  fun q log before => by simpa only [Log.empty_append] using h q log before q {} ⟨rfl, rfl⟩

theorem Adds.since (h : Adds s moved m₀ m₁ N) :
    Tracks s (Since s p b ns) m₀ m₁ fun a => Since s p (b || moved) (ns ++ N a) :=
  .resume fun q _ before => (h q before.2.ready).weaken fun _ _ _ after => before.trans after

theorem AddsBehind.since (h : AddsBehind s moved m₀ m₁ N) :
    Tracks s (Since s p true ns) m₀ m₁ fun a => Since s p true (ns ++ N a) :=
  .resume fun q _ before => (h q before.2.ready (before.2.behind rfl)).weaken fun _ _ _ after =>
    (before.trans after).weaken (fun _ => rfl) fun _ mem => .of_mem mem

/-- A step is known by what it does from a state with nothing read before. -/
theorem Adds.of (h : ∀ p, Tracks s (Since s p false []) m₀ m₁ fun a => Since s p moved (N a)) :
    Adds s moved m₀ m₁ N := fun p ready => (h p).strengthen <| by
  rintro _ _ ⟨rfl, rfl⟩
  exact .refl ready

theorem Adds.weaken {N' : α → List Node} (h : Adds s b m₀ m₁ N) (le : moved = true → b = true)
    (covered : ∀ a, ∀ n ∈ N' a, n.Covered (N a)) : Adds s moved m₀ m₁ N' :=
  fun p ready => (h p ready).weaken fun a _ _ after => after.weaken le (covered a)

namespace Tracks

theorem adds (h : Adds s moved m₀ m₁ N)
    (next : ∀ a, Tracks s (Since s p (b || moved) (ns ++ N a)) (f₀ a) (f₁ a) Q) :
    Tracks s (Since s p b ns) (m₀ >>= f₀) (m₁ >>= f₁) Q := h.since.bind next

theorem behind (h : AddsBehind s moved m₀ m₁ N)
    (next : ∀ a, Tracks s (Since s p true (ns ++ N a)) (f₀ a) (f₁ a) Q) :
    Tracks s (Since s p true ns) (m₀ >>= f₀) (m₁ >>= f₁) Q := h.since.bind next

theorem ofQuiet (h : Quiet s m) : Tracks s (Since s p b ns) m m fun _ => Since s p b ns :=
  h.since.weaken fun _ _ _ after => by simpa using after

theorem quiet (h : Quiet s m) (next : ∀ a, Tracks s (Since s p b ns) (f₀ a) (f₁ a) Q) :
    Tracks s (Since s p b ns) (m >>= f₀) (m >>= f₁) Q := bind (.ofQuiet h) next

theorem look (h : Looks s m) (next : ∀ a, Tracks s P (f₀ a) (f₁ a) Q) :
    Tracks s P (m >>= f₀) (m >>= f₁) Q := by
  obtain ⟨f, same⟩ := h
  intro p log before
  have next := next (f p) p log before
  simpa only [Bind.bind, ReaderT.bind, EStateM.bind, (same p).1, (same p.bare).1, show f p.bare =
    f p from (same p).2 _] using next

theorem fails (h : Fails s m₀) (h' : Fails s m₁) {R : α → Parser → Log → Prop} : Tracks s P m₀ m₁ R := by
  intro p log _
  obtain ⟨e, q, failed⟩ := h' p
  simpa only [failed] using h p.bare

theorem done {a : α} (past : moved = true → b = true) (covered : ∀ n ∈ N a, n.Covered ns) :
    Tracks s (Since s p b ns) (Pure.pure a) (Pure.pure a) fun a => Since s p moved (N a) :=
  pure fun _ _ before => before.weaken past covered

variable {c : Prop} [Decidable c] {u₀ u₁ v₀ v₁ : ParseM α} {R : α → Parser → Log → Prop}

/-- One of two steps is taken, and then the rest. -/
theorem choose (yes : c → Tracks s P u₀ u₁ R) (no : ¬ c → Tracks s P v₀ v₁ R)
    (next : ∀ a, Tracks s (R a) (f₀ a) (f₁ a) Q) :
    Tracks s P (if c then u₀ >>= f₀ else v₀ >>= f₀) (if c then u₁ >>= f₁ else v₁ >>= f₁) Q :=
  ite (fun h => (yes h).bind next) fun h => (no h).bind next

variable {w w₀ w₁ : ParseM PUnit} {g₀ g₁ : PUnit → ParseM β}

/-- A quiet step is taken first if a condition holds. -/
theorem «when» (h : Quiet s w) (next : Tracks s (Since s p b ns) (g₀ ⟨⟩) (g₁ ⟨⟩) Q) :
    Tracks s (Since s p b ns) (if c then w >>= g₀ else g₀ ⟨⟩) (if c then w >>= g₁ else g₁ ⟨⟩) Q :=
  ite (fun _ => .quiet h fun _ => next) fun _ => next

theorem «unless» (h : Quiet s w) (next : Tracks s (Since s p b ns) (g₀ ⟨⟩) (g₁ ⟨⟩) Q) :
    Tracks s (Since s p b ns) (if c then g₀ ⟨⟩ else w >>= g₀) (if c then g₁ ⟨⟩ else w >>= g₁) Q :=
  ite (fun _ => next) fun _ => .quiet h fun _ => next

/-! ### Repeating -/

theorem loop {I : α → Parser → Log → Prop} {pass₀ pass₁ : α → ParseM (Pass α β)}
    (each : ∀ a, Tracks s (I a) (pass₀ a) (pass₁ a) (Pass.Ends I Q)) :
    ∀ (fuel : Nat) (a : α), Tracks s (I a) (ParseM.loop pass₀ fuel a) (ParseM.loop pass₁ fuel a) Q
  | 0, _ => .fails (fun _ => ⟨_, _, rfl⟩) fun _ => ⟨_, _, rfl⟩
  | fuel + 1, a => (each a).bind fun
    | .again next => loop each fuel next
    | .done _ => .pure fun _ _ => id

theorem repeatPast {I : α → Parser → Log → Prop} {pass₀ pass₁ : α → ParseM (Pass α β)} {a : α}
    (each : ∀ a, Tracks s (I a) (pass₀ a) (pass₁ a) (Pass.Ends I Q)) :
    Tracks s (I a) (ParseM.repeatPast a pass₀) (ParseM.repeatPast a pass₁) Q :=
  .look .source fun _ => loop each _ a

end Tracks
end Rules

/-! ### Steps that may put faults off -/

/-- As `Tracks`, whatever faults are put off. -/
def CoverTracks (s : Setting) (P : Parser → Log → Prop) (strict lenient : CoverM α)
    (R : α → Parser → Log → Prop) : Prop :=
  ∀ d, Tracks s P (strict.run d) (lenient.run d) fun x => R x.1

/-- As `Adds`, whatever faults are put off. -/
def CoverAdds (s : Setting) (moved : Bool) (strict lenient : CoverM α) (N : α → List Node) : Prop :=
  ∀ d, Adds s moved (strict.run d) (lenient.run d) fun x => N x.1

def CoverQuiet (s : Setting) (m : CoverM α) : Prop := CoverAdds s false m m fun _ => []

section CoverRules

variable {m m₀ m₁ : CoverM α} {f₀ f₁ : α → CoverM β} {l l₀ l₁ : ParseM α} {N : α → List Node} {moved : Bool}

theorem CoverAdds.since (h : CoverAdds s moved m₀ m₁ N) :
    CoverTracks s (Since s p b ns) m₀ m₁ fun a => Since s p (b || moved) (ns ++ N a) :=
  fun d => (h d).since

theorem CoverAdds.of (h : ∀ p, CoverTracks s (Since s p false []) m₀ m₁ fun a => Since s p moved (N a)) :
    CoverAdds s moved m₀ m₁ N := fun d => .of fun p => h p d

namespace CoverTracks

theorem bind {R : α → Parser → Log → Prop} (first : CoverTracks s P m₀ m₁ R)
    (next : ∀ a, CoverTracks s (R a) (f₀ a) (f₁ a) Q) : CoverTracks s P (m₀ >>= f₀) (m₁ >>= f₁) Q :=
  fun d => (first d).bind fun x => next x.1 x.2

theorem strengthen {P' : Parser → Log → Prop} {R : α → Parser → Log → Prop} (h : CoverTracks s P m₀ m₁ R)
    (before : ∀ q log, P' q log → P q log) : CoverTracks s P' m₀ m₁ R := fun d => (h d).strengthen before

theorem lift {R : α → Parser → Log → Prop} (h : Tracks s P l₀ l₁ R) :
    CoverTracks s P (liftM l₀) (liftM l₁) R :=
  fun _ => h.bind fun _ => .pure fun _ _ => id

theorem pure {R : α → Parser → Log → Prop} {a : α} (after : ∀ q log, P q log → R a q log) :
    CoverTracks s P (pure a) (pure a) R := fun _ => .pure after

theorem adds (h : CoverAdds s moved m₀ m₁ N)
    (next : ∀ a, CoverTracks s (Since s p (b || moved) (ns ++ N a)) (f₀ a) (f₁ a) Q) :
    CoverTracks s (Since s p b ns) (m₀ >>= f₀) (m₁ >>= f₁) Q := h.since.bind next

theorem liftAdds (h : Adds s moved l₀ l₁ N)
    (next : ∀ a, CoverTracks s (Since s p (b || moved) (ns ++ N a)) (f₀ a) (f₁ a) Q) :
    CoverTracks s (Since s p b ns) (liftM l₀ >>= f₀) (liftM l₁ >>= f₁) Q := (lift h.since).bind next

theorem quiet (h : Quiet s l) (next : ∀ a, CoverTracks s (Since s p b ns) (f₀ a) (f₁ a) Q) :
    CoverTracks s (Since s p b ns) (liftM l >>= f₀) (liftM l >>= f₁) Q :=
  bind (lift (.ofQuiet h)) next

theorem coverQuiet (h : CoverQuiet s m) (next : ∀ a, CoverTracks s (Since s p b ns) (f₀ a) (f₁ a) Q) :
    CoverTracks s (Since s p b ns) (m >>= f₀) (m >>= f₁) Q :=
  fun d => ((h d).since.weaken fun _ _ _ after => by simpa using after).bind fun x => next x.1 x.2

theorem look (h : Looks s l) (next : ∀ a, CoverTracks s P (f₀ a) (f₁ a) Q) :
    CoverTracks s P (liftM l >>= f₀) (liftM l >>= f₁) Q :=
  fun d => .look (h := by
    obtain ⟨f, same⟩ := h
    exact ⟨fun p => (f p, d), fun p => ⟨by
      simp only [liftM, monadLift, MonadLift.monadLift, StateT.lift, Bind.bind, ReaderT.bind,
        EStateM.bind, (same p).1]
      rfl, fun names => by simp [(same p).2 names]⟩⟩) fun x => next x.1 x.2

theorem defer (h : OnlyDefers m) (next : ∀ a, CoverTracks s P (f₀ a) (f₁ a) Q) :
    CoverTracks s P (m >>= f₀) (m >>= f₁) Q := fun d => by
  obtain ⟨x, same⟩ := h d
  rw [StateT.run_bind, StateT.run_bind, same, pure_bind, pure_bind]
  exact next x.1 x.2

theorem fails (h : Fails s l₀) (h' : Fails s l₁) {R : α → Parser → Log → Prop} :
    CoverTracks s P (liftM l₀) (liftM l₁) R := lift (.fails h h')

/-- A step that fails before anything else is done. -/
theorem failing (h : Fails s l₀) (h' : Fails s l₁) :
    CoverTracks s P (liftM l₀ >>= f₀) (liftM l₁ >>= f₁) Q :=
  bind (fails h h' (R := fun _ _ _ => False)) fun _ _ _ _ => False.elim

theorem done {a : α} (past : moved = true → b = true) (covered : ∀ n ∈ N a, n.Covered ns) :
    CoverTracks s (Since s p b ns) (Pure.pure a) (Pure.pure a) fun a => Since s p moved (N a) :=
  pure fun _ _ before => before.weaken past covered

variable {c : Prop} [Decidable c] {u₀ u₁ v₀ v₁ : CoverM α} {R : α → Parser → Log → Prop}

theorem ite (yes : c → CoverTracks s P u₀ u₁ R) (no : ¬ c → CoverTracks s P v₀ v₁ R) :
    CoverTracks s P (if c then u₀ else v₀) (if c then u₁ else v₁) R := by
  by_cases h : c
  · simpa only [if_pos h] using yes h
  · simpa only [if_neg h] using no h

variable {w : CoverM PUnit} {g₀ g₁ : PUnit → CoverM β}

theorem «when» (h : CoverQuiet s w) (next : CoverTracks s (Since s p b ns) (g₀ ⟨⟩) (g₁ ⟨⟩) Q) :
    CoverTracks s (Since s p b ns) (if c then w >>= g₀ else g₀ ⟨⟩) (if c then w >>= g₁ else g₁ ⟨⟩) Q :=
  ite (fun _ => .coverQuiet h fun _ => next) fun _ => next

theorem «unless» (h : CoverQuiet s w) (next : CoverTracks s (Since s p b ns) (g₀ ⟨⟩) (g₁ ⟨⟩) Q) :
    CoverTracks s (Since s p b ns) (if c then g₀ ⟨⟩ else w >>= g₀) (if c then g₁ ⟨⟩ else w >>= g₁) Q :=
  ite (fun _ => next) fun _ => .coverQuiet h fun _ => next

theorem repeatPast {I : α → Parser → Log → Prop} {pass₀ pass₁ : α → CoverM (Pass α β)} {a : α}
    (each : ∀ a, CoverTracks s (I a) (pass₀ a) (pass₁ a) (Pass.Ends I Q)) :
    CoverTracks s (I a) (ParseM.repeatPast a pass₀) (ParseM.repeatPast a pass₁) Q := by
  have loop (fuel : Nat) : ∀ a, CoverTracks s (I a) (ParseM.loop pass₀ fuel a) (ParseM.loop pass₁ fuel a) Q := by
    induction fuel with
    | zero => exact fun a => .fails (fun _ => ⟨_, _, rfl⟩) fun _ => ⟨_, _, rfl⟩
    | succ fuel ih =>
      refine fun a => (each a).bind fun x => ?_
      cases x with
      | again next => exact ih next
      | done => exact .pure fun _ _ => id
  exact .look .source fun _ => loop _ a

end CoverTracks

theorem CoverTracks.deferring {d : Deferred} {R : α → Parser → Log → Prop} (h : CoverTracks s P m₀ m₁ R) :
    Tracks s P (CoverM.deferring d m₀) (CoverM.deferring d m₁) fun x => R x.1 :=
  (h (some d)).bind fun _ => .pure fun _ _ => id

theorem CoverAdds.deferring {d : Deferred} (h : CoverAdds s moved m₀ m₁ N) :
    Adds s moved (CoverM.deferring d m₀) (CoverM.deferring d m₁) fun x => N x.1 :=
  .of fun _ => h.since.deferring

theorem CoverAdds.alone (h : CoverAdds s moved m₀ m₁ N) : Adds s moved m₀.alone m₁.alone N :=
  .of fun _ => .adds (h none) fun _ => .done (by simp) fun _ mem => .of_mem (by simpa using mem)

end CoverRules
end ScriptSyntax
