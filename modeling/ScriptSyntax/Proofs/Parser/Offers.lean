import ScriptSyntax.Parser.Grammar
import ScriptSyntax.Proofs.Parser.Reads

/-!
Productions that may turn out to be patterns, with the faults that they put off, and lists of them.
-/

namespace ScriptSyntax

namespace Deferred

/-- The faults that are told apart by their offsets lie before `n`. -/
structure Before (n : Nat) (x : Deferred) : Prop where
  shorthandDefault : ∀ pos, x.shorthandDefault = some pos → pos < n
  parenthesized : ∀ pos, x.parenthesized = some pos → pos < n

/-- The faults stay that outlast the targets of assignments. -/
structure Grows (x y : Deferred) : Prop where
  shorthandDefault : ∀ pos, x.shorthandDefault = some pos → y.shorthandDefault = some pos
  parenthesized : ∀ pos, x.parenthesized = some pos → y.parenthesized = some pos
  secondProto : x.secondProto.isSome = true → y.secondProto.isSome = true

variable {x y z : Deferred} {m n : Nat} {b : Bool}

theorem before_empty : ({} : Deferred).Before n := ⟨nofun, nofun⟩

theorem Before.mono (before : x.Before m) (le : m ≤ n) : x.Before n :=
  ⟨fun pos here => Nat.lt_of_lt_of_le (before.shorthandDefault pos here) le,
    fun pos here => Nat.lt_of_lt_of_le (before.parenthesized pos here) le⟩

theorem Grows.refl (x : Deferred) : x.Grows x := ⟨fun _ => id, fun _ => id, id⟩

theorem Grows.trans (first : x.Grows y) (second : y.Grows z) : x.Grows z :=
  ⟨fun pos here => second.shorthandDefault pos (first.shorthandDefault pos here),
    fun pos here => second.parenthesized pos (first.parenthesized pos here),
    fun here => second.secondProto (first.secondProto here)⟩

theorem Grows.mustBePattern (grows : x.Grows y) (owed : x.mustBePattern = true) :
    y.mustBePattern = true := by
  simp only [Deferred.mustBePattern, Bool.or_eq_true] at *
  refine owed.imp (fun here => ?_) grows.secondProto
  obtain ⟨pos, here⟩ := Option.isSome_iff_exists.mp here
  simp [grows.shorthandDefault pos here]

@[simp] theorem patternComplaint?_eq_none_iff :
    x.patternComplaint? b = none ↔
      x.commaAfterRest = none ∧
        (b = true → x.parenthesized = none) ∧ (b = false → x.parenthesizedTarget = none) := by
  cases comma : x.commaAfterRest <;> cases b <;> simp [patternComplaint?, comma]

end Deferred

/-- Where a production may start. -/
structure Ready (s : Setting) (p : Parser) (d : Option Deferred) : Prop where
  plain : s.reader = none
  ordered : p.lexer.Ordered s.source
  before : ∀ x ∈ d, x.Before p.lexer.token.start

/-- From `p` to `q` nodes are read, and the faults put off go from `d` to `d'`. -/
structure Passage (s : Setting) (p : Parser) (d : Option Deferred) (moved : Bool) (ns : List Node)
    (q : Parser) (d' : Option Deferred) : Prop where
  ready : Ready s q d'
  grows : Option.Rel Deferred.Grows d d'
  reads : Stretch s d' p.lexer q.lexer moved ns

/-- An early rest that is open in the expression is among the faults put off. -/
def Expression.Noted (d : Option Deferred) (e : Expression) : Prop :=
  ∀ x ∈ d, ∀ b, x.patternComplaint? b = none → ¬ e.Open

/-- Faults of targets that were put off are still put off. -/
def Recalls (d d' : Option Deferred) : Prop :=
  ∀ x ∈ d, ∀ y ∈ d', ∀ b, y.patternComplaint? b = none → x.patternComplaint? b = none

/-- An operand or an expression of operators was read. -/
structure Offered (s : Setting) (p : Parser) (d : Option Deferred) (e : Expression) (q : Parser)
    (d' : Option Deferred) : Prop where
  passage : Passage s p d true [.expression e] q d'
  noted : e.Noted d'
  notSpread : e.isSpread = false

/-- A part of a list was read: none for a hole or for a mere name. -/
structure Item (s : Setting) (p : Parser) (d : Option Deferred) (moved : Bool)
    (x : Option Expression) (ns : List Node) (q : Parser) (d' : Option Deferred) : Prop where
  passage : Passage s p d moved ns q d'
  noted : ∀ e, x = some e → e.Noted d'
  recalls : (∀ e, x = some e → e.clears = false) → Recalls d d'
  comma : q.lexer.kind = .comma → ∀ y ∈ d', ∀ b, y.patternComplaint? b = none →
    ∀ span argument, x ≠ some (.spread span argument)

/-- The productions read what they give, and put off the faults in it. -/
structure Grammar.Faithful (s : Setting) (g : Grammar) : Prop where
  statement : ∀ {context : Option StatementContext} {topLevel : Bool} {p q : Parser} {a : Statement},
    Runs s (g.statement context topLevel) p a q → Reads s none p.lexer q.lexer true [.statement a]
  assignment : ∀ {init : InitMode} {p q : Parser} {d d' : Option Deferred} {e : Expression},
    Ready s p d → CoverRuns s (g.assignment init) p d e q d' →
      Item s p d true (some e) [.expression e] q d' ∧ e.isSpread = false
  unary : ∀ {afterUnary inUpdate : Bool} {init : InitMode} {p q : Parser} {d d' : Option Deferred}
    {e : Expression}, Ready s p d → CoverRuns s (g.unary afterUnary inUpdate init) p d e q d' →
      Offered s p d e q d'
  atom : ∀ {init : InitMode} {forNew : Bool} {p q : Parser} {d d' : Option Deferred} {e : Expression},
    Ready s p d → CoverRuns s (g.atom init forNew) p d e q d' → Offered s p d e q d'
  bindingAtom : ∀ {p q : Parser} {a : Pattern}, Runs s g.bindingAtom p a q →
    Reads s none p.lexer q.lexer true [.pattern a] ∧ a.isRest = false ∧ a.isDefault = false

variable {s : Setting} {p q r : Parser} {d d' d₁ : Option Deferred} {e : Expression} {b c : Bool}
  {ns ms : List Node}

/-! ### Passages -/

theorem grows_mustBePattern (grows : Option.Rel Deferred.Grows d d')
    (owed : d.any (·.mustBePattern) = true) : d'.any (·.mustBePattern) = true := by
  cases grows with
  | none => exact owed
  | some h => exact h.mustBePattern owed

namespace Passage

theorem refl (ready : Ready s p d) : Passage s p d false [] p d where
  ready := ready
  grows := by
    cases d with
    | none => exact .none
    | some x => exact .some (.refl x)
  reads := .refl ready.ordered

theorem trans (first : Passage s p d b ns r d₁) (second : Passage s r d₁ c ms q d') :
    Passage s p d (b || c) (ns ++ ms) q d' where
  ready := second.ready
  grows := by
    obtain ⟨-, grows, -⟩ := first
    obtain ⟨-, grows', -⟩ := second
    cases grows with
    | none => exact grows'
    | some h =>
      cases grows' with
      | some h' => exact .some (h.trans h')
  reads := (first.reads.mono (grows_mustBePattern second.grows)).trans second.reads

/-- Nothing is put off on the way. -/
theorem of_reads (ready : Ready s p d) (reads : Reads s none p.lexer q.lexer b ns) :
    Passage s p d b ns q d where
  ready :=
    have read := reads ready.plain ready.ordered
    ⟨ready.plain, read.ordered, fun x mem => (ready.before x mem).mono read.token_le⟩
  grows := (refl ready).grows
  reads := (reads ready.plain ready.ordered).of_none

theorem step (first : Passage s p d b ns r d₁) (reads : Reads s none r.lexer q.lexer c ms) :
    Passage s p d (b || c) (ns ++ ms) q d₁ :=
  first.trans (of_reads first.ready reads)

/-- Faults are noted or forgotten after what was read. -/
theorem amend (h : Passage s p d b ns q d') {f : Deferred → Deferred}
    (before : ∀ y ∈ d', (f y).Before q.lexer.token.start)
    (grows : ∀ x ∈ d, ∀ y ∈ d', x.Grows y → x.Grows (f y))
    (owed : ∀ y, y.mustBePattern = true → (f y).mustBePattern = true) :
    Passage s p d b ns q (d'.map f) where
  ready := by
    refine ⟨h.ready.plain, h.ready.ordered, fun z mem => ?_⟩
    obtain ⟨y, here, rfl⟩ := Option.mem_map.mp mem
    exact before y here
  grows := by
    obtain ⟨-, old, -⟩ := h
    cases old with
    | none => exact .none
    | some old => exact .some (grows _ rfl _ rfl old)
  reads := h.reads.mono (by
    cases d' with
    | none => exact id
    | some y => exact owed y)

theorem weaken (h : Passage s p d b ns q d') : Passage s p d false ns q d' :=
  { h with reads := { h.reads with past := nofun } }

theorem eq_none (h : Passage s p none b ns q d') : d' = none := by
  obtain ⟨-, grows, -⟩ := h
  cases grows
  rfl

theorem exists_some {x : Deferred} (h : Passage s p (some x) b ns q d') :
    ∃ y, d' = some y ∧ x.Grows y := by
  obtain ⟨-, grows, -⟩ := h
  cases grows with
  | some h => exact ⟨_, rfl, h⟩

end Passage

theorem Ready.none (plain : s.reader = none) (ordered : p.lexer.Ordered s.source) : Ready s p none :=
  ⟨plain, ordered, by simp⟩

/-- Where faults start to be put off. -/
theorem Ready.fresh (plain : s.reader = .none) (ordered : p.lexer.Ordered s.source) :
    Ready s p (some {}) :=
  ⟨plain, ordered, by simp [Deferred.before_empty]⟩

/-- What is read where nobody settles faults. -/
theorem Reads.of_passage (h : Ready s p none → Passage s p none b ns q d') :
    Reads s none p.lexer q.lexer b ns := by
  intro plain ordered
  have passage := h (.none plain ordered)
  obtain rfl := passage.eq_none
  exact passage.reads

theorem Expression.noted_of_parts (none : e.parts = []) : e.Noted d :=
  fun _ _ _ _ inner => inner.ne_nil none

theorem Recalls.refl : Recalls d d := by
  intro x here y there b settled
  obtain rfl := Option.mem_unique here there
  exact settled

/-- What follows an expression keeps the fault of an early rest in it. -/
theorem Expression.Noted.later (noted : e.Noted d) (grows : Option.Rel Deferred.Grows d d')
    (recalls : Recalls d d') : e.Noted d' := by
  intro y mem b settled
  cases grows with
  | none => cases mem
  | @some x _ => exact noted x rfl b (recalls x rfl y mem b settled)

theorem Recalls.trans (first : Recalls d d₁) (grows : Option.Rel Deferred.Grows d d₁)
    (second : Recalls d₁ d') : Recalls d d' := by
  intro x mem y mem' b settled
  cases grows with
  | none => cases mem
  | @some _ z => exact first x mem z rfl b (second z rfl y mem' b settled)

/-- A check of the part just read leaves the lexer alone. -/
theorem Item.later {x : Option Expression} (item : Item s p d b x ns q d₁)
    (passage : Passage s q d₁ false [] q d') (recalls : Recalls d₁ d') : Item s p d b x ns q d' where
  passage := by simpa using item.passage.trans passage
  noted e same := (item.noted e same).later passage.grows recalls
  recalls remembered := (item.recalls remembered).trans item.passage.grows recalls
  comma here y mem b settled := by
    obtain ⟨-, grows, -⟩ := passage
    cases grows with
    | none => cases mem
    | @some z _ => exact item.comma here z rfl b (recalls z rfl y mem b settled)

/-! ### Lists -/

/-- The parts of a list were read up to the token of `q`. -/
structure Listed (s : Setting) (p : Parser) (d : Option Deferred) (parts : List (Option Expression))
    (ns : List Node) (q : Parser) (d' : Option Deferred) : Prop where
  passage : Passage s p d false ns q d'
  closed : ∀ y ∈ d', ∀ b, y.patternComplaint? b = none → ¬ OpenParts parts
  comma : q.lexer.kind = .comma → ∀ y ∈ d', ∀ b, y.patternComplaint? b = none →
    ∀ before span argument, parts ≠ before ++ [some (.spread span argument)]

namespace Listed

variable {parts : List (Option Expression)} {x : Option Expression}

theorem nil (ready : Ready s p d) : Listed s p d [] [] p d where
  passage := .refl ready
  closed _ _ _ _ inner := inner.ne_nil rfl
  comma _ _ _ _ _ _ _ := by simp

/-- The next part starts after a comma, or it is the first one. -/
theorem separated (listed : Listed s p d parts ns q d₁)
    (separated : (parts = [] ∧ r = q) ∨ (q.lexer.kind = .comma ∧ Runs s ParseM.next q ⟨⟩ r)) :
    Passage s p d false ns r d₁ := by
  rcases separated with ⟨-, rfl⟩ | ⟨comma, moved⟩
  · exact listed.passage
  · have next := listed.passage.step (.next moved comma rfl)
    exact (List.append_nil ns ▸ next).weaken

/-- A part is read after the others and a comma, or as the first one. -/
theorem add (listed : Listed s p d parts ns q d₁)
    (separated : (parts = [] ∧ r = q) ∨ (q.lexer.kind = .comma ∧ Runs s ParseM.next q ⟨⟩ r))
    {q' : Parser} (added : Item s r d₁ b x ms q' d') :
    Listed s p d (parts ++ [x]) (ns ++ ms) q' d' := by
  have passage := listed.separated separated
  refine
    { passage := (passage.trans added.passage).weaken
      closed := fun y mem b settled inner => ?_
      comma := fun comma y mem b settled before span argument same => ?_ }
  · rcases inner.of_concat with ⟨e, rfl, part⟩ | ⟨remembered, earlier⟩
    · exact added.noted e rfl y mem b settled part
    · obtain ⟨-, grows, -⟩ := added.passage
      cases grows with
      | none => cases mem
      | @some x _ =>
        have before := added.recalls remembered x rfl y mem b settled
        rcases earlier with part | ⟨parts, span, argument, same⟩
        · exact listed.closed x rfl b before part
        · rcases separated with ⟨first, -⟩ | ⟨comma, -⟩
          · simp [first] at same
          · exact listed.comma comma x rfl b before parts span argument same
  · exact added.comma comma y mem b settled span argument (List.append_singleton_inj.mp same).2

end Listed

/-! ### Productions that can be no pattern -/

namespace Grammar.Faithful

open Runs

variable {g : Grammar} {init : InitMode} (hg : g.Faithful s)
include hg

theorem plainAssignment (run : Runs s (g.plainAssignment init) p e q) :
    Reads s none p.lexer q.lexer true [.expression e] := by
  obtain ⟨d', run⟩ := CoverRuns.alone_iff.mp run
  exact .of_passage fun ready => (hg.assignment ready run).1.passage

theorem plainUnary {afterUnary inUpdate : Bool}
    (run : Runs s (g.unary afterUnary inUpdate init).alone p e q) :
    Reads s none p.lexer q.lexer true [.expression e] := by
  obtain ⟨d', run⟩ := CoverRuns.alone_iff.mp run
  exact .of_passage fun ready => (hg.unary ready run).passage

/-- An assignment was read, or a sequence of them, which can be no pattern. -/
theorem expression (ready : Ready s p d) (run : CoverRuns s (g.expression init) p d e q d') :
    Offered s p d e q d' ∨ ∃ span items, e = .sequence span items ∧
      span.start = p.lexer.token.start ∧ span.stop = q.lexer.last.stop ∧
        Passage s p d true (items.map .expression) q d' := by
  simp [Grammar.expression] at run
  obtain ⟨first, p₁, d₁, firstRun, ⟨-, items, loop, rfl⟩ | ⟨-, rfl, rfl, rfl⟩⟩ := run
  · obtain ⟨item, -⟩ := hg.assignment ready firstRun
    obtain ⟨last, r, d₂, passage, done⟩ := CoverRuns.of_repeatPast
      (fun items r d₂ => Passage s p d true (items.reverse.map .expression) r d₂) item.passage (by
        intro items next r r' d₂ d₃ passage pass
        simp at pass
        obtain ⟨r₁, ⟨comma, moved⟩, e, run, rfl⟩ := pass
        have next := passage.step (.next moved comma rfl)
        simpa using next.trans (hg.assignment next.ready run).1.passage) loop
    simp at done
    obtain ⟨⟨-, rfl⟩, rfl, rfl⟩ := done
    exact .inr ⟨_, _, rfl, rfl, rfl, passage⟩
  · obtain ⟨item, notSpread⟩ := hg.assignment ready firstRun
    exact .inl ⟨item.passage, item.noted e rfl, notSpread⟩

theorem plainExpression (run : Runs s (g.plainExpression init) p e q) :
    Reads s none p.lexer q.lexer true [.expression e] := by
  obtain ⟨d', run⟩ := CoverRuns.alone_iff.mp run
  intro plain ordered
  rcases hg.expression (.none plain ordered) run with offered | ⟨span, items, rfl, start, stop, passage⟩
  · exact Reads.of_passage (fun _ => offered.passage) plain ordered
  · have items := Reads.of_passage fun _ => passage
    exact items.node rfl start stop trivial plain ordered

theorem plainExpression_notSpread (run : Runs s (g.plainExpression init) p e q)
    (plain : s.reader = none) (ordered : p.lexer.Ordered s.source) : e.isSpread = false := by
  obtain ⟨d', run⟩ := CoverRuns.alone_iff.mp run
  rcases hg.expression (.none plain ordered) run with offered | ⟨span, items, rfl, -⟩
  · exact offered.notSpread
  · rfl

theorem parenthesized (run : Runs s g.parenthesized p e q) :
    Reads s none p.lexer q.lexer true [.expression e] := by
  simp [Grammar.parenthesized] at run
  obtain ⟨p₁, ⟨opens, r₁⟩, p₂, r₂, closes, r₃⟩ := run
  exact ((Reads.next r₁ opens rfl).trans (hg.plainExpression r₂)).trans (.next r₃ closes rfl)

end Grammar.Faithful
end ScriptSyntax
