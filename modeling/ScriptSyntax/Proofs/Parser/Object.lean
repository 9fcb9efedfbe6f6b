import ScriptSyntax.Parser.Object
import ScriptSyntax.Proofs.Parser.Subscript

/-!
Runs that read object literals.  A literal that has to be a pattern is among the faults put off.
-/

namespace ScriptSyntax

open Runs

variable {s : Setting} {p q : Parser} {g : Grammar} {d d' : Option Deferred}

namespace Grammar

theorem isAsyncMethod_spec {key : Expression} {computed b : Bool}
    (run : Runs s (isAsyncMethod key computed) p b q) :
    q = p ∧ (b = true → ∃ id, key = .identifier id) := by
  unfold isAsyncMethod at run
  split at run
  · simp at run
    exact ⟨run.2, fun _ => ⟨_, rfl⟩⟩
  · simp at run
    exact ⟨run.2, by simp [run.1]⟩

theorem accessorForm_spec {key : Expression} {computed escaped : Bool} {form : Option PropertyForm}
    (run : Runs s (accessorForm? key computed escaped) p form q) :
    q = p ∧ ∀ f, form = some f → (f = .getter ∨ f = .setter) ∧ ∃ id, key = .identifier id := by
  simp [accessorForm?] at run
  rcases run with ⟨-, rfl, rfl⟩ | ⟨-, run⟩
  · exact ⟨rfl, nofun⟩
  · split at run <;> simp at run <;> obtain ⟨rfl, rfl⟩ := run
    · refine ⟨rfl, fun f same => ⟨?_, _, rfl⟩⟩
      split at same
      · exact .inl (Option.some.inj same).symm
      · split at same
        · exact .inr (Option.some.inj same).symm
        · cases same
    · exact ⟨rfl, nofun⟩

end Grammar

theorem Runs.checkAccessor_same {isGetter : Bool} {f : Callable} {u : Unit}
    (run : Runs s (ParseM.checkAccessor isGetter f) p u q) : q = p := by
  unfold ParseM.checkAccessor at run
  split at run <;> simp at run <;> exact run

/-- A method or a mere name is no pattern, and no fault is put off in it. -/
theorem Item.of_reads {e : Expression} {ns : List Node} (ready : Ready s p d) (parts : e.parts = [])
    (read : Reads s none p.lexer q.lexer true ns) : Item s p d true (some e) ns q d where
  passage := .of_reads ready read
  noted _ same := Option.some.inj same ▸ Expression.noted_of_parts parts
  recalls _ := .refl
  comma _ _ _ _ _ _ _ same := by
    obtain rfl := Option.some.inj same
    cases parts

namespace Grammar.Faithful

variable {m : ObjectMember} {start : NodeStart} {key : Expression} {computed : Bool} (hg : g.Faithful s)
include hg

theorem methodMember {p₀ : Parser} (form : PropertyForm) {isGenerator isAsync : Bool} {f : Callable}
    (ready : Ready s p₀ d) (before : Reads s none p₀.lexer p.lexer true [.expression key])
    (here : start.pos = p₀.lexer.token.start)
    (run : Runs s (g.method isGenerator isAsync false) p f q) :
    let m := ObjectMember.property (spanTo s start q.lexer) form computed key (.function f)
    Item s p₀ d true m.part [.objectMember m] q d ∧ m.isShorthandDefault = false := by
  have read := before.trans (hg.method run)
  have item := Item.of_reads ready (e := .function f) rfl
    (read.node (n := .objectMember (.property (spanTo s start q.lexer) form computed key _)) rfl here rfl trivial)
  cases form <;> exact ⟨item, rfl⟩

theorem shorthandValue {p₀ : Parser} {id : Identifier} {e : Expression} (ready : Ready s p₀ d)
    (before : Reads s none p₀.lexer p.lexer true [.expression (.identifier id)])
    (here : start.pos = p₀.lexer.token.start)
    (run : CoverRuns s (g.shorthandValue start id) p d e q d') :
    let m := ObjectMember.property (spanTo s start q.lexer) .shorthand false (.identifier id) e
    Item s p₀ d true m.part [.objectMember m] q d' ∧
      (m.isShorthandDefault = true → d'.any (·.shorthandDefault.isSome) = true) := by
  simp [Grammar.shorthandValue] at run
  obtain ⟨target, r, shorthand, ⟨⟨settles, eq⟩, r₁, moved, value, run, rfl, rfl⟩ | ⟨-, rfl, rfl, rfl⟩⟩ := run <;>
    obtain ⟨-, same⟩ := shorthandTarget_spec shorthand <;> rw [← same] at before
  · have target : Reads s none p₀.lexer r.lexer true [.pattern (.identifier id)] := before.rename rfl rfl rfl
    have tail := (Reads.next moved eq rfl).trans (hg.plainAssignment run)
    have read := (target.trans tail).node
      (n := .expression (.assignment (spanTo s start q.lexer) .assign (.identifier id) value)) rfl here rfl trivial
    have member := read.clone (k := .expression (.identifier id)) (.inl rfl) (.of_child (.head _)) rfl
      (n := .objectMember (.property (spanTo s start q.lexer) .shorthand false (.identifier id) _)) rfl here
      rfl trivial
    have passage := Passage.of_reads ready member
    refine ⟨⟨passage.amend (fun y mem => ⟨fun pos there => ?_, ?_⟩) (fun x _ y _ grows => ?_) ?_,
      by simp [ObjectMember.part, Expression.isAssignment], fun _ => ?_,
      by simp [ObjectMember.part, Expression.isAssignment]⟩, fun _ => ?_⟩
    · obtain rfl := Option.some.inj there
      have old := passage.ready.before y mem
      cases earlier : y.shorthandDefault with
      | some pos => simpa using old.shorthandDefault pos earlier
      | none =>
        have name := target ready.plain ready.ordered
        have moves := Reads.next_nonempty moved (by rw [eq]; rfl) ready.plain name.ordered
        have value := hg.plainAssignment run ready.plain
          (Reads.next moved eq rfl ready.plain name.ordered).ordered
        simpa using Nat.lt_of_lt_of_le moves value.token_le
    · exact (passage.ready.before y mem).parenthesized
    · exact ⟨fun pos there => by simp [grows.shorthandDefault pos there], grows.parenthesized, grows.secondProto⟩
    · simp [Deferred.mustBePattern]
    · intro x mem y mem' b settled
      obtain rfl : d = some x := mem
      obtain rfl := Option.mem_some.mp mem'
      simpa using settled
    · cases d with
      | none => cases settles
      | some x => rfl
  · have member := before.clone (k := .expression (.identifier id)) (.inl rfl) .refl rfl
      (n := .objectMember (.property (spanTo s start q.lexer) .shorthand false (.identifier id) _)) rfl here
      rfl trivial
    exact ⟨.of_reads ready rfl member, by simp [ObjectMember.isShorthandDefault]⟩

theorem propertyValue {p₀ : Parser} {escaped isGenerator isAsync : Bool} (ready : Ready s p₀ d)
    (before : Reads s none p₀.lexer p.lexer true [.expression key])
    (here : start.pos = p₀.lexer.token.start)
    (run : CoverRuns s (g.propertyValue start key computed escaped isGenerator isAsync) p d m q d') :
    Item s p₀ d true m.part [.objectMember m] q d' ∧
      (m.isShorthandDefault = true → d'.any (·.shorthandDefault.isSome) = true) := by
  simp [Grammar.propertyValue] at run
  obtain ⟨-, ⟨-, ⟨-, f, method, rfl, rfl⟩ | ⟨-, form, p₁, accessor, run⟩⟩ | ⟨p₁, ⟨colon, moved⟩, e, value, rfl⟩⟩ :=
    run
  · obtain ⟨item, notDefault⟩ := hg.methodMember .method ready before here method
    exact ⟨item, fun default => nomatch notDefault.symm.trans default⟩
  · obtain ⟨rfl, word⟩ := accessorForm_spec accessor
    cases form with
    | some form =>
      obtain ⟨-, id, rfl⟩ := word form rfl
      have forgotten := before.forget rfl
      simp at run
      rcases run with ⟨-, key, ⟨p₂, name, f, p₃, method, checked, rfl, rfl⟩ |
        ⟨p₂, name, f, p₃, method, checked, rfl, rfl⟩⟩ <;> obtain rfl := checkAccessor_same checked
      · have key := forgotten.trans (hg.propertyName name)
        obtain ⟨item, notDefault⟩ := hg.methodMember form ready key here method
        exact ⟨item, fun default => nomatch notDefault.symm.trans default⟩
      · have key := forgotten.trans (hg.propertyName name)
        obtain ⟨item, notDefault⟩ := hg.methodMember form ready key here method
        exact ⟨item, fun default => nomatch notDefault.symm.trans default⟩
    | none =>
      simp at run
      split at run <;> simp at run
      obtain ⟨-, e, run, rfl⟩ := run
      exact hg.shorthandValue ready before here run
  · have name := Passage.of_reads ready (before.trans (.next moved colon rfl))
    obtain ⟨item, notSpread⟩ := hg.assignment name.ready value
    have passage := name.trans item.passage
    refine ⟨⟨⟨passage.ready, passage.grows, ?_⟩, item.noted, fun remembered => item.recalls remembered,
      item.comma⟩, nofun⟩
    refine passage.reads.cover rfl (fun c closed => ?_) here rfl trivial
    obtain rfl := List.mem_singleton.mp closed
    exact (before ready.plain ready.ordered).sound _ (.head _)

theorem objectMember (ready : Ready s p d) (run : CoverRuns s g.objectMember p d m q d') :
    Item s p d true m.part [.objectMember m] q d' ∧
      (m.isShorthandDefault = true → d'.any (·.shorthandDefault.isSome) = true) := by
  simp only [Grammar.objectMember, CoverRuns.bind_iff, CoverRuns.liftM_iff] at run
  obtain ⟨start, p₀, d₀, ⟨looked, rfl⟩, isSpread, p₁, _, ⟨eaten, rfl⟩, run⟩ := run
  obtain ⟨rfl, rfl⟩ := startNode_iff.mp looked
  have star {b : Bool} {n : Nat} {p q : Parser}
      (run : Runs s (ParseM.since n <&&> ParseM.eat .star : ParseM Bool) p b q) :
      Reads s none p.lexer q.lexer false [] := by
    rcases since_eat_iff.mp run with ⟨-, ⟨-, here⟩, moved⟩ | ⟨-, -, rfl⟩
    · exact (Reads.next moved here rfl).weaken
    · exact .refl
  cases isSpread with
  | true =>
    simp at run eaten
    obtain ⟨⟨-, points⟩, moved⟩ := eaten
    obtain ⟨argument, p₂, d₁, value, noted, rfl⟩ := run
    let span := spanTo s ⟨p₀.lexer.token.start, p₀.lexer.token.startPosition⟩ p₂.lexer
    have spread := hg.spreadArgument (n := .objectMember (.spread span argument)) span ready points moved value
      rfl rfl rfl rfl trivial
    obtain ⟨rfl, item⟩ := itemOfSpread spread noted
    exact ⟨item, by simp [ObjectMember.isShorthandDefault]⟩
  | false =>
    simp at eaten
    obtain ⟨-, rfl⟩ := eaten
    simp only [Bool.false_eq_true, if_false, CoverRuns.bind_iff, CoverRuns.liftM_iff] at run
    obtain ⟨isGenerator, p₂, _, ⟨starRun, rfl⟩, escaped, _, _, ⟨looked, rfl⟩, ⟨key, computed⟩, p₃, _,
      ⟨name, rfl⟩, _, _, _, ⟨looked', rfl⟩, isAsync, p₄, _, ⟨async, rfl⟩, run⟩ := run
    obtain ⟨-, rfl⟩ := containsEscape_iff.mp looked
    obtain ⟨-, rfl⟩ := since_iff.mp looked'
    obtain ⟨rfl, word⟩ := isAsyncMethod_spec async
    have first := (star starRun).trans (hg.propertyName name)
    simp only [CoverRuns.ite_iff] at run
    rcases run with ⟨isMethod, run⟩ | ⟨-, run⟩
    · simp only [Bool.and_eq_true] at isMethod
      obtain ⟨id, rfl⟩ := word isMethod.2
      simp only [CoverRuns.bind_iff, CoverRuns.liftM_iff] at run
      obtain ⟨isGenerator, p₅, _, ⟨starRun', rfl⟩, ⟨key, computed⟩, p₆, _, ⟨name', rfl⟩, run⟩ := run
      have second := (star starRun').trans (hg.propertyName name')
      exact hg.propertyValue ready ((first.forget rfl).trans second) rfl run
    · exact hg.propertyValue ready first rfl run

end Grammar.Faithful

/-! ### Literals that have to be patterns -/

/-- What is known of the members of an object literal so far. -/
structure MembersOwed (edition : Nat) (members : List ObjectMember) (names : PropertyNames)
    (d : Option Deferred) : Prop where
  shorthand : ∀ m ∈ members, m.isShorthandDefault = true → d.any (·.shorthandDefault.isSome) = true
  proto : 6 ≤ edition → 1 ≤ members.countP ObjectMember.isProto → names.proto = true
  second : 6 ≤ edition → 2 ≤ members.countP ObjectMember.isProto → d.any (·.secondProto.isSome) = true

theorem MembersOwed.leftover {edition : Nat} {members : List ObjectMember} {names : PropertyNames}
    (owed : MembersOwed edition members names d) {span : Span}
    (left : (Expression.object span members.reverse).Leftover edition) :
    d.any (·.mustBePattern) = true := by
  rcases left with ⟨m, mem, default⟩ | ⟨late, twice⟩
  · have noted := owed.shorthand m (List.mem_reverse.mp mem) default
    cases d <;> simp_all [Deferred.mustBePattern]
  · have noted := owed.second late (by simpa using twice)
    cases d <;> simp_all [Deferred.mustBePattern]

namespace Grammar

theorem checkProto_spec {names names' : PropertyNames} {form : PropertyForm} {computed : Bool}
    {key value : Expression} {span : Span}
    (run : CoverRuns s (checkProto names form computed key) p d names' q d') (ready : Ready s p d) :
    q = p ∧ Passage s p d false [] p d' ∧ Recalls d d' ∧
      (names.proto = true → names'.proto = true) ∧
      ((ObjectMember.property span form computed key value).isProto = true →
        names'.proto = true ∧ (names.proto = true → d'.any (·.secondProto.isSome) = true)) := by
  unfold checkProto at run
  split at run
  · simp at run
    rcases run with ⟨-, settles, rfl, rfl, rfl⟩ | ⟨first, rfl, rfl, rfl⟩
    · refine ⟨rfl, (Passage.refl ready).amend (fun y mem => ?_) (fun x _ y _ grows => ?_) (by
        simp [Deferred.mustBePattern]), fun x mem y mem' b settled => ?_, fun _ => rfl, fun _ =>
        ⟨rfl, fun _ => ?_⟩⟩
      · exact ⟨(ready.before y mem).shorthandDefault, (ready.before y mem).parenthesized⟩
      · exact ⟨grows.shorthandDefault, grows.parenthesized, fun _ => rfl⟩
      · obtain rfl : d = some x := mem
        obtain rfl := Option.mem_some.mp mem'
        simpa using settled
      · cases d with
        | none => cases settles
        | some x => rfl
    · exact ⟨rfl, .refl ready, .refl, fun _ => rfl, fun _ => ⟨rfl, fun again => by simp [first] at again⟩⟩
  · simp at run
    obtain ⟨rfl, rfl, rfl⟩ := run
    refine ⟨rfl, .refl ready, .refl, id, fun isProto => ?_⟩
    unfold ObjectMember.isProto at isProto
    split at isProto
    · rename_i other _ _ _ _ same
      cases same
      cases known : key.propertyName? with
      | none => simp [known] at isProto
      | some found =>
        simp [known] at isProto
        exact (other found.2 rfl rfl (known.trans (isProto ▸ rfl))).elim
    · cases isProto

theorem checkNames_same {names names' : PropertyNames} {form : PropertyForm} {key : Expression}
    (run : Runs s (checkNames names form key) p names' q) : q = p := by
  unfold checkNames at run
  split at run <;> simp at run
  · exact run.2
  · exact run.1.2

theorem checkMember_spec {names names' : PropertyNames} {m : ObjectMember}
    (run : CoverRuns s (checkMember names m) p d names' q d') (ready : Ready s p d) :
    q = p ∧ Passage s p d false [] p d' ∧ Recalls d d' ∧
      (6 ≤ s.edition → (names.proto = true → names'.proto = true) ∧ (m.isProto = true →
        names'.proto = true ∧ (names.proto = true → d'.any (·.secondProto.isSome) = true))) := by
  unfold checkMember at run
  split at run <;> simp at run
  · obtain ⟨rfl, rfl, rfl⟩ := run
    exact ⟨rfl, .refl ready, .refl, fun _ => ⟨id, nofun⟩⟩
  · rcases run with ⟨-, run⟩ | ⟨early, run, rfl⟩
    · obtain ⟨same, passage, recalls, known⟩ := checkProto_spec run ready
      exact ⟨same, passage, recalls, fun _ => known⟩
    · exact ⟨checkNames_same run, .refl ready, .refl, fun late => by omega⟩

end Grammar

theorem MembersOwed.add {edition : Nat} {members : List ObjectMember} {names names' : PropertyNames}
    {m : ObjectMember} {d₁ : Option Deferred} (owed : MembersOwed edition members names d)
    (grows : Option.Rel Deferred.Grows d d') (grows' : Option.Rel Deferred.Grows d' d₁)
    (default : m.isShorthandDefault = true → d'.any (·.shorthandDefault.isSome) = true)
    (known : 6 ≤ edition → (names.proto = true → names'.proto = true) ∧ (m.isProto = true →
        names'.proto = true ∧ (names.proto = true → d₁.any (·.secondProto.isSome) = true))) :
    MembersOwed edition (m :: members) names' d₁ := by
  have shorthand {x y : Option Deferred} (grows : Option.Rel Deferred.Grows x y)
      (noted : x.any (·.shorthandDefault.isSome) = true) : y.any (·.shorthandDefault.isSome) = true := by
    cases grows with
    | none => exact noted
    | some grows =>
      obtain ⟨pos, here⟩ := Option.isSome_iff_exists.mp noted
      simp [grows.shorthandDefault pos here]
  have second {x y : Option Deferred} (grows : Option.Rel Deferred.Grows x y)
      (noted : x.any (·.secondProto.isSome) = true) : y.any (·.secondProto.isSome) = true := by
    cases grows with
    | none => exact noted
    | some grows => exact grows.secondProto noted
  refine ⟨fun n mem isDefault => ?_, fun late once => ?_, fun late twice => ?_⟩
  · rcases List.mem_cons.mp mem with rfl | mem
    · exact shorthand grows' (default isDefault)
    · exact shorthand grows' (shorthand grows (owed.shorthand n mem isDefault))
  · obtain ⟨kept, found⟩ := known late
    cases isProto : m.isProto with
    | true => exact (found isProto).1
    | false => exact kept (owed.proto late (by simpa [List.countP_cons, isProto] using once))
  · obtain ⟨kept, found⟩ := known late
    cases isProto : m.isProto with
    | true =>
      refine (found isProto).2 (owed.proto late ?_)
      simpa [List.countP_cons, isProto] using twice
    | false =>
      exact second grows' (second grows (owed.second late (by simpa [List.countP_cons, isProto] using twice)))

theorem Grammar.Faithful.object (hg : g.Faithful s) {e : Expression} (ready : Ready s p d)
    (here : p.lexer.kind = .braceL) (run : CoverRuns s g.object p d e q d') : Offered s p d e q d' := by
  simp [Grammar.object] at run
  obtain ⟨p₁, moved, members, loop, rfl⟩ := run
  have opened := Passage.of_reads ready (.next moved here rfl)
  obtain ⟨⟨found, names⟩, r, d₁, ⟨listed, owed⟩, done⟩ := CoverRuns.of_repeatPast
    (fun found r d₁ =>
      Listed s p₁ d (found.1.reverse.map ObjectMember.part) (found.1.reverse.map .objectMember) r d₁ ∧
        MembersOwed s.edition found.1 found.2 d₁)
    ⟨.nil opened.ready, ⟨by simp, by simp, by simp⟩⟩ (by
      rintro ⟨found, names⟩ next r r' d₁ d₂ ⟨listed, owed⟩ pass
      have add {r₁ r₂ : Parser} {d₃ : Option Deferred} {m : ObjectMember} {names' : PropertyNames}
          (separated : (found.reverse.map ObjectMember.part = [] ∧ r₁ = r) ∨
            (r.lexer.kind = .comma ∧ Runs s ParseM.next r ⟨⟩ r₁))
          (memberRun : CoverRuns s g.objectMember r₁ d₁ m r₂ d₃)
          (check : CoverRuns s (checkMember names m) r₂ d₃ names' r' d₂) :
          Listed s p₁ d ((m :: found).reverse.map ObjectMember.part)
            ((m :: found).reverse.map .objectMember) r' d₂ ∧ MembersOwed s.edition (m :: found) names' d₂ := by
        obtain ⟨item, default⟩ := hg.objectMember (listed.separated separated).ready memberRun
        obtain ⟨rfl, checked, recalls, known⟩ := checkMember_spec check item.passage.ready
        have added := listed.add separated (item.later checked recalls)
        exact ⟨by simpa using added, owed.add item.passage.grows checked.grows default known⟩
      simp at pass
      obtain ⟨-, r₁, d₃, separated, -, m, r₂, d₄, memberRun, names', check, rfl⟩ := pass
      rcases separated with ⟨rfl, rfl, rfl⟩ | ⟨-, separated, rfl⟩
      · exact add (.inl ⟨rfl, rfl⟩) memberRun check
      · exact add (.inr separated) memberRun check) loop
  have close {r : Parser} (passage : Passage s p₁ d false (found.reverse.map .objectMember) r d₁)
      (closes : r.lexer.kind = .braceR) (moved : Runs s ParseM.next r ⟨⟩ q) :
      Passage s p d true (found.reverse.map .objectMember) q d₁ := by
    simpa using opened.trans (passage.step (.next moved closes rfl))
  have offered (passage : Passage s p d true (found.reverse.map .objectMember) q d₁) :
      Offered s p d (.object (spanTo s ⟨p.lexer.token.start, p.lexer.token.startPosition⟩ q.lexer)
        found.reverse) q d₁ := by
    refine ⟨⟨passage.ready, passage.grows, ?_⟩, listed.closed, rfl⟩
    exact passage.reads.cover (n := .expression (.object _ found.reverse)) rfl (by simp [Node.closed]) rfl rfl
      owed.leftover
  simp at done
  rcases done with ⟨-, r₁, separated, ⟨⟨-, closes⟩, moved⟩, rfl⟩ | ⟨⟨closes, moved⟩, rfl, rfl⟩
  · rcases separated with ⟨-, rfl, rfl⟩ | ⟨-, separated, rfl⟩
    · exact offered (close listed.passage closes moved)
    · exact offered (close (listed.separated (.inr separated)) closes moved)
  · exact offered (close listed.passage closes moved)

end ScriptSyntax
