import ScriptSyntax.Proofs.RegExp.Pattern

/-!
Terms, alternatives and disjunctions, each from what the steps inside do; and the whole pattern, which
is read to its end or fails.
-/

namespace ScriptSyntax
namespace RegExp

variable {α β : Type} {d : Dialect} {n : Nat} {r : Record} {o : Outline} {w : Nat → Prop}
  {place outer : Place} {first : Nat}

theorem Loose.bound {p : Progress} (here : Loose d n r o p) : n ≤ p.pos :=
  here.elim (fun here => here.bound) fun here => here.bound

theorem Reading.bound {C : Record → Outline → Prop} {p : Progress} (here : Reading d n C p) :
    n ≤ p.pos := by
  obtain ⟨_, _, -, here⟩ := here
  exact here.bound

theorem Reading.started {C : Record → Outline → Prop} {p : Progress} (here : Reading d n C p) :
    Reading d p.pos C p := by
  obtain ⟨r, o, is, loose⟩ := here
  exact ⟨r, o, is, loose.forward (Nat.le_refl _)⟩

/-! ### Where readings stop -/

/-- A backslash right before is the last code unit and stands for itself. -/
def Dialect.Trails (d : Dialect) (i : Nat) : Prop := d.Dangles i ∧ d.units.size ≤ i

theorem Dialect.Trails.at?_eq_none {i : Nat} (trails : d.Trails i) (joined : Bool) :
    d.at? joined i = none := Dialect.at?_eq_none.2 trails.2

/-- A reading has stopped at such an offset, or behind a backslash that ends the pattern. -/
def Stopped (d : Dialect) (n : Nat) (C : Record → Outline → Prop) (w : Nat → Prop) (p : Progress) :
    Prop :=
  ∃ r o, C r o ∧ (Here d n r o w p ∨ Here d n r o.behind d.Trails p)

section

variable {C C' : Record → Outline → Prop} {p p' : Progress} {m : Nat} {w' : Nat → Prop}

theorem Reading.stopped (here : Reading d n C p) (stuck : d.Stuck p.pos) :
    Stopped d n C d.Stuck p := by
  obtain ⟨r, o, is, here | here⟩ := here
  · exact ⟨r, o, is, .inl ⟨⟨here.outline, here.bound, stuck⟩, here.record⟩⟩
  · refine ⟨r, o, is, .inr ⟨⟨here.outline, here.bound, here.offset, ?_⟩, here.record⟩⟩
    refine (Dialect.at?_eq_none (d := d)).1 (?_ : d.at? d.unicode p.pos = none)
    cases stands : d.at? d.unicode p.pos with
    | none => rfl
    | some code =>
      have one := stuck code stands
      rcases here.offset.2 code stands with rfl | rfl <;> exact absurd one (by decide)

theorem Stopped.reading (here : Stopped d n C w p) : Reading d n C p := by
  obtain ⟨r, o, is, here | here⟩ := here
  · exact ⟨r, o, is, .inl here.at⟩
  · exact ⟨r, o, is, .inr (here.mono fun _ trails => trails.1)⟩

theorem Stopped.mono (here : Stopped d m C w p) (below : n ≤ m) (weaker : ∀ r o, C r o → C' r o)
    (offset : ∀ j, w j → w' j) : Stopped d n C' w' p := by
  obtain ⟨r, o, is, here | here⟩ := here
  · exact ⟨r, o, weaker r o is, .inl ⟨⟨here.outline, Nat.le_trans below here.bound,
      offset _ here.offset⟩, here.record⟩⟩
  · exact ⟨r, o, weaker r o is, .inr ⟨⟨here.outline, Nat.le_trans below here.bound, here.offset⟩,
      here.record⟩⟩

/-- Only the record changes. -/
theorem Stopped.recorded (here : Stopped d n C w p) (pos : p'.pos = p.pos)
    (each : ∀ o, C p.record o → C' p'.record o) : Stopped d n C' w p' := by
  obtain ⟨r, o, is, here⟩ := here
  have same : p.record = r := here.elim (fun here => here.record) fun here => here.record
  subst same
  refine ⟨p'.record, o, each o is, here.imp (fun here => ⟨?_, rfl⟩) fun here => ⟨?_, rfl⟩⟩
  · rw [pos]; exact here.toSpot
  · rw [pos]; exact here.toSpot

end

theorem Steps.eatStopped [d.Narrow] {C : Record → Outline → Prop} {Q : β → Progress → Prop} {c : Char}
    {f : Bool → PatternM β} {J : Progress → Prop} (narrow : isNarrow c = true)
    (lands : ∀ r o (p : Progress), C r o → d.units[p.pos]? = some c.toNat → Here d n r o w p →
      d.before (p.pos + 1) = o.step d.unicodeSets p.pos c.toNat → J { p with pos := p.pos + 1 })
    (yes : Steps d J (f true) Q)
    (no : Steps d (Stopped d n C fun j => w j ∧ d.at? d.unicode j ≠ some c.toNat) (f false) Q) :
    Steps d (Stopped d n C w) (RegExp.eat c >>= f) Q := by
  rintro p ⟨r, o, is, here | here⟩
  · refine eatUnit narrow (fun p => lands r o p is) yes ?_ p here
    exact no.mono (fun _ here => ⟨r, o, is, .inl here⟩) fun _ _ done => done
  · refine eatMissing ?_ (fun j trails => ?_) p here
    · exact no.mono (fun _ here => ⟨r, o, is, .inr here⟩) fun _ _ done => done
    · rw [trails.at?_eq_none]
      exact (Option.some_ne_none _).symm

theorem Steps.eatenStopped [d.Narrow] {C : Record → Outline → Prop} {c : Char}
    (narrow : isNarrow c = true) : Steps d (Stopped d n C w) (RegExp.eat c) (Either (fun _ => True)
      (Stopped d n C fun j => w j ∧ d.at? d.unicode j ≠ some c.toNat)) := by
  have steps := eatStopped (f := Pure.pure) (J := fun _ => True) (Q := Either (fun _ => True)
    (Stopped d n C fun j => w j ∧ d.at? d.unicode j ≠ some c.toNat)) (w := w) (c := c)
    narrow (fun _ _ _ _ _ _ _ => trivial) (pure fun _ here => here) (pure fun _ here => here)
  rwa [bind_pure] at steps

theorem quantifier_stopped [d.Narrow] {C : Record → Outline → Prop}
    (plain : ∀ r o, C r o → o.escaped = false) (lenient : Bool) :
    Steps d (Stopped d n C w) (quantifier lenient) (Either (fun _ => True)
      (Stopped d n C fun j => w j ∧ ∀ c ∈ ['*', '+', '?'], d.at? d.unicode j ≠ some c.toNat)) := by
  rintro p ⟨r, o, is, here | here⟩
  · refine (quantifier_steps (plain r o is) lenient).weaken (fun matched p here => ?_) p here
    cases matched with
    | true => trivial
    | false => exact ⟨r, o, is, .inl here⟩
  · have missing : ∀ c ∈ ['*', '+', '?', '{'], ∀ j, d.Trails j → d.at? d.unicode j ≠ some c.toNat :=
      fun c _ j trails => by rw [trails.at?_eq_none]; exact (Option.some_ne_none _).symm
    refine (quantifier_missing lenient missing).weaken (fun matched p here => ?_) p here
    cases matched with
    | true => trivial
    | false => exact ⟨r, o, is, .inr here⟩

/-! ### Behind a dangling backslash -/

/-- Only a refused code stands there. -/
theorem Dialect.Dangles.isOneOf {i code : Nat} (dangles : d.Dangles i)
    (stands : d.at? d.unicode i = some code) : isLenientCharacter code = true := by
  rcases dangles.2 code stands with rfl | rfl <;> decide

section

variable {inner : PatternM Unit} {F : Progress → Prop}

theorem eatPair_dangling {c c' : Char} (other : isOneOf ['c', 'k'] c.toNat = false) :
    Steps d (Here d n r o d.Dangles) (eatPair c c') (Either F (Here d n r o d.Dangles)) :=
  .position fun _ _ => .eatDangling other (.pure fun _ here => here)

/-- A step that finds no match. -/
theorem Steps.missed {P M : Progress → Prop} {Q : β → Progress → Prop} {x : PatternM Bool}
    {f : Bool → PatternM β} (steps : Steps d P x (Either (fun _ => False) M))
    (rest : Steps d M (f false) Q) : Steps d P (x >>= f) Q := by
  refine .bind steps fun matched => ?_
  cases matched with
  | true => exact fun _ no => no.elim
  | false => exact rest

theorem assertion_dangling : Steps d (Here d n r o d.Dangles) (assertion inner) fun q =>
    Either F (Here d n r o d.Dangles) q.isSome := by
  refine .orRewind (.missed (.anyMatch fun step mem => ?_) ?_)
  · simp only [List.mem_cons, List.not_mem_nil, or_false] at mem
    rcases mem with rfl | rfl
    · exact .missing (Steps.at?_of_dangles rfl)
    · exact .missing (Steps.at?_of_dangles rfl)
  · refine .missed (eatPair_dangling rfl) (.missed (eatPair_dangling rfl) ?_)
    exact .missed (eatPair_dangling rfl) (.pure fun _ here => here.record)

theorem lenientAtom_dangling [d.Narrow] (within : Within d place r o) (depth : Nat) :
    Steps d (Here d n r o.behind d.Dangles) (lenientAtom inner depth)
      (Either (Reading d (n + 1) (Within d place)) fun p =>
        Here d n r o.behind d.Dangles p ∧ d.Stuck p.pos) := by
  have final : Steps d (Here d n r o.behind d.Dangles)
      (do return (← eatCode isLenientCharacter).isSome)
      (Either (Reading d (n + 1) (Within d place)) fun p =>
        Here d n r o.behind d.Dangles p ∧ d.Stuck p.pos) := by
    refine .bind (.eatCode (J := Reading d (n + 1) (Within d place)) fun code _ => ?_) fun code =>
      .pure fun p here => ?_
    · refine (Steps.advance_behind.and .advance_forward).weaken fun _ p here => ?_
      have at' := here.1
      rw [Outline.settled_of within.plain] at at'
      exact ⟨r, o, within, .inl ⟨⟨at'.outline, here.2, trivial⟩, at'.record⟩⟩
    · cases code with
      | some code => exact here
      | none =>
        refine ⟨here.mono fun _ both => both.1, fun code stands => ?_⟩
        exact absurd (here.offset.1.isOneOf stands) (by simp [here.offset.2 code stands])
  refine .anyMatch_cons (.missing (Steps.at?_of_dangles rfl)) ?_
  refine .anyMatch_cons (.position fun _ _ => .eatDangling rfl (.pure fun _ here => here)) ?_
  refine .anyMatch_cons (.eatDangling rfl (.pure fun _ here => here)) ?_
  refine .anyMatch_cons (.position fun _ _ => .eatDangling rfl (.pure fun _ here => here)) ?_
  refine .anyMatch_cons (.eatDangling rfl (.pure fun _ here => here)) ?_
  refine .anyMatch_cons (.missed (.position fun _ _ => .eatDangling rfl (.pure fun _ here => here))
    (.pure fun _ here => here)) ?_
  exact .anyMatch_cons final (.pure fun _ here => here)

end

/-! ### Terms -/

/-- What stops a disjunction. -/
def Dialect.Closes (d : Dialect) (i : Nat) : Prop :=
  ∀ code, d.at? d.unicode i = some code → isOneOf [')', ']', '}'] code = true

variable [d.Narrow]

theorem quantifier_keeps (lenient : Bool) :
    Steps d (Reading d n (Within d place)) (quantifier lenient) fun _ =>
      Reading d n (Within d place) := by
  refine .reading (fun r o within => ?_) fun r o within => ?_
  · refine (quantifier_steps within.plain lenient).weaken fun matched p here => ⟨r, o, within, .inl ?_⟩
    cases matched with
    | true => exact here
    | false => exact here.at
  · refine (quantifier_dangling lenient).weaken fun matched p here => ?_
    cases matched with
    | true => exact here.elim
    | false => exact ⟨r, o, within, .inr here⟩

/-- A term takes in something, or none begins there. -/
def Advances (d : Dialect) (n : Nat) (place : Place) : Bool → Progress → Prop :=
  Either (Reading d (n + 1) (Within d place)) fun p => Reading d n (Within d place) p ∧ d.Stuck p.pos

omit [d.Narrow] in
theorem Advances.of_atom {matched : Bool} {p : Progress} (within : Within d place r o)
    (here : Either (Reading d (n + 1) (Within d place)) (Here d n r o d.Stuck) matched p) :
    Advances d n place matched p := by
  cases matched with
  | true => exact here
  | false => exact ⟨⟨r, o, within, .inl here.at⟩, here.offset⟩

theorem quantified (matched : Bool) : Steps d (Advances d n place matched)
    (do if matched then let _ ← quantifier false; return true else return false)
    (Advances d n place) := by
  refine .ite (fun matched => ?_) fun missed => .pure fun p here => ?_
  · subst matched
    exact .bind (quantifier_keeps false) fun _ => .pure fun _ here => here
  · rwa [Bool.eq_false_iff.2 missed] at here

section

variable {inner : PatternM Unit} (reads : ∀ n first outer,
  Steps d (Standing d n (Entering d first outer)) inner fun _ => Reading d n (Leaving d first outer))

include reads

theorem term_steps (inside : place ≠ []) (depth : Nat) :
    Steps d (Reading d n (Within d place)) (term inner depth) (Advances d n place) := by
  refine .reading (fun r o within => ?_) fun r o within => ?_
  · refine .read (.bind (assertion_steps reads within) fun q => ?_)
    cases q with
    | none =>
      refine .ite (fun strict => ?_) fun _ => ?_
      · exact .bind ((strictAtom_steps reads within inside strict depth).weaken
          fun _ _ here => .of_atom within here) quantified
      · exact .bind ((lenientAtom_steps reads within inside depth).weaken
          fun _ _ here => .of_atom within here) quantified
    | some quantifiable =>
      refine .mono (P := Reading d (n + 1) (Within d place)) ?_ (fun _ here => Standing.reading here)
        fun _ _ done => done
      refine .ite (fun _ => .bind (quantifier_keeps false) fun matched => ?_)
        fun _ => .pure fun _ here => here
      exact .ite (fun _ => .ite (fun _ => (.throwing rfl)) fun _ => .pure fun _ here => here)
        fun _ => .pure fun _ here => here
  · refine .read (.bind (assertion_dangling (F := fun _ => False)) fun q => ?_)
    cases q with
    | some quantifiable => exact fun _ no => no.elim
    | none =>
      refine .ite (fun strict => ?_) fun _ => ?_
      · refine .fact (fun p here => here.offset.1) fun lenient => ?_
        exact absurd strict (by simp [lenient])
      · refine .bind ((lenientAtom_dangling within depth).weaken fun matched p here => ?_) quantified
        cases matched with
        | true => exact here
        | false => exact ⟨⟨r, o, within, .inr here.1⟩, here.2⟩

/-- An alternative is read up to where no term begins. -/
theorem alternative_steps (inside : place ≠ []) (depth : Nat) :
    Steps d (Reading d n (Within d place)) (alternative inner depth) fun _ =>
      Stopped d n (Within d place) d.Stuck := by
  have read (fuel : Nat) : ∀ n, d.units.size + 1 ≤ n + fuel →
      Steps d (Reading d n (Within d place)) (whileMatch (term inner depth) fuel) fun _ =>
        Stopped d n (Within d place) d.Stuck := by
    induction fuel with
    | zero =>
      refine fun n enough => .pure fun p here => here.stopped fun code stands => ?_
      have beyond : d.units.size ≤ p.pos := by
        have bound := here.bound
        omega
      rw [Dialect.at?_eq_none.2 beyond] at stands
      cases stands
    | succ fuel ih =>
      refine fun n enough => .bind (term_steps reads inside depth) fun matched => ?_
      refine .ite (fun matched => ?_) fun missed => .pure fun p here => ?_
      · subst matched
        exact (ih (n + 1) (by omega)).weaken fun _ p done =>
          done.mono (Nat.le_succ n) (fun _ _ is => is) fun _ stuck => stuck
      · rw [Bool.eq_false_iff.2 missed] at here
        exact here.1.stopped here.2
  intro p here
  have enough : d.units.size + 1 ≤ p.pos + (d.units.size + 1 - p.pos) := by omega
  exact (read _ p.pos enough).weaken
    (fun _ p' done => done.mono here.bound (fun _ _ is => is) fun _ stuck => stuck) p here.started

end

/-! ### Alternatives -/

section

omit [d.Narrow]

theorem Between.retrack {shown place' : Place} {begun begun' : Nat} {r' : Record}
    (between : Between d shown place begun r o) (names : r'.names = r.names)
    (tracked : d.tracksBranches = true → Tracked d r' o.groups begun' place') :
    Between d shown place' begun' r' o :=
  ⟨between.plain, between.outside, between.shown, between.agrees.stand, names ▸ between.agrees.names,
    tracked⟩

/-- Where alternatives are not told apart, none is recorded. -/
theorem Between.untracked {shown place' : Place} {begun begun' : Nat}
    (between : Between d shown place begun r o) (untracked : ¬ d.tracksBranches = true) :
    Between d shown place' begun' r o :=
  between.retrack rfl fun tracks => absurd tracks untracked

/-- Inside some alternative of a disjunction. -/
def Among (d : Dialect) (first : Nat) (outer : Place) (r : Record) (o : Outline) : Prop :=
  ∃ current, Within d ((first, current) :: outer) r o

/-- Before an alternative that is not yet recorded, and after another one. -/
def Turning (d : Dialect) (first begun : Nat) (outer : Place) (r : Record) (o : Outline) : Prop :=
  o.begun = begun + 1 ∧
    ∃ current, Between d ((first, begun) :: outer) ((first, current) :: outer) begun r o

theorem openBranch_steps : Steps d (Standing d n (Entering d first outer)) openBranch fun _ =>
    Standing d n (Within d ((first, first) :: outer)) := by
  refine .standing fun r o entering => .read (.ite (fun tracks => .get fun p here => .modify ?_)
    fun untracked => .pure fun p here => ?_)
  · rintro p rfl
    obtain rfl := here.record
    have opened := (entering.2.agrees.tracked tracks).open'
    refine ⟨p.record.begin p.branch none, o, entering.2.retrack rfl fun _ => ?_, here.toSpot, rfl⟩
    rw [entering.1]
    exact opened
  · exact ⟨r, o, entering.2.untracked untracked, here⟩

theorem current?_eq {p : Progress} {id : Nat} {b : Branch} (at' : p.record.branch = some id)
    (stands : p.record.branches[id]? = some b) : p.current? = some b := by
  unfold Progress.current?
  rw [show p.branch = some id from at']
  exact stands

theorem nextBranch_steps {begun : Nat} :
    Steps d (Standing d n (Turning d first begun outer)) nextBranch fun _ =>
      Standing d n (Within d ((first, begun) :: outer)) := by
  refine .standing fun r o turning => .read (.ite (fun tracks => .get fun p here => ?_)
    fun untracked => .pure fun p here => ?_)
  · obtain ⟨begins, current, between⟩ := turning
    obtain rfl := here.record
    obtain ⟨id, b, at', stands, next⟩ := (between.agrees.tracked tracks).next
    rw [current?_eq at' stands]
    refine .modify ?_
    rintro p rfl
    refine ⟨p.record.begin b.parent (some b.base), o, between.retrack rfl fun _ => ?_, here.toSpot, rfl⟩
    rw [begins]
    exact next
  · obtain ⟨-, current, between⟩ := turning
    exact ⟨r, o, between.untracked untracked, here⟩

theorem closeBranch_steps : Steps d (Stopped d n (Among d first outer) w) closeBranch fun _ =>
    Stopped d n (Leaving d first outer) w := by
  refine .read (.ite (fun tracks => .modify fun p here => here.recorded rfl fun o among => ?_)
    fun untracked => .pure fun p here => here.mono (Nat.le_refl n) (fun r o among => ?_)
      fun _ stuck => stuck)
  · obtain ⟨current, within⟩ := among
    obtain ⟨id, b, at', stands, closed⟩ := (within.agrees.tracked tracks).close
    refine ⟨current, within.retrack rfl fun _ => ?_⟩
    rw [current?_eq at' stands]
    exact closed
  · obtain ⟨current, within⟩ := among
    exact ⟨current, within.untracked untracked⟩

end

variable {inner : PatternM Unit} (reads : ∀ n first outer,
  Steps d (Standing d n (Entering d first outer)) inner fun _ => Reading d n (Leaving d first outer))

include reads

omit reads in
theorem eatBar_steps : Steps d (Stopped d n (Among d first outer) w) (eat '|') (Either
    (fun p => ∃ begun, Standing d (n + 1) (Turning d first begun outer) p)
    (Stopped d n (Among d first outer) fun j => w j ∧ d.at? d.unicode j ≠ some '|'.toNat)) := by
  rw [← bind_pure (eat '|')]
  refine .eatStopped rfl (J := fun p => ∃ begun, Standing d (n + 1) (Turning d first begun outer) p)
    (fun r o p among stands here moved => ?_) (.pure fun _ here => here) (.pure fun _ here => here)
  obtain ⟨current, within⟩ := among
  rw [Outline.step_bar within.plain within.outside within.shown] at moved
  refine ⟨o.begun, r, d.before (p.pos + 1), ?_, ⟨rfl, Nat.succ_le_succ here.bound, trivial⟩, here.record⟩
  rw [moved]
  exact ⟨rfl, current, within.plain, within.outside, rfl, within.agrees⟩

theorem alternatives_steps (depth fuel : Nat) :
    ∀ n, d.units.size + 1 ≤ n + fuel →
      Steps d (Stopped d n (Among d first outer) d.Stuck) (alternatives inner depth fuel) fun _ =>
        Stopped d n (Among d first outer)
          fun j => d.Stuck j ∧ d.at? d.unicode j ≠ some '|'.toNat := by
  induction fuel with
  | zero =>
    refine fun n enough => .pure fun p here => ?_
    obtain ⟨r, o, is, here | here⟩ := here
    · have beyond : d.units.size ≤ p.pos := by
        have bound := here.bound
        omega
      refine ⟨r, o, is, .inl ⟨⟨here.outline, here.bound, here.offset, ?_⟩, here.record⟩⟩
      rw [Dialect.at?_eq_none.2 beyond]
      exact (Option.some_ne_none _).symm
    · exact ⟨r, o, is, .inr here⟩
  | succ fuel ih =>
    refine fun n enough => .bind eatBar_steps fun matched => ?_
    cases matched with
    | false => exact .pure fun _ here => here
    | true =>
      refine .exists' fun begun => .bind nextBranch_steps fun _ => ?_
      refine .bind ((alternative_steps reads (List.cons_ne_nil _ _) depth).mono
        (fun _ => Standing.reading) fun _ _ done => done) fun _ => ?_
      refine (ih (n + 1) (by omega)).mono (fun p here => ?_) fun _ p done => ?_
      · exact here.mono (Nat.le_refl _) (fun _ _ within => ⟨_, within⟩) fun _ stuck => stuck
      · exact done.mono (Nat.le_succ n) (fun _ _ is => is) fun _ stuck => stuck

omit reads

theorem disjunction_steps (depth : Nat) : ∀ n first outer,
    Steps d (Standing d n (Entering d first outer)) (disjunction depth) fun _ =>
      Stopped d n (Leaving d first outer) d.Closes := by
  induction depth with
  | zero => exact fun _ _ _ => (.throw rfl)
  | succ depth ih =>
    have reads : ∀ n first outer, Steps d (Standing d n (Entering d first outer)) (disjunction depth)
        fun _ => Reading d n (Leaving d first outer) :=
      fun n first outer => (ih n first outer).weaken fun _ _ => Stopped.reading
    intro n first outer
    refine .bind openBranch_steps fun _ => ?_
    refine .bind ((alternative_steps reads (List.cons_ne_nil _ _) depth).mono
      (fun _ => Standing.reading) fun _ _ done => done) fun _ => ?_
    refine .read (.bind ((alternatives_steps reads depth _ n (by omega)).mono (fun _ here =>
      here.mono (Nat.le_refl _) (fun _ _ within => ⟨first, within⟩) fun _ stuck => stuck)
      fun _ _ done => done) fun _ => ?_)
    refine .bind closeBranch_steps fun _ => ?_
    refine .bind (quantifier_stopped (fun r o leaving => ?_) true) fun matched => ?_
    · obtain ⟨current, between⟩ := leaving
      exact between.plain
    cases matched with
    | true => exact (.throwing rfl)
    | false =>
      refine .eatStopped rfl (J := fun _ => True) (fun _ _ _ _ _ _ _ => trivial) (.throw rfl) ?_
      refine .pure fun p here => here.mono (Nat.le_refl n) (fun _ _ is => is) fun j facts => ?_
      obtain ⟨⟨⟨stuck, bar⟩, marks⟩, brace⟩ := facts
      simp only [List.mem_cons, List.not_mem_nil, or_false, forall_eq_or_imp, forall_eq] at marks
      refine isOneOf_rest ['|', '*', '+', '?', '{'] stuck ?_ rfl
      simp only [List.mem_cons, List.not_mem_nil, or_false, forall_eq_or_imp, forall_eq]
      exact ⟨bar, marks.1, marks.2.1, marks.2.2, brace⟩

end RegExp
end ScriptSyntax
