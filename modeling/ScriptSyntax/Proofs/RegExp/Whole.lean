import ScriptSyntax.Proofs.RegExp.Abreast
import ScriptSyntax.Proofs.RegExp.Duplicate
import ScriptSyntax.Proofs.RegExp.Trail

/-!
A pattern that is read without a fault is read to its last code unit, and no bracket that begins a class outside all
others is passed over.
-/

namespace ScriptSyntax
namespace RegExp

variable {d : Dialect} {s p q : Progress}

/-! ### The end of a pattern -/

/-- What a run that has read the outermost disjunction is checked for. -/
structure Dialect.Finishes (d : Dialect) (p : Progress) : Prop where
  open' : p.pos ≠ d.units.size → ∀ c ∈ [')', ']', '}'], d.at? d.unicode p.pos ≠ some c.toNat
  numbers : p.maxReference ≤ p.groups
  names : ∀ name ∈ p.references, ∃ group ∈ p.names, group.1 = name

/-- What stands where the outermost disjunction stopped. -/
def checkEnd : PatternM Unit := do
  if (← position) != (← read).units.size then
    if ← eat ')' then throw .unmatchedParenthesis
    if ← anyMatch [eat ']', eat '}'] then throw .loneQuantifierBrackets

/-- References are checked once all groups are known. -/
def checkReferences : PatternM Unit := do
  let p ← get
  if p.groups < p.maxReference then throw .invalidEscape
  unless p.references.all fun name => p.names.any (·.1 == name) do throw .invalidNamedCapture

theorem pattern_eq : pattern = (do disjunction maxDepth; checkEnd; checkReferences) := by
  unfold pattern checkEnd
  simp only [bind_assoc]
  refine bind_congr fun _ => bind_congr fun pos => bind_congr fun d => ?_
  split
  · simp only [bind_assoc]
    refine bind_congr fun right => ?_
    cases right
    · simp only [Bool.false_eq_true, if_false, bind_assoc]
      refine bind_congr fun closing => ?_
      cases closing <;> rfl
    · rfl
  · rfl

theorem checkEnd_eq_ok : checkEnd d q = .ok () p ↔
    q = p ∧ (p.pos ≠ d.units.size → ∀ c ∈ [')', ']', '}'], d.at? d.unicode p.pos ≠ some c.toNat) := by
  simp only [List.mem_cons, List.not_mem_nil, or_false, forall_eq_or_imp, forall_eq]
  unfold checkEnd
  rw [run_bind position_run, run_bind read_run]
  by_cases last : q.pos = d.units.size
  · rw [last, bne_self_eq_false]
    refine ⟨fun run => ?_, fun known => known.1 ▸ rfl⟩
    cases run
    exact ⟨rfl, fun inside => absurd last inside⟩
  rw [bne_iff_ne.2 last, if_pos rfl]
  -- Each of the characters is refused.
  have refuses {c : Char} (stands : d.at? d.unicode q.pos = some c.toNat) (mem : c ∈ [')', ']', '}'])
      {x : PatternM Unit} (fails : ∀ r, x d q ≠ .ok () r) : x d q = .ok () p ↔ q = p ∧ (p.pos ≠ d.units.size →
        d.at? d.unicode p.pos ≠ some ')'.toNat ∧ d.at? d.unicode p.pos ≠ some ']'.toNat ∧
          d.at? d.unicode p.pos ≠ some '}'.toNat) := by
    refine ⟨fun run => absurd run (fails p), fun known => ?_⟩
    obtain ⟨rfl, open'⟩ := known
    simp only [List.mem_cons, List.not_mem_nil, or_false] at mem
    rcases mem with rfl | rfl | rfl
    · exact absurd stands (open' last).1
    · exact absurd stands (open' last).2.1
    · exact absurd stands (open' last).2.2
  by_cases right : d.at? d.unicode q.pos = some ')'.toNat
  · refine refuses right (by simp) fun r run => ?_
    rw [run_bind (eat_run right)] at run
    cases run
  rw [run_bind (eat_missed right)]
  show (anyMatch [eat ']', eat '}'] >>= fun closing =>
    if closing then throw .loneQuantifierBrackets else pure () : PatternM Unit) d q = _ ↔ _
  by_cases bracket : d.at? d.unicode q.pos = some ']'.toNat
  · refine refuses bracket (by simp) fun r run => ?_
    rw [run_bind (anyMatch_run (eat_run bracket))] at run
    cases run
  by_cases brace : d.at? d.unicode q.pos = some '}'.toNat
  · refine refuses brace (by simp) fun r run => ?_
    rw [run_bind ((anyMatch_missed (eat_missed bracket)).trans (anyMatch_run (eat_run brace)))] at run
    cases run
  rw [run_bind ((anyMatch_missed (eat_missed bracket)).trans (anyMatch_missed (eat_missed brace)))]
  refine ⟨fun run => ?_, fun known => known.1 ▸ rfl⟩
  cases run
  exact ⟨rfl, fun _ => ⟨right, bracket, brace⟩⟩

theorem checkReferences_eq_ok : checkReferences d q = .ok () p ↔
    q = p ∧ p.maxReference ≤ p.groups ∧ ∀ name ∈ p.references, ∃ group ∈ p.names, group.1 = name := by
  have runs : checkReferences d q = if q.groups < q.maxReference then .error .invalidEscape q
      else if q.references.all fun name => q.names.any (·.1 == name) then .ok
        () q else .error .invalidNamedCapture q := by
    unfold checkReferences
    rw [run_bind get_run]
    split
    · rfl
    · split <;> rfl
  rw [runs]
  split
  · refine ⟨fun same => (by cases same), fun known => ?_⟩
    obtain ⟨rfl, le, -⟩ := known
    omega
  · rename_i le
    have check : (q.references.all fun name => q.names.any (·.1 == name)) = true ↔
        ∀ name ∈ q.references, ∃ group ∈ q.names, group.1 = name := by
      simp only [List.all_eq_true, List.any_eq_true, beq_iff_eq]
    split
    · rename_i names
      refine ⟨fun same => ?_, fun known => known.1 ▸ rfl⟩
      cases same
      exact ⟨rfl, Nat.le_of_not_lt le, check.1 names⟩
    · rename_i names
      refine ⟨fun same => (by cases same), fun known => ?_⟩
      obtain ⟨rfl, -, known⟩ := known
      exact absurd (check.2 known) names

theorem pattern_eq_ok : pattern d s = .ok () p ↔ disjunction maxDepth d s = .ok () p ∧ d.Finishes p := by
  rw [pattern_eq, bind_eq_ok]
  refine ⟨fun run => ?_, fun run => ?_⟩
  · obtain ⟨_, r, inner, rest⟩ := run
    obtain ⟨_, t, ends, checks⟩ := bind_eq_ok.1 rest
    obtain ⟨rfl, open'⟩ := checkEnd_eq_ok.1 ends
    obtain ⟨rfl, numbers, names⟩ := checkReferences_eq_ok.1 checks
    exact ⟨inner, open', numbers, names⟩
  · exact ⟨(), p, run.1, bind_eq_ok.2 ⟨(), p, checkEnd_eq_ok.2 ⟨rfl, run.2.open'⟩,
      checkReferences_eq_ok.2 ⟨rfl, run.2.numbers, run.2.names⟩⟩⟩

/-! ### What a whole run leaves behind -/

section

variable [d.Narrow]

omit [d.Narrow] in
theorem Deep.begins {i : Nat} (clear : (d.before i).Clear) (stands : d.units[i]? = some '['.toNat) :
    Deep d i (i + 1) := by
  refine ⟨Nat.lt_succ_self _, (Array.getElem?_eq_some_iff.1 stands).1, fun k above below => ?_⟩
  obtain rfl : k = i + 1 := by omega
  rw [Dialect.before_succ stands, Outline.step_opening clear.plain fun within => by
    have outside := clear.outside
    omega]
  exact Nat.succ_pos _

theorem Trail.course : d.Course (Trail d) where
  glides s p := Trail.glides s p
  skips trail stands other _ := trail.next stands fun same => absurd same other
  boundary {s p c} trail slash letter is := by
    refine trail.move (Nat.le_add_right _ 2) (fun _ => (Array.getElem?_eq_some_iff.1 letter).1) fun i above below => ?_
    have known : (isDigitCode c = false ∧ c ≠ 'k'.toNat) ∧ c ≠ '\\'.toNat := by
      simp only [isOneOf, List.any_cons, List.any_nil, Bool.or_false, Bool.or_eq_true, beq_iff_eq] at is
      rcases is with rfl | rfl <;> exact ⟨⟨rfl, by decide⟩, by decide⟩
    obtain rfl | rfl : i = p.pos ∨ i = p.pos + 1 := by omega
    · exact Dialect.idle_of_escapes letter known.1
    · exact Dialect.idle_of_unit letter known.2
  dives {s p} trail clear stands _ := by
    refine ⟨Deep d p.pos, Deep.dives p.pos, Deep.begins clear stands, fun j deep _ closes => ?_⟩
    refine trail.move (Nat.le_succ_of_le (Nat.le_of_lt deep.above)) (fun _ => (Array.getElem?_eq_some_iff.1 closes).1)
      fun k above below => ?_
    rcases Nat.eq_or_lt_of_le above with rfl | later
    · exact Dialect.idle_of_unit stands (by decide)
    · exact Dialect.idle_of_classes (deep.inside k later (Nat.le_of_lt_succ below))
  records names branches branch trail := ⟨trail.forward, trail.bounded, trail.counted, trail.number, trail.references,
    fun i above below => (trail.noted i above below).later (Nat.le_refl _) fun _ mem => mem⟩
  groups {s p} trail clear left := by
    refine ⟨{ p with pos := p.pos + 1 }, Trail.refl _, fun captures q inner => ?_⟩
    have counted := inner.counted
    have more : d.capturing (p.pos + 1) = d.capturing p.pos + 1 := by
      have captures' : d.captures p.pos = true := by
        rcases captures with bare | named
        · exact Bool.or_eq_true_iff.2 (.inl (bne_iff_ne.2 bare))
        · exact Bool.or_eq_true_iff.2 (.inr named)
      rw [Dialect.capturing, Dialect.capturing, Dialect.before_succ left, Outline.step_left clear.plain clear.outside,
        Outline.entered, List.filter_append, List.length_append, List.filter_cons_of_pos (by exact captures')]
      rfl
    refine trail.trans ⟨Nat.le_of_succ_le inner.forward, fun _ =>
      inner.bounded (Array.getElem?_eq_some_iff.1 left).1, ?_,
      inner.number, inner.references, fun i above below => ?_⟩
    · dsimp only at counted ⊢
      omega
    · rcases Nat.eq_or_lt_of_le above with rfl | later
      · exact Dialect.idle_of_unit left (by decide) _
      · exact (inner.noted i later below).later (Nat.le_refl _) fun _ mem => mem

theorem Trail.escapes : Mirror.Escapes d d.namedGroups (Trail d) Eq fun _ => True := by
  rintro s n r o w clear - p q matched p' ⟨here, trail, same, references⟩ run
  have ends := escapedAtom_trail clear.plain p matched p' ⟨here, trail⟩ run
  obtain rfl : q = p := by rw [same, ← references]
  refine ⟨p', run, fun missed slash => ?_, ends.1, rfl, rfl⟩
  obtain ⟨at', next⟩ := Dialect.next_of_unit (c := '\\') rfl slash d.unicode
  exact next ▸ ends.1.next at' fun _ => ends.2 missed slash

/-- From the start of a pattern on, the outermost disjunction leaves a trail to where it stops. -/
theorem disjunction_trail (run : disjunction maxDepth d {} = .ok () p) :
    Stopped d 0 (Leaving d 0 []) d.Closes p ∧ Trail d {} p := by
  have stopped := disjunction_steps maxDepth 0 0 [] {} (entering_start (d := d))
  rw [run] at stopped
  have alternates : Mirror.Alternates d d.namedGroups (Trail d) Eq :=
    Mirror.alternates_of_escapes Trail.course Trail.escapes fun _ _ _ _ => rfl
  obtain ⟨_, -, trail, -⟩ := Mirror.disjunction Trail.course alternates maxDepth {} 0 0 [] {} {} () p
    ⟨entering_start, Trail.refl _, rfl, rfl⟩ run
  exact ⟨stopped, trail⟩

/-- What the outermost disjunction stops at. -/
theorem disjunction_stops (run : disjunction maxDepth d {} = .ok () p) :
    p.pos = d.units.size ∨ ∃ c ∈ [')', ']', '}'], d.units[p.pos]? = some c.toNat := by
  obtain ⟨stopped, trail⟩ := disjunction_trail run
  rcases Nat.lt_or_eq_of_le (trail.bounded (Nat.zero_le _)) with inside | last
  · obtain ⟨code, stands⟩ := Option.isSome_iff_exists.1 (Option.isSome_iff_ne_none.2
      (mt (Dialect.at?_eq_none.1 : d.at? d.unicode p.pos = none → _) (Nat.not_le.2 inside)))
    obtain ⟨r, o, -, here | here⟩ := stopped
    · obtain ⟨c, mem, rfl⟩ : ∃ c ∈ [')', ']', '}'], c.toNat = code := by
        simpa only [isOneOf, List.any_eq_true, beq_iff_eq] using here.offset code stands
      refine .inr ⟨c, mem, (Dialect.at?_char stands ?_).1⟩
      simp only [List.mem_cons, List.not_mem_nil, or_false] at mem
      rcases mem with rfl | rfl | rfl <;> exact of_decide_eq_true rfl
    · exact absurd here.offset.2 (Nat.not_le.2 inside)
  · exact .inl last

end

theorem readPattern_eq_ok : d.readPattern = .ok p ↔ pattern d {} = .ok () p := by
  unfold Dialect.readPattern
  simp only [ReaderT.run, EStateM.run]
  cases pattern d {} with
  | ok a q => simp only [Except.ok.injEq, EStateM.Result.ok.injEq, true_and]
  | error fault q => simp only [reduceCtorEq]

theorem readPattern_rests [d.Narrow] (read : d.readPattern = .ok p) : p.pos = d.units.size := by
  obtain ⟨run, finishes⟩ := pattern_eq_ok.1 (readPattern_eq_ok.1 read)
  obtain last | ⟨c, mem, stands⟩ := disjunction_stops run
  · exact last
  · have inside : p.pos < d.units.size := (Array.getElem?_eq_some_iff.1 stands).1
    refine absurd (Dialect.at?_of_unit stands ?_) (finishes.open' (Nat.ne_of_lt inside) c mem)
    simp only [List.mem_cons, List.not_mem_nil, or_false] at mem
    rcases mem with rfl | rfl | rfl <;> exact of_decide_eq_true rfl

/-- Whichever way a pattern is read, nothing of it is left when the reading succeeds: the outermost
disjunction stops only at the end or at a character that is then refused. -/
theorem readPattern_whole (pattern flags : List Char) (edition : Nat) (named : Bool) :
    let d := (Dialect.ofFlags pattern flags edition).naming named
    (∀ p, d.readPattern = .ok p → p.pos = (codeUnits pattern).length) ∧
    ∀ p, disjunction maxDepth d {} = .ok () p → p.pos = (codeUnits pattern).length ∨
      ∃ c ∈ [')', ']', '}'], d.units[p.pos]? = some c.toNat := by
  intro d
  have size : d.units.size = (codeUnits pattern).length := List.size_toArray
  exact ⟨fun p read => size ▸ readPattern_rests read, fun p run => size ▸ disjunction_stops run⟩

/-- A pattern with a group, a class and a quantifier, and one that is stopped by a parenthesis. -/
theorem readPattern_whole_group :
    let d := (Dialect.ofFlags "(a|[b-d])+".toList ['u'] 15).naming true
    let e := (Dialect.ofFlags "a)b".toList [] 15).naming false
    (∃ p, d.readPattern = .ok p ∧ p.pos = 10) ∧ ∃ p, disjunction maxDepth e {} = .ok () p ∧
      (p.pos = 3 ∨ ∃ c ∈ [')', ']', '}'], e.units[p.pos]? = some c.toNat) := by
  intro d e
  have accepted : d.readPattern.isOk = true := by decide +kernel
  have stopped : (EStateM.run' ((disjunction maxDepth).run e) {}).isSome = true := by decide +kernel
  cases read : d.readPattern with
  | error fault => simp [read, Except.isOk, Except.toBool] at accepted
  | ok p =>
    cases run : disjunction maxDepth e {} with
    | error fault q =>
      have none' : EStateM.run' ((disjunction maxDepth).run e) {} = none :=
        congrArg (EStateM.Result.rec (motive := fun _ => Option Unit) (fun a _ => some a) fun _ _ => none) run
      rw [none'] at stopped
      cases stopped
    | ok a q =>
      exact ⟨⟨p, rfl, (readPattern_whole "(a|[b-d])+".toList ['u'] 15 true).1 p read⟩,
        q, rfl, (readPattern_whole "a)b".toList [] 15 false).2 q run⟩

/-! ### Classes that stand outside all others -/

variable {i j : Nat} {joined : Bool} {code unit : Nat}

/-- If a class begins there outside all others, one is read there. -/
def Dialect.Answered (d : Dialect) (i : Nat) : Prop :=
  (d.before i).Clear → d.units[i]? = some '['.toNat → d.ReadsClass i

theorem Dialect.answered_of_unit (stands : d.units[i]? = some unit) (other : unit ≠ '['.toNat) : d.Answered i :=
  fun _ bracket => absurd (Option.some.inj (stands.symm.trans bracket)) other

theorem Dialect.answered_of_escaped (escaped : (d.before i).escaped = true) : d.Answered i :=
  fun clear => absurd clear.plain (Bool.eq_false_iff.1 · escaped)

theorem Dialect.answered_of_classes (inside : 0 < (d.before i).classes) : d.Answered i :=
  fun clear => absurd clear.outside (Nat.ne_of_gt inside)

/-- So it is up to the cursor. -/
def Answers (d : Dialect) (_ : Unit) (p : Progress) : Prop := ∀ i < p.pos, d.Answered i

namespace Answers

theorem at_pos (answers : Answers d () p) (same : q.pos = p.pos) : Answers d () q :=
  fun i below => answers i (same ▸ below)

theorem move (answers : Answers d () p) (between : ∀ i, p.pos ≤ i → i < j → d.Answered i) :
    Answers d () { p with pos := j } := by
  intro i below
  rcases Nat.lt_or_ge i p.pos with early | late
  · exact answers i early
  · exact between i late below

theorem next [d.Narrow] (answers : Answers d () p) (stands : d.at? joined p.pos = some code)
    (bracket : code = '['.toNat → d.Answered p.pos) :
    Answers d () { p with pos := d.next joined p.pos } := by
  obtain ⟨unit, next⟩ | ⟨high, low, first, second, largeHigh, largeLow, -, next⟩ := Dialect.at?_cases stands
  · refine next ▸ answers.move fun i above below => ?_
    obtain rfl : i = p.pos := by omega
    by_cases same : code = '['.toNat
    · exact bracket same
    · exact Dialect.answered_of_unit unit same
  · have large {unit : Nat} (large : 0xd800 ≤ unit) : unit ≠ '['.toNat := fun same => absurd (same ▸ large) (by decide)
    refine next ▸ answers.move fun i above below => ?_
    obtain rfl | rfl : i = p.pos ∨ i = p.pos + 1 := by omega
    · exact Dialect.answered_of_unit first (large largeHigh)
    · exact Dialect.answered_of_unit second (large largeLow)

theorem glides [d.Narrow] (p : Progress) : d.Glides fun j => Answers d () { p with pos := j } where
  plain answers stands plain := answers.next stands fun bracket => by simp [bracket, Outline.isMark, isOneOf] at plain
  codePoint {i} answers slash letter := by
    refine answers.move fun k above below => ?_
    obtain rfl | rfl : k = i ∨ k = i + 1 := by
      have above : i ≤ k := above
      omega
    · exact Dialect.answered_of_unit slash (by decide)
    · exact Dialect.answered_of_unit letter (by decide)
  escaped answers escaped stands := answers.next stands fun _ => Dialect.answered_of_escaped escaped

variable [d.Narrow]

theorem course : d.Course (Answers d) where
  glides _ p := glides p
  skips answers stands _ other := answers.next stands fun same => absurd same other
  boundary {_ p c} answers slash letter is := by
    have other : c ≠ '['.toNat := by
      rintro rfl
      cases is
    refine answers.move fun k above below => ?_
    obtain rfl | rfl : k = p.pos ∨ k = p.pos + 1 := by omega
    · exact Dialect.answered_of_unit slash (by decide)
    · exact Dialect.answered_of_unit letter other
  dives {_ p} answers clear stands reads := by
    refine ⟨Deep d p.pos, Deep.dives p.pos, Deep.begins clear stands, fun j deep _ _ =>
      answers.move fun k above below => ?_⟩
    rcases Nat.eq_or_lt_of_le above with rfl | later
    · exact fun _ _ => reads
    · exact Dialect.answered_of_classes (deep.inside k later (Nat.le_of_lt_succ below))
  records _ _ _ answers := answers.at_pos rfl
  groups {_ p} answers _ left := by
    refine ⟨(), answers.move fun k above below => ?_, fun _ q answers => answers.at_pos rfl⟩
    obtain rfl : k = p.pos := by omega
    exact Dialect.answered_of_unit left (by decide)

/-! ### Escapes -/

variable {n : Nat} {r : Record} {o : Outline} {w : Nat → Prop}

theorem numberedReference : Ends d (Answers d ()) numberedReference fun _ => Answers d () := by
  refine .position fun start => .fact (c := ∀ i < start, d.Answered i) (fun p here => here.2 ▸ here.1) fun back => ?_
  have peeks : Ends d (fun p => Answers d () p ∧ p.pos = start) peek fun _ => Answers d () := by
    intro p _ p' here run
    cases run
    exact here.1
  refine .bind peeks fun code => .ite (fun _ => ?_) fun _ => .pure fun _ here => here
  refine .bind (Keeps.ends (fun _ _ glides => .eatDecimal glides) glides) fun number => ?_
  cases number with
  | none => exact .pure fun _ here => here
  | some number =>
    refine .read (.ite (fun _ => ?_) fun _ => .get fun p here => .ite (fun _ => ?_) fun _ => ?_)
    · exact .bind (R := fun _ => Answers d ()) (.modify fun _ here => at_pos here rfl) fun _ => .pure fun _ here => here
    · exact .pure fun q same => same ▸ here
    · exact .bind (R := fun _ => Answers d ()) (.moveTo fun _ _ => back) fun _ => .pure fun _ here => here

theorem namedReference : Ends d (Answers d ()) namedReference fun _ => Answers d () := by
  refine .bind (Keeps.ends (fun _ _ glides => .eat glides rfl) glides) fun eaten => .ite (fun _ => ?_) fun _ =>
    .pure fun _ here => here
  refine .bind (Keeps.ends (fun _ _ glides => .groupName glides) glides) fun name => ?_
  cases name with
  | none => exact .throw
  | some name => exact .bind (R := fun _ => Answers d ()) (.modify fun _ here =>
      at_pos here rfl) fun _ => .pure fun _ here => here

theorem atomEscape (open' : o.escaped = false) :
    Ends d (fun p => Here d n r o.behind w p ∧ Answers d () p) atomEscape fun _ => Answers d () := by
  refine .read (.bind (R := Either (Answers d ()) (Answers d ())) ?_ fun matched => ?_)
  · refine .anyMatch_cons (.attempt (.forget numberedReference) (numberedReference_escapes open')) ?_
    refine .anyMatch_cons (.attemptSome (.forget (Keeps.ends (fun _ _ glides => .classEscape glides) glides))
      (classEscape_tries.escapes n r o w open')) ?_
    refine .anyMatch_cons (.attemptSome (F := At d n r o) ?_
      ((characterEscape_steps open').weaken fun a q here => ?_)) ?_
    · refine Mirror.ends fun q here _ => (Mirror.characterEscape (glides q) open' fun _ _ _ => rfl).mono
        (fun a b both => ⟨both.1 ▸ here, both.2⟩) fun _ _ _ done => done
    · cases a with
      | some a => exact here
      | none => exact here.mono fun _ both => both.1
    · refine .anyMatch_cons (K := Answers d ()) (.ite (fun _ => ?_) fun _ => .pure fun _ here => here.2)
        (.pure fun _ here => here)
      exact (Ends.forget namedReference).weaken fun matched _ here => by cases matched <;> exact here
  · refine .ite (fun _ => .bind (R := fun _ _ => True) (fun _ _ _ _ _ => trivial) fun _ =>
      .ite (fun _ => .throwing) fun _ =>
      .throwing) fun _ => .pure fun _ here => by cases matched <;> exact here

/-- The bracket that a backslash escapes begins no class. -/
theorem escapedAtom (open' : o.escaped = false) :
    Ends d (fun p => Here d n r o w p ∧ Answers d () p) escapedAtom fun _ => Answers d () := by
  rintro p matched p' ⟨here, answers⟩ run
  unfold RegExp.escapedAtom at run
  rw [run_bind position_run] at run
  by_cases stands : d.at? d.unicode p.pos = some '\\'.toNat
  · obtain ⟨slash, next⟩ := Dialect.at?_char stands (of_decide_eq_true rfl)
    rw [run_bind (eat_run stands), if_pos rfl, next] at run
    obtain ⟨found, q, atom, rest⟩ := bind_eq_ok.1 run
    have behind := here.behind slash open'
    have moved : Answers d () { p with pos := p.pos + 1 } := next ▸ answers.next stands fun same => by cases same
    have done := atomEscape open' _ found q ⟨behind, moved⟩ atom
    cases found with
    | true =>
      cases rest
      exact done
    | false =>
      cases rest
      exact answers.at_pos rfl
  · rw [run_bind (eat_missed stands)] at run
    cases run
    exact answers

theorem escapes : Mirror.Escapes d d.namedGroups (Answers d) Eq fun _ => True := by
  rintro ⟨⟩ n r o w clear - p q matched p' ⟨here, answers, same, references⟩ run
  obtain rfl : q = p := by rw [same, ← references]
  have ends := escapedAtom clear.plain q matched p' ⟨here, answers⟩ run
  refine ⟨p', run, fun _ slash => ends.move fun k above below => ?_, ends, rfl, rfl⟩
  obtain rfl : k = p'.pos := by omega
  exact Dialect.answered_of_unit slash (by decide)

end Answers

/-- Where a pattern is read, so is each class of it that stands outside all others. -/
theorem readPattern_classes [d.Narrow] (read : d.readPattern = .ok p) (clear : (d.before i).Clear)
    (stands : d.units[i]? = some '['.toNat) : d.ReadsClass i := by
  obtain ⟨run, -⟩ := pattern_eq_ok.1 (readPattern_eq_ok.1 read)
  have alternates : Mirror.Alternates d d.namedGroups (Answers d) Eq :=
    Mirror.alternates_of_escapes Answers.course Answers.escapes fun _ _ _ _ => rfl
  obtain ⟨_, -, answers, -⟩ := Mirror.disjunction Answers.course alternates maxDepth () 0 0 [] {} {} () p
    ⟨entering_start, fun _ none => absurd none (Nat.not_lt_zero _), rfl, rfl⟩ run
  have inside : i < d.units.size := (Array.getElem?_eq_some_iff.1 stands).1
  exact answers i (readPattern_rests read ▸ inside) clear stands

end RegExp
end ScriptSyntax
