import ScriptSyntax.Proofs.Scope.History

/-!
Which declarations conflict.  A stack of scopes only keeps sets of names; what it reports is told here by
the declarations themselves: two conflict or not as they are, and the order in which they come does not matter.
-/

namespace ScriptSyntax

namespace ScopeHistory

/-- What was declared in the scope does not let a variable of the name through. -/
def Blocks (inModule : Bool) (h : ScopeHistory) (n : String) (t : Entry) : Prop :=
  h.Declares n .lexical t ∨ (h.Declares n .simpleCatch t ∧ ¬ h.CatchParam n t) ∨
    (t.functionsAsVars inModule = false ∧ h.Declares n .function t)

/-- A declaration made now conflicts with one made before. -/
def Conflicts (inModule : Bool) (h : ScopeHistory) (n : String) : Binding → Prop
  | .lexical => ∃ t, h.around.head? = some t ∧
      (h.Declares n .lexical t ∨ h.Declares n .simpleCatch t ∨ h.Declares n .function t ∨ h.Hoists n t)
  | .function => ∃ t, h.around.head? = some t ∧
      (h.Declares n .lexical t ∨ h.Declares n .simpleCatch t ∨ (t.functionsAsVars inModule = false ∧ h.Hoists n t))
  | .simpleCatch => False
  | .var | .none | .outside => ∃ t, HoistsTo h.around t ∧ h.Blocks inModule n t

end ScopeHistory

open ScopeHistory in
theorem Scope.Recalls.clashesWithVar_iff {h : ScopeHistory} {scope : Scope} {t : Entry} (known : scope.Recalls h t)
    (inModule : Bool) (n : String) : scope.clashesWithVar inModule n = true ↔ h.Blocks inModule n t := by
  have lexical : scope.lexical.contains n = true ↔ h.Declares n .lexical t ∨ h.Declares n .simpleCatch t := by
    rw [List.contains_iff_mem, known.lexical]
  have functions : scope.functions.contains n = true ↔ h.Declares n .function t := by
    rw [List.contains_iff_mem, known.functions]
  have param : (scope.flags.simpleCatch && scope.catchParam == some n) = true ↔ h.CatchParam n t := by
    rw [Bool.and_eq_true_iff, known.flags, beq_iff_eq, known.catchParam, CatchParam]
  have apart : h.Declares n .lexical t → ¬ h.CatchParam n t := fun declared catches => known.apart n catches.2 declared
  have split : scope.clashesWithVar inModule n = true ↔
      (scope.lexical.contains n = true ∧ (scope.flags.simpleCatch && scope.catchParam == some n) = false) ∨
        (t.functionsAsVars inModule = false ∧ scope.functions.contains n = true) := by
    simp only [Scope.clashesWithVar, known.functionsAsVars, Bool.or_eq_true_iff, Bool.and_eq_true_iff,
      Bool.not_eq_true']
  rw [split, ← Bool.not_eq_true, lexical, functions, param, Blocks, or_and_right, and_iff_left_of_imp apart, or_assoc]

namespace ScopeStack

/-- The open scopes are those of the history, and recall it. -/
structure Recalls (h : ScopeHistory) (scopes : List Scope) : Prop where
  numbered : h.Numbered
  each : List.Forall₂ (Scope.Recalls h) scopes h.around

/-- A run from a stack with one scope at the top.  It reported no conflict, and declared plain parameters
only in the scopes of catch clauses, before all else. -/
inductive Ran : ScopeStack → ScopeHistory → Prop
  | start {s : ScopeStack} {flags : ScopeFlags} (top : flags.top = true) (scopes : s.scopes = [{ flags }]) :
    Ran s { around := [⟨0, flags⟩], entered := 1 }
  | enter {s : ScopeStack} {h : ScopeHistory} (flags : ScopeFlags) (ran : Ran s h) : Ran (s.enter flags) (h.enter flags)
  | exit {s : ScopeStack} {h : ScopeHistory} (ran : Ran s h) : Ran s.exit h.exit
  | declare {s : ScopeStack} {h : ScopeHistory} (name : String) (binding : Binding) (ran : Ran s h)
    (free : (s.declare name binding).1 = false) (first : binding = .simpleCatch → h.AtCatch) :
    Ran (s.declare name binding).2 (h.declare name binding)

end ScopeStack

/-- A declaration that concerns none of the scopes. -/
theorem Scope.Recalls.skip_all {h : ScopeHistory} (name : String) (binding : Binding) {scopes : List Scope}
    {around : List Entry} (each : List.Forall₂ (Scope.Recalls h) scopes around)
    (elsewhere : ∀ t ∈ around, h.around.head? ≠ some t)
    (aside : binding.isHoisted = true → ∀ t ∈ around, ¬ HoistsTo h.around t) :
    List.Forall₂ (Scope.Recalls (h.declare name binding)) scopes around := by
  induction each with
  | nil => exact .nil
  | @cons scope t scopes around known _ ih =>
    exact .cons
      (known.skip (elsewhere t List.mem_cons_self) fun hoisted => aside hoisted t List.mem_cons_self)
      (ih (fun u mem => elsewhere u (List.mem_cons_of_mem _ mem))
        fun hoisted u mem => aside hoisted u (List.mem_cons_of_mem _ mem))

/-- A variable that meets no conflict is noted in the scopes that it gets to, and nowhere else. -/
theorem Scope.Recalls.hoist {h : ScopeHistory} {name : String} {binding : Binding} (hoisted : binding.isHoisted = true)
    (inModule : Bool) {scopes : List Scope} {around : List Entry}
    (each : List.Forall₂ (Scope.Recalls h) scopes around) (nodup : around.Nodup)
    (reach : ∀ t ∈ around, HoistsTo h.around t ↔ HoistsTo around t)
    (free : (Scope.hoist inModule name scopes).1 = false) :
    List.Forall₂ (Scope.Recalls (h.declare name binding)) (Scope.hoist inModule name scopes).2.1 around := by
  induction each with
  | nil => exact .nil
  | @cons scope t scopes around known each ih =>
    obtain ⟨notMem, nodup⟩ := List.nodup_cons.1 nodup
    have here : (scope.insertVar name).Recalls (h.declare name binding) t :=
      known.insertVar hoisted ((reach t List.mem_cons_self).2 (hoistsTo_cons.2 (.inl rfl)))
    have further (u : Entry) (mem : u ∈ around) :
        HoistsTo h.around u ↔ t.flags.holdsVars = false ∧ HoistsTo around u := by
      have other : u ≠ t := fun same => notMem (same ▸ mem)
      simp [reach u (List.mem_cons_of_mem _ mem), other]
    unfold Scope.hoist at free ⊢
    split at free
    · cases free
    · rename_i passes
      rw [if_neg passes]
      split at free
      · rename_i holds
        rw [if_pos holds]
        rw [known.flags] at holds
        have aside (u : Entry) (mem : u ∈ around) : ¬ HoistsTo h.around u := by simp [further u mem, holds]
        exact .cons here (skip_all name binding each
          (fun u mem first => aside u mem (Declaration.MadeIn.reaches (d := ⟨name, binding, h.around⟩) first))
          fun _ => aside)
      · rename_i holds
        rw [if_neg holds]
        rw [Bool.not_eq_true, known.flags] at holds
        exact .cons here (ih nodup (fun u mem => by simp [further u mem, holds]) free)

/-- A variable meets a conflict if one of the scopes that it would get to blocks it. -/
theorem Scope.hoist_conflict_iff {h : ScopeHistory} (inModule : Bool) (name : String) {scopes : List Scope}
    {around : List Entry} (each : List.Forall₂ (Scope.Recalls h) scopes around) :
    (Scope.hoist inModule name scopes).1 = true ↔ ∃ t, HoistsTo around t ∧ h.Blocks inModule name t := by
  induction each with
  | nil => simp [Scope.hoist]
  | @cons scope t scopes around known each ih =>
    have blocks := known.clashesWithVar_iff inModule name
    unfold Scope.hoist
    split
    · rename_i clash
      exact iff_of_true rfl ⟨t, hoistsTo_cons.2 (.inl rfl), blocks.1 clash⟩
    · rename_i passes
      have passes : ¬ h.Blocks inModule name t := fun blocked => passes (blocks.2 blocked)
      split
      · rename_i holds
        rw [known.flags] at holds
        simp [holds, passes]
      · rename_i holds
        rw [Bool.not_eq_true, known.flags] at holds
        simp only [ih, hoistsTo_cons, holds, true_and]
        constructor
        · rintro ⟨u, hoists, blocked⟩
          exact ⟨u, .inr hoists, blocked⟩
        · rintro ⟨u, rfl | hoists, blocked⟩
          · exact absurd blocked passes
          · exact ⟨u, hoists, blocked⟩

namespace ScopeStack

variable {s : ScopeStack} {h : ScopeHistory}

theorem Recalls.cases (known : Recalls h s.scopes) : (s.scopes = [] ∧ h.around = []) ∨
    ∃ scope outer t rest, s.scopes = scope :: outer ∧ h.around = t :: rest ∧ scope.Recalls h t ∧
      List.Forall₂ (Scope.Recalls h) outer rest := by
  obtain ⟨-, each⟩ := known
  revert each
  generalize s.scopes = scopes, h.around = around
  rintro (_ | ⟨known, each⟩)
  · exact .inl ⟨rfl, rfl⟩
  · exact .inr ⟨_, _, _, _, rfl, rfl, known, each⟩

/-- What the stack reports is what the history says. -/
theorem Recalls.declare_conflict_iff (known : Recalls h s.scopes) (n : String) (binding : Binding) :
    (s.declare n binding).1 = true ↔ h.Conflicts s.inModule n binding := by
  have hoist := Scope.hoist_conflict_iff s.inModule n known.each
  obtain ⟨scopes, around⟩ | ⟨scope, outer, t, rest, scopes, around, recalls, -⟩ := known.cases
  · cases binding <;> simp [declare, scopes, around, ScopeHistory.Conflicts]
  · cases binding with
    | var | none | outside =>
      simp only [ScopeHistory.Conflicts, ← hoist]
      simp [declare, scopes]
    | simpleCatch => simp [declare, scopes, ScopeHistory.Conflicts]
    | lexical =>
      simp [declare, scopes, around, ScopeHistory.Conflicts, recalls.lexical, recalls.functions, recalls.vars, or_assoc]
    | function =>
      simp [declare, scopes, around, ScopeHistory.Conflicts, recalls.lexical, recalls.functionsAsVars, recalls.vars,
        or_assoc]

theorem Recalls.declare (known : Recalls h s.scopes) {n : String} {binding : Binding}
    (free : (s.declare n binding).1 = false) (first : binding = .simpleCatch → h.AtCatch) :
    Recalls (h.declare n binding) (s.declare n binding).2.scopes := by
  refine ⟨known.numbered.declare n binding, ?_⟩
  obtain ⟨scopes, around⟩ | ⟨scope, outer, t, rest, scopes, around, recalls, each⟩ := known.cases
  · cases binding <;> simp [ScopeStack.declare, scopes, around]
  have innermost : h.around.head? = some t := by simp [around]
  have notMem : t ∉ rest := (List.nodup_cons.1 (around ▸ known.numbered.nodup)).1
  have elsewhere (u : Entry) (mem : u ∈ rest) : h.around.head? ≠ some u := by
    rintro same
    rw [innermost] at same
    cases same
    exact notMem mem
  have others (aside : binding.isHoisted = false) :=
    Scope.Recalls.skip_all n binding each elsewhere fun hoisted => by simp [aside] at hoisted
  have conflict := known.declare_conflict_iff n binding
  rw [ScopeHistory.around_declare, around]
  cases binding with
  | var | none | outside =>
    rw [Bool.eq_false_iff] at free
    have passes : (Scope.hoist s.inModule n s.scopes).1 = false := by
      rw [Bool.eq_false_iff, ne_eq, Scope.hoist_conflict_iff s.inModule n known.each]
      exact fun conflicts => free (conflict.2 conflicts)
    have hoisted (b : Binding) (is : b.isHoisted = true) :=
      Scope.Recalls.hoist is s.inModule known.each known.numbered.nodup (fun _ _ => Iff.rfl) passes
    simp only [ScopeStack.declare, scopes, around] at hoisted ⊢
    split <;> exact hoisted _ rfl
  | simpleCatch =>
    obtain ⟨t', innermost', catches, made⟩ := first rfl
    cases innermost.symm.trans innermost'
    simp only [ScopeStack.declare, scopes]
    exact .cons (recalls.insertCatch innermost catches made) (others rfl)
  | lexical =>
    have unbound : n ∉ scope.lexical := by
      simp [ScopeStack.declare, scopes] at free
      exact free.1.1
    have done := List.Forall₂.cons (recalls.insertLexical innermost unbound) (others rfl)
    simp only [ScopeStack.declare, scopes]
    split
    · exact done
    · exact done
  | function =>
    simp only [ScopeStack.declare, scopes]
    exact .cons (recalls.insertFunction innermost) (others rfl)

theorem Ran.recalls (ran : Ran s h) : Recalls h s.scopes := by
  induction ran with
  | @start s flags top scopes =>
    have empty : ScopeHistory.Numbered ⟨[], [], 0⟩ := ⟨.nil, by simp, by simp⟩
    rw [scopes]
    exact ⟨empty.enter flags, .cons (.fresh empty flags) .nil⟩
  | enter flags _ ih =>
    exact ⟨ih.numbered.enter flags, .cons (.fresh ih.numbered flags) (ih.each.imp fun _ _ known => known.enter flags)⟩
  | exit _ ih =>
    have each := (List.forall₂_drop 1 ih.each).imp fun _ _ known => Scope.Recalls.exit known
    rw [List.drop_one, List.drop_one] at each
    exact ⟨ih.numbered.exit, each⟩
  | declare name binding _ free first ih => exact ih.declare free first

end ScopeStack

namespace ScopeHistory

variable {inModule : Bool} {h : ScopeHistory} {m n : String} {a b : Binding}

/-- Two declarations in one place that do not go together. -/
def Meet (inModule : Bool) (around : List Entry) (m : String) (a : Binding) (n : String) (b : Binding) : Prop :=
  m = n ∧ ∃ t, around.head? = some t ∧
    (a = .lexical ∨ b = .lexical ∨ (t.functionsAsVars inModule = false ∧ a ≠ b))

theorem Meet.symm {around : List Entry} (meet : Meet inModule around m a n b) : Meet inModule around n b m a := by
  obtain ⟨rfl, t, innermost, kinds⟩ := meet
  refine ⟨rfl, t, innermost, ?_⟩
  rcases kinds with is | is | ⟨strict, differ⟩
  · exact .inr (.inl is)
  · exact .inl is
  · exact .inr (.inr ⟨strict, differ.symm⟩)

theorem blocks_declare (plain : a ≠ .simpleCatch) {t : Entry} : (h.declare m a).Blocks inModule n t ↔
    h.Blocks inModule n t ∨ (m = n ∧ h.around.head? = some t ∧
      (a = .lexical ∨ (t.functionsAsVars inModule = false ∧ a = .function))) := by
  simp only [Blocks, CatchParam, declares_declare, plain, false_and, and_false, false_or]
  tauto

/-- A declaration made meanwhile is one more that may conflict. -/
theorem conflicts_declare (ofA : a ∈ [.lexical, .function, .var]) (ofB : b ∈ [.lexical, .function, .var]) :
    (h.declare m a).Conflicts inModule n b ↔ h.Conflicts inModule n b ∨ Meet inModule h.around m a n b := by
  have plain : a ≠ .simpleCatch := by rintro rfl; simp at ofA
  simp only [List.mem_cons, List.not_mem_nil, or_false] at ofA ofB
  cases around : h.around with
  | nil => rcases ofB with rfl | rfl | rfl <;> simp [Conflicts, Meet, around]
  | cons t rest =>
    have hoists : HoistsTo h.around t := by simp [around]
    have innermost : h.around.head? = some t := by simp [around]
    rcases ofB with rfl | rfl | rfl
    · simp only [Conflicts, Meet, declares_declare, hoists_declare, around_declare, innermost]
      rcases ofA with rfl | rfl | rfl <;> simp [Binding.isHoisted, hoists] <;> tauto
    · simp only [Conflicts, Meet, declares_declare, hoists_declare, around_declare, innermost]
      rcases ofA with rfl | rfl | rfl <;> simp [Binding.isHoisted, hoists] <;> tauto
    · have blocked : (h.declare m a).Conflicts inModule n .var ↔ h.Conflicts inModule n .var ∨
          (m = n ∧ (a = .lexical ∨ (t.functionsAsVars inModule = false ∧ a = .function))) := by
        simp only [Conflicts, blocks_declare plain, around_declare, innermost, Option.some.injEq]
        constructor
        · rintro ⟨u, reaches, blocks | ⟨same, rfl, kinds⟩⟩
          · exact .inl ⟨u, reaches, blocks⟩
          · exact .inr ⟨same, kinds⟩
        · rintro (⟨u, reaches, blocks⟩ | ⟨same, kinds⟩)
          · exact ⟨u, reaches, .inl blocks⟩
          · exact ⟨t, hoists, .inr ⟨same, rfl, kinds⟩⟩
      rw [blocked]
      rcases ofA with rfl | rfl | rfl <;> simp [Meet]

end ScopeHistory

namespace ScopeStack

variable {s : ScopeStack} {h : ScopeHistory}

/-- Two declarations, one after the other.  The first value says whether either conflicts. -/
def declareBoth (m : String) (a : Binding) (n : String) (b : Binding) (s : ScopeStack) : Bool × ScopeStack :=
  let (conflict, s) := s.declare m a
  let (conflict', s) := s.declare n b
  (conflict || conflict', s)

/-- Does a declaration made now get to a top scope? -/
def toTop (binding : Binding) (s : ScopeStack) : Bool :=
  match binding with
  | .lexical => (s.scopes.map (·.flags)).head?.any (·.top)
  | .var | .none | .outside => ((s.scopes.map (·.flags)).find? (·.holdsVars)).any (·.top)
  | .function | .simpleCatch => false

theorem hoist_atTop {inModule : Bool} {name : String} {scopes : List Scope}
    (free : (Scope.hoist inModule name scopes).1 = false) :
    (Scope.hoist inModule name scopes).2.2 = ((scopes.map (·.flags)).find? (·.holdsVars)).any (·.top) := by
  induction scopes with
  | nil => rfl
  | cons scope outer ih =>
    unfold Scope.hoist at free ⊢
    split at free
    · cases free
    · rename_i passes
      rw [if_neg passes]
      split at free <;> rename_i holds
      · simp [holds]
      · simp [holds, ih free]

/-- But for the scopes, a declaration only strikes a name off the list of missing exports. -/
theorem declare_aside {n : String} {b : Binding} (free : (s.declare n b).1 = false) :
    { (s.declare n b).2 with scopes := [] } =
      { s with
        scopes := []
        undefinedExports := s.undefinedExports.filter fun e => !(s.inModule && s.toTop b) || e.1 != n } := by
  cases scopes : s.scopes with
  | nil => cases b <;> simp [declare, toTop, scopes]
  | cons scope outer =>
    cases b with
    | lexical => cases inModule : s.inModule <;> cases top : scope.flags.top <;> simp [declare, defineExport, toTop,
        scopes, inModule, top]
    | function | simpleCatch => simp [declare, toTop, scopes]
    | var | none | outside =>
      have atTop := @hoist_atTop s.inModule n s.scopes (by simpa [declare, scopes] using free)
      simp only [declare, toTop, scopes] at atTop ⊢
      rw [atTop]
      cases s.inModule <;> cases (((scope :: outer).map (·.flags)).find? (·.holdsVars)).any (·.top) <;>
        simp [defineExport]

theorem declare_toTop (n : String) (a b : Binding) : (s.declare n a).2.toTop b = s.toTop b := by
  simp only [toTop, map_flags_declare]

@[simp] theorem declare_inModule (n : String) (b : Binding) : (s.declare n b).2.inModule = s.inModule := by
  unfold declare
  split
  · rfl
  · cases b <;> simp only
    all_goals first
      | rfl
      | (split <;> rfl)

end ScopeStack

/-- The scopes hold the same names, in whatever order their sets list them. -/
structure Scope.Alike (a b : Scope) : Prop where
  flags : a.flags = b.flags
  vars : ∀ n, n ∈ a.vars ↔ n ∈ b.vars
  lexical : ∀ n, n ∈ a.lexical ↔ n ∈ b.lexical
  functions : ∀ n, n ∈ a.functions ↔ n ∈ b.functions
  catchParam : a.catchParam = b.catchParam

structure ScopeStack.Alike (a b : ScopeStack) : Prop where
  scopes : List.Forall₂ Scope.Alike a.scopes b.scopes
  rest : { a with scopes := [] } = { b with scopes := [] }

namespace ScopeHistory

/-- The same was declared in either history, in another order. -/
def SameMade (g h : ScopeHistory) : Prop := ∀ d, d ∈ g.made ↔ d ∈ h.made

theorem SameMade.declares {g h : ScopeHistory} (same : SameMade g h) (n : String) (b : Binding) (t : Entry) :
    g.Declares n b t ↔ h.Declares n b t := exists_congr fun d => and_congr_left' (same d)

theorem SameMade.hoists {g h : ScopeHistory} (same : SameMade g h) (n : String) (t : Entry) :
    g.Hoists n t ↔ h.Hoists n t := exists_congr fun d => and_congr_left' (same d)

theorem SameMade.alike {g h : ScopeHistory} (same : SameMade g h) {around : List Entry} :
    ∀ {a b : List Scope}, List.Forall₂ (Scope.Recalls g) a around → List.Forall₂ (Scope.Recalls h) b around →
      List.Forall₂ Scope.Alike a b := by
  induction around with
  | nil =>
    rintro _ _ ⟨⟩ ⟨⟩
    exact .nil
  | cons t around ih =>
    rintro _ _ (_ | ⟨ofG, eachG⟩) (_ | ⟨ofH, eachH⟩)
    refine .cons ⟨?_, ?_, ?_, ?_, ?_⟩ (ih eachG eachH)
    · rw [ofG.flags, ofH.flags]
    · simp [ofG.vars, ofH.vars, same.hoists]
    · simp [ofG.lexical, ofH.lexical, same.declares]
    · simp [ofG.functions, ofH.functions, same.declares]
    · exact Option.ext fun n => by rw [ofG.catchParam, ofH.catchParam, same.declares]

end ScopeHistory

namespace ScopeStack

open ScopeHistory

variable {s : ScopeStack} {h : ScopeHistory} {m n : String} {a b : Binding}

theorem Ran.declareBoth_conflict_iff (ran : Ran s h) (ofA : a ∈ [.lexical, .function, .var])
    (ofB : b ∈ [.lexical, .function, .var]) : (s.declareBoth m a n b).1 = true ↔
      h.Conflicts s.inModule m a ∨ h.Conflicts s.inModule n b ∨ Meet s.inModule h.around m a n b := by
  have first := ran.recalls.declare_conflict_iff m a
  rw [declareBoth, Bool.or_eq_true_iff, first]
  by_cases conflict : h.Conflicts s.inModule m a
  · simp only [conflict, true_or]
  · have free : (s.declare m a).1 = false := by rwa [Bool.eq_false_iff, ne_eq, first]
    have plain : a = .simpleCatch → h.AtCatch := by rintro rfl; simp at ofA
    have second := (ran.declare m a free plain).recalls.declare_conflict_iff n b
    rw [declare_inModule, conflicts_declare ofA ofB] at second
    rw [second]

theorem declareBoth_aside (free : (s.declare m a).1 = false) (free' : ((s.declare m a).2.declare n b).1 = false) :
    { (s.declareBoth m a n b).2 with scopes := [] } =
      { s with
        scopes := []
        undefinedExports := s.undefinedExports.filter fun e =>
          (!(s.inModule && s.toTop a) || e.1 != m) && (!(s.inModule && s.toTop b) || e.1 != n) } := by
  have first := declare_aside free
  have second := declare_aside free'
  rw [declare_inModule, declare_toTop] at second
  simp only [ScopeStack.mk.injEq, true_and] at first
  obtain ⟨-, edition, allowAwait, allowSuper, exports⟩ := first
  rw [declareBoth, second, edition, allowAwait, allowSuper, exports, List.filter_filter]
  simp only [Bool.and_comm]

/-- What two declarations leave behind that do not conflict. -/
theorem Ran.declareBoth_alike (ran : Ran s h) (ofA : a ∈ [.lexical, .function, .var])
    (ofB : b ∈ [.lexical, .function, .var]) (free : (s.declareBoth m a n b).1 = false)
    (free' : (s.declareBoth n b m a).1 = false) : (s.declareBoth m a n b).2.Alike (s.declareBoth n b m a).2 := by
  obtain ⟨first, second⟩ := Bool.or_eq_false_iff.1 free
  obtain ⟨first', second'⟩ := Bool.or_eq_false_iff.1 free'
  have plainA : a ≠ .simpleCatch := by rintro rfl; simp at ofA
  have plainB : b ≠ .simpleCatch := by rintro rfl; simp at ofB
  have one := (ran.declare m a first (absurd · plainA)).declare n b second (absurd · plainB)
  have other := (ran.declare n b first' (absurd · plainB)).declare m a second' (absurd · plainA)
  have same : SameMade ((h.declare m a).declare n b) ((h.declare n b).declare m a) := by
    intro d
    simp only [ScopeHistory.declare, List.mem_cons]
    exact or_left_comm
  refine ⟨same.alike one.recalls.each other.recalls.each, ?_⟩
  rw [declareBoth_aside first second, declareBoth_aside first' second']
  simp only [Bool.and_comm]

/-- A declaration conflicts with those made before just as the history says; two in a row conflict in
either order or in none, and leave the same behind. -/
theorem Ran.conflicts (ran : Ran s h) :
    (∀ n b, (s.declare n b).1 = true ↔ h.Conflicts s.inModule n b) ∧
    ∀ m a n b, a ∈ [Binding.lexical, .function, .var] → b ∈ [Binding.lexical, .function, .var] →
      (s.declareBoth m a n b).1 = (s.declareBoth n b m a).1 ∧
      ((s.declareBoth m a n b).1 = false → (s.declareBoth m a n b).2.Alike (s.declareBoth n b m a).2) := by
  refine ⟨fun n b => ran.recalls.declare_conflict_iff n b, fun m a n b ofA ofB => ?_⟩
  have same : (s.declareBoth m a n b).1 = (s.declareBoth n b m a).1 := by
    rw [Bool.eq_iff_iff, ran.declareBoth_conflict_iff ofA ofB, ran.declareBoth_conflict_iff ofB ofA]
    have meet : Meet s.inModule h.around m a n b ↔ Meet s.inModule h.around n b m a := ⟨.symm, .symm⟩
    rw [meet, or_left_comm]
  exact ⟨same, fun free => ran.declareBoth_alike ofA ofB free (same ▸ free)⟩

/-- A variable in a block meets the lexical name around it. -/
theorem Ran.conflicts_var_in_block : ∃ s h, Ran s h ∧ (s.declare "x" .var).1 = true ∧ h.Conflicts false "x" .var := by
  let script : ScopeStack :=
    { scopes := [{ flags := { top := true } }], inModule := false, edition := 17, allowAwait := false,
      allowSuper := false }
  have ran := Ran.enter {} (.declare "x" .lexical (.start (s := script) rfl rfl) rfl nofun)
  have found : (((script.declare "x" .lexical).2.enter {}).declare "x" .var).1 = true := by decide
  exact ⟨_, _, ran, found, (ran.conflicts.1 "x" .var).1 found⟩

end ScopeStack
end ScriptSyntax
