import ScriptSyntax.Parser.Operator
import ScriptSyntax.Proofs.Review.Atom

/-!
Operators in the strict and in the lenient reading.  A private name before `in` makes the strict one
stop outside all class bodies.
-/

namespace ScriptSyntax

open Node ParseM Grammar

variable {s : Setting} {p : Parser} {b : Bool} {ns : List Node}

namespace Quiet

@[grind ←] theorem simpleTarget {e : Expression} : Quiet s (simpleTarget e) := by
  unfold ParseM.simpleTarget
  split <;> grind

@[grind ←] theorem checkDelete {pos : Nat} {argument : Expression} : Quiet s (checkDelete pos argument) := by
  have privateMember : Quiet s (if argument.isPrivateMember then failRecoverable pos .deletePrivate
    else Pure.pure ()) :=
    ite (of_fails .failRecoverable) pure
  unfold Grammar.checkDelete
  cases argument
  case identifier =>
    exact bind (of_looks .strict) fun _ => ite (bind (of_fails .failRecoverable) fun _ => privateMember) privateMember
  all_goals exact privateMember

end Quiet

/-! ### Targets -/

/-- The target of a compound assignment was read before. -/
theorem Tracks.simpleTarget {e : Expression} :
    Tracks s (Since s p b [.expression e]) (simpleTarget e) (simpleTarget e) fun a => Since s p b [.pattern a] := by
  unfold ParseM.simpleTarget
  split
  · exact .quiet .checkTargetName fun _ => .done (fun h => h) (.leaf rfl rfl)
  · next m => exact .done (fun h => h) (List.forall_mem_singleton.mpr (.of_isPlain rfl fun c child =>
      .of_child (m := .expression (.member m)) child rfl (.of_mem (.head _))))
  · exact .fails .failRecoverable .failRecoverable
  · exact .fails .fail .fail

namespace Grammar

theorem assignedPattern_tracks {left : Expression} :
    CoverTracks s (Since s p b [.expression left]) (assignedPattern left) (assignedPattern left)
      fun a => Since s p b [.pattern a] := by
  refine .look .targetRules fun rules => ?_
  have reads : CoverTracks s (Since s p b [.expression left])
      (liftM (ofExcept (left.toPattern rules)) : CoverM Pattern) (liftM (ofExcept (left.toPattern rules)))
      fun a => Since s p b [.pattern a] := by
    refine .lift ?_
    rw [← bind_pure (ofExcept (left.toPattern rules))]
    refine .ofExcept fun a read => .done (fun h => h) ?_
    exact List.forall_mem_singleton.mpr (covering.of_toPattern read)
  refine .ite (fun _ => .defer (fun d => ⟨_, rfl⟩) fun d => ?_) fun _ => reads
  cases d with
  | none => exact reads
  | some => exact .quiet .check fun _ => reads

/-- The operands of a join were read before. -/
theorem join_tracks (ns : List Node) {start : NodeStart} {operator : TokenKind} {left right : Expression} :
    Tracks s (Since s p b (ns ++ [.expression left, .expression right])) (join start operator left right)
      (join start operator left right) fun e => Since s p b (ns ++ [.expression e]) := by
  have joined {e : Expression} (plain : (Node.expression e).isPlain = true)
      (same : (Node.expression e).children = [.expression left, .expression right]) :
      ∀ n ∈ ns ++ [.expression e], n.Covered (ns ++ [.expression left, .expression right]) := by
    refine List.forall_mem_append.mpr ⟨fun n mem => .of_mem (by simp [mem]), .node plain ?_⟩
    simp [same]
  cases right with
  | privateIdentifier => exact .fails (by grind [join]) (by grind [join])
  | _ =>
    refine .look .finishSpan fun _ => ?_
    split
    · exact .done (fun h => h) (joined rfl rfl)
    · exact .done (fun h => h) (joined rfl rfl)
    · exact .fails .unexpectedAt .unexpectedAt

end Grammar

/-! ### Private operands -/

/-- A use where the reading began is the first one in the log. -/
theorem Log.Placed.head?_eq {log : Log} {start stop : Nat} {name : String} (h : log.Placed start stop)
    (mem : (name, start) ∈ log.uses) : log.uses.head? = some (name, start) := by
  obtain ⟨within, -, sorted⟩ := h
  cases uses : log.uses with
  | nil => simp [uses] at mem
  | cons first rest =>
    rw [uses] at mem within sorted
    rcases List.mem_cons.mp mem with rfl | later
    · rfl
    · exact absurd ((List.pairwise_cons.mp sorted).1 _ later) (Nat.not_lt.mpr (within first (.head _)).1)

/-- Outside all class bodies the strict reading stops at once, and the lenient one goes on past a use. -/
theorem Tracks.stops {α : Type} {m₀ m₁ : ParseM α} {R : α → Parser → Log → Prop} (outside : p.depth = 1)
    (stop : ∃ r, m₀ s p.bare = .error (s.fatal p.lexer.token.start .unexpectedToken) r)
    (goes : Tracks s (At p) m₁ m₁ R)
    (use : ∀ a q log, R a q log → ∃ name, log.uses.head? = some (name, p.lexer.token.start)) :
    Tracks s (At p) m₀ m₁ R := by
  rintro q _ ⟨rfl, rfl⟩
  have goes := goes q {} ⟨rfl, rfl⟩
  obtain ⟨r, stop⟩ := stop
  rw [stop]
  split
  · exact ⟨_, _, rfl⟩
  · next a q' run =>
    simp only [run] at goes
    obtain ⟨new, depth, holds, -⟩ := goes
    obtain ⟨name, first⟩ := use a q' _ holds
    exact ⟨new, depth, holds, .stops (.use outside name (.inr rfl) first)⟩

/-- A private name and then `in`. -/
def Grammar.privateBeforeIn : ParseM Expression := do
  let id ← privateIdentifier
  unless ← isKind .kwIn do unexpected
  return .privateIdentifier id

theorem Grammar.privateBeforeIn_adds :
    Adds s false privateBeforeIn privateBeforeIn fun e => [.expression e] :=
  .of fun _ => .adds .privateIdentifier fun _ => .look .isKind fun _ => .unless (.of_fails .unexpected) <|
    .done (by simp) fun _ mem => .of_mem mem

theorem Runs.privateBeforeIn_use {e : Expression} {q : Parser} (run : Runs s privateBeforeIn p e q) :
    ∃ id, e = .privateIdentifier id ∧ id.span.start = p.lexer.token.start := by
  simp [privateBeforeIn, privateIdentifier] at run
  obtain ⟨id, ⟨-, r, -, ⟨-, -, rfl, -⟩ | ⟨-, rfl, -⟩⟩, -, rfl⟩ := run
  · exact ⟨_, rfl, rfl⟩
  · exact ⟨_, rfl, rfl⟩

/-- The use of a private name with which a reading began is the first in its log. -/
theorem Since.head?_uses {q : Parser} {log : Log} {id : PrivateIdentifier}
    (h : Since s p b [.expression (.privateIdentifier id)] q log) (here : id.span.start = p.lexer.token.start)
    (check : s.options.checkPrivateFields = true) : log.uses.head? = some (id.name, p.lexer.token.start) := by
  have admits := h.2.marks _ (.head _) _ (.use id)
  exact h.2.placed.head?_eq (here ▸ admits.2 check)

theorem Grammar.privateOperand_adds {init : InitMode} :
    Adds s false (privateOperand init) (privateOperand init) fun e => [.expression e] := by
  refine fun p ready => .seesAt (.lookFor .options (V := (· = s.options)) (by simp) ?_)
  rintro _ rfl
  have goes := privateBeforeIn_adds p ready
  have enclosed : p.privateNames.isEmpty = false := by
    simpa [PrivateNames.isEmpty] using List.ne_nil_of_length_pos ready.enclosed
  have stop : ∃ r, (do
      unexpected
      privateBeforeIn : ParseM Expression) s p.bare =
        .error (s.fatal p.lexer.token.start .unexpectedToken) r := ⟨_, rfl⟩
  have refused : Fails s (do
      unexpected
      privateBeforeIn : ParseM Expression) := by grind
  rw [enclosed, Bool.or_false]
  by_cases refuses : (init != .plain && s.options.checkPrivateFields) = true
  · have refuses' : ((init != .plain || p.bare.privateNames.isEmpty) && s.options.checkPrivateFields) = true := by
      simp_all
    rw [if_pos refuses, if_pos refuses']
    exact .fails refused refused
  · rw [if_neg refuses]
    by_cases refuses' : ((init != .plain || p.bare.privateNames.isEmpty) && s.options.checkPrivateFields) = true
    · rw [if_pos refuses']
      have check : s.options.checkPrivateFields = true := (Bool.and_eq_true_iff.mp refuses').2
      have outside : p.depth = 1 := by
        have empty : p.bare.privateNames.isEmpty = true := by simp_all
        have none : p.privateNames.classes.length - 1 = 0 := by
          simpa [PrivateNames.isEmpty, Parser.bare, ← List.length_eq_zero_iff] using empty
        have one := ready.enclosed
        simp only [Parser.depth] at one ⊢
        omega
      refine .weaken (.stops outside stop (.having (V := fun e => ∃ id, e = .privateIdentifier id ∧
        id.span.start = p.lexer.token.start) goes ?_) ?_) fun _ _ _ after => after.2
      · rintro _ _ ⟨rfl, -⟩ e q run
        exact Runs.privateBeforeIn_use run
      · rintro _ q log ⟨⟨id, rfl, here⟩, after⟩
        exact ⟨_, after.head?_uses here check⟩
    · rw [if_neg refuses']
      exact goes

namespace Grammar.Reviewed

variable {g₀ g₁ : Grammar} (hg : g₀.Reviewed s g₁)
include hg

/-! ### Unary operators -/

theorem plainUnary {afterUnary inUpdate : Bool} {init : InitMode} :
    Adds s false (g₀.plainUnary afterUnary inUpdate init) (g₁.plainUnary afterUnary inUpdate init)
      fun e => [.expression e] := (hg.unary afterUnary inUpdate init).alone

theorem awaitExpression {init : InitMode} :
    Adds s false (g₀.awaitExpression init) (g₁.awaitExpression init) fun e => [.expression e] :=
  .of fun _ => .look .startNode fun _ =>
    .quiet (.modify (fun _ => rfl) (fun _ => rfl) (fun _ => rfl) fun _ => .refl) fun _ =>
    .quiet .next fun _ => .adds hg.plainUnary fun _ => .look .finishSpan fun _ =>
      .done (by simp) (.node rfl (by simp [children, Expression.children]))

theorem prefixUpdate {operator : UpdateOperator} {init : InitMode} :
    CoverAdds s false (g₀.prefixUpdate operator init) (g₁.prefixUpdate operator init) fun e => [.expression e] :=
  .of fun _ => .look .startNode fun _ => .quiet .next fun _ => .liftAdds hg.plainUnary fun _ =>
    .coverQuiet .checkExpression fun _ =>
    .quiet .simpleTarget fun _ => .look .finishSpan fun _ =>
      .done (by simp) (.node rfl (by simp [children, Expression.children]))

theorem unaryExpression {operator : UnaryOperator} {init : InitMode} :
    CoverAdds s false (g₀.unaryExpression operator init) (g₁.unaryExpression operator init)
      fun e => [.expression e] :=
  .of fun _ => .look .startNode fun _ => .quiet .next fun _ => .liftAdds hg.plainUnary fun _ =>
    .coverQuiet .checkExpression fun _ =>
    .when (by grind) <| .look .finishSpan fun _ => .done (by simp) (.node rfl (by simp [children, Expression.children]))

omit hg in
theorem postfixUpdates {start : NodeStart} {operand : Expression} :
    Tracks s (Since s p b [.expression operand]) (postfixUpdates start operand) (postfixUpdates start operand)
      fun e => Since s p b [.expression e] := by
  refine .repeatPast (a := operand) (I := fun (e : Expression) => Since s p b [.expression e]) fun e => ?_
  refine .look .kind fun _ => .look .canOmitSemicolon fun _ => ?_
  split
  · refine .quiet .simpleTarget fun _ => .quiet .next fun _ => .look .finishSpan fun _ => .pure fun _ _ before => ?_
    exact before.weaken (fun h => h) (.node rfl (by simp [children, Expression.children]))
  · exact .pure fun _ _ => id

theorem power {start : NodeStart} {base : Expression} {afterUnary inUpdate : Bool} {init : InitMode} :
    Tracks s (Since s p b [.expression base]) (g₀.power start base afterUnary inUpdate init)
      (g₁.power start base afterUnary inUpdate init) fun e => Since s p b [.expression e] :=
  .look .isKind fun _ => .ite (fun _ => .when (.of_fails .unexpected) <| .quiet .next fun _ =>
    .adds hg.plainUnary fun _ =>
    .strengthen (join_tracks []) fun _ _ before => before.weaken (by simp) fun _ mem => .of_mem (by simpa using mem))
      fun _ => .done (fun h => h) fun _ mem => .of_mem mem

theorem unaryLevel {afterUnary inUpdate : Bool} {init : InitMode} :
    CoverAdds s false (g₀.unaryLevel afterUnary inUpdate init) (g₁.unaryLevel afterUnary inUpdate init)
      fun e => [.expression e] := by
  refine .of fun p => .look .startNode fun _ => .look .kind fun _ => .look .isContextual fun _ => .look .scopes fun _ =>
    .ite (fun _ => .liftAdds hg.awaitExpression fun _ => .lift hg.power) fun _ => ?_
  split
  · exact .adds hg.prefixUpdate fun _ => .lift hg.power
  · exact .adds hg.unaryExpression fun _ => .lift hg.power
  · refine .ite (fun _ => .liftAdds privateOperand_adds fun _ => .lift hg.power) fun _ => ?_
    refine .adds hg.subscripted fun _ => .coverQuiet .mustBePattern fun _ =>
      .ite (fun _ => .done (fun h => h) fun _ mem => .of_mem mem)
      fun _ => .bind (.lift postfixUpdates) fun _ => .lift hg.power

/-! ### Binary operators -/

/-- The left operand was read before. -/
theorem binary {init : InitMode} {height : Nat} :
    ∀ (ns : List Node) {loosest : Nat} {start : NodeStart} {left : Expression},
    Tracks s (Since s p b (ns ++ [.expression left])) (g₀.binary init height loosest start left)
      (g₁.binary init height loosest start left) fun e => Since s p b (ns ++ [.expression e]) := by
  induction height with
  | zero => exact fun _ => .pure fun _ _ => id
  | succ height ih =>
    intro ns loosest start left
    refine .repeatPast (a := left) (I := fun (e : Expression) => Since s p b (ns ++ [.expression e])) fun left => ?_
    refine .look .tighterOperator? fun tighter => ?_
    split
    · exact .pure fun _ _ => id
    · refine .quiet .next fun _ => .look .startNode fun _ => .adds hg.plainUnary fun operand => ?_
      refine .bind (.strengthen (ih (ns ++ [.expression left])) fun _ _ before => ?_) fun right =>
        .bind (.strengthen (join_tracks ns) fun _ _ before => ?_) fun e => .look .kind fun _ =>
          .ite (fun _ => .fails (.after fun _ => .bind .failRecoverable) (.after fun _ => .bind .failRecoverable))
            fun _ => .pure fun _ _ => id
      · simpa using before
      · simpa using before

theorem operators {init : InitMode} :
    CoverAdds s false (g₀.operators init) (g₁.operators init) fun e => [.expression e] := by
  refine .of fun _ => .look .startNode fun _ => .adds (hg.unary false false init) fun e =>
    .coverQuiet .mustBePattern fun _ =>
    .ite (fun _ => .done (fun h => h) fun _ mem => .of_mem mem) fun _ => .lift (hg.binary [])

/-! ### Conditions, `yield` and assignments -/

theorem conditional {init : InitMode} :
    CoverAdds s false (g₀.conditional init) (g₁.conditional init) fun e => [.expression e] := by
  refine .of fun _ => .look .startNode fun _ => .adds hg.operators fun test => .coverQuiet .mustBePattern fun _ =>
    .ite (fun _ => .done (fun h => h) fun _ mem => .of_mem mem) fun _ => .quiet .eat fun _ => .ite (fun _ => ?_)
      fun _ => .done (fun h => h) fun _ mem => .of_mem mem
  exact .liftAdds hg.plainAssignment fun _ => .quiet .expect fun _ => .liftAdds hg.plainAssignment fun _ =>
    .look .finishSpan fun _ => .done (by simp) (.node rfl (by simp [children, Expression.children]))

theorem yieldExpression {init : InitMode} :
    Adds s false (g₀.yieldExpression init) (g₁.yieldExpression init) fun e => [.expression e] := by
  refine .of fun _ => .look .startNode fun _ =>
    .quiet (.modify (fun _ => rfl) (fun _ => rfl) (fun _ => rfl) fun _ => .refl) fun _ => .quiet .next fun _ =>
      .look .kind fun _ => .look .canOmitSemicolon fun _ => .ite (fun _ => ?_) fun _ => ?_
  · exact .look .finishSpan fun _ => .done (fun h => h) (.leaf rfl rfl)
  · exact .quiet .eat fun _ => .adds hg.plainAssignment fun _ => .look .finishSpan fun _ =>
      .done (by simp) (.node rfl (by simp [children, Expression.children]))

/-- The left side was read before. -/
theorem assignmentTo {start : NodeStart} {operator : AssignmentOperator} {left : Expression} {old : Deferred}
    {init : InitMode} : CoverTracks s (Since s p b [.expression left])
      (g₀.assignmentTo start operator left old init) (g₁.assignmentTo start operator left old init)
      fun e => Since s p b [.expression e] := by
  have rest (target : Pattern) {w : CoverM PUnit} (quiet : CoverQuiet s w) :
      CoverTracks s (Since s p b [.pattern target])
      (do
        w
        if operator = .assign then checkPattern .none target
        next
        let value ← g₀.plainAssignment init
        CoverM.amend fun d => { d with secondProto := old.secondProto.or d.secondProto }
        return .assignment (← finishSpan start) operator target value)
      (do
        w
        if operator = .assign then checkPattern .none target
        next
        let value ← g₁.plainAssignment init
        CoverM.amend fun d => { d with secondProto := old.secondProto.or d.secondProto }
        return .assignment (← finishSpan start) operator target value)
      fun e => Since s p b [.expression e] :=
    .coverQuiet quiet fun _ => .when (by grind) <| .quiet .next fun _ => .liftAdds hg.plainAssignment fun _ =>
      .coverQuiet (by grind) fun _ => .look .finishSpan fun _ =>
        .done (by simp) (.node rfl (by simp [children, Expression.children]))
  unfold Grammar.assignmentTo
  refine .ite (fun assign => ?_) fun _ => ?_
  · exact assignedPattern_tracks.bind fun target => rest target (by grind)
  · exact .bind (.lift .simpleTarget) fun target => rest target (by grind)

theorem assignmentOrTighter {init : InitMode} :
    CoverAdds s false (g₀.assignmentOrTighter init) (g₁.assignmentOrTighter init) fun e => [.expression e] := by
  refine .of fun p => .defer (fun d => ⟨_, rfl⟩) fun outer => .coverQuiet (by grind) fun _ => .look .startNode fun _ =>
    .look .isKind fun _ => .look .isKind fun _ => .when (.modifyThe ?_) <| .adds hg.conditional fun left => ?_
  · exact .modify (fun _ => rfl) (fun _ => rfl) (fun _ => rfl) fun _ => .refl
  · have ends {ns : List Node} {e : Expression} (covered : (Node.expression e).Covered ns) :
        CoverTracks s (Since s p false ns)
          (do
            if outer.isNone then set (none : Option Deferred)
            return e : CoverM Expression)
          (do
            if outer.isNone then set (none : Option Deferred)
            return e : CoverM Expression) fun e => Since s p false [.expression e] :=
      .when (by grind) <| .done (fun h => h) (List.forall_mem_singleton.mpr covered)
    refine .look .kind fun kind => ?_
    cases AssignmentOperator.ofToken? kind with
    | some operator => exact hg.assignmentTo.bind fun e => ends (.of_mem (.head _))
    | none =>
      refine .when .checkExpression <| .coverQuiet (by grind) fun _ => ?_
      simp only [pure_bind]
      exact ends (.of_mem (.head _))

theorem assignmentLevel {init : InitMode} :
    CoverAdds s false (g₀.assignmentLevel init) (g₁.assignmentLevel init) fun e => [.expression e] := by
  refine .of fun p => .look .isContextual fun _ => .ite (fun _ => .look .scopes fun _ => .ite (fun _ => ?_) fun _ => ?_)
    fun _ => hg.assignmentOrTighter.since
  · exact .lift hg.yieldExpression.since
  · refine .coverQuiet (.modifyThe (.modify (fun _ => rfl) (fun _ => rfl) (fun _ => rfl) fun _ => ?_)) fun _ =>
      hg.assignmentOrTighter.since
    exact .of_sameToken ((Cursor.SameToken.refl _).allow _)

end Grammar.Reviewed
end ScriptSyntax
