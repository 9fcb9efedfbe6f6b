import ScriptSyntax.Proofs.Lexer.Token
import ScriptSyntax.Proofs.Parser.Step
import ScriptSyntax.Proofs.Tree.Target

/-!
What a step of the parser reads: nodes that lie one after the other between the tokens where it starts
and ends, and that keep all tokens with a node of their own.
-/

namespace ScriptSyntax

/-- The nodes `ns` were read from the lexer `l` to the lexer `l'`, at least a token of them if `moved`
says so, and the faults `d` are put off in them. -/
structure Stretch (s : Setting) (d : Option Deferred) (l l' : Lexer) (moved : Bool) (ns : List Node) :
    Prop where
  ordered : l'.Ordered s.source
  token_le : l.token.start ≤ l'.token.start
  last_le : l.last.start ≤ l'.last.start
  stop_le : l.last.stop ≤ l'.last.stop
  past : moved = true → l.token.start ≤ l'.last.start
  placed : ∀ n ∈ ns, l.token.start ≤ n.span.start ∧ n.span.stop ≤ l'.last.stop
  apart : ns.Pairwise fun a b => a.span.stop ≤ b.span.start
  sound : ∀ n ∈ ns, n.Sound s.edition d
  tokens : ∃ new, l'.tokens = new ++ l.tokens ∧ ∀ t ∈ new, t.kind.isTracked = true →
    (l.token.start ≤ t.start ∧ t.stop ≤ l'.last.stop) ∧ ∃ n ∈ ns, n.Keeps t
  accounted : ∀ {start : Nat}, l.Accounted s.source start → l'.Accounted s.source start

/-- From a lexer in order, and without a reader of tokens from outside, a stretch of nodes is read. -/
def Reads (s : Setting) (d : Option Deferred) (l l' : Lexer) (moved : Bool) (ns : List Node) : Prop :=
  s.reader = none → l.Ordered s.source → Stretch s d l l' moved ns

variable {s : Setting} {d d' : Option Deferred} {l m l' : Lexer} {b c : Bool} {n : Node}
  {ns ms : List Node}

namespace Stretch

theorem refl (ordered : l.Ordered s.source) : Stretch s d l l false [] where
  ordered := ordered
  token_le := Nat.le_refl _
  last_le := Nat.le_refl _
  stop_le := Nat.le_refl _
  past := nofun
  placed := by simp
  apart := .nil
  sound := by simp
  tokens := ⟨[], rfl, by simp⟩
  accounted := id

theorem trans (first : Stretch s d l m b ns) (second : Stretch s d m l' c ms) :
    Stretch s d l l' (b || c) (ns ++ ms) where
  ordered := second.ordered
  token_le := Nat.le_trans first.token_le second.token_le
  last_le := Nat.le_trans first.last_le second.last_le
  stop_le := Nat.le_trans first.stop_le second.stop_le
  past moved := by
    cases b with
    | true => exact Nat.le_trans (first.past rfl) second.last_le
    | false => exact Nat.le_trans first.token_le (second.past moved)
  placed n mem := by
    rcases List.mem_append.mp mem with mem | mem
    · exact ⟨(first.placed n mem).1, Nat.le_trans (first.placed n mem).2 second.stop_le⟩
    · exact ⟨Nat.le_trans first.token_le (second.placed n mem).1, (second.placed n mem).2⟩
  apart := List.pairwise_append.mpr ⟨first.apart, second.apart, fun n mem n' mem' =>
    Nat.le_trans (first.placed n mem).2
      (Nat.le_trans first.ordered.last_le_token (second.placed n' mem').1)⟩
  sound n mem := (List.mem_append.mp mem).elim (first.sound n) (second.sound n)
  tokens := by
    obtain ⟨new, same, kept⟩ := first.tokens
    obtain ⟨new', same', kept'⟩ := second.tokens
    refine ⟨new' ++ new, by rw [same', same, List.append_assoc], fun t mem tracked => ?_⟩
    rcases List.mem_append.mp mem with mem | mem
    · obtain ⟨place, n, mem, keeps⟩ := kept' t mem tracked
      exact ⟨⟨Nat.le_trans first.token_le place.1, place.2⟩, n, List.mem_append_right _ mem, keeps⟩
    · obtain ⟨place, n, mem, keeps⟩ := kept t mem tracked
      exact ⟨⟨place.1, Nat.le_trans place.2 second.stop_le⟩, n, List.mem_append_left _ mem, keeps⟩
  accounted before := second.accounted (first.accounted before)

theorem mono (h : Stretch s d l l' b ns)
    (grows : d.any (·.mustBePattern) = true → d'.any (·.mustBePattern) = true) :
    Stretch s d' l l' b ns :=
  { h with sound := fun n mem => (h.sound n mem).mono grows }

theorem of_none (h : Stretch s none l l' b ns) : Stretch s d l l' b ns := h.mono (by simp)

/-- If no pattern is needed, no faults are put off. -/
theorem settled (h : Stretch s d l l' b ns) (settled : d.any (·.mustBePattern) = false) :
    Stretch s none l l' b ns := h.mono (by simp [settled])

/-- Nodes that take the places of others. -/
theorem replace (h : Stretch s d l l' b ns)
    (related : List.Forall₂ (fun n m => m.span = n.span ∧ (n.Sound s.edition d → m.Sound s.edition d') ∧
      ∀ t, n.Keeps t → m.Keeps t) ns ms) : Stretch s d' l l' b ms where
  ordered := h.ordered
  token_le := h.token_le
  last_le := h.last_le
  stop_le := h.stop_le
  past := h.past
  placed m mem := by
    obtain ⟨n, mem, span, -⟩ := Node.exists_left_of_forall₂ related mem
    exact span ▸ h.placed n mem
  apart := Node.pairwise_of_forall₂ related h.apart fun first second apart =>
    first.1 ▸ second.1 ▸ apart
  sound m mem := by
    obtain ⟨n, mem, -, sound, -⟩ := Node.exists_left_of_forall₂ related mem
    exact sound (h.sound n mem)
  tokens := by
    obtain ⟨new, same, kept⟩ := h.tokens
    refine ⟨new, same, fun t mem tracked => ?_⟩
    obtain ⟨place, n, mem, kept⟩ := kept t mem tracked
    obtain ⟨m, mem, -, -, keeps⟩ := Node.exists_right_of_forall₂ related mem
    exact ⟨place, m, mem, keeps t kept⟩
  accounted := h.accounted

/-- The nodes read become one node. -/
theorem into (h : Stretch s d l l' b ns)
    (placed : l.token.start ≤ n.span.start ∧ n.span.stop ≤ l'.last.stop)
    (sound : n.Sound s.edition d') (keeps : ∀ t, ∀ m ∈ ns, m.Keeps t → n.Keeps t) :
    Stretch s d' l l' b [n] where
  ordered := h.ordered
  token_le := h.token_le
  last_le := h.last_le
  stop_le := h.stop_le
  past := h.past
  placed := by simpa using placed
  apart := List.pairwise_singleton _ _
  sound := by simpa using sound
  tokens := by
    obtain ⟨new, same, kept⟩ := h.tokens
    refine ⟨new, same, fun t mem tracked => ?_⟩
    obtain ⟨place, m, mem, kept⟩ := kept t mem tracked
    exact ⟨place, n, .head _, keeps t m mem kept⟩
  accounted := h.accounted

/-- The children of a node are nested in it if they lie where nodes were read. -/
theorem nested (h : Stretch s d l l' true ns) (spans : n.children.map Node.span = ns.map Node.span)
    (start : n.span.start ≤ l.token.start) (stop : n.span.stop = l'.last.stop) : n.Nested where
  start_le := by
    rw [stop]
    exact Nat.le_trans start (Nat.le_trans (h.past rfl) h.ordered.last_le)
  contains c child := by
    have mem : c.span ∈ ns.map Node.span := spans ▸ List.mem_map_of_mem child
    obtain ⟨m, mem, same⟩ := List.mem_map.mp mem
    obtain ⟨after, before⟩ := h.placed m mem
    simpa [Span.contains, stop, ← same] using ⟨Nat.le_trans start after, before⟩
  apart := by
    have apart : (ns.map Node.span).Pairwise fun a b => a.stop ≤ b.start :=
      List.pairwise_map.mpr h.apart
    rw [← spans] at apart
    exact (List.pairwise_map.mp apart).imp .inl

/-- The nodes read are the children of a node, which may put off the faults exposed in it. -/
theorem cover (h : Stretch s d l l' true ns) (children : n.children = ns)
    (closed : ∀ c ∈ n.closed, c.Sound s.edition none) (start : n.span.start = l.token.start)
    (stop : n.span.stop = l'.last.stop) (regular : n.Regular s.edition d) :
    Stretch s d l l' true [n] := by
  subst children
  refine h.into ⟨Nat.le_of_eq start.symm, Nat.le_of_eq stop⟩ ?_ fun t m child keeps =>
    keeps.of_within (.of_child child)
  refine .of_children (h.nested rfl (Nat.le_of_eq start) stop) regular ?_ h.sound
  exact .parts (fun c part => (h.sound c (Node.exposed_subset part)).pending)
    fun c other => (closed c other).allSettled

end Stretch

namespace Reads

theorem refl : Reads s d l l false [] := fun _ ordered => .refl ordered

theorem trans (first : Reads s d l m b ns) (second : Reads s d m l' c ms) :
    Reads s d l l' (b || c) (ns ++ ms) := fun plain ordered =>
  (first plain ordered).trans (second plain (first plain ordered).ordered)

theorem weaken (h : Reads s d l l' b ns) : Reads s d l l' false ns := fun plain ordered =>
  { h plain ordered with past := nofun }

/-- What puts off no faults may stand among what does. -/
theorem of_none (h : Reads s none l l' b ns) : Reads s d l l' b ns := fun plain ordered => (h plain ordered).of_none

/-! ### Tokens -/

/-- What is at the cursor stays the same, a keyword that turns out to be a name aside. -/
theorem still (token : l'.token = l.token) (last : l'.last = l.last) (tokens : l'.tokens = l.tokens)
    (comments : l'.comments = l.comments) (pos : l'.pos = l.pos)
    (kind : l'.kind = l.kind ∨ l'.kind = .name) : Reads s none l l' false [] :=
  fun _ ordered =>
    { ordered :=
        { last_le := last ▸ ordered.last_le
          last_le_token := last ▸ token ▸ ordered.last_le_token
          token_le := token ▸ ordered.token_le
          token_le_pos := token ▸ pos ▸ ordered.token_le_pos
          pos_le := pos ▸ ordered.pos_le
          eof := by
            rcases kind with same | name
            · rw [same, token]
              exact ordered.eof
            · simp [name]
          nonempty := by
            rcases kind with same | name
            · rw [same, token]
              exact ordered.nonempty
            · rw [name]
              exact nofun }
      token_le := Nat.le_of_eq (congrArg _ token.symm)
      last_le := Nat.le_of_eq (congrArg _ last.symm)
      stop_le := Nat.le_of_eq (congrArg _ last.symm)
      past := nofun
      placed := by simp
      apart := .nil
      sound := by simp
      tokens := ⟨[], tokens, by simp⟩
      accounted := fun ⟨account, stop⟩ => ⟨by rwa [tokens, comments, token], by rw [token, pos, stop]⟩ }

theorem of_sameToken {c : Cursor} (same : l.SameToken c) :
    Reads s none l { l with toCursor := c } false [] := by
  obtain ⟨_, _, rfl⟩ := same
  exact still rfl rfl rfl rfl rfl (.inl rfl)

theorem strict (strict : Bool) : Reads s none l { l with strict } false [] :=
  still rfl rfl rfl rfl rfl (.inl rfl)

/-- A token is moved past that lies in the nodes `ns`, if it has a node of its own. -/
theorem lexNext {l' : Lexer} {u : Unit} (run : Runs s LexM.next l u l')
    (placed : ∀ n ∈ ns, l.token.start ≤ n.span.start ∧ n.span.stop ≤ l.token.stop)
    (apart : ns.Pairwise fun a b => a.span.stop ≤ b.span.start)
    (sound : l.Ordered s.source → ∀ n ∈ ns, n.Sound s.edition d)
    (kept : l.kind.isTracked = true → ∃ n ∈ ns, n.Keeps (s.currentToken l.toCursor)) :
    Reads s d l l' true ns := by
  intro plain ordered
  obtain ⟨ordered', last, tokens, accounted⟩ := next_spec plain ordered run
  have start_le := Nat.le_trans ordered.last_le ordered.last_le_token
  refine
    { ordered := ordered'
      token_le := ?_
      last_le := last ▸ start_le
      stop_le := last ▸ Nat.le_trans ordered.last_le_token ordered.token_le
      past := fun _ => Nat.le_of_eq (congrArg _ last.symm)
      placed := by rwa [last]
      apart := apart
      sound := sound ordered
      tokens := ⟨[s.currentToken l.toCursor], tokens, fun t mem tracked => ?_⟩
      accounted := accounted }
  · exact Nat.le_trans ordered.token_le (last ▸ ordered'.last_le_token)
  · obtain rfl := List.mem_singleton.mp mem
    rw [last]
    exact ⟨⟨Nat.le_refl _, Nat.le_refl _⟩, kept tracked⟩

variable {p q : Parser}

/-- A word or a mark is moved past. -/
theorem nextWord {u : Unit} {kind : TokenKind} (run : Runs s ParseM.nextAfterWord p u q)
    (here : p.lexer.kind = kind) (untracked : kind.isTracked = false) :
    Reads s none p.lexer q.lexer true [] := by
  obtain ⟨l', step, rfl⟩ := Runs.ofLexer_iff.mp run
  exact lexNext step (by simp) .nil (by simp) (by simp [here, untracked])

theorem next {u : Unit} {kind : TokenKind} (run : Runs s ParseM.next p u q)
    (here : p.lexer.kind = kind) (untracked : kind.isTracked = false) :
    Reads s none p.lexer q.lexer true [] :=
  nextWord (Runs.afterWord_of_next run) here untracked

/-- A solid token is not empty. -/
theorem next_nonempty {u : Unit} (run : Runs s ParseM.next p u q)
    (here : p.lexer.kind.isSolid = true) (plain : s.reader = none)
    (ordered : p.lexer.Ordered s.source) : p.lexer.token.start < q.lexer.token.start := by
  obtain ⟨l', step, rfl⟩ := Runs.ofLexer_iff.mp (Runs.afterWord_of_next run)
  obtain ⟨ordered', last, -⟩ := next_spec plain ordered step
  have stop_le : p.lexer.token.stop ≤ l'.token.start := last ▸ ordered'.last_le_token
  exact Nat.lt_of_lt_of_le (ordered.nonempty here) stop_le

/-- A token is moved past that gives a node of its own. -/
theorem leaf {u : Unit} (run : Runs s ParseM.next p u q) (leaf : n.isTokenLeaf = true)
    (start : n.span.start = p.lexer.token.start) (stop : n.span.stop = q.lexer.last.stop) :
    Reads s none p.lexer q.lexer true [n] := by
  intro plain ordered
  obtain ⟨l', step, rfl⟩ := Runs.ofLexer_iff.mp (Runs.afterWord_of_next run)
  replace stop : n.span.stop = p.lexer.token.stop := by rw [stop, (next_spec plain ordered step).2.1]
  have bare : n.children = [] ∧ n.Regular s.edition none := by
    cases n with
    | expression e => cases e <;> first | exact ⟨rfl, trivial⟩ | cases leaf
    | literal | templateElement => exact ⟨rfl, trivial⟩
    | _ => cases leaf
  have start_le : n.span.start ≤ n.span.stop := by
    rw [start, stop]
    exact ordered.token_le
  refine lexNext step (by simp [start, stop]) (List.pairwise_singleton _ _) (fun _ => ?_)
    (fun _ => ⟨n, .head _, n, .refl, .inl ⟨leaf, start, stop⟩⟩) plain ordered
  simpa using Node.Sound.of_childless bare.1 start_le bare.2

/-! ### Nodes -/

/-- The nodes read are the children of a node that puts off no faults. -/
theorem node (h : Reads s none l l' true ns) (children : n.children = ns)
    (start : n.span.start = l.token.start) (stop : n.span.stop = l'.last.stop)
    (regular : n.Regular s.edition none) : Reads s none l l' true [n] := by
  subst children
  intro plain ordered
  have read := h plain ordered
  exact read.into ⟨Nat.le_of_eq start.symm, Nat.le_of_eq stop⟩
    (Node.Sound.of_settled_children (read.nested rfl (Nat.le_of_eq start) stop) regular read.sound)
    fun t m child keeps => keeps.of_within (.of_child child)

/-- The nodes read are the children of a node, and only those in `ns` put off faults. -/
theorem cover (first : Reads s d l m b ns) (second : Reads s none m l' c ms)
    (moved : (b || c) = true) (children : n.children = ns ++ ms) (closed : n.closed ⊆ ms)
    (start : n.span.start = l.token.start) (stop : n.span.stop = l'.last.stop)
    (regular : n.Regular s.edition d) : Reads s d l l' true [n] := by
  intro plain ordered
  have read := (first.trans second.of_none) plain ordered
  rw [moved] at read
  have settled := second plain (first plain ordered).ordered
  exact read.cover children (fun c other => settled.sound c (closed other)) start stop regular

/-- A name of which nothing is kept. -/
theorem forget (h : Reads s d l l' b [n]) (name : n.isName = true) : Reads s none l l' b [] := by
  intro plain ordered
  have read := h plain ordered
  refine { read with placed := by simp, apart := .nil, sound := by simp, tokens := ?_ }
  obtain ⟨new, same, kept⟩ := read.tokens
  refine ⟨new, same, fun t mem tracked => ?_⟩
  obtain ⟨-, m, single, keeps⟩ := kept t mem tracked
  obtain rfl := List.mem_singleton.mp single
  exact (Node.not_keeps_of_isName name keeps).elim

/-- A node that stands for a name in another place. -/
theorem rename {n' : Node} (h : Reads s d l l' b [n]) (name : n.isName = true) (name' : n'.isName = true)
    (span : n'.span = n.span) : Reads s none l l' b [n'] := by
  intro plain ordered
  have read := h plain ordered
  have nested := (read.sound n (.head _)).nested n .refl
  refine read.into ?_ (.of_isName name' ?_) fun t m mem keeps => ?_
  · exact span ▸ read.placed n (.head _)
  · exact span ▸ nested.start_le
  · obtain rfl := List.mem_singleton.mp mem
    exact (Node.not_keeps_of_isName name keeps).elim

/-- The last word read turns out to be a name. -/
theorem lastWord (h : Reads s none l l' true []) (name : n.isName = true)
    (start : n.span.start = l'.last.start) (stop : n.span.stop = l'.last.stop) :
    Reads s none l l' true [n] := by
  intro plain ordered
  have read := h plain ordered
  refine read.into ⟨start ▸ read.past rfl, Nat.le_of_eq stop⟩ (.of_isName name ?_) (by simp)
  rw [start, stop]
  exact read.ordered.last_le

/-- An expression turns out to be a pattern. -/
theorem target {e : Expression} {p : Pattern} (h : Reads s d l l' b [.expression e])
    (writes : e.Writes s.edition p) (closed : ¬ e.Open) : Reads s none l l' b [.pattern p] := by
  intro plain ordered
  have read := h plain ordered
  have sound := writes.sound (read.sound _ (.head _)) closed
  refine read.into ?_ sound fun t m mem keeps => ?_
  · exact writes.turns.span ▸ read.placed _ (.head _)
  · obtain rfl := List.mem_singleton.mp mem
    exact writes.keeps keeps

/-- A node of two that lie in one place: a name, or one literal, stands for both. -/
theorem clone {k v inner : Node} (h : Reads s none l l' b [v]) (clone : k.IsClone v)
    (inside : inner.Within v) (span : inner.span = k.span) (children : n.children = [k, v])
    (start : n.span.start = l.token.start) (stop : n.span.stop = l'.last.stop)
    (regular : n.Regular s.edition none) : Reads s none l l' b [n] := by
  intro plain ordered
  have read := h plain ordered
  have vSound := read.sound v (.head _)
  have start_le : k.span.start ≤ k.span.stop := span ▸ (vSound.nested inner inside).start_le
  have within : v.span.start ≤ k.span.start ∧ k.span.stop ≤ v.span.stop := by
    simpa [Span.contains, span] using Node.contains_of_within vSound.nested inside
  have kSound : k.Sound s.edition none := by
    rcases clone with name | ⟨literal, rfl, rfl⟩
    · exact .of_isName name start_le
    · exact vSound
  have placed := read.placed v (.head _)
  have nested : n.Nested := by
    refine ⟨?_, fun c child => ?_, ?_⟩
    · rw [start, stop]
      exact Nat.le_trans placed.1 (Nat.le_trans (vSound.nested v .refl).start_le placed.2)
    · have contained : n.span.start ≤ c.span.start ∧ c.span.stop ≤ n.span.stop := by
        rw [children] at child
        rw [start, stop]
        rcases List.mem_cons.mp child with rfl | child
        · exact ⟨Nat.le_trans placed.1 within.1, Nat.le_trans within.2 placed.2⟩
        · exact List.mem_singleton.mp child ▸ placed
      simpa [Span.contains] using contained
    · rw [children]
      simp [clone]
  refine read.into ⟨Nat.le_of_eq start.symm, Nat.le_of_eq stop⟩
    (.of_settled_children nested regular (by simp [children, kSound, vSound])) fun t m mem keeps => ?_
  obtain rfl := List.mem_singleton.mp mem
  exact keeps.of_within (.of_child (by simp [children]))

theorem semicolon {u : Unit} (run : Runs s ParseM.semicolon p u q) :
    Reads s none p.lexer q.lexer false [] := by
  rcases Runs.semicolon_iff.mp run with ⟨here, moved⟩ | ⟨-, -, rfl⟩
  · exact (next moved here rfl).weaken
  · exact .refl

/-! ### Lists -/

theorem separator {c : Prop} {u : Unit}
    (h : (c ∧ q = p) ∨ (¬ c ∧ p.lexer.kind = .comma ∧ Runs s ParseM.next p u q)) :
    Reads s none p.lexer q.lexer false [] := by
  rcases h with ⟨-, rfl⟩ | ⟨-, comma, moved⟩
  · exact .refl
  · exact (next moved comma rfl).weaken

section Lists

variable {α : Type} {item : ParseM α} {f : α → Node} {close : TokenKind} {as : List α}

/-- Items are read until a token of a kind is current. -/
theorem collectUntil
    (each : ∀ {a : α} {p q : Parser}, Runs s item p a q → Reads s none p.lexer q.lexer true [f a])
    (run : Runs s (ParseM.collectUntil close item) p as q) :
    Reads s none p.lexer q.lexer false (as.map f) ∧ q.lexer.kind = close := by
  obtain ⟨found, r, read, done⟩ := Runs.of_repeatPast
    (fun found r => Reads s none p.lexer r.lexer false (found.reverse.map f)) .refl (by
      intro found next r r' read pass
      simp at pass
      obtain ⟨-, a, itemRun, rfl⟩ := pass
      simpa using (read.trans (each itemRun)).weaken) run
  simp at done
  obtain ⟨here, rfl, rfl⟩ := done
  exact ⟨read, here⟩

/-- Items are read with commas between them and a token of a kind after them. -/
theorem commaSeparated {trailing : Bool} (untracked : close.isTracked = false)
    (each : ∀ {a : α} {p q : Parser}, Runs s item p a q → Reads s none p.lexer q.lexer true [f a])
    (run : Runs s (ParseM.commaSeparated close trailing item) p as q) :
    Reads s none p.lexer q.lexer true (as.map f) := by
  obtain ⟨found, r, read, done⟩ := Runs.of_repeatPast
    (fun found r => Reads s none p.lexer r.lexer false (found.reverse.map f)) .refl (by
      intro found next r r' read pass
      simp at pass
      rcases pass with ⟨-, ⟨rfl, a, itemRun, rfl⟩ | ⟨-, r₁, ⟨comma, moved⟩, -, a, itemRun, rfl⟩⟩
      · simpa using (read.trans (each itemRun)).weaken
      · simpa using ((read.trans (.next moved comma rfl)).trans (each itemRun)).weaken) run
  simp at done
  rcases done with ⟨-, -, r₁, ⟨comma, moved⟩, ⟨⟨-, closes⟩, moved'⟩, rfl⟩ | ⟨⟨closes, moved⟩, rfl⟩
  · simpa using (read.trans (.next moved comma rfl)).trans (.next moved' closes untracked)
  · simpa using read.trans (.next moved closes untracked)

end Lists

end Reads

/-- Items of a list have a property, and those that a comma can follow have another unless they stand
last. -/
theorem Runs.commaSeparated_forall {α : Type} {item : ParseM α} {close : TokenKind} {trailing : Bool}
    {as : List α} {p q : Parser} {P Q : α → Prop}
    (each : ∀ {a : α} {p q : Parser}, Runs s item p a q → P a ∧ (q.lexer.kind = .comma → Q a))
    (run : Runs s (ParseM.commaSeparated close trailing item) p as q) :
    (∀ a ∈ as, P a) ∧ ∀ a ∈ as.dropLast, Q a := by
  obtain ⟨found, r, ⟨all, tail, -⟩, done⟩ := Runs.of_repeatPast
    (fun found r => (∀ a ∈ found, P a) ∧ (∀ a ∈ found.tail, Q a) ∧
      (r.lexer.kind = .comma → ∀ a ∈ found.head?, Q a)) ⟨by simp, by simp, by simp⟩ (by
      rintro found next r r' ⟨all, tail, head⟩ pass
      simp at pass
      rcases pass with ⟨-, ⟨rfl, a, itemRun, rfl⟩ | ⟨-, r₁, ⟨comma, -⟩, -, a, itemRun, rfl⟩⟩
      · simpa using each itemRun
      · refine ⟨by simpa using ⟨(each itemRun).1, all⟩, fun a mem => ?_, by simpa using (each itemRun).2⟩
        cases found with
        | nil => cases mem
        | cons b found =>
          rcases List.mem_cons.mp mem with rfl | mem
          · exact head comma a rfl
          · exact tail a mem) run
  simp at done
  obtain rfl : as = found.reverse := by
    rcases done with ⟨-, -, _, -, -, same⟩ | ⟨-, same⟩ <;> exact same
  exact ⟨by simpa using all, by simpa [List.dropLast_reverse] using tail⟩
end ScriptSyntax
