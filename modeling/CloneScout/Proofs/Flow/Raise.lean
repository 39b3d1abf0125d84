import CloneScout.Proofs.Flow.Changes
import CloneScout.Proofs.Flow.Settled

/-!
# Where `raise` leads

A `raise` that stands directly in the body of a `try` statement leads to the exit and to the test of
the first handler. One that stands deeper, in a branch, a loop, a `with` or a `match` statement of the
body, leads to the exit alone: the edge to the handlers is added where a statement of the body starts,
and only to the block that is current there.
-/

namespace CloneScout.Flow

namespace Builder

/-! ## Parts of what is added -/

section

variable {S : Nat → Prop} {loop : Option Loop} {b b' c c' d d' : Builder} {s : Stmt}
  {ss rest : List Stmt}

theorem Spares.fresh (h : Spares (fun i => b.graph.size ≤ i ∨ S i) b c) : Spares S b c :=
  { h with settled := fun i hi hS => h.settled i hi fun hin =>
      hin.elim (fun hle => Nat.not_lt.mpr hle hi.1) hS }

/-- A builder that takes statements has no block that another one had settled. -/
theorem Steps.owns (h : Steps false b c) {i : Nat} (hi : c.Owns i) : b.Owns i := by
  by_contra hforeign
  unfold Owns at hforeign
  have hlt : i < b.graph.size := by omega
  obtain ⟨⟨-, hend⟩, -⟩ := h.spares.settled i ⟨hlt, fun heq => absurd (.inl heq) hforeign⟩ id
  rcases hi with heq | hle
  · rw [h.isTerminated] at hend
    exact nomatch hend heq
  · exact Nat.not_lt.mpr (Nat.le_trans h.spares.size hle) hlt

theorem Within.refl (hlt : b'.current < b'.graph.size) : Within b b' b b' :=
  ⟨Nat.le_refl _, fun _ hi => hi, .refl hlt⟩

theorem Within.run (h : Within b b' c c') {f : Builder → Builder} (hf : Sparing f) :
    Within b (f b') c c' :=
  { h with spares := h.spares.run hf }

/-- What is added later on is a part of the whole as well. -/
theorem Within.next (h : Steps false b c) (h' : Within c b' d d') : Within b b' d d' where
  size := Nat.le_trans h.spares.size h'.size
  owns i hi := h.owns (h'.owns i hi)
  spares := h'.spares

theorem Within.settled (h : Within b b' c c') {i : Nat} (hi : c.Owns i) (hsettled : c'.Settled i) :
    b'.Settled i ∧ b'.graph.block i = c'.graph.block i :=
  h.spares.settled i hsettled fun hforeign => hforeign hi

end

/-- A list of statements is added, in the body of a `try` statement or elsewhere. -/
def AddsList (ss : List Stmt) (b b' : Builder) : Prop :=
  (∃ loop, b' = stmts loop ss b) ∨ ∃ loop test, b' = tryStmts loop test ss b

theorem owns_dispatch {test : Option Nat} {s : Stmt} {b : Builder} {i : Nat}
    (hi : (b.dispatch test s).Owns i) : b.Owns i := by
  unfold Builder.dispatch at hi
  split at hi
  · split at hi
    · exact hi.imp_right fun hle => by simpa using hle
    · exact hi
  · exact hi

theorem within_dispatch (loop : Option Loop) (test : Option Nat) (s : Stmt) (rest : List Stmt)
    {b : Builder} (hb : b.Accepts) : Within b (b.tryStmts loop test (s :: rest)) (b.dispatch test s)
      ((b.dispatch test s).stmt loop s) := by
  obtain ⟨hspares, haccepts⟩ := hb.dispatch test s
  have hstmt := (steps_stmt loop s haccepts).spares
  rw [tryStmts_cons hb]
  exact ⟨hspares.size, fun i => owns_dispatch,
    (Spares.refl hstmt.lt).run (sparing_tryStmts loop test rest)⟩

/-- The edge to the handlers is the only one that a block has before it has a jump. -/
theorem successors_dispatch {s : Stmt} {t : Nat} {b : Builder} (hb : b.Accepts)
    (ht : t < b.graph.size) (h : (b.graph.block b.current).successors = [] ∨
      (b.graph.block b.current).successors = [t]) :
    (((b.dispatch (some t) s).graph.block (b.dispatch (some t) s).current).successors = [] ∨
      ((b.dispatch (some t) s).graph.block (b.dispatch (some t) s).current).successors = [t]) ∧
    (canRaise s = true →
      ((b.dispatch (some t) s).graph.block (b.dispatch (some t) s).current).successors = [t]) := by
  have hedge : (b.graph.edge b.current t).block b.current =
      { b.graph.block b.current with
        successors := insertNumber t (b.graph.block b.current).successors } :=
    Graph.block_edge_self hb.lt ht
  have hinsert : insertNumber t (b.graph.block b.current).successors = [t] := by
    rcases h with h | h <;> simp [h, insertNumber]
  unfold Builder.dispatch
  cases hraise : canRaise s with
  | true =>
    rw [hinsert] at hedge
    exact ⟨.inr (congrArg Block.successors hedge), fun _ => congrArg Block.successors hedge⟩
  | false => exact ⟨h, (absurd · Bool.false_ne_true)⟩

/-- The first statement of a list, and what is left of the list behind it. -/
theorem AddsList.cons {s : Stmt} {rest : List Stmt} {b b' : Builder} (hb : b.Accepts)
    (h : AddsList (s :: rest) b b') : ∃ loop d, d.Accepts ∧ Within b b' d (d.stmt loop s) ∧
      AddsList rest (d.stmt loop s) b' := by
  rcases h with ⟨loop, rfl⟩ | ⟨loop, test, rfl⟩
  · have hstmt := (steps_stmt loop s hb).spares
    rw [stmts, if_neg (by simp [hb.opened])]
    exact ⟨loop, b, hb, (Within.refl hstmt.lt).run (sparing_stmts loop rest),
      .inl ⟨loop, rfl⟩⟩
  · have hwithin := within_dispatch loop test s rest hb
    rw [tryStmts_cons hb] at hwithin ⊢
    exact ⟨loop, b.dispatch test s, (hb.dispatch test s).2, hwithin, .inr ⟨loop, test, rfl⟩⟩

/-- The body of a case starts in a new block. -/
theorem accepts_case (i : Nat) {before : Nat} (p : Pattern) (guard : Option Expr) {b : Builder}
    (hbefore : before < b.graph.size) :
    ((b.caseStart i before p guard).goto (b.graph.size + 1)).Accepts ∧
      (b.caseStart i before p guard).graph.block (b.graph.size + 1) = {} := by
  have hempty : (b.caseStart i before p guard).graph.block (b.graph.size + 1) = {} := by
    rw [Builder.caseStart, graph_edge, Graph.block_edge_of_ne (by omega),
      block_appendAll_of_ne (by omega), graph_edge, Graph.block_edge_of_ne (by omega), block_create,
      Graph.block_of_size_le (by omega)]
  exact ⟨.goto (by rw [size_caseStart]; omega) hempty, hempty⟩

/-- The body of a case among others is left alone by what follows. -/
theorem within_cases (loop : Option Loop) (done i : Nat) {before : Nat} (cs : List MatchCase)
    (p : Pattern) (guard : Option Expr) (ss : List Stmt) (cs' : List MatchCase) {b : Builder}
    (hbefore : before < b.graph.size) :
    ∃ c : Builder, c.Accepts ∧ c.graph.block c.current = {} ∧ (∀ j, c.Owns j → b.graph.size ≤ j) ∧
      b.graph.size ≤ c.graph.size ∧ Spares (fun j => ¬ c.Owns j) (c.stmts loop ss)
        (b.cases loop done i before (cs ++ .mk p guard ss :: cs')) := by
  induction cs generalizing i before b with
  | nil =>
    obtain ⟨hc, hempty⟩ := accepts_case i p guard hbefore
    have hsize := size_caseStart i before p guard b
    rw [List.nil_append, cases_cons]
    generalize hstart : (b.caseStart i before p guard).goto (b.graph.size + 1) = c at hc
    have hcurrent : c.current = b.graph.size + 1 := hstart ▸ rfl
    have hgraph : c.graph = (b.caseStart i before p guard).graph := hstart ▸ rfl
    have hforeign : ¬ c.Owns b.graph.size := by
      unfold Owns
      rw [hcurrent, hgraph, hsize]
      omega
    have hflow := (Spares.refl (S := fun j => ¬ c.Owns j)
      (sparing_stmts loop ss c hc.lt).lt).flowTo done
    have hrest := spares_cases (S := fun j => (flowTo done (c.stmts loop ss)).graph.size ≤ j ∨
      ¬ c.Owns j) loop done (i + 1) b.graph.size cs' _ (.refl hflow.lt) (.inr hforeign)
      fun j hj => .inl hj
    refine ⟨c, hc, by rw [hgraph, hcurrent, hempty], fun j hj => ?_, ?_, hflow.trans hrest.fresh⟩
    · unfold Owns at hj
      rw [hcurrent, hgraph, hsize] at hj
      omega
    · rw [hgraph, hsize]
      omega
  | cons head cs ih =>
    obtain ⟨p', guard', ss'⟩ := head
    obtain ⟨hfirst, -⟩ := accepts_case i p' guard' hbefore
    have hsize := (sparing_stmts loop ss' _ hfirst.lt).size
    rw [graph_goto, size_caseStart] at hsize
    rw [List.cons_append, cases_cons]
    have hlt : b.graph.size <
        (flowTo done (stmts loop ss'
          ((b.caseStart i before p' guard').goto (b.graph.size + 1)))).graph.size := by
      rw [size_flowTo]
      omega
    obtain ⟨c, hc, hempty, howns, hgrown, hspares⟩ := ih (i + 1) hlt
    rw [size_flowTo] at howns hgrown
    refine ⟨c, hc, hempty, fun j hj => ?_, by omega, hspares⟩
    have := howns j hj
    omega

theorem mem_handlerRooms (loop : Option Loop) (done i : Nat) (hs : List Handler)
    (type : Option Expr) (id : Option Text) (ss : List Stmt) (hs' : List Handler) :
    ∃ r ∈ handlerRooms loop done i (hs ++ .mk type id ss :: hs'), r.fill = stmts loop ss := by
  induction hs generalizing i with
  | nil => exact ⟨_, List.mem_cons_self, rfl⟩
  | cons h hs ih =>
    obtain ⟨_, _, body⟩ := h
    obtain ⟨r, hr, hfill⟩ := ih (i + 1)
    exact ⟨r, List.mem_cons_of_mem _ hr, hfill⟩

theorem mem_loopRooms (loop : Option Loop) (body : List Stmt) {orelse : List Stmt}
    (h : orelse.isEmpty = false) (n : Nat) :
    ⟨n + 2, stmts loop orelse, loopDone orelse n⟩ ∈ loopRooms loop body orelse n := by
  simp [loopRooms, h]

theorem mem_tryRooms (loop : Option Loop) (body : List Stmt) (hs : List Handler)
    {orelse : List Stmt} (h : orelse.isEmpty = false) (n : Nat) :
    ⟨n + 1 + hs.length + hs.length, stmts loop orelse, tryDone hs orelse n⟩ ∈
      tryRooms loop body hs orelse n := by
  simp [tryRooms, h]

end Builder

/-! ## Parts of statements -/

def isTry : Stmt → Bool
  | .tryBlock .. => true
  | _ => false

open Builder (Within Accepts AddsList sparing_stmts)

section

variable {b : Builder}

/-- Statements in a room start in an empty block. -/
theorem Builder.Opens.within_stmts {k done : Nat} {b₀ : Builder} {rooms : List Builder.Room}
    (h : b.Opens k b₀ rooms done) (hb : b.Accepts) {loop : Option Loop} {ss : List Stmt}
    (hroom : ∃ r ∈ rooms, r.fill = Builder.stmts loop ss) :
    ∃ (loop : Option Loop) (c : Builder), c.Accepts ∧ c.graph.block c.current = {} ∧
      Within b ((b₀.fillRooms rooms).goto done) c (c.stmts loop ss) := by
  obtain ⟨r, hr, hfill⟩ := hroom
  obtain ⟨c, hc, hempty, -, hwithin⟩ := h.within hb hr
  rw [hfill] at hwithin
  exact ⟨loop, c, hc, hempty, hwithin⟩

/-- A part of a statement other than `try` is added in an empty block. -/
theorem Part.within_of_not_isTry {k : List Stmt → Stmt} (hk : Part k) {ss : List Stmt}
    (hplain : isTry (k ss) = false) (hss : ss.isEmpty = false) (loop : Option Loop)
    (hb : b.Accepts) :
    ∃ (loop' : Option Loop) (c : Builder), c.Accepts ∧ c.graph.block c.current = {} ∧
      Within b (b.stmt loop (k ss)) c (c.stmts loop' ss) := by
  cases hk
  case branchBody x test orelse =>
    rw [Builder.stmt_branch]
    exact (Builder.opens_branch hb.lt test (sparing_stmts loop ss)
      (sparing_stmts loop orelse)).within_stmts hb ⟨_, List.mem_cons_self, rfl⟩
  case branchElse x test body =>
    rw [Builder.stmt_branch]
    exact (Builder.opens_branch hb.lt test (sparing_stmts loop body)
      (sparing_stmts loop ss)).within_stmts hb
      ⟨_, List.mem_cons_of_mem _ List.mem_cons_self, rfl⟩
  case whileBody x test orelse =>
    rw [Builder.stmt_whileLoop]
    exact (Builder.opens_loop hb.lt (fun h hc hnew => h.condition test _ _ hc hnew)
      (fun loop => sparing_stmts loop ss) (sparing_stmts loop orelse)).within_stmts hb
      ⟨_, List.mem_cons_self, rfl⟩
  case whileElse x test body =>
    rw [Builder.stmt_whileLoop]
    exact (Builder.opens_loop hb.lt (fun h hc hnew => h.condition test _ _ hc hnew)
      (fun loop => sparing_stmts loop body) (sparing_stmts loop ss)).within_stmts hb
      ⟨_, Builder.mem_loopRooms loop body hss b.graph.size, rfl⟩
  case forBody x isAsync target iter orelse =>
    rw [Builder.stmt_forLoop]
    exact (Builder.opens_loop hb.lt (fun h hc _ => ((h.append hc _).edge hc _).edge hc _)
      (fun loop => sparing_stmts loop ss) (sparing_stmts loop orelse)).within_stmts hb
      ⟨_, List.mem_cons_self, rfl⟩
  case forElse x isAsync target iter body =>
    rw [Builder.stmt_forLoop]
    exact (Builder.opens_loop hb.lt (fun h hc _ => ((h.append hc _).edge hc _).edge hc _)
      (fun loop => sparing_stmts loop body) (sparing_stmts loop ss)).within_stmts hb
      ⟨_, Builder.mem_loopRooms loop body hss b.graph.size, rfl⟩
  case withBody x isAsync items =>
    rw [Builder.stmt_withBlock]
    exact (Builder.opens_with hb.lt items (sparing_stmts loop ss)).within_stmts hb
      ⟨_, List.mem_cons_self, rfl⟩
  case case x subject cs p guard cs' =>
    rw [Builder.stmt, Builder.current_append, Builder.graph_append, Graph.size_append]
    have hlt : b.current < ((b.append b.current (.expr subject)).create 1).graph.size := by
      rw [Builder.size_create, Builder.graph_append, Graph.size_append]
      exact Nat.lt_succ_of_lt hb.lt
    obtain ⟨c, hc, hempty, howns, hsize, hspares⟩ :=
      Builder.within_cases loop b.graph.size 0 cs p guard ss cs' hlt
    rw [Builder.size_create, Builder.graph_append, Graph.size_append] at howns hsize
    refine ⟨loop, c, hc, hempty, by omega, fun j hj => .inr ?_, hspares.goto (fun hdone => ?_) ?_⟩
    · have := howns j hj
      omega
    · have := howns _ hdone
      omega
    · have hbody := (sparing_stmts loop ss c hc.lt).size
      have hcases := hspares.size
      omega
  all_goals exact nomatch hplain

theorem Builder.opens_tryBlock (loop : Option Loop) (body : List Stmt) (hs : List Handler)
    (orelse : List Stmt) (hb : b.Accepts) :
    b.Opens (Builder.tryDone hs orelse b.graph.size + 1 - b.graph.size)
      (Builder.tryStart hs orelse b) (Builder.tryRooms loop body hs orelse b.graph.size)
      (Builder.tryDone hs orelse b.graph.size) :=
  Builder.opens_try hb.lt (fun test => Builder.sparing_tryStmts loop test body)
    (fun done i => Builder.sparing_handlers loop done i hs) (sparing_stmts loop orelse)

/-- The body of a `try` statement starts in an empty block. -/
theorem within_tryBody (loop : Option Loop) (x : Extent) (isStar : Bool) (body : List Stmt)
    (hs : List Handler) (orelse finalbody : List Stmt) (hb : b.Accepts) :
    ∃ c : Builder, c.Accepts ∧ c.graph.block c.current = {} ∧ b.graph.size + 1 < c.graph.size ∧
      Within b (b.stmt loop (.tryBlock x isStar body hs orelse finalbody)) c
        (c.tryStmts loop (if hs.isEmpty then none else some (b.graph.size + 1)) body) := by
  obtain ⟨c, hc, hempty, hsize, hwithin⟩ :=
    (Builder.opens_tryBlock loop body hs orelse hb).within hb List.mem_cons_self
  have hdone := Builder.lt_tryDone hs orelse b.graph.size
  rw [Builder.stmt_tryBlock]
  exact ⟨c, hc, hempty, by omega, hwithin.run (sparing_stmts loop finalbody)⟩

/-- A part of a statement is added on its own. -/
theorem Part.within {k : List Stmt → Stmt} (hk : Part k) {ss : List Stmt} (hss : ss.isEmpty = false)
    (loop : Option Loop) (hb : b.Accepts) :
    ∃ c c' : Builder, c.Accepts ∧ AddsList ss c c' ∧ Within b (b.stmt loop (k ss)) c c' := by
  cases hplain : isTry (k ss) with
  | false =>
    obtain ⟨loop', c, hc, -, hwithin⟩ := hk.within_of_not_isTry hplain hss loop hb
    exact ⟨c, _, hc, .inl ⟨loop', rfl⟩, hwithin⟩
  | true =>
    cases hk
    case tryBody x isStar hs orelse finalbody =>
      obtain ⟨c, hc, -, -, hwithin⟩ := within_tryBody loop x isStar ss hs orelse finalbody hb
      exact ⟨c, _, hc, .inr ⟨loop, _, rfl⟩, hwithin⟩
    case handler x isStar body hs type id hs' orelse finalbody =>
      rw [Builder.stmt_tryBlock]
      obtain ⟨r, hr, hfill⟩ := Builder.mem_handlerRooms loop
        (Builder.tryDone (hs ++ .mk type id ss :: hs') orelse b.graph.size)
        (b.graph.size + 1 + (hs ++ .mk type id ss :: hs').length) hs type id ss hs'
      obtain ⟨loop', c, hc, -, hwithin⟩ := (Builder.opens_tryBlock loop body
        (hs ++ .mk type id ss :: hs') orelse hb).within_stmts hb
        ⟨r, List.mem_cons_of_mem _ (List.mem_append_left _ hr), hfill⟩
      exact ⟨c, _, hc, .inl ⟨loop', rfl⟩, hwithin.run (sparing_stmts loop finalbody)⟩
    case tryElse x isStar body hs finalbody =>
      rw [Builder.stmt_tryBlock]
      have hopens := Builder.opens_tryBlock loop body hs ss hb
      obtain ⟨loop', c, hc, -, hwithin⟩ := hopens.within_stmts hb
        ⟨_, Builder.mem_tryRooms loop body hs hss b.graph.size, rfl⟩
      exact ⟨c, _, hc, .inl ⟨loop', rfl⟩, hwithin.run (sparing_stmts loop finalbody)⟩
    case tryLast x isStar body hs orelse =>
      rw [Builder.stmt_tryBlock]
      have hparts := (Builder.opens_tryBlock loop body hs orelse hb).steps hb
      have hlast := sparing_stmts loop ss _ hparts.accepts.lt
      exact ⟨_, _, hparts.accepts, .inl ⟨loop, rfl⟩, .next hparts (.refl hlast.lt)⟩
    all_goals exact nomatch hplain

/-- A statement in a place that control can reach is added on its own. -/
theorem Reached.within {c : Stmt → List Stmt} (hc : Reached c) (s : Stmt) {b' : Builder}
    (hb : b.Accepts) (h : AddsList (c s) b b') :
    ∃ (loop : Option Loop) (d : Builder), d.Accepts ∧ Within b b' d (d.stmt loop s) := by
  induction hc generalizing b b' with
  | here rest =>
    obtain ⟨loop, d, hd, hwithin, -⟩ := h.cons hb
    exact ⟨loop, d, hd, hwithin⟩
  | @after c first hfirst _ ih =>
    obtain ⟨loop, d, hd, hwithin, hrest⟩ := h.cons hb
    have hsteps := Builder.steps_stmt loop first hd
    rw [hfirst] at hsteps
    obtain ⟨loop', e, he, hwithin'⟩ := ih hsteps.accepts hrest
    have hnext := hwithin'.next hsteps
    exact ⟨loop', e, he, Nat.le_trans hwithin.size hnext.size,
      fun i hi => hwithin.owns i (hnext.owns i hi), hnext.spares⟩
  | @inside c k hk rest hc ih =>
    obtain ⟨loop, d, hd, hwithin, -⟩ := h.cons hb
    obtain ⟨e, e', he, hlist, hpart⟩ := hk.within (hc.isEmpty s) loop hd
    obtain ⟨loop', f, hf, hwithin'⟩ := ih he hlist
    exact ⟨loop', f, hf, hwithin.trans (hpart.trans hwithin')⟩

/-! ## Bodies of `try` statements -/

/-- A place in a list, `n` statements deep, none of them a `try` statement. Control can reach it. -/
inductive Nested : Nat → (Stmt → List Stmt) → Prop
  | here (rest : List Stmt) : Nested 0 fun s => s :: rest
  | after {n : Nat} {c : Stmt → List Stmt} (first : Stmt) (hfirst : ends first = false)
    (h : Nested n c) : Nested n fun s => first :: c s
  | inside {n : Nat} {c : Stmt → List Stmt} {k : List Stmt → Stmt} (hk : Part k)
    (hplain : ∀ ss, isTry (k ss) = false) (rest : List Stmt) (h : Nested n c) :
    Nested (n + 1) fun s => k (c s) :: rest

theorem Nested.isEmpty {n : Nat} {c : Stmt → List Stmt} (h : Nested n c) (s : Stmt) :
    (c s).isEmpty = false := by
  cases h <;> rfl

/-- Blocks that a builder can reach outside of `try` have no edge before they have a jump. -/
theorem Nested.within {n : Nat} {c : Stmt → List Stmt} (h : Nested n c) (s : Stmt)
    (loop : Option Loop) (hb : b.Accepts) (hbare : (b.graph.block b.current).successors = []) :
    ∃ (loop' : Option Loop) (d : Builder), d.Accepts ∧ (d.graph.block d.current).successors = [] ∧
      Within b (b.stmts loop (c s)) d (d.stmt loop' s) := by
  induction h generalizing b loop with
  | here rest =>
    rw [Builder.stmts, if_neg (by simp [hb.opened])]
    have hstmt := (Builder.steps_stmt loop s hb).spares
    exact ⟨loop, b, hb, hbare, (Within.refl hstmt.lt).run (sparing_stmts loop rest)⟩
  | after first hfirst _ ih =>
    have hsteps := Builder.steps_stmt loop first hb
    rw [hfirst] at hsteps
    have hbare' : ((b.stmt loop first).graph.block (b.stmt loop first).current).successors = [] :=
      (hsteps.bare rfl).elim id fun hsame => hsame.trans hbare
    obtain ⟨loop', d, hd, hd', hwithin⟩ := ih loop hsteps.accepts hbare'
    rw [Builder.stmts, if_neg (by simp [hb.opened])]
    exact ⟨loop', d, hd, hd', hwithin.next hsteps⟩
  | @inside n c k hk hplain rest hc ih =>
    have hstmt := (Builder.steps_stmt loop (k (c s)) hb).spares
    obtain ⟨loop', e, he, hempty, hpart⟩ := hk.within_of_not_isTry (hplain _) (hc.isEmpty s) loop hb
    obtain ⟨loop'', d, hd, hd', hwithin⟩ := ih loop' he (congrArg Block.successors hempty)
    rw [Builder.stmts, if_neg (by simp [hb.opened])]
    have hlist := (Within.refl (b := b) hstmt.lt).run (sparing_stmts loop rest)
    exact ⟨loop'', d, hd, hd', hlist.trans (hpart.trans hwithin)⟩

/-- A statement of a `try` body that can raise an exception is added to a block with an edge to the
handlers. When it stands deeper, its block has no edge. -/
theorem Nested.within_try {n : Nat} {c : Stmt → List Stmt} (h : Nested n c) {s : Stmt}
    (hs : canRaise s = true) (loop : Option Loop) {t : Nat} (ht : t < b.graph.size)
    (hb : b.Accepts) (hsuccessors : (b.graph.block b.current).successors = [] ∨
      (b.graph.block b.current).successors = [t]) :
    ∃ (loop' : Option Loop) (d : Builder), d.Accepts ∧
      (d.graph.block d.current).successors = (if n = 0 then [t] else []) ∧
      Within b (b.tryStmts loop (some t) (c s)) d (d.stmt loop' s) := by
  induction h generalizing b with
  | here rest =>
    have hwithin := Builder.within_dispatch loop (some t) s rest hb
    have hdispatch := (Builder.successors_dispatch hb ht hsuccessors).2 hs
    exact ⟨loop, _, (hb.dispatch _ s).2, hdispatch, hwithin⟩
  | @after n c first hfirst _ ih =>
    have haccepts := (hb.dispatch (some t) first).2
    have hsteps := Builder.steps_stmt loop first haccepts
    have hsize := (hb.dispatch (some t) first).1.size
    rw [hfirst] at hsteps
    have hsuccessors' := (Builder.successors_dispatch (s := first) hb ht hsuccessors).1
    obtain ⟨loop', d, hd, hd', hwithin⟩ := ih (Nat.lt_of_lt_of_le ht (Nat.le_trans hsize
      hsteps.spares.size)) hsteps.accepts
      ((hsteps.bare rfl).elim .inl fun hsame => hsuccessors'.imp hsame.trans hsame.trans)
    have hnext := hwithin.next hsteps
    rw [Builder.tryStmts_cons hb]
    exact ⟨loop', d, hd, hd', Nat.le_trans hsize hnext.size,
      fun i hi => Builder.owns_dispatch (hnext.owns i hi), hnext.spares⟩
  | @inside n c k hk hplain rest hc ih =>
    have hwithin := Builder.within_dispatch loop (some t) (k (c s)) rest hb
    obtain ⟨loop', e, he, hempty, hpart⟩ := hk.within_of_not_isTry (hplain _) (hc.isEmpty s) loop
      (hb.dispatch (some t) (k (c s))).2
    obtain ⟨loop'', d, hd, hd', hdeep⟩ := hc.within s loop' he (congrArg Block.successors hempty)
    exact ⟨loop'', d, hd, hd', hwithin.trans (hpart.trans hdeep)⟩

/-! ## The test of the first handler -/

/-- The test of the first handler holds the remarks of the handler. -/
theorem entries_handlerTests (done i test body : Nat) (h : Handler) (hs : List Handler)
    (hlt : b.current < b.graph.size) (htest : test < b.graph.size) (hne : test ≠ b.current)
    (hempty : b.graph.block test = {}) :
    (b.handlerTests done i test body (h :: hs)).Settled test ∧
      ((b.handlerTests done i test body (h :: hs)).graph.block test).entries =
        (Builder.handlerRemarks i h).map .remark := by
  rw [Builder.handlerTests, Builder.appendRemarks_eq]
  generalize hfirst : ((b.appendAll test ((Builder.handlerRemarks i h).map .remark)).edge test
    body).edge test (if hs.isEmpty then done else test + 1) = c
  have hcurrent : c.current = b.current := by simp [← hfirst]
  have hsize : c.graph.size = b.graph.size := by simp [← hfirst]
  have hentries : (c.graph.block test).entries = (Builder.handlerRemarks i h).map .remark := by
    rw [← hfirst, Builder.graph_edge, (Graph.block_edge _ _ _ _).1, Builder.graph_edge,
      (Graph.block_edge _ _ _ _).1, Builder.block_appendAll_self _ htest, hempty]
    rfl
  have hrest := (Builder.Spares.refl (S := fun j => test < j) (b := c) (by omega)).handlerTests done
    (i + 1) (test + 1) (body + 1) hs fun j hj _ => hj
  have hsettled : c.Settled test := ⟨by omega, fun heq => absurd (heq.trans hcurrent) hne⟩
  obtain ⟨hsettled', hblock⟩ := hrest.settled test hsettled (Nat.lt_irrefl _)
  exact ⟨hsettled', by rw [hblock, hentries]⟩

theorem entries_tryStart (h : Handler) (hs : List Handler) (orelse : List Stmt)
    (hlt : b.current < b.graph.size) :
    (Builder.tryStart (h :: hs) orelse b).Settled (b.graph.size + 1) ∧
      ((Builder.tryStart (h :: hs) orelse b).graph.block (b.graph.size + 1)).entries =
        (Builder.handlerRemarks 0 h).map .remark := by
  have hdone := Builder.lt_tryDone (h :: hs) orelse b.graph.size
  refine entries_handlerTests _ 0 _ _ h hs ?_ ?_ ?_ ?_
  · simp only [Builder.current_edge, Builder.current_create, Builder.graph_edge, Graph.size_edge,
      Builder.size_create]
    omega
  · simp only [Builder.graph_edge, Graph.size_edge, Builder.size_create]
    omega
  · simp only [Builder.current_edge, Builder.current_create]
    omega
  · rw [Builder.graph_edge, Graph.block_edge_of_ne (by omega), Builder.block_create,
      Graph.block_of_size_le (by omega)]

theorem entries_tryBlock (loop : Option Loop) (x : Extent) (isStar : Bool) (body : List Stmt)
    (h : Handler) (hs : List Handler) (orelse finalbody : List Stmt) (hb : b.Accepts) :
    let b' := b.stmt loop (.tryBlock x isStar body (h :: hs) orelse finalbody)
    b'.Settled (b.graph.size + 1) ∧
      (b'.graph.block (b.graph.size + 1)).entries = (Builder.handlerRemarks 0 h).map .remark := by
  have hlt := hb.lt
  have hdone := Builder.lt_tryDone (h :: hs) orelse b.graph.size
  have hopens := Builder.opens_tryBlock loop body (h :: hs) orelse hb
  have hother : ∀ i ∈ (Builder.tryRooms loop body (h :: hs) orelse b.graph.size).map
      Builder.Room.start ++ [Builder.tryDone (h :: hs) orelse b.graph.size],
      i ≠ b.graph.size + 1 := by
    intro i hi
    rw [Builder.starts_tryRooms, List.mem_cons, List.mem_range'_1, List.length_cons] at hi
    omega
  have hrooms := (Builder.Spares.refl (S := fun i => i ≠ b.graph.size + 1)
    hopens.prepared.lt).fillRooms fun r hr => ⟨hother _ (Builder.mem_starts hr),
      hopens.lt_size (Builder.mem_starts hr), hopens.sparing r hr⟩
  have hend : Builder.tryDone (h :: hs) orelse b.graph.size ∈
      (Builder.tryRooms loop body (h :: hs) orelse b.graph.size).map Builder.Room.start ++
        [Builder.tryDone (h :: hs) orelse b.graph.size] :=
    List.mem_append_right _ (List.mem_singleton_self _)
  have hall := (hrooms.goto (hother _ hend) (Nat.lt_of_lt_of_le (hopens.lt_size hend)
    hrooms.size)).run (sparing_stmts loop finalbody)
  obtain ⟨hsettled, hentries⟩ := entries_tryStart h hs orelse hlt
  obtain ⟨hsettled', hblock⟩ := hall.settled _ hsettled fun hne => hne rfl
  rw [Builder.stmt_tryBlock]
  exact ⟨hsettled', by rw [hblock, hentries]⟩

/-! ## Jumps -/

/-- The block of a `raise` statement when the `try` statement around it is done. -/
theorem successors_tryBlock (loop : Option Loop) (x : Extent) (isStar : Bool) (h : Handler)
    (hs : List Handler) (orelse finalbody : List Stmt) {n : Nat} {c : Stmt → List Stmt}
    (hc : Nested n c) (y : Extent) (exc cause : Option Expr) (hb : b.Accepts)
    (hexit : exitBlock < b.graph.size) :
    let b' := b.stmt loop (.tryBlock x isStar (c (.raise y exc cause)) (h :: hs) orelse finalbody)
    ∃ i, b.Owns i ∧ b'.Settled i ∧
      (b'.graph.block i).entries.getLast? = some (.stmt (.raise y exc cause)) ∧
      (b'.graph.block i).successors =
        if n = 0 then [exitBlock, b.graph.size + 1] else [exitBlock] := by
  obtain ⟨e, he, hempty, hlt, hbody⟩ := within_tryBody loop x isStar (c (.raise y exc cause))
    (h :: hs) orelse finalbody hb
  obtain ⟨loop', d, hd, hsuccessors, hraise⟩ := hc.within_try (s := .raise y exc cause) rfl loop hlt
    he (.inl (congrArg Block.successors hempty))
  have hwithin := hbody.trans hraise
  rw [Builder.stmt] at hwithin
  have hjump := Builder.steps_jump hd (.raise y exc cause) exitBlock
  have hsettled : (d.jump (.raise y exc cause) exitBlock).Settled d.current :=
    ⟨Nat.lt_of_lt_of_le hd.lt hjump.spares.size, fun _ => hjump.isTerminated⟩
  obtain ⟨hsettled', hsame⟩ := hwithin.settled (.inl rfl) hsettled
  refine ⟨d.current, hwithin.owns _ (.inl rfl), hsettled', ?_⟩
  rw [hsame, Builder.block_jump hd.lt _ (Nat.lt_of_lt_of_le hexit hwithin.size), hsuccessors]
  refine ⟨List.getLast?_concat, ?_⟩
  unfold exitBlock at hexit ⊢
  split
  · simp [insertNumber]
    omega
  · rfl

/-- In the graph of a function, a `raise` in the body of a `try` statement with handlers leads to the
exit and, if it stands directly in the body, to the test of the first handler. Any number of
branches, loops, `with` and `match` statements between the two takes that edge away. -/
theorem successors_raise {skip : Bool} {body : List Stmt} {c : Stmt → List Stmt} (hc : Reached c)
    (x : Extent) (isStar : Bool) (ss : List Stmt) (h : Handler) (hs : List Handler)
    (orelse finalbody : List Stmt)
    (hbody : (if skip then withoutDocstring body else body) =
      c (.tryBlock x isStar ss (h :: hs) orelse finalbody)) :
    ∃ t, exitBlock < t ∧ ((Graph.ofFunction skip body).block t).entries =
        (Builder.handlerRemarks 0 h).map .remark ∧
      ∀ n c' y exc cause, Nested n c' → ss = c' (.raise y exc cause) →
        ∃ i, ((Graph.ofFunction skip body).block i).entries.getLast? =
            some (.stmt (.raise y exc cause)) ∧
          ((Graph.ofFunction skip body).block i).successors =
            if n = 0 then [exitBlock, t] else [exitBlock] := by
  have hstart : Builder.Accepts {} := ⟨by decide, by decide⟩
  obtain ⟨loop, d, hd, hwithin⟩ := hc.within (.tryBlock x isStar ss (h :: hs) orelse finalbody)
    hstart (.inl ⟨none, rfl⟩)
  have hsize : 2 ≤ d.graph.size := hwithin.size
  -- a block that the statement is done with stays in the graph of the function
  have hgraph {i : Nat} (hi : d.Owns i)
      (hsettled : (d.stmt loop (.tryBlock x isStar ss (h :: hs) orelse finalbody)).Settled i) :
      (Graph.ofFunction skip body).block i =
        (d.stmt loop (.tryBlock x isStar ss (h :: hs) orelse finalbody)).graph.block i := by
    obtain ⟨hsettled', hblock⟩ := hwithin.settled hi hsettled
    have hflow := (Builder.Spares.refl (S := fun _ => False) hwithin.spares.lt).flowTo exitBlock
    rw [Graph.ofFunction, Graph.ofBody, hbody, (hflow.settled i hsettled' id).2, hblock]
  obtain ⟨htest, hentries⟩ := entries_tryBlock loop x isStar ss h hs orelse finalbody hd
  refine ⟨d.graph.size + 1, by unfold exitBlock; omega,
    by rw [hgraph (.inr (Nat.le_succ _)) htest, hentries], fun n c' y exc cause hc' hss => ?_⟩
  subst hss
  obtain ⟨i, howns, hsettled, hlast, hsuccessors⟩ := successors_tryBlock loop x isStar h hs orelse
    finalbody hc' y exc cause hd hsize
  rw [← hgraph howns hsettled] at hlast hsuccessors
  exact ⟨i, hlast, hsuccessors⟩

/-- One `raise` stands in a branch of the body, the other one directly in the body. -/
theorem successors_raise_branch :
    let p := Parsed.ofSource (utf8 "def f():\n try:\n  if a:raise\n  raise\n except:b\n") 64
    let inner : Stmt := .raise ⟨⟨22, 27⟩, 3, 3⟩ none none
    let outer : Stmt := .raise ⟨⟨30, 35⟩, 4, 4⟩ none none
    p.ok = true ∧ ∃ f, p.module.body = [f] ∧
      let g := Graph.ofFunction true f.functionBody
      ∃ t i j, exitBlock < t ∧
        (g.block i).entries.getLast? = some (.stmt inner) ∧ (g.block i).successors = [exitBlock] ∧
        (g.block j).entries.getLast? = some (.stmt outer) ∧
        (g.block j).successors = [exitBlock, t] := by
  intro p inner outer
  let a : Expr := .name ⟨⟨20, 21⟩, 3, 3⟩ (utf8 "a") .load
  let h : Handler := .mk none none
    [.expr ⟨⟨44, 45⟩, 5, 5⟩ (.name ⟨⟨44, 45⟩, 5, 5⟩ (utf8 "b") .load)]
  let branch (s : Stmt) : Stmt := .branch ⟨⟨17, 27⟩, 3, 3⟩ a [s] []
  let f : Stmt := .function ⟨⟨0, 45⟩, 1, 5⟩ false (utf8 "f") .empty
    [.tryBlock ⟨⟨10, 45⟩, 2, 5⟩ false [branch inner, outer] [h] [] []] [] none
  have hinner : Nested 1 fun s => [branch s, outer] :=
    .inside (.branchBody _ a []) (fun _ => rfl) [outer] (.here [])
  have houter : Nested 0 fun s => [branch inner, s] := .after _ rfl (.here [])
  obtain ⟨t, ht, -, hraise⟩ := successors_raise (.here []) ⟨⟨10, 45⟩, 2, 5⟩ false
    [branch inner, outer] h [] [] [] (show (if true then withoutDocstring f.functionBody
      else f.functionBody) = _ from rfl)
  obtain ⟨i, hi, hexit⟩ := hraise 1 _ _ _ _ hinner rfl
  obtain ⟨j, hj, htest⟩ := hraise 0 _ _ _ _ houter rfl
  exact ⟨by decide +kernel, f, rfl, t, i, j, ht, hi, hexit, hj, htest⟩

set_option maxRecDepth 1000 in
/-- The `raise` in a branch of a `try` body has no edge to the test of the handler: the test is in
block 3, the `raise` in block 6. -/
theorem not_mem_successors_raise :
    let p := Parsed.ofSource (utf8 "def f():\n try:\n  if a:raise\n except:b\n") 64
    let raise : Stmt := .raise ⟨⟨22, 27⟩, 3, 3⟩ none none
    p.ok = true ∧ ∃ f x y test h, p.module.body = [f] ∧
      f.functionBody = [.tryBlock x false [.branch y test [raise] []] [h] [] []] ∧
      let g := Graph.ofFunction true f.functionBody
      (g.block 3).entries.map (Entry.text {}) =
        (Builder.handlerRemarks 0 h).map (fun r => (Entry.remark r).text {}) ∧
      (g.block 6).entries.map (Entry.text {}) = [(Entry.stmt raise).text {}] ∧
      3 ∉ (g.block 6).successors := by
  intro p raise
  let test : Expr := .name ⟨⟨20, 21⟩, 3, 3⟩ (utf8 "a") .load
  let h : Handler := .mk none none
    [.expr ⟨⟨36, 37⟩, 4, 4⟩ (.name ⟨⟨36, 37⟩, 4, 4⟩ (utf8 "b") .load)]
  let f : Stmt := .function ⟨⟨0, 37⟩, 1, 4⟩ false (utf8 "f") .empty
    [.tryBlock ⟨⟨10, 37⟩, 2, 4⟩ false [.branch ⟨⟨17, 27⟩, 3, 3⟩ test [raise] []] [h] [] []] [] none
  exact ⟨by decide +kernel, f, _, _, test, h, rfl, rfl, by decide +kernel, by decide +kernel,
    by decide +kernel⟩

end

end CloneScout.Flow
