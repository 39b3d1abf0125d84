import CloneScout.Proofs.Flow.Slots

/-!
# Where blocks end

A block is terminated just if its last entry jumps, and no other entry of it does. It leads to where
that jump goes from its slot and at most to one block besides: the test of the first handler of the
`try` statement whose body holds the jump itself.
-/

namespace CloneScout.Flow

/-! ## Blocks -/

/-- None of the entries jumps. -/
def NoJump (es : List Entry) : Prop := ∀ s, Entry.stmt s ∈ es → isJump s = false

theorem NoJump.append {es es' : List Entry} (h : NoJump es) (h' : NoJump es') : NoJump (es ++ es') :=
  fun s hs => (List.mem_append.mp hs).elim (h s) (h' s)

theorem noJump_nil : NoJump [] := fun _ hs => absurd hs List.not_mem_nil

theorem noJump_singleton {e : Entry} (h : ∀ s, e = .stmt s → isJump s = false) : NoJump [e] :=
  fun s hs => h s (List.mem_singleton.mp hs).symm

/-- The block is open and holds no jump, or it ends with the only one, at one of the slots. -/
inductive Block.Tidy (ps : List Slot) (i : Nat) (b : Block) : Prop where
  | opened (terminated : b.terminated = false) (entries : NoJump b.entries)
  | ended (terminated : b.terminated = true) {es : List Entry} {p : Slot} {further : Option Nat}
    (mem : p ∈ ps) (block : p.block = i) (jump : isJump p.stmt = true)
    (entries : b.entries = es ++ [.stmt p.stmt]) (before : NoJump es)
    (test : ∀ t ∈ further, p.test = some t)
    (successors : b.successors = insertNumber p.target further.toList)

theorem Block.Tidy.noJump {ps : List Slot} {i : Nat} {b : Block} (h : b.Tidy ps i)
    (hopen : b.terminated = false) : NoJump b.entries := by
  cases h with
  | opened _ hentries => exact hentries
  | ended hend => exact absurd (hend.symm.trans hopen) Bool.false_ne_true.symm

theorem Block.Tidy.terminated_iff {ps : List Slot} {i : Nat} {b : Block} (h : b.Tidy ps i) :
    b.terminated = true ↔ ∃ s, b.entries.getLast? = some (.stmt s) ∧ isJump s = true := by
  cases h with
  | opened hopen hentries =>
    rw [hopen]
    refine ⟨(absurd · Bool.false_ne_true), fun ⟨s, hlast, hs⟩ => ?_⟩
    exact absurd (hs.symm.trans (hentries s (List.mem_of_getLast? hlast))) Bool.false_ne_true.symm
  | ended hend _ _ hjump hentries =>
    refine ⟨fun _ => ⟨_, ?_, hjump⟩, fun _ => hend⟩
    rw [hentries, List.getLast?_concat]

theorem Block.Tidy.noJump_dropLast {ps : List Slot} {i : Nat} {b : Block} (h : b.Tidy ps i) :
    NoJump b.entries.dropLast := by
  cases h with
  | opened _ hentries => exact fun s hs => hentries s (List.mem_of_mem_dropLast hs)
  | ended _ _ _ _ hentries hbefore =>
    rw [hentries, List.dropLast_concat]
    exact hbefore

theorem Block.Tidy.successors_of_terminated {ps : List Slot} {i : Nat} {b : Block}
    (h : b.Tidy ps i) (hend : b.terminated = true) : ∃ p ∈ ps, p.block = i ∧
      b.entries.getLast? = some (.stmt p.stmt) ∧ ∃ further : Option Nat,
        (∀ t ∈ further, p.test = some t) ∧ b.successors = insertNumber p.target further.toList := by
  cases h with
  | opened hopen => exact absurd (hend.symm.trans hopen) Bool.false_ne_true.symm
  | ended _ hmem hblock _ hentries _ htest hsuccessors =>
    refine ⟨_, hmem, hblock, ?_, _, htest, hsuccessors⟩
    rw [hentries, List.getLast?_concat]

/-- The test block of a first handler starts with its number. -/
def firstRemark : Entry := .remark (utf8 "TRY_HANDLER_INDEX:0")

/-- The statement stands in the block of its slot, and the test of the first handler in its own. -/
structure Slot.Stands (g : Graph) (p : Slot) : Prop where
  stmt : Entry.stmt p.stmt ∈ (g.block p.block).entries
  test : ∀ t ∈ p.test, (g.block t).entries.head? = some firstRemark

namespace Builder

variable {qs : List Slot} {loop : Option Loop} {test : Option Nat} {b c d : Builder} {i : Nat}

/-- Entries are only added behind those that are there. -/
structure Keeps (b c : Builder) : Prop where
  size : b.graph.size ≤ c.graph.size
  entries : ∀ i, (b.graph.block i).entries <+: (c.graph.block i).entries

theorem Keeps.refl (b : Builder) : Keeps b b := ⟨Nat.le_refl _, fun _ => List.prefix_rfl⟩

theorem Keeps.trans (h : Keeps b c) (h' : Keeps c d) : Keeps b d :=
  ⟨Nat.le_trans h.size h'.size, fun i => (h.entries i).trans (h'.entries i)⟩

theorem Keeps.head? (h : Keeps b c) {e : Entry} (he : (b.graph.block i).entries.head? = some e) :
    (c.graph.block i).entries.head? = some e := by
  obtain ⟨es, hes⟩ := h.entries i
  rw [← hes, List.head?_append, he]
  rfl

theorem Keeps.stands (h : Keeps b c) {p : Slot} (hp : p.Stands b.graph) : p.Stands c.graph :=
  ⟨(h.entries _).subset hp.stmt, fun t ht => h.head? (hp.test t ht)⟩

/-- All blocks are tidy. -/
def Tidy (qs : List Slot) (b : Builder) : Prop := ∀ i, (b.graph.block i).Tidy qs i

/-! ## Changes without jumps -/

/-- `b` has become `c` without a jump: the terminated blocks are as they were, and the others got
entries that do not jump. -/
structure Calm (b c : Builder) : Prop where
  size : b.graph.size ≤ c.graph.size
  ended : ∀ i, (b.graph.block i).terminated = true → c.graph.block i = b.graph.block i
  opened : ∀ i, (b.graph.block i).terminated = false → (c.graph.block i).terminated = false ∧
    ∃ es, (c.graph.block i).entries = (b.graph.block i).entries ++ es ∧ NoJump es

namespace Calm

theorem of_graph_eq (h : c.graph = b.graph) : Calm b c where
  size := by rw [h]
  ended i _ := by rw [h]
  opened i hopen := by
    rw [h]
    exact ⟨hopen, [], (List.append_nil _).symm, noJump_nil⟩

theorem refl (b : Builder) : Calm b b := of_graph_eq rfl

theorem trans (h : Calm b c) (h' : Calm c d) : Calm b d where
  size := Nat.le_trans h.size h'.size
  ended i hend := by
    have hsame := h.ended i hend
    exact (h'.ended i (by rwa [hsame])).trans hsame
  opened i hopen := by
    obtain ⟨hopen', es, hes, hplain⟩ := h.opened i hopen
    obtain ⟨hopen'', es', hes', hplain'⟩ := h'.opened i hopen'
    exact ⟨hopen'', es ++ es', by rw [hes', hes, List.append_assoc], hplain.append hplain'⟩

theorem keeps (h : Calm b c) : Keeps b c where
  size := h.size
  entries i := by
    cases hend : (b.graph.block i).terminated with
    | true => rw [h.ended i hend]
    | false =>
      obtain ⟨-, es, hes, -⟩ := h.opened i hend
      exact ⟨es, hes.symm⟩

theorem tidy (h : Calm b c) (hb : b.Tidy qs) : c.Tidy qs := by
  intro i
  cases hend : (b.graph.block i).terminated with
  | true =>
    rw [h.ended i hend]
    exact hb i
  | false =>
    obtain ⟨hopen, es, hes, hplain⟩ := h.opened i hend
    refine .opened hopen ?_
    rw [hes]
    exact ((hb i).noJump hend).append hplain

/-- A change of one open block. -/
theorem modify (h : Calm b c) (hi : (b.graph.block i).terminated = false) {f : Block → Block}
    (hgraph : d.graph = c.graph.modify i f)
    (hf : ∀ k, (f k).terminated = k.terminated ∧ ∃ es, (f k).entries = k.entries ++ es ∧ NoJump es) :
    Calm b d := by
  refine h.trans ?_
  have hopen := (h.opened i hi).1
  have hothers {j : Nat} (hj : j ≠ i) : d.graph.block j = c.graph.block j := by
    rw [hgraph, Graph.block_modify_of_ne f hj]
  refine ⟨by rw [hgraph, Graph.size_modify], fun j hend => ?_, fun j hopen' => ?_⟩
  · refine hothers fun heq => ?_
    rw [heq, hopen] at hend
    exact nomatch hend
  · by_cases hj : j = i
    · subst hj
      by_cases hlt : j < c.graph.size
      · rw [hgraph, Graph.block_modify_self f hlt]
        exact ⟨(hf _).1.trans hopen, (hf _).2⟩
      · have hlt' : d.graph.size ≤ j := by
          rw [hgraph, Graph.size_modify]
          exact Nat.not_lt.mp hlt
        rw [Graph.block_of_size_le hlt', Graph.block_of_size_le (Nat.not_lt.mp hlt)]
        exact ⟨rfl, [], rfl, noJump_nil⟩
    · rw [hothers hj]
      exact ⟨hopen', [], (List.append_nil _).symm, noJump_nil⟩

theorem create (h : Calm b c) (n : Nat) : Calm b (c.create n) := by
  refine h.trans ⟨by simp, fun i _ => block_create n i c, fun i hopen => ?_⟩
  rw [block_create]
  exact ⟨hopen, [], (List.append_nil _).symm, noJump_nil⟩

theorem goto (h : Calm b c) (i : Nat) : Calm b (c.goto i) := h.trans (of_graph_eq rfl)

theorem edge (h : Calm b c) (hi : (b.graph.block i).terminated = false) (j : Nat) :
    Calm b (c.edge i j) := by
  by_cases hrange : (i < c.graph.size && j < c.graph.size) = true
  · refine h.modify hi (f := fun k => { k with successors := insertNumber j k.successors }) ?_
      fun k => ⟨rfl, [], (List.append_nil _).symm, noJump_nil⟩
    rw [graph_edge, Graph.edge, if_pos hrange]
  · refine h.trans (of_graph_eq ?_)
    rw [graph_edge, Graph.edge, if_neg hrange]

theorem append (h : Calm b c) (hi : (b.graph.block i).terminated = false) {e : Entry}
    (he : ∀ s, e = .stmt s → isJump s = false) : Calm b (c.append i e) :=
  h.modify hi (f := fun k => { k with entries := k.entries ++ [e] }) rfl
    fun _ => ⟨rfl, [e], rfl, noJump_singleton he⟩

theorem appendAll (h : Calm b c) (hi : (b.graph.block i).terminated = false) {es : Trace}
    (hes : ∀ e ∈ es, ∀ s, e = .stmt s → isJump s = false) : Calm b (c.appendAll i es) := by
  induction es generalizing c with
  | nil => exact h
  | cons e es ih =>
    obtain ⟨he, hrest⟩ := List.forall_mem_cons.mp hes
    exact ih (h.append hi he) hrest

theorem appendExprs (h : Calm b c) (hi : (b.graph.block i).terminated = false) (es : List Expr) :
    Calm b (c.appendAll i (es.map .expr)) := by
  refine h.appendAll hi fun e he s hs => ?_
  obtain ⟨x, -, rfl⟩ := List.mem_map.mp he
  exact nomatch hs

theorem appendRemarks (h : Calm b c) (hi : (b.graph.block i).terminated = false) (ts : List Text) :
    Calm b (c.appendAll i (ts.map .remark)) := by
  refine h.appendAll hi fun e he s hs => ?_
  obtain ⟨x, -, rfl⟩ := List.mem_map.mp he
  exact nomatch hs

/-- A new block is open. -/
theorem new (hi : b.graph.size ≤ i) : (b.graph.block i).terminated = false := by
  rw [Graph.block_of_size_le hi]

theorem flowTo (h : Calm b c) (j : Nat) : Calm b (c.flowTo j) := by
  rw [Builder.flowTo]
  split
  · exact h
  · next hopen =>
    have hopen' : (c.graph.block c.current).terminated = false := by
      simpa [isTerminated, Graph.isTerminated] using hopen
    exact h.trans ((refl c).edge hopen' j)

theorem operands (h : Calm b c) (op : BoolOp) (yes no : Nat)
    (hi : (b.graph.block i).terminated = false) (values : List Expr) :
    Calm b (c.operands op yes no i values) := by
  fun_induction Builder.operands op yes no i values c with
  | case1 => exact h
  | case2 i e c => exact ((h.append hi (by simp)).edge hi yes).edge hi no
  | case3 i e rest c hrest next early c₁ ih =>
    have hnext : (b.graph.block next).terminated = false := new h.size
    exact ih ((((h.append hi (by simp)).create 1).edge hi next).edge hi early) hnext

theorem condition (h : Calm b c) (test : Expr) (yes no : Nat)
    (hc : (b.graph.block c.current).terminated = false) : Calm b (c.condition test yes no) := by
  unfold Builder.condition
  split
  · exact h.operands _ yes no hc _
  · exact ((h.append hc (by simp)).edge hc yes).edge hc no

theorem handlerTests (h : Calm b c) (done i : Nat) {test : Nat} (body : Nat) (hs : List Handler)
    (htest : b.graph.size ≤ test) : Calm b (c.handlerTests done i test body hs) := by
  induction hs generalizing i test body c with
  | nil => exact h
  | cons handler rest ih =>
    rw [Builder.handlerTests, appendRemarks_eq]
    exact ih (((h.appendRemarks (new htest) _).edge (new htest) body).edge (new htest) _) _ _
      (Nat.le_succ_of_le htest)

theorem caseStart (h : Calm b c) {before : Nat} (hbefore : (b.graph.block before).terminated = false)
    (i : Nat) (p : Pattern) (guard : Option Expr) : Calm b (c.caseStart i before p guard) := by
  have htest : (b.graph.block c.graph.size).terminated = false := new h.size
  refine (((h.create 2).edge hbefore _).appendAll htest fun e he s hs => ?_).edge htest _
  subst hs
  simp at he

end Calm

/-! ## Statements in their slots -/

def point (b : Builder) : Point := ⟨b.current, b.graph.size⟩

/-- The blocks that jumps can lead to are there. -/
structure Knows (loop : Option Loop) (test : Option Nat) (b : Builder) : Prop where
  exit : exitBlock < b.graph.size
  loop : Loop.InRange loop b.graph.size
  test : ∀ t ∈ test, t < b.graph.size ∧ (b.graph.block t).entries.head? = some firstRemark

theorem Knows.keeps (h : b.Knows loop test) (hc : Keeps b c) : c.Knows loop test where
  exit := Nat.lt_of_lt_of_le h.exit hc.size
  loop := h.loop.mono hc.size
  test t ht := ⟨Nat.lt_of_lt_of_le (h.test t ht).1 hc.size, hc.head? (h.test t ht).2⟩

/-- Away from the body of a `try` statement. -/
theorem Knows.away (h : b.Knows loop test) : b.Knows loop none :=
  { h with test := fun _ ht => nomatch ht }

/-- The builder can take a statement here. The current block leads to the test at most. -/
structure Takes (loop : Option Loop) (test : Option Nat) (b : Builder) : Prop where
  accepts : b.Accepts
  knows : b.Knows loop test
  bare : (b.graph.block b.current).successors = [] ∨
    ∃ t ∈ test, (b.graph.block b.current).successors = [t]

/-- The builder goes on in an empty block. -/
theorem Takes.goto (hknows : c.Knows loop test) (hlt : i < c.graph.size)
    (hempty : c.graph.block i = {}) : (c.goto i).Takes loop test :=
  ⟨.goto hlt hempty, hknows.keeps ((Calm.refl c).goto i).keeps,
    .inl (congrArg Block.successors hempty)⟩

/-- `b` has become `c`, with statements in the slots of the layout. -/
structure Placed (qs : List Slot) (r : List Slot × Point) (b c : Builder) : Prop where
  keeps : Keeps b c
  tidy : b.Tidy qs → c.Tidy qs
  point : c.point = r.2
  stands : ∀ p ∈ r.1, p.Stands c.graph

/-- What the function adds is laid out like this, in whatever list of slots the layout is. -/
def Follows (loop : Option Loop) (test : Option Nat) (lay : Layout) (f : Builder → Builder) : Prop :=
  ∀ (qs : List Slot) (b : Builder), b.Takes loop test → (lay b.point).1 ⊆ qs →
    Placed qs (lay b.point) b (f b)

section

variable {r r' : List Slot × Point} {lay lay' : Layout} {f : Builder → Builder} {s : Stmt}

theorem Calm.placed (h : Calm b c) : Placed qs ([], c.point) b c :=
  ⟨h.keeps, h.tidy, rfl, fun _ hp => absurd hp List.not_mem_nil⟩

theorem Placed.trans (h : Placed qs r b c) (h' : Placed qs r' c d) :
    Placed qs (r.1 ++ r'.1, r'.2) b d where
  keeps := h.keeps.trans h'.keeps
  tidy hb := h'.tidy (h.tidy hb)
  point := h'.point
  stands p hp := (List.mem_append.mp hp).elim (fun hp => h'.keeps.stands (h.stands p hp)) (h'.stands p)

/-- Something without a jump comes first. -/
theorem Placed.after (h : Placed qs r c d) (hcalm : Calm b c) : Placed qs r b d :=
  hcalm.placed.trans h

/-- Something without a jump comes last. -/
theorem Placed.calm (h : Placed qs r b c) (hcalm : Calm c d) : Placed qs (r.1, d.point) b d := by
  have hall := h.trans hcalm.placed
  rwa [List.append_nil] at hall

theorem follows_append (loop : Option Loop) (test : Option Nat) (hs : isJump s = false) :
    Follows loop test (fun point => ([⟨s, point.block, loop, test⟩], point))
      fun b => b.append b.current (.stmt s) := by
  intro qs b hb _
  have hcalm : Calm b (b.append b.current (.stmt s)) :=
    (Calm.refl b).append hb.accepts.opened fun s' hs' => Entry.stmt.inj hs' ▸ hs
  refine ⟨hcalm.keeps, hcalm.tidy, ?_, fun p hp => ?_⟩
  · simp [Builder.point]
  · rw [List.mem_singleton.mp hp]
    refine ⟨?_, fun t ht => hcalm.keeps.head? (hb.knows.test t ht).2⟩
    show Entry.stmt s ∈ ((b.graph.append b.current (.stmt s)).block b.current).entries
    rw [Graph.block_append_self _ hb.accepts.lt]
    exact List.mem_append_right _ (List.mem_singleton_self _)

theorem block_jump_of_ne (s : Stmt) (j : Nat) (hi : i ≠ b.current) :
    (b.jump s j).graph.block i = b.graph.block i := by
  rw [Builder.jump, Graph.block_edge_of_ne hi, Graph.block_terminate_of_ne hi,
    Graph.block_append_of_ne _ hi]

theorem follows_jump (loop : Option Loop) (test : Option Nat) {j : Nat} (hs : isJump s = true)
    (hj : jumpTarget loop s = j) :
    Follows loop test (fun point => ([⟨s, point.block, loop, test⟩], point)) (Builder.jump s j) := by
  intro qs b hb hqs
  have hself := block_jump hb.accepts.lt s (hj ▸ jumpTarget_lt hb.knows.exit hb.knows.loop s)
  have hkeeps : Keeps b (b.jump s j) := by
    refine ⟨by simp [Builder.jump], fun i => ?_⟩
    by_cases hi : i = b.current
    · rw [hi, hself]
      exact List.prefix_append _ _
    · rw [block_jump_of_ne s j hi]
  refine ⟨hkeeps, fun htidy i => ?_, by simp [Builder.point, Builder.jump], fun p hp => ?_⟩
  · by_cases hi : i = b.current
    · obtain ⟨further, hfurther, hsuccessors⟩ : ∃ further : Option Nat,
          (∀ t ∈ further, test = some t) ∧
            (b.graph.block b.current).successors = further.toList := by
        rcases hb.bare with hbare | ⟨t, ht, hbare⟩
        · exact ⟨none, by simp, hbare⟩
        · exact ⟨some t, fun t' ht' => Option.some.inj ht' ▸ ht, hbare⟩
      rw [hi, hself, hsuccessors, ← hj]
      exact .ended rfl (hqs (List.mem_singleton_self _)) rfl hs rfl
        ((htidy b.current).noJump hb.accepts.opened) hfurther rfl
    · rw [block_jump_of_ne s j hi]
      exact htidy i
  · rw [List.mem_singleton.mp hp]
    refine ⟨?_, fun t ht => hkeeps.head? (hb.knows.test t ht).2⟩
    show Entry.stmt s ∈ ((b.jump s j).graph.block b.current).entries
    rw [hself]
    exact List.mem_append_right _ (List.mem_singleton_self _)

/-- Statements of a list behind a first one that does not end the list. -/
theorem Takes.behind (hb : b.Takes loop test) (hsteps : Steps false b c) (hkeeps : Keeps b c) :
    c.Takes loop test := by
  refine ⟨hsteps.accepts, hb.knows.keeps hkeeps, ?_⟩
  rcases hsteps.bare rfl with hbare | hsame
  · exact .inl hbare
  · rw [hsame]
    exact hb.bare

theorem placed_cons (hb : b.Takes loop test) (hstmt : Follows loop test lay (stmt loop s))
    (hrest : Follows loop test lay' f) (hend : ∀ c : Builder, c.isTerminated = true → f c = c)
    (hqs : ((if ends s then lay else lay.seq lay') b.point).1 ⊆ qs) :
    Placed qs ((if ends s then lay else lay.seq lay') b.point) b (f (b.stmt loop s)) := by
  have hfirst := steps_stmt loop s hb.accepts
  cases hends : ends s with
  | true =>
    rw [hends] at hfirst hqs
    rw [hend _ hfirst.isTerminated]
    exact hstmt qs b hb hqs
  | false =>
    rw [hends] at hfirst hqs
    have hplaced := hstmt qs b hb fun p hp => hqs (List.mem_append_left _ hp)
    have hnext := hrest qs _ (hb.behind hfirst hplaced.keeps) (by
      rw [hplaced.point]
      exact fun p hp => hqs (List.mem_append_right _ hp))
    rw [hplaced.point] at hnext
    exact hplaced.trans hnext

/-- The edge to the handlers comes in front of a statement of a `try` body. -/
theorem Takes.dispatch (hb : b.Takes loop test) (s : Stmt) : Calm b (b.dispatch test s) ∧
    (b.dispatch test s).point = b.point ∧ (b.dispatch test s).Takes loop test := by
  have hcalm : Calm b (b.dispatch test s) := by
    unfold Builder.dispatch
    split
    · split
      · exact (Calm.refl b).edge hb.accepts.opened _
      · exact .refl b
    · exact .refl b
  have hpoint : (b.dispatch test s).point = b.point := by
    unfold Builder.dispatch
    split
    · split
      · simp [Builder.point]
      · rfl
    · rfl
  refine ⟨hcalm, hpoint, (hb.accepts.dispatch test s).2, hb.knows.keeps hcalm.keeps, ?_⟩
  cases test with
  | none => exact hb.bare
  | some t =>
    have hbare : (b.graph.block b.current).successors = [] ∨
        (b.graph.block b.current).successors = [t] := by
      rcases hb.bare with hbare | ⟨t', ht', hbare⟩
      · exact .inl hbare
      · exact .inr (Option.some.inj ht' ▸ hbare)
    have hsuccessors := (successors_dispatch (s := s) hb.accepts (hb.knows.test t rfl).1 hbare).1
    exact hsuccessors.imp id fun hsame => ⟨t, rfl, hsame⟩

end

/-! ## Suites -/

/-- The room is laid out like this, in whatever state the builder comes to it. -/
def Fits (b₀ : Builder) (r : Room) (l : Nat × Layout) : Prop :=
  r.start = l.1 ∧ ∃ loop test, b₀.Knows loop test ∧ Follows loop test l.2 r.fill

theorem Opens.placed_fillRooms {n done : Nat} {b₀ : Builder} {rooms : List Room}
    (h : Opens b n b₀ rooms done) (hb : b.Accepts) {filled rest : List Room}
    {layouts : List (Nat × Layout)} (hrooms : rooms = filled ++ rest)
    (hkeeps : Keeps b₀ (b₀.fillRooms filled)) (hrest : List.Forall₂ (Fits b₀) rest layouts)
    (hqs : (Layout.suites done layouts (b₀.fillRooms filled).graph.size).1 ⊆ qs) :
    Placed qs (Layout.suites done layouts (b₀.fillRooms filled).graph.size) (b₀.fillRooms filled)
      ((b₀.fillRooms rooms).goto done) := by
  induction hrest generalizing filled with
  | nil =>
    rw [hrooms, List.append_nil]
    exact ((Calm.refl _).goto done).placed
  | @cons r l rest layouts hfits _ ih =>
    obtain ⟨hstart, loop, test, hknows, hfollows⟩ := hfits
    have hmem : r ∈ rooms := hrooms ▸ List.mem_append_right _ List.mem_cons_self
    have hsubset : filled ⊆ rooms := hrooms ▸ List.subset_append_left _ _
    have hother : ∀ r' ∈ filled, r'.start ≠ r.start := by
      have hsorted := (List.pairwise_append.mp h.sorted).1
      rw [hrooms, List.map_append, List.pairwise_append] at hsorted
      exact fun r' hr' => Nat.ne_of_lt (hsorted.2.2 _ (List.mem_map_of_mem hr') _ (by simp))
    -- The room is still empty when its turn comes.
    obtain ⟨hlt, hempty⟩ := (h.filled hsubset (mem_starts hmem) hother).block_eq_empty hb.lt
      (h.range _ (mem_starts hmem))
    have hfirst := hfollows qs _ (Takes.goto (hknows.keeps hkeeps) hlt hempty) (by
      rw [Builder.point, current_goto, graph_goto, hstart]
      exact fun p hp => hqs (List.mem_append_left _ hp))
    have hpoint : ((b₀.fillRooms filled).goto r.start).point =
        ⟨l.1, (b₀.fillRooms filled).graph.size⟩ := by
      rw [← hstart]
      rfl
    rw [hpoint] at hfirst
    have hsize := congrArg Point.size hfirst.point
    replace hfirst := (hfirst.after ((Calm.refl _).goto r.start)).calm ((Calm.refl _).flowTo r.stop)
    have hone : (b₀.fillRooms (filled ++ [r])) =
        (r.fill ((b₀.fillRooms filled).goto r.start)).flowTo r.stop := by
      rw [fillRooms, List.foldl_append, List.foldl_cons, List.foldl_nil]
      rfl
    have hgrown : (b₀.fillRooms (filled ++ [r])).graph.size =
        (l.2 ⟨l.1, (b₀.fillRooms filled).graph.size⟩).2.size := by
      rw [hone, size_flowTo]
      exact hsize
    rw [← hone] at hfirst
    have hnext := @ih (filled ++ [r]) (by rw [hrooms, List.append_assoc]; rfl)
      (hkeeps.trans hfirst.keeps) (by
        rw [hgrown]
        exact fun p hp => hqs (List.mem_append_right _ hp))
    rw [hgrown] at hnext
    exact hfirst.trans hnext

theorem Opens.placed {n done : Nat} {b₀ : Builder} {rooms : List Room}
    (h : Opens b n b₀ rooms done) (hb : b.Accepts) (hcalm : Calm b b₀)
    {layouts : List (Nat × Layout)} (hrooms : List.Forall₂ (Fits b₀) rooms layouts)
    (hqs : (Layout.suites done layouts b₀.graph.size).1 ⊆ qs) :
    Placed qs (Layout.suites done layouts b₀.graph.size) b ((b₀.fillRooms rooms).goto done) :=
  (h.placed_fillRooms hb (List.nil_append rooms).symm (.refl b₀) hrooms hqs).after hcalm

/-! ## Compound statements -/

section

variable {n : Nat} {r : List Slot × Point}

theorem size_operands (op : BoolOp) (yes no i : Nat) (values : List Expr) (b : Builder) :
    (b.operands op yes no i values).graph.size = b.graph.size + (values.length - 1) := by
  fun_induction Builder.operands op yes no i values b with
  | case1 => rfl
  | case2 i e b => simp
  | case3 i e rest b hrest next early b₁ ih =>
    have hlength : 0 < rest.length := List.length_pos_iff.mpr hrest
    rw [ih]
    simp only [b₁, graph_edge, Graph.size_edge, size_create, graph_append, Graph.size_append,
      List.length_cons]
    omega

/-- A condition opens a block for each operand but the first. -/
theorem size_condition (test : Expr) (yes no : Nat) (b : Builder) :
    (b.condition test yes no).graph.size = b.graph.size + ((decisions test).length - 1) := by
  unfold condition
  split
  · exact size_operands ..
  · next hplain =>
    have hsingle : decisions test = [test] := by
      cases test <;> first | rfl | exact absurd rfl (hplain _ _ _)
    rw [hsingle, graph_edge, graph_edge, Graph.size_edge, Graph.size_edge, graph_append,
      Graph.size_append]
    rfl

theorem lt_loopDone (orelse : List Stmt) (n : Nat) : n + 2 ≤ loopDone orelse n := by
  unfold loopDone
  split <;> omega

/-- A loop whose header opens `k` blocks. -/
theorem placed_loop {header : Nat → Nat → Builder → Builder} {k : Nat} {body orelse : List Stmt}
    {lay : Option Loop → Layout} {other : Layout} (hb : b.Takes loop test)
    (hopens : b.Opens (loopDone orelse b.graph.size + 1 - b.graph.size) (loopStart header orelse b)
      (loopRooms loop body orelse b.graph.size) (loopDone orelse b.graph.size))
    (hheader : ∀ {yes no : Nat} {c d : Builder}, Calm c d →
      (c.graph.block d.current).terminated = false → Calm c (header yes no d))
    (hsize : ∀ {yes no : Nat} {c : Builder}, (header yes no c).graph.size = c.graph.size + k)
    (hbody : ∀ loop, Follows loop none (lay loop) (stmts loop body))
    (hother : Follows loop none other (stmts loop orelse))
    (hqs : (Layout.suites (loopDone orelse b.graph.size)
      (Layout.loopSuites lay orelse other b.graph.size)
      (loopDone orelse b.graph.size + 1 + k)).1 ⊆ qs) :
    Placed qs (Layout.suites (loopDone orelse b.graph.size)
        (Layout.loopSuites lay orelse other b.graph.size) (loopDone orelse b.graph.size + 1 + k)) b
      (((loopStart header orelse b).fillRooms (loopRooms loop body orelse b.graph.size)).goto
        (loopDone orelse b.graph.size)) := by
  have hdone := lt_loopDone orelse b.graph.size
  have hcalm : Calm b (loopStart header orelse b) :=
    hheader ((((Calm.refl b).create _).edge hb.accepts.opened _).goto _)
      (Calm.new (Nat.le_refl _))
  have hblocks : (loopStart header orelse b).graph.size = loopDone orelse b.graph.size + 1 + k := by
    rw [loopStart, hsize, graph_goto, graph_edge, Graph.size_edge, size_create]
    omega
  have hknows := (hb.knows.keeps hcalm.keeps).away
  have hinner : (loopStart header orelse b).Knows (some ⟨b.graph.size, loopDone orelse b.graph.size⟩)
      none := by
    refine { hknows with loop := fun l hl => ?_ }
    obtain rfl := Option.some.inj hl
    rw [hblocks]
    exact ⟨by dsimp only; omega, by dsimp only; omega⟩
  rw [← hblocks] at hqs ⊢
  refine hopens.placed hb.accepts hcalm (.cons ⟨rfl, _, none, hinner, hbody _⟩ ?_) hqs
  split
  · exact .nil
  · exact .cons ⟨rfl, loop, none, hknows, hother⟩ .nil

theorem size_handlerTests (done i test body : Nat) (hs : List Handler) (b : Builder) :
    (b.handlerTests done i test body hs).graph.size = b.graph.size := by
  induction hs generalizing i test body b with
  | nil => rfl
  | cons h rest ih =>
    rw [handlerTests, appendRemarks_eq, ih]
    simp

theorem size_tryStart (hs : List Handler) (orelse : List Stmt) (b : Builder) :
    (tryStart hs orelse b).graph.size = tryDone hs orelse b.graph.size + 1 := by
  have hdone := lt_tryDone hs orelse b.graph.size
  rw [tryStart, size_handlerTests, graph_edge, Graph.size_edge, size_create]
  omega

theorem head?_handlerRemarks (h : Handler) :
    ((handlerRemarks 0 h).map Entry.remark).head? = some firstRemark := by
  obtain ⟨type, id, body⟩ := h
  rfl

/-- The tests of the handlers are there before the body of a `try` statement is added. -/
theorem knows_tryStart (hs : List Handler) (orelse : List Stmt) (hb : b.Takes loop test) :
    Calm b (tryStart hs orelse b) ∧
      (tryStart hs orelse b).Knows loop (if hs.isEmpty then none else some (b.graph.size + 1)) := by
  have hcalm : Calm b (tryStart hs orelse b) :=
    (((Calm.refl b).create _).edge hb.accepts.opened _).handlerTests _ _ _ _ (Nat.le_succ _)
  refine ⟨hcalm, { (hb.knows.keeps hcalm.keeps).away with test := fun t ht => ?_ }⟩
  cases hs with
  | nil => exact nomatch ht
  | cons h hs =>
    obtain rfl := Option.some.inj ht
    obtain ⟨hsettled, hentries⟩ := entries_tryStart h hs orelse hb.accepts.lt
    exact ⟨hsettled.1, by rw [hentries, head?_handlerRemarks]⟩

theorem Opens.block_done {k done : Nat} {b₀ : Builder} {rooms : List Room}
    (h : Opens b k b₀ rooms done) (hb : b.Accepts) : done < (b₀.fillRooms rooms).graph.size ∧
      (b₀.fillRooms rooms).graph.block done = {} := by
  have hdone : done ∈ rooms.map Room.start ++ [done] := by simp
  exact (h.filled (List.Subset.refl _) hdone fun r hr =>
    Nat.ne_of_lt (h.start_lt_done hr)).block_eq_empty hb.lt (h.range done hdone)

/-- The test of a case, and the builder that adds its body. -/
theorem takes_case (hknows : b.Knows loop none) (i : Nat) {before : Nat} (p : Pattern)
    (guard : Option Expr) (hlt : before < b.graph.size)
    (hopen : (b.graph.block before).terminated = false) :
    Calm b ((b.caseStart i before p guard).goto (b.graph.size + 1)) ∧
      ((b.caseStart i before p guard).goto (b.graph.size + 1)).Takes loop none ∧
      ((b.caseStart i before p guard).goto (b.graph.size + 1)).point =
        ⟨b.graph.size + 1, b.graph.size + 2⟩ := by
  have hcalm := (Calm.refl b).caseStart hopen i p guard
  have hsize := size_caseStart i before p guard b
  obtain ⟨-, hempty⟩ := accepts_case i p guard hlt
  refine ⟨hcalm.goto _, .goto (hknows.keeps hcalm.keeps) (by omega) hempty, ?_⟩
  rw [Builder.point, current_goto, graph_goto, hsize]

end

/-! ## All statements -/

mutual

theorem follows_stmt (loop : Option Loop) (test : Option Nat) (s : Stmt) :
    Follows loop test (Layout.ofStmt loop test s) (stmt loop s) := by
  intro qs b hb hqs
  cases s
  case ret x value =>
    rw [stmt]
    exact follows_jump loop test rfl rfl qs b hb hqs
  case raise x exc cause =>
    rw [stmt]
    exact follows_jump loop test rfl rfl qs b hb hqs
  case breakLoop x =>
    rw [stmt]
    exact follows_jump loop test rfl rfl qs b hb hqs
  case continueLoop x =>
    rw [stmt]
    exact follows_jump loop test rfl rfl qs b hb hqs
  case branch x cond body orelse =>
    have hopens := opens_branch hb.accepts.lt cond (sparing_stmts loop body) (sparing_stmts loop orelse)
    have hcalm : Calm b ((b.create 3).condition cond b.graph.size (b.graph.size + 1)) :=
      ((Calm.refl b).create 3).condition cond _ _ (by rw [current_create]; exact hb.accepts.opened)
    have hknows := (hb.knows.keeps hcalm.keeps).away
    have hsize := size_condition cond b.graph.size (b.graph.size + 1) (b.create 3)
    rw [size_create] at hsize
    rw [Layout.ofStmt, Builder.point] at hqs ⊢
    dsimp only at hqs ⊢
    rw [stmt_branch]
    rw [← hsize] at hqs ⊢
    exact hopens.placed hb.accepts hcalm
      (.cons ⟨rfl, loop, none, hknows, follows_stmts loop none body⟩
        (.cons ⟨rfl, loop, none, hknows, follows_stmts loop none orelse⟩ .nil)) hqs
  case whileLoop x cond body orelse =>
    have hopens := @opens_loop loop b hb.accepts.lt (condition cond)
      (fun h hc hnew => h.condition cond _ _ hc hnew) _ _
      (fun loop => sparing_stmts loop body) (sparing_stmts loop orelse)
    rw [stmt_whileLoop]
    exact placed_loop hb hopens (fun h hc => h.condition cond _ _ hc) (size_condition cond _ _ _)
      (fun loop => follows_stmts loop none body) (follows_stmts loop none orelse) hqs
  case forLoop x isAsync target iter body orelse =>
    have hopens := @opens_loop loop b hb.accepts.lt (eachStart iter)
      (fun h hc _ => ((h.append hc _).edge hc _).edge hc _) _ _
      (fun loop => sparing_stmts loop body) (sparing_stmts loop orelse)
    rw [stmt_forLoop]
    exact placed_loop (k := 0) hb hopens (fun h hc => ((h.append hc (by simp)).edge hc _).edge hc _)
      (by simp [eachStart]) (fun loop => follows_stmts loop none body)
      (follows_stmts loop none orelse) hqs
  case withBlock x isAsync items body =>
    have hopens := opens_with hb.accepts.lt items (sparing_stmts loop body)
    have hcontexts : items.map (fun w => Entry.expr w.context) =
        (items.map WithItem.context).map .expr := (List.map_map ..).symm
    have hcalm : Calm b (withStart items b) := by
      rw [withStart, hcontexts]
      exact (((Calm.refl b).create 2).appendExprs hb.accepts.opened _).edge hb.accepts.opened _
    have hsize : (withStart items b).graph.size = b.graph.size + 2 := by simp [withStart]
    have hknows := (hb.knows.keeps hcalm.keeps).away
    rw [Layout.ofStmt, Builder.point] at hqs ⊢
    dsimp only at hqs ⊢
    rw [stmt_withBlock]
    rw [← hsize] at hqs ⊢
    exact hopens.placed hb.accepts hcalm
      (.cons ⟨rfl, loop, none, hknows, follows_stmts loop none body⟩ .nil) hqs
  case tryBlock x isStar body hs orelse finalbody =>
    have hopens := opens_tryBlock loop body hs orelse hb.accepts
    obtain ⟨hcalm, hknows⟩ := knows_tryStart hs orelse hb
    have hsize := size_tryStart hs orelse b
    rw [Layout.ofStmt, Builder.point] at hqs ⊢
    dsimp only at hqs ⊢
    rw [stmt_tryBlock]
    rw [← hsize] at hqs ⊢
    have hsuites := hopens.placed hb.accepts hcalm (.cons ⟨rfl, loop, _, hknows,
      follows_tryStmts loop _ body⟩ (List.rel_append (fits_handlers hknows.away _ _ hs) (by
        split
        · exact .nil
        · exact .cons ⟨rfl, loop, none, hknows.away, follows_stmts loop none orelse⟩ .nil)))
      fun p hp => hqs (List.mem_append_left _ hp)
    obtain ⟨hlt, hempty⟩ := hopens.block_done hb.accepts
    have hknows' := (hb.knows.keeps hsuites.keeps).away
    have hfinal := follows_stmts loop none finalbody qs _
      ⟨.goto hlt hempty, hknows', .inl (congrArg Block.successors hempty)⟩ (by
        rw [hsuites.point]
        exact fun p hp => hqs (List.mem_append_right _ hp))
    rw [hsuites.point] at hfinal
    exact hsuites.trans hfinal
  case matchBlock x subject cs =>
    have hcalm : Calm b ((b.append b.current (.expr subject)).create 1) :=
      ((Calm.refl b).append hb.accepts.opened (by simp)).create 1
    have hsize : ((b.append b.current (.expr subject)).create 1).graph.size = b.graph.size + 1 := by
      simp
    have hcases := placed_cases loop qs b.graph.size 0 cs (hb.knows.keeps hcalm.keeps).away
      (Nat.lt_of_lt_of_le hb.accepts.lt hcalm.size) (hcalm.opened _ hb.accepts.opened).1
    rw [stmt, current_append, graph_append, Graph.size_append]
    rw [hsize] at hcases
    exact (hcases hqs).after hcalm
  all_goals
    rw [stmt]
    · exact follows_append loop test rfl qs b hb hqs
    all_goals simp

theorem follows_stmts (loop : Option Loop) (test : Option Nat) (ss : List Stmt) :
    Follows loop test (Layout.ofStmts loop test ss) (stmts loop ss) := by
  intro qs b hb hqs
  cases ss with
  | nil => exact (Calm.refl b).placed
  | cons s rest =>
    rw [stmts, if_neg (by simp [hb.accepts.opened])]
    rw [Layout.ofStmts] at hqs ⊢
    exact placed_cons hb (follows_stmt loop test s) (follows_stmts loop test rest)
      (fun _ => stmts_of_isTerminated) hqs

theorem follows_tryStmts (loop : Option Loop) (test : Option Nat) (ss : List Stmt) :
    Follows loop test (Layout.ofStmts loop test ss) (tryStmts loop test ss) := by
  intro qs b hb hqs
  cases ss with
  | nil => exact (Calm.refl b).placed
  | cons s rest =>
    obtain ⟨hcalm, hpoint, hdispatch⟩ := hb.dispatch s
    rw [Layout.ofStmts, ← hpoint] at hqs ⊢
    rw [tryStmts_cons hb.accepts]
    exact (placed_cons hdispatch (follows_stmt loop test s) (follows_tryStmts loop test rest)
      (fun _ => tryStmts_of_isTerminated) hqs).after hcalm

theorem fits_handlers {loop : Option Loop} {b : Builder} (hknows : b.Knows loop none)
    (done i : Nat) : ∀ hs : List Handler,
      List.Forall₂ (Fits b) (handlerRooms loop done i hs) (Layout.ofHandlers loop i hs)
  | [] => .nil
  | .mk _ _ body :: rest =>
    .cons ⟨rfl, loop, none, hknows, follows_stmts loop none body⟩
      (fits_handlers hknows done (i + 1) rest)

theorem placed_cases {before : Nat} (loop : Option Loop) (qs : List Slot) (done i : Nat) :
    ∀ (cs : List MatchCase) {b : Builder}, b.Knows loop none → before < b.graph.size →
      (b.graph.block before).terminated = false →
      (Layout.ofCases loop done cs b.graph.size).1 ⊆ qs →
      Placed qs (Layout.ofCases loop done cs b.graph.size) b
        ((b.cases loop done i before cs).goto done)
  | [], b, _, _, hopen, _ => by
    rw [Builder.cases]
    have hplaced : Placed qs ([], ((b.edge before done).goto done).point) b
        ((b.edge before done).goto done) :=
      (((Calm.refl b).edge hopen done).goto done).placed
    rw [Builder.point, graph_goto, graph_edge, Graph.size_edge] at hplaced
    exact hplaced
  | .mk p guard body :: rest, b, hknows, hbefore, hopen, hqs => by
    obtain ⟨hcalm, htakes, hpoint⟩ := takes_case hknows i p guard hbefore hopen
    have hbody := follows_stmts loop none body qs _ htakes (by
      rw [hpoint]
      exact fun p hp => hqs (List.mem_append_left _ hp))
    have hspares := sparing_stmts loop body _ htakes.accepts.lt
    rw [cases_cons]
    generalize (b.caseStart i before p guard).goto (b.graph.size + 1) = c
      at hcalm htakes hpoint hbody hspares ⊢
    rw [hpoint] at hbody
    have hflow := (Calm.refl (stmts loop body c)).flowTo done
    have hsize : (flowTo done (stmts loop body c)).graph.size =
        (Layout.ofStmts loop none body ⟨b.graph.size + 1, b.graph.size + 2⟩).2.size := by
      rw [size_flowTo]
      exact congrArg Point.size hbody.point
    -- the next test is led to from the test of this case, which the body leaves as it is
    have htest : ((flowTo done (stmts loop body c)).graph.block b.graph.size).terminated = false := by
      have hsettled : c.Settled b.graph.size := by
        have hcurrent : c.current = b.graph.size + 1 := congrArg Point.block hpoint
        have hcsize : c.graph.size = b.graph.size + 2 := congrArg Point.size hpoint
        exact ⟨by omega, fun heq => absurd (heq.trans hcurrent) (by omega)⟩
      obtain ⟨-, hblock⟩ := hspares.settled _ hsettled id
      have hopen' := (hcalm.opened b.graph.size (Calm.new (Nat.le_refl _))).1
      exact (hflow.opened _ (hblock ▸ hopen')).1
    have hgrown := Nat.le_trans hspares.size hflow.size
    have hlt : b.graph.size < c.graph.size := by
      have hcsize : c.graph.size = b.graph.size + 2 := congrArg Point.size hpoint
      omega
    have hfirst := (hbody.after hcalm).calm hflow
    have hnext := placed_cases loop qs done (i + 1) rest
      (hknows.keeps hfirst.keeps) (Nat.lt_of_lt_of_le hlt hgrown) htest (by
        rw [hsize]
        exact fun p hp => hqs (List.mem_append_right _ hp))
    rw [hsize] at hnext
    exact hfirst.trans hnext

end

end Builder

/-! ## Functions -/

theorem tidy_ofBody (body : List Stmt) :
    (∀ p ∈ slots body, p.Stands (Graph.ofBody body)) ∧
      ∀ i, ((Graph.ofBody body).block i).Tidy (slots body) i := by
  have hknows : Builder.Knows none none {} :=
    ⟨by decide, fun _ hl => (nomatch hl), fun _ ht => (nomatch ht)⟩
  have htakes : Builder.Takes none none {} :=
    ⟨⟨by decide, by decide⟩, hknows, .inl (congrArg Block.successors (Graph.block_empty entryBlock))⟩
  have hplaced := Builder.follows_stmts none none body (slots body) {} htakes (List.Subset.refl _)
  have hflow := (Builder.Calm.refl (Builder.stmts none body {})).flowTo exitBlock
  have hempty : ({} : Builder).Tidy (slots body) := fun i => by
    rw [show ({} : Builder).graph.block i = {} from Graph.block_empty i]
    exact .opened rfl noJump_nil
  exact ⟨fun p hp => hflow.keeps.stands (hplaced.stands p hp), hflow.tidy (hplaced.tidy hempty)⟩

/-- In the graph of a function, every live simple statement stands in the block of its slot. A block
is terminated just if its last entry jumps, and no other entry of it does. A terminated block leads
to the target of the jump in its slot and at most to one block besides: the test of the first
handler if the jump stands directly in the body of a `try` statement with handlers. -/
theorem successors_ofFunction (ignoreDocstrings : Bool) (body : List Stmt) :
    let g := Graph.ofFunction ignoreDocstrings body
    let ps := slots (if ignoreDocstrings then withoutDocstring body else body)
    ps.map Slot.stmt = Live.ofStmts (if ignoreDocstrings then withoutDocstring body else body) ∧
    (∀ p ∈ ps, p.Stands g) ∧ ∀ i,
      ((g.block i).terminated = true ↔
        ∃ s, (g.block i).entries.getLast? = some (.stmt s) ∧ isJump s = true) ∧
      (∀ s, .stmt s ∈ (g.block i).entries.dropLast → isJump s = false) ∧
      ((g.block i).terminated = true → ∃ p ∈ ps, p.block = i ∧
        (g.block i).entries.getLast? = some (.stmt p.stmt) ∧
        ∃ further : Option Nat, (∀ t ∈ further, p.test = some t) ∧
          (g.block i).successors = insertNumber p.target further.toList) := by
  intro g ps
  obtain ⟨hstands, htidy⟩ := tidy_ofBody (if ignoreDocstrings then withoutDocstring body else body)
  exact ⟨map_stmt_slots _, hstands, fun i =>
    ⟨(htidy i).terminated_iff, (htidy i).noJump_dropLast, (htidy i).successors_of_terminated⟩⟩

/-- The loop has the header 2 and ends at 4; the handler is tested in block 6. -/
example :
    let body := (Parsed.ofSource (utf8
      "def f():\n while a:\n  try:\n   g()\n   break\n  except:\n   continue\n return\n") 64).module.body
    ((slots (body.flatMap Stmt.functionBody)).filter fun p => isJump p.stmt).map
      (fun p => (p.block, p.target, p.test)) = [(5, 4, some 6), (7, 2, none), (4, 1, none)] := by
  decide +kernel

end CloneScout.Flow
