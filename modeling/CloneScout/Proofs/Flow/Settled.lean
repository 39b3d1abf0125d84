import CloneScout.Proofs.Flow.Weights

/-!
# Settled blocks

A block that is not the current one, or that ends with a jump, takes no statement until the builder
goes to it. What is added to a graph leaves such blocks as they are, except for those that a compound
statement has opened itself and goes on to fill: its rooms. So the blocks of a part of a statement
stay in the finished graph what they are when the part is finished: `Builder.Within`.
-/

namespace CloneScout.Flow.Builder

/-! ## What is left as it is -/

/-- The block exists and takes no statement unless the builder goes to it. -/
def Settled (b : Builder) (i : Nat) : Prop :=
  i < b.graph.size ∧ (i = b.current → b.isTerminated = true)

/-- `b` has become `c`, and the settled blocks have been left as they were, except for `S`. -/
structure Spares (S : Nat → Prop) (b c : Builder) : Prop where
  size : b.graph.size ≤ c.graph.size
  lt : c.current < c.graph.size
  settled : ∀ i, b.Settled i → ¬ S i → c.Settled i ∧ c.graph.block i = b.graph.block i

section

variable {S T : Nat → Prop} {b c d : Builder} {i : Nat}

theorem Spares.refl (h : b.current < b.graph.size) : Spares S b b :=
  ⟨Nat.le_refl _, h, fun _ hi _ => ⟨hi, rfl⟩⟩

theorem Spares.trans (h : Spares S b c) (h' : Spares S c d) : Spares S b d where
  size := Nat.le_trans h.size h'.size
  lt := h'.lt
  settled i hi hS := by
    obtain ⟨hc, hblock⟩ := h.settled i hi hS
    obtain ⟨hd, hblock'⟩ := h'.settled i hc hS
    exact ⟨hd, hblock'.trans hblock⟩

theorem Spares.mono (h : Spares S b c) (hST : ∀ i, S i → T i) : Spares T b c :=
  { h with settled := fun i hi hT => h.settled i hi fun hS => hT (hST i hS) }

/-- An open builder may change its current block and the blocks it opens. -/
theorem Spares.own (h : Spares (fun i => b.Owns i ∨ S i) b c) (hopen : b.isTerminated = false) :
    Spares S b c := by
  refine { h with settled := fun i hi hS => h.settled i hi fun howns => ?_ }
  rcases howns with (rfl | hle) | hin
  · exact absurd (hi.2 rfl) (by simp [hopen])
  · exact absurd hi.1 (Nat.not_lt.mpr hle)
  · exact hS hin

/-- Only blocks of `S` change, and the current block is the same. -/
theorem Spares.change (h : Spares S b c) (hsize : c.graph.size ≤ d.graph.size)
    (hcurrent : d.current = c.current)
    (hblock : ∀ i, ¬ S i → d.graph.block i = c.graph.block i) : Spares S b d where
  size := Nat.le_trans h.size hsize
  lt := by
    rw [hcurrent]
    exact Nat.lt_of_lt_of_le h.lt hsize
  settled i hi hS := by
    obtain ⟨⟨hlt, hend⟩, hsame⟩ := h.settled i hi hS
    refine ⟨⟨Nat.lt_of_lt_of_le hlt hsize, fun hi => ?_⟩, (hblock i hS).trans hsame⟩
    rw [hcurrent] at hi
    have hterminated := hend hi
    unfold isTerminated Graph.isTerminated at hterminated ⊢
    rwa [hcurrent, ← hi, hblock i hS, hi]

theorem Spares.create (h : Spares S b c) (n : Nat) : Spares S b (c.create n) :=
  h.change (by simp) (by simp) fun i _ => block_create n i c

theorem Spares.edge (h : Spares S b c) (hi : S i) (j : Nat) : Spares S b (c.edge i j) :=
  h.change (by simp) rfl fun k hk => Graph.block_edge_of_ne fun heq => hk (heq ▸ hi)

theorem Spares.append (h : Spares S b c) (hi : S i) (e : Entry) : Spares S b (c.append i e) :=
  h.change (by simp) rfl fun k hk => Graph.block_append_of_ne e fun heq => hk (heq ▸ hi)

theorem Spares.appendAll (h : Spares S b c) (hi : S i) (es : Trace) :
    Spares S b (c.appendAll i es) :=
  h.change (by simp) (by simp) fun k hk => by
    have hne : k ≠ i := fun heq => hk (heq ▸ hi)
    exact block_appendAll_of_ne hne es c

theorem Spares.jump (h : Spares S b c) (hc : S c.current) (s : Stmt) (j : Nat) :
    Spares S b (c.jump s j) := by
  refine h.change (by simp [Builder.jump]) rfl fun i hi => ?_
  have hne : i ≠ c.current := fun heq => hi (heq ▸ hc)
  rw [Builder.jump, Graph.block_edge_of_ne hne, Graph.block_terminate_of_ne hne,
    Graph.block_append_of_ne _ hne]

theorem Spares.goto (h : Spares S b c) (hi : S i) (hlt : i < c.graph.size) :
    Spares S b (c.goto i) where
  size := h.size
  lt := hlt
  settled j hj hS := by
    obtain ⟨⟨hlt, -⟩, hblock⟩ := h.settled j hj hS
    refine ⟨⟨hlt, fun heq => ?_⟩, hblock⟩
    obtain rfl : j = i := heq
    exact absurd hi hS

theorem Spares.flowTo (h : Spares S b c) (j : Nat) : Spares S b (c.flowTo j) := by
  rw [Builder.flowTo]
  split
  · exact h
  · next hopen =>
    have hedge : Spares (fun i => c.Owns i ∨ S i) c (c.edge c.current j) :=
      (Spares.refl h.lt).edge (.inl (.inl rfl)) j
    exact h.trans (hedge.own (by simpa using hopen))

theorem Spares.operands (h : Spares S b c) (op : BoolOp) (yes no : Nat) (hi : S i)
    (hnew : ∀ j, c.graph.size ≤ j → S j) (values : List Expr) :
    Spares S b (c.operands op yes no i values) := by
  fun_induction Builder.operands op yes no i values c with
  | case1 => exact h
  | case2 i e c => exact ((h.append hi (.expr e)).edge hi yes).edge hi no
  | case3 i e rest c hrest next early c₁ ih =>
    refine ih ((((h.append hi (.expr e)).create 1).edge hi next).edge hi early)
      (hnew _ (Nat.le_refl _)) fun j hj => hnew j ?_
    simp only [c₁, graph_edge, Graph.size_edge, size_create, graph_append, Graph.size_append] at hj
    omega

theorem Spares.condition (h : Spares S b c) (test : Expr) (yes no : Nat) (hc : S c.current)
    (hnew : ∀ j, c.graph.size ≤ j → S j) : Spares S b (c.condition test yes no) := by
  unfold Builder.condition
  split
  · exact h.operands _ yes no hc hnew _
  · exact ((h.append hc _).edge hc yes).edge hc no

theorem Spares.handlerTests (h : Spares S b c) (done i test body : Nat) (hs : List Handler)
    (hS : ∀ j, test ≤ j → j < test + hs.length → S j) :
    Spares S b (c.handlerTests done i test body hs) := by
  induction hs generalizing i test body c with
  | nil => exact h
  | cons handler rest ih =>
    have htest : S test := hS test (Nat.le_refl _) (by simp)
    rw [Builder.handlerTests, appendRemarks_eq]
    refine ih (((h.appendAll htest _).edge htest body).edge htest _) _ _ _ fun j hj hlt => ?_
    exact hS j (by omega) (by rw [List.length_cons]; omega)

end

/-! ## Rooms -/

/-- A block that a compound statement opens, what is added there, and the block that follows. -/
structure Room where
  start : Nat
  fill : Builder → Builder
  stop : Nat

/-- Fills rooms one after the other. -/
def fillRooms (rooms : List Room) (b : Builder) : Builder :=
  rooms.foldl (fun b r => (r.fill (b.goto r.start)).flowTo r.stop) b

/-- What the function adds leaves the settled blocks as they were. -/
def Sparing (f : Builder → Builder) : Prop :=
  ∀ b : Builder, b.current < b.graph.size → Spares (fun _ => False) b (f b)

/-- The builder can take a statement. -/
structure Accepts (b : Builder) : Prop where
  lt : b.current < b.graph.size
  opened : b.isTerminated = false

/-- Statements have been added to `b`; `e` says whether the last of them jumps. An edge out of the
current block belongs to the jump. -/
structure Steps (e : Bool) (b c : Builder) : Prop where
  spares : Spares (fun _ => False) b c
  isTerminated : c.isTerminated = e
  bare : e = false → (c.graph.block c.current).successors = [] ∨
    (c.graph.block c.current).successors = (b.graph.block b.current).successors

/-- From `c` on to `c'`, a part of what is added from `b` on to `b'` is added. -/
structure Within (b b' c c' : Builder) : Prop where
  size : b.graph.size ≤ c.graph.size
  owns : ∀ i, c.Owns i → b.Owns i
  spares : Spares (fun i => ¬ c.Owns i) c' b'

/-- A block of the builder's own that is not one of the given ones. -/
def Free (b : Builder) (T : List Nat) (i : Nat) : Prop := b.Owns i ∧ i ∉ T

/-- After `k` blocks have been opened and some of them prepared, the rooms and the block `done` are
still empty. -/
structure Opens (b : Builder) (k : Nat) (b₀ : Builder) (rooms : List Room) (done : Nat) : Prop where
  sorted : (rooms.map Room.start ++ [done]).Pairwise (· < ·)
  range : ∀ i ∈ rooms.map Room.start ++ [done], b.graph.size ≤ i ∧ i < b.graph.size + k
  prepared : Spares (b.Free (rooms.map Room.start ++ [done])) (b.create k) b₀
  sparing : ∀ r ∈ rooms, Sparing r.fill

section

variable {S : Nat → Prop} {b b' b₀ c c' d d' : Builder} {rooms : List Room} {k done : Nat}
  {e : Bool}

theorem Spares.run (h : Spares S b c) {f : Builder → Builder} (hf : Sparing f) : Spares S b (f c) :=
  h.trans ((hf c h.lt).mono fun _ => False.elim)

theorem Spares.fillRooms (h : Spares S b c)
    (hrooms : ∀ r ∈ rooms, S r.start ∧ r.start < c.graph.size ∧ Sparing r.fill) :
    Spares S b (c.fillRooms rooms) := by
  induction rooms generalizing c with
  | nil => exact h
  | cons r rest ih =>
    obtain ⟨⟨hS, hlt, hfill⟩, hrest⟩ := List.forall_mem_cons.mp hrooms
    have hgoto : Spares (fun i => i = r.start) c (c.goto r.start) := (Spares.refl h.lt).goto rfl hlt
    have hfirst := (hgoto.run hfill).flowTo r.stop
    refine ih (h.trans (hfirst.mono fun i hi => hi ▸ hS)) fun r' hr' => ?_
    obtain ⟨hS', hlt', hfill'⟩ := hrest r' hr'
    exact ⟨hS', Nat.lt_of_lt_of_le hlt' hfirst.size, hfill'⟩

theorem Within.trans (h : Within b b' c c') (h' : Within c c' d d') : Within b b' d d' where
  size := Nat.le_trans h.size h'.size
  owns i hi := h.owns i (h'.owns i hi)
  spares := h'.spares.trans (h.spares.mono fun i hi howns => hi (h'.owns i howns))

/-- A new block that nothing has been added to. -/
theorem Spares.block_eq_empty (hlt : b.current < b.graph.size) {i : Nat}
    (hi : b.graph.size ≤ i ∧ i < b.graph.size + k)
    (h : Spares (fun j => b.Owns j ∧ j ≠ i) (b.create k) c) :
    i < c.graph.size ∧ c.graph.block i = {} := by
  have hsettled : (b.create k).Settled i := by
    refine ⟨by simpa using hi.2, fun heq => ?_⟩
    rw [current_create] at heq
    omega
  obtain ⟨⟨hsize, -⟩, hblock⟩ := h.settled i hsettled fun hin => hin.2 rfl
  exact ⟨hsize, by rw [hblock, block_create, Graph.block_of_size_le hi.1]⟩

theorem Accepts.goto {i : Nat} (hlt : i < c.graph.size) (hempty : c.graph.block i = {}) :
    (c.goto i).Accepts where
  lt := hlt
  opened := congrArg Block.terminated hempty

/-- The builder goes on in a new block. -/
theorem Steps.of_goto (hb : b.Accepts) (hdone : b.graph.size ≤ done ∧ done < b.graph.size + k)
    (h : Spares (fun i => b.Owns i ∧ i ≠ done) (b.create k) c) : Steps false b (c.goto done) := by
  obtain ⟨hsize, hempty⟩ := h.block_eq_empty hb.lt hdone
  refine ⟨Spares.own ?_ hb.opened, (Accepts.goto hsize hempty).opened,
    fun _ => .inl (congrArg Block.successors hempty)⟩
  refine Spares.goto ?_ (.inl (.inr hdone.1)) hsize
  exact ((Spares.refl hb.lt).create k).trans (h.mono fun i hi => .inl hi.1)

theorem mem_starts {r : Room} (hr : r ∈ rooms) : r.start ∈ rooms.map Room.start ++ [done] :=
  List.mem_append_left _ (List.mem_map_of_mem hr)

namespace Opens

theorem lt_size (h : Opens b k b₀ rooms done) {i : Nat}
    (hi : i ∈ rooms.map Room.start ++ [done]) : i < b₀.graph.size :=
  Nat.lt_of_lt_of_le (by simpa using (h.range i hi).2) h.prepared.size

/-- Filling rooms changes none of the other blocks. -/
theorem filled (h : Opens b k b₀ rooms done) {filled : List Room} (hfilled : filled ⊆ rooms)
    {i : Nat} (hi : i ∈ rooms.map Room.start ++ [done]) (hother : ∀ r ∈ filled, r.start ≠ i) :
    Spares (fun j => b.Owns j ∧ j ≠ i) (b.create k) (b₀.fillRooms filled) := by
  refine (h.prepared.mono fun j hj => ⟨hj.1, fun heq => hj.2 (heq ▸ hi)⟩).fillRooms fun r hr => ?_
  have hmem : r.start ∈ rooms.map Room.start ++ [done] := mem_starts (hfilled hr)
  exact ⟨⟨.inr (h.range _ hmem).1, hother r hr⟩, h.lt_size hmem, h.sparing r (hfilled hr)⟩

theorem start_lt_done (h : Opens b k b₀ rooms done) {r : Room} (hr : r ∈ rooms) :
    r.start < done := by
  obtain ⟨-, -, hlt⟩ := List.pairwise_append.mp h.sorted
  exact hlt _ (List.mem_map_of_mem hr) _ (List.mem_singleton_self _)

theorem steps (h : Opens b k b₀ rooms done) (hb : b.Accepts) :
    Steps false b ((b₀.fillRooms rooms).goto done) := by
  have hdone : done ∈ rooms.map Room.start ++ [done] := by simp
  exact .of_goto hb (h.range done hdone) (h.filled (List.Subset.refl _) hdone fun r hr =>
    Nat.ne_of_lt (h.start_lt_done hr))

/-- What is added in a room starts in an empty block and is not changed when the other rooms are
filled. -/
theorem within (h : Opens b k b₀ rooms done) (hb : b.Accepts) {r : Room} (hr : r ∈ rooms) :
    ∃ c : Builder, c.Accepts ∧ c.graph.block c.current = {} ∧ b.graph.size + k ≤ c.graph.size ∧
      Within b ((b₀.fillRooms rooms).goto done) c (r.fill c) := by
  have hrange := h.range _ (mem_starts hr)
  have hlt := h.start_lt_done hr
  have hdone : done < b₀.graph.size := h.lt_size (by simp)
  obtain ⟨before, after, rfl⟩ := List.append_of_mem hr
  have hsorted : (before.map Room.start ++ r.start :: after.map Room.start).Pairwise (· < ·) := by
    have := (List.pairwise_append.mp h.sorted).1
    rwa [List.map_append, List.map_cons] at this
  obtain ⟨-, htail, hbefore⟩ := List.pairwise_append.mp hsorted
  have hafter := (List.pairwise_cons.mp htail).1
  have hsubset : before ⊆ before ++ r :: after := List.subset_append_left _ _
  have hprepared := h.filled hsubset (mem_starts hr) fun r' hr' =>
    Nat.ne_of_lt (hbefore _ (List.mem_map_of_mem hr') _ List.mem_cons_self)
  obtain ⟨hstart, hempty⟩ := hprepared.block_eq_empty hb.lt hrange
  have haccepts := Accepts.goto hstart hempty
  have hfill := h.sparing r hr _ haccepts.lt
  have hgrown : b₀.graph.size ≤ (b₀.fillRooms before).graph.size := by
    refine (Spares.fillRooms (S := fun _ => True) (.refl h.prepared.lt) fun r' hr' => ?_).size
    have hmem : r' ∈ before ++ r :: after := List.mem_append_left _ hr'
    exact ⟨trivial, h.lt_size (mem_starts hmem), h.sparing r' hmem⟩
  have hother {i : Nat} (hi : r.start < i ∧ i < b₀.graph.size) :
      ¬ ((b₀.fillRooms before).goto r.start).Owns i := by
    rintro (heq | hle)
    · exact Nat.ne_of_gt hi.1 heq
    · rw [graph_goto] at hle
      omega
  have hsize : b.graph.size + k ≤ (b₀.fillRooms before).graph.size := by
    have := h.prepared.size
    rw [size_create] at this
    omega
  refine ⟨_, haccepts, hempty, hsize, Nat.le_of_add_right_le hsize, fun i hi => ?_, ?_⟩
  · rcases hi with rfl | hi
    · exact .inr hrange.1
    · exact .inr (Nat.le_trans (Nat.le_of_add_right_le hsize) hi)
  · have hrooms : b₀.fillRooms (before ++ r :: after) =
        ((r.fill ((b₀.fillRooms before).goto r.start)).flowTo r.stop).fillRooms after := by
      rw [fillRooms, List.foldl_append, List.foldl_cons]
      rfl
    have hsize : b₀.graph.size ≤ (r.fill ((b₀.fillRooms before).goto r.start)).graph.size :=
      Nat.le_trans hgrown hfill.size
    have hrest := ((Spares.refl (S := fun i => ¬ ((b₀.fillRooms before).goto r.start).Owns i)
      hfill.lt).flowTo r.stop).fillRooms fun r' hr' => by
        have hmem : r' ∈ before ++ r :: after :=
          List.mem_append_right _ (List.mem_cons_of_mem _ hr')
        have hlt' := h.lt_size (mem_starts hmem)
        refine ⟨hother ⟨hafter _ (List.mem_map_of_mem hr'), hlt'⟩, ?_, h.sparing r' hmem⟩
        rw [size_flowTo]
        omega
    rw [hrooms]
    exact hrest.goto (hother ⟨hlt, hdone⟩)
      (Nat.lt_of_lt_of_le hdone (Nat.le_trans hsize hrest.size))

end Opens

end

/-! ## Compound statements -/

section

variable {loop : Option Loop} {b : Builder} {T : List Nat} {k : Nat}

theorem free_current (hlt : b.current < b.graph.size) (hT : ∀ i ∈ T, b.graph.size ≤ i) :
    b.Free T b.current :=
  ⟨.inl rfl, fun hmem => Nat.not_lt.mpr (hT _ hmem) hlt⟩

theorem free_new (hT : ∀ i ∈ T, i < b.graph.size + k) {j : Nat} (hj : b.graph.size + k ≤ j) :
    b.Free T j :=
  ⟨.inr (Nat.le_of_add_right_le hj), fun hmem => Nat.not_lt.mpr hj (hT _ hmem)⟩

def branchRooms (loop : Option Loop) (body orelse : List Stmt) (n : Nat) : List Room :=
  [⟨n, stmts loop body, n + 2⟩, ⟨n + 1, stmts loop orelse, n + 2⟩]

theorem opens_branch (hlt : b.current < b.graph.size) (test : Expr) {body orelse : List Stmt}
    (hbody : Sparing (stmts loop body)) (horelse : Sparing (stmts loop orelse)) :
    b.Opens 3 ((b.create 3).condition test b.graph.size (b.graph.size + 1))
      (branchRooms loop body orelse b.graph.size) (b.graph.size + 2) where
  sorted := by simp [branchRooms]
  range := by
    simp [branchRooms]
  prepared := by
    refine Spares.condition (.refl (by simp; omega)) test _ _ ?_ fun j hj => ?_
    · rw [current_create]
      exact free_current hlt (by simp [branchRooms])
    · rw [size_create] at hj
      exact free_new (k := 3) (by simp [branchRooms]) hj
  sparing := by simp [branchRooms, hbody, horelse]

/-- Where a loop goes on that has opened blocks from number `n` on. -/
def loopDone (orelse : List Stmt) (n : Nat) : Nat := if orelse.isEmpty then n + 2 else n + 3

def loopRooms (loop : Option Loop) (body orelse : List Stmt) (n : Nat) : List Room :=
  ⟨n + 1, stmts (some ⟨n, loopDone orelse n⟩) body, n⟩ ::
    if orelse.isEmpty then [] else [⟨n + 2, stmts loop orelse, loopDone orelse n⟩]

/-- A loop with this header: the block that each round starts with. -/
def loopStart (header : Nat → Nat → Builder → Builder) (orelse : List Stmt) (b : Builder) :
    Builder :=
  let n := b.graph.size
  header (n + 1) (if orelse.isEmpty then loopDone orelse n else n + 2)
    (((b.create (loopDone orelse n + 1 - n)).edge b.current n).goto n)

theorem opens_loop (hlt : b.current < b.graph.size) {header : Nat → Nat → Builder → Builder}
    (hheader : ∀ {S d c yes no}, Spares S d c → S c.current → (∀ j, c.graph.size ≤ j → S j) →
      Spares S d (header yes no c)) {body orelse : List Stmt}
    (hbody : ∀ loop, Sparing (stmts loop body)) (horelse : Sparing (stmts loop orelse)) :
    b.Opens (loopDone orelse b.graph.size + 1 - b.graph.size) (loopStart header orelse b)
      (loopRooms loop body orelse b.graph.size) (loopDone orelse b.graph.size) := by
  have hstarts : (loopRooms loop body orelse b.graph.size).map Room.start ++
      [loopDone orelse b.graph.size] =
        List.range' (b.graph.size + 1) (loopDone orelse b.graph.size - b.graph.size) := by
    by_cases hempty : orelse.isEmpty = true <;>
      simp [loopRooms, loopDone, hempty, List.range'_succ]
  have hmem {i : Nat} (hi : i ∈ List.range' (b.graph.size + 1)
      (loopDone orelse b.graph.size - b.graph.size)) :
      b.graph.size < i ∧ i ≤ loopDone orelse b.graph.size := by
    rw [List.mem_range'_1] at hi
    omega
  have hdone : b.graph.size + 2 ≤ loopDone orelse b.graph.size := by
    unfold loopDone
    split <;> omega
  refine ⟨?_, fun i hi => ?_, ?_, fun r hr => ?_⟩
  · rw [hstarts]
    exact List.pairwise_lt_range' _
  · rw [hstarts] at hi
    have := hmem hi
    omega
  · rw [hstarts]
    have hagain : b.Free (List.range' (b.graph.size + 1)
        (loopDone orelse b.graph.size - b.graph.size)) b.graph.size :=
      ⟨.inr (Nat.le_refl _), fun hi => Nat.lt_irrefl _ (hmem hi).1⟩
    have hcurrent := free_current hlt fun i hi => Nat.le_of_lt (hmem hi).1
    have hcreate : (b.create (loopDone orelse b.graph.size + 1 - b.graph.size)).current <
        (b.create (loopDone orelse b.graph.size + 1 - b.graph.size)).graph.size := by
      simp only [current_create, size_create]
      omega
    refine hheader (((Spares.refl hcreate).edge hcurrent _).goto hagain ?_) hagain fun j hj => ?_
    · simp only [graph_edge, Graph.size_edge, size_create]
      omega
    simp only [graph_goto, graph_edge, Graph.size_edge, size_create] at hj
    refine free_new (k := loopDone orelse b.graph.size + 1 - b.graph.size) (fun i hi => ?_) hj
    have := hmem hi
    omega
  · rcases List.mem_cons.mp hr with rfl | hr
    · exact hbody _
    · split at hr
      · exact absurd hr List.not_mem_nil
      · rw [List.mem_singleton.mp hr]
        exact horelse

def tryDone (hs : List Handler) (orelse : List Stmt) (n : Nat) : Nat :=
  let other := n + 1 + hs.length + hs.length
  if orelse.isEmpty then other else other + 1

theorem lt_tryDone (hs : List Handler) (orelse : List Stmt) (n : Nat) :
    n + hs.length + hs.length < tryDone hs orelse n := by
  simp only [tryDone]
  split <;> omega

/-- The bodies of handlers in blocks from number `i` on. -/
def handlerRooms (loop : Option Loop) (done : Nat) : (i : Nat) → List Handler → List Room
  | _, [] => []
  | i, .mk _ _ body :: rest => ⟨i, stmts loop body, done⟩ :: handlerRooms loop done (i + 1) rest

theorem fillRooms_handlers (loop : Option Loop) (done i : Nat) (hs : List Handler) (b : Builder) :
    b.fillRooms (handlerRooms loop done i hs) = b.handlerBodies loop done i hs := by
  induction hs generalizing i b with
  | nil => rfl
  | cons h rest ih =>
    obtain ⟨_, _, body⟩ := h
    rw [handlerBodies, ← ih]
    rfl

theorem starts_handlerRooms (loop : Option Loop) (done i : Nat) (hs : List Handler) :
    (handlerRooms loop done i hs).map Room.start = List.range' i hs.length := by
  induction hs generalizing i with
  | nil => rfl
  | cons h rest ih =>
    obtain ⟨_, _, body⟩ := h
    rw [handlerRooms, List.map_cons, ih, List.length_cons, List.range'_succ]

def tryRooms (loop : Option Loop) (body : List Stmt) (hs : List Handler) (orelse : List Stmt)
    (n : Nat) : List Room :=
  let other := n + 1 + hs.length + hs.length
  let done := tryDone hs orelse n
  ⟨n, tryStmts loop (if hs.isEmpty then none else some (n + 1)) body,
      if orelse.isEmpty then done else other⟩ ::
    (handlerRooms loop done (n + 1 + hs.length) hs ++
      if orelse.isEmpty then [] else [⟨other, stmts loop orelse, done⟩])

/-- A `try` statement with its handlers tested and nothing else added. -/
def tryStart (hs : List Handler) (orelse : List Stmt) (b : Builder) : Builder :=
  let n := b.graph.size
  ((b.create (tryDone hs orelse n + 1 - n)).edge b.current n).handlerTests (tryDone hs orelse n) 0
    (n + 1) (n + 1 + hs.length) hs

theorem stmt_branch (loop : Option Loop) (x : Extent) (test : Expr) (body orelse : List Stmt)
    (b : Builder) : b.stmt loop (.branch x test body orelse) =
      (((b.create 3).condition test b.graph.size (b.graph.size + 1)).fillRooms
        (branchRooms loop body orelse b.graph.size)).goto (b.graph.size + 2) := by
  rw [stmt]
  rfl

theorem stmt_whileLoop (loop : Option Loop) (x : Extent) (test : Expr) (body orelse : List Stmt)
    (b : Builder) : b.stmt loop (.whileLoop x test body orelse) =
      ((loopStart (condition test) orelse b).fillRooms
        (loopRooms loop body orelse b.graph.size)).goto (loopDone orelse b.graph.size) := by
  rw [stmt, loopStart, loopRooms, loopDone]
  by_cases hempty : orelse.isEmpty = true
  · simp only [if_pos hempty]
    rfl
  · simp only [if_neg hempty]
    rfl

def eachStart (iter : Expr) (yes no : Nat) (b : Builder) : Builder :=
  ((b.append b.current (.expr iter)).edge b.current yes).edge b.current no

theorem stmt_forLoop (loop : Option Loop) (x : Extent) (isAsync : Bool) (target iter : Expr)
    (body orelse : List Stmt) (b : Builder) :
    b.stmt loop (.forLoop x isAsync target iter body orelse) =
      ((loopStart (eachStart iter) orelse b).fillRooms
        (loopRooms loop body orelse b.graph.size)).goto (loopDone orelse b.graph.size) := by
  rw [stmt, loopStart, loopRooms, loopDone]
  by_cases hempty : orelse.isEmpty = true
  · simp only [if_pos hempty]
    rfl
  · simp only [if_neg hempty]
    rfl

def withStart (items : List WithItem) (b : Builder) : Builder :=
  ((b.create 2).appendAll b.current (items.map fun w => .expr w.context)).edge b.current
    b.graph.size

def withRooms (loop : Option Loop) (body : List Stmt) (n : Nat) : List Room :=
  [⟨n, stmts loop body, n + 1⟩]

theorem stmt_withBlock (loop : Option Loop) (x : Extent) (isAsync : Bool) (items : List WithItem)
    (body : List Stmt) (b : Builder) : b.stmt loop (.withBlock x isAsync items body) =
      ((withStart items b).fillRooms (withRooms loop body b.graph.size)).goto
        (b.graph.size + 1) := by
  rw [stmt, foldl_withItems, current_appendAll, current_create]
  rfl

theorem handlerTests_goto (done i test body n : Nat) (hs : List Handler) (b : Builder) :
    (b.goto n).handlerTests done i test body hs = (b.handlerTests done i test body hs).goto n := by
  have happend (j : Nat) (es : Trace) (c : Builder) :
      (c.goto n).appendAll j es = (c.appendAll j es).goto n := by
    induction es generalizing c with
    | nil => rfl
    | cons e es ih => exact ih (c.append j e)
  induction hs generalizing i test body b with
  | nil => rfl
  | cons h rest ih =>
    have hedge (j k : Nat) (c : Builder) : (c.goto n).edge j k = (c.edge j k).goto n := rfl
    rw [handlerTests, handlerTests, appendRemarks_eq, appendRemarks_eq, happend, hedge, hedge, ih]

theorem stmt_tryBlock (loop : Option Loop) (x : Extent) (isStar : Bool) (body : List Stmt)
    (hs : List Handler) (orelse finalbody : List Stmt) (b : Builder) :
    b.stmt loop (.tryBlock x isStar body hs orelse finalbody) =
      stmts loop finalbody (((tryStart hs orelse b).fillRooms
        (tryRooms loop body hs orelse b.graph.size)).goto (tryDone hs orelse b.graph.size)) := by
  have happend (rooms rooms' : List Room) (c : Builder) :
      c.fillRooms (rooms ++ rooms') = (c.fillRooms rooms).fillRooms rooms' := List.foldl_append
  rw [stmt, handlerTests_goto, tryStart, tryRooms, tryDone]
  by_cases hempty : orelse.isEmpty = true
  · simp only [if_pos hempty, List.append_nil]
    rw [← fillRooms_handlers]
    rfl
  · simp only [if_neg hempty]
    rw [← List.cons_append, happend, ← fillRooms_handlers]
    rfl

theorem opens_with (hlt : b.current < b.graph.size) (items : List WithItem) {body : List Stmt}
    (hbody : Sparing (stmts loop body)) :
    b.Opens 2 (withStart items b) (withRooms loop body b.graph.size) (b.graph.size + 1) where
  sorted := by simp [withRooms]
  range := by simp [withRooms]
  prepared := by
    have hcurrent := free_current hlt (T := (withRooms loop body b.graph.size).map Room.start ++
      [b.graph.size + 1]) (by simp [withRooms])
    have hcreate : (b.create 2).current < (b.create 2).graph.size := by
      simp only [current_create, size_create]
      omega
    exact ((Spares.refl hcreate).appendAll hcurrent _).edge hcurrent _
  sparing := by simp [withRooms, hbody]

theorem starts_tryRooms (loop : Option Loop) (body : List Stmt) (hs : List Handler)
    (orelse : List Stmt) (n : Nat) :
    (tryRooms loop body hs orelse n).map Room.start ++ [tryDone hs orelse n] =
      n :: List.range' (n + 1 + hs.length) (tryDone hs orelse n - n - hs.length) := by
  by_cases hempty : orelse.isEmpty = true
  · have hlen : tryDone hs orelse n - n - hs.length = hs.length + 1 := by
      simp only [tryDone, if_pos hempty]
      omega
    rw [hlen, List.range'_1_concat]
    simp [tryRooms, tryDone, hempty, starts_handlerRooms]
  · have hlen : tryDone hs orelse n - n - hs.length = hs.length + 1 + 1 := by
      simp only [tryDone, if_neg hempty]
      omega
    rw [hlen, List.range'_1_concat, List.range'_1_concat]
    simp [tryRooms, tryDone, hempty, starts_handlerRooms, Nat.add_assoc]

theorem opens_try (hlt : b.current < b.graph.size) {body : List Stmt} {hs : List Handler}
    {orelse : List Stmt} (hbody : ∀ test, Sparing (tryStmts loop test body))
    (hhandlers : ∀ done i, ∀ r ∈ handlerRooms loop done i hs, Sparing r.fill)
    (horelse : Sparing (stmts loop orelse)) :
    b.Opens (tryDone hs orelse b.graph.size + 1 - b.graph.size) (tryStart hs orelse b)
      (tryRooms loop body hs orelse b.graph.size) (tryDone hs orelse b.graph.size) := by
  have hstarts := starts_tryRooms loop body hs orelse b.graph.size
  have hmem {i : Nat} (hi : i ∈ b.graph.size :: List.range' (b.graph.size + 1 + hs.length)
      (tryDone hs orelse b.graph.size - b.graph.size - hs.length)) :
      i = b.graph.size ∨ b.graph.size + hs.length < i ∧ i ≤ tryDone hs orelse b.graph.size := by
    rw [List.mem_cons, List.mem_range'_1] at hi
    omega
  have hdone := lt_tryDone hs orelse b.graph.size
  refine ⟨?_, fun i hi => ?_, ?_, fun r hr => ?_⟩
  · rw [hstarts, List.pairwise_cons]
    refine ⟨fun i hi => ?_, List.pairwise_lt_range' _⟩
    rw [List.mem_range'_1] at hi
    omega
  · rw [hstarts] at hi
    have := hmem hi
    omega
  · rw [hstarts]
    have hcurrent := free_current hlt fun i hi => by
      have := hmem hi
      omega
    have hcreate : (b.create (tryDone hs orelse b.graph.size + 1 - b.graph.size)).current <
        (b.create (tryDone hs orelse b.graph.size + 1 - b.graph.size)).graph.size := by
      simp only [current_create, size_create]
      omega
    refine ((Spares.refl hcreate).edge hcurrent _).handlerTests _ _ _ _ _ fun j hj hj' => ?_
    refine ⟨.inr (by omega), fun hi => ?_⟩
    have := hmem hi
    omega
  · rcases List.mem_cons.mp hr with rfl | hr
    · exact hbody _
    · rcases List.mem_append.mp hr with hr | hr
      · exact hhandlers _ _ r hr
      · split at hr
        · exact absurd hr List.not_mem_nil
        · rw [List.mem_singleton.mp hr]
          exact horelse

/-! ## All statements -/

theorem steps_append {b : Builder} (hb : b.Accepts) (e : Entry) :
    Steps false b (b.append b.current e) where
  spares := Spares.own ((Spares.refl hb.lt).append (.inl (.inl rfl)) e) hb.opened
  isTerminated := by
    show ((b.graph.append b.current e).block b.current).terminated = false
    rw [Graph.block_append_self e hb.lt]
    exact hb.opened
  bare _ := by
    right
    rw [current_append, graph_append, Graph.block_append_self e hb.lt]

theorem block_jump {b : Builder} (hb : b.current < b.graph.size) (s : Stmt) {i : Nat}
    (hi : i < b.graph.size) : (b.jump s i).graph.block b.current =
      { entries := (b.graph.block b.current).entries ++ [.stmt s]
        successors := insertNumber i (b.graph.block b.current).successors
        terminated := true } := by
  rw [jump, Graph.block_edge_self (by simpa using hb) (by simpa using hi),
    Graph.block_terminate_self (by simpa using hb), Graph.block_append_self _ hb]

theorem steps_jump {b : Builder} (hb : b.Accepts) (s : Stmt) (i : Nat) :
    Steps true b (b.jump s i) where
  spares := Spares.own ((Spares.refl hb.lt).jump (.inl (.inl rfl)) s i) hb.opened
  isTerminated := by
    show ((((b.graph.append b.current (.stmt s)).terminate b.current).edge b.current i).block
      b.current).terminated = true
    rw [(Graph.block_edge _ _ _ _).2, Graph.block_terminate_self (by simpa using hb.lt)]
  bare h := nomatch h

theorem Steps.trans {e e' : Bool} {b c d : Builder} (h : Steps e b c) (h' : Steps e' c d)
    (he : e = false) : Steps e' b d where
  spares := h.spares.trans h'.spares
  isTerminated := h'.isTerminated
  bare hopen := by
    rcases h'.bare hopen with hbare | hsame
    · exact .inl hbare
    · rw [hsame]
      exact h.bare he

theorem Steps.accepts {b c : Builder} (h : Steps false b c) : c.Accepts :=
  ⟨h.spares.lt, h.isTerminated⟩

/-- Nothing is added behind a jump. -/
theorem sparing_of_steps {loop : Option Loop} {ss : List Stmt} {e : Bool}
    (h : ∀ {b : Builder}, b.Accepts → Steps e b (b.stmts loop ss)) : Sparing (stmts loop ss) := by
  intro b hlt
  cases hend : b.isTerminated with
  | true =>
    rw [stmts_of_isTerminated hend]
    exact .refl hlt
  | false => exact (h ⟨hlt, hend⟩).spares

/-- What a statement of a `try` body that can raise an exception leads to besides. -/
def dispatch (test : Option Nat) (s : Stmt) (b : Builder) : Builder :=
  match test with
  | some i => if canRaise s then b.edge b.current i else b
  | none => b

theorem tryStmts_cons {loop : Option Loop} {test : Option Nat} {s : Stmt} {rest : List Stmt}
    {b : Builder} (hb : b.Accepts) : b.tryStmts loop test (s :: rest) =
      tryStmts loop test rest (stmt loop s (b.dispatch test s)) := by
  rw [tryStmts.eq_def]
  exact if_neg (by simp [hb.opened])

theorem Accepts.dispatch {b : Builder} (hb : b.Accepts) (test : Option Nat) (s : Stmt) :
    Spares (fun _ => False) b (b.dispatch test s) ∧ (b.dispatch test s).Accepts := by
  have hedge (i : Nat) :
      Spares (fun _ => False) b (b.edge b.current i) ∧ (b.edge b.current i).Accepts :=
    ⟨Spares.own ((Spares.refl hb.lt).edge (.inl (.inl rfl)) i) hb.opened,
      by simpa using hb.lt, (isTerminated_edge b _ i).trans hb.opened⟩
  unfold Builder.dispatch
  split
  · split
    · exact hedge _
    · exact ⟨.refl hb.lt, hb⟩
  · exact ⟨.refl hb.lt, hb⟩

/-- The subject of a `match` statement stands in the current block. -/
theorem Accepts.matchStart {b : Builder} (hb : b.Accepts) (subject : Expr) :
    Spares (fun i => b.Owns i ∧ i ≠ b.graph.size) (b.create 1)
      ((b.append b.current (.expr subject)).create 1) := by
  have hcreate : (b.create 1).current < (b.create 1).graph.size := by
    rw [current_create, size_create]
    exact Nat.lt_succ_of_lt hb.lt
  refine (Spares.refl hcreate).change (by simp) (by simp) fun i hi => ?_
  have hne : i ≠ b.current := fun heq => hi ⟨.inl heq, heq ▸ Nat.ne_of_lt hb.lt⟩
  rw [block_create, block_create, graph_append, Graph.block_append_of_ne _ hne]

/-- The test of a case, with a new block for its body. -/
def caseStart (i before : Nat) (p : Pattern) (guard : Option Expr) (b : Builder) : Builder :=
  let test := b.graph.size
  (((b.create 2).edge before test).appendAll test
    ((caseRemarks i p).map .remark ++ guard.toList.map .expr)).edge test (test + 1)

theorem cases_cons (loop : Option Loop) (done i before : Nat) (p : Pattern) (guard : Option Expr)
    (body : List Stmt) (rest : List MatchCase) (b : Builder) :
    b.cases loop done i before (.mk p guard body :: rest) =
      cases loop done (i + 1) b.graph.size rest
        (flowTo done (stmts loop body
          ((caseStart i before p guard b).goto (b.graph.size + 1)))) := by
  rw [Builder.cases, elim_guard]
  rfl

theorem Spares.caseStart {S : Nat → Prop} {b c : Builder} {before : Nat} (h : Spares S b c)
    (hbefore : S before) (hnew : ∀ j, c.graph.size ≤ j → S j) (i : Nat) (p : Pattern)
    (guard : Option Expr) : Spares S b (c.caseStart i before p guard) := by
  have htest : S c.graph.size := hnew _ (Nat.le_refl _)
  exact (((h.create 2).edge hbefore _).appendAll htest _).edge htest _

theorem size_caseStart (i before : Nat) (p : Pattern) (guard : Option Expr) (b : Builder) :
    (b.caseStart i before p guard).graph.size = b.graph.size + 2 := by
  simp [Builder.caseStart]

mutual

theorem steps_stmt (loop : Option Loop) (s : Stmt) {b : Builder} (hb : b.Accepts) :
    Steps (ends s) b (b.stmt loop s) := by
  cases s
  case ret x value =>
    rw [stmt]
    exact steps_jump hb _ _
  case raise x exc cause =>
    rw [stmt]
    exact steps_jump hb _ _
  case breakLoop x =>
    rw [stmt]
    exact steps_jump hb _ _
  case continueLoop x =>
    rw [stmt]
    exact steps_jump hb _ _
  case branch x test body orelse =>
    rw [stmt_branch]
    exact (opens_branch hb.lt test (sparing_of_steps (steps_stmts loop body))
      (sparing_of_steps (steps_stmts loop orelse))).steps hb
  case whileLoop x test body orelse =>
    rw [stmt_whileLoop]
    exact (opens_loop hb.lt (fun h hc hnew => h.condition test _ _ hc hnew)
      (fun loop => sparing_of_steps (steps_stmts loop body))
      (sparing_of_steps (steps_stmts loop orelse))).steps hb
  case forLoop x isAsync target iter body orelse =>
    rw [stmt_forLoop]
    exact (opens_loop hb.lt (fun h hc _ => ((h.append hc _).edge hc _).edge hc _)
      (fun loop => sparing_of_steps (steps_stmts loop body))
      (sparing_of_steps (steps_stmts loop orelse))).steps hb
  case withBlock x isAsync items body =>
    rw [stmt_withBlock]
    exact (opens_with hb.lt items (sparing_of_steps (steps_stmts loop body))).steps hb
  case tryBlock x isStar body hs orelse finalbody =>
    rw [stmt_tryBlock]
    have hparts := (opens_try hb.lt (fun test => sparing_tryStmts loop test body)
      (fun done i => sparing_handlers loop done i hs)
      (sparing_of_steps (steps_stmts loop orelse))).steps hb
    exact hparts.trans (steps_stmts loop finalbody hparts.accepts) rfl
  case matchBlock x subject cs =>
    rw [stmt, current_append, graph_append, Graph.size_append]
    have hstart := hb.matchStart subject
    refine .of_goto hb (k := 1) ⟨Nat.le_refl _, by omega⟩
      (spares_cases loop _ 0 b.current cs _ hstart
      ⟨.inl rfl, Nat.ne_of_lt hb.lt⟩ fun j hj => ?_)
    rw [size_create, graph_append, Graph.size_append] at hj
    exact ⟨.inr (by omega), by omega⟩
  all_goals
    rw [stmt]
    · exact steps_append hb _
    all_goals simp

theorem steps_stmts (loop : Option Loop) (ss : List Stmt) {b : Builder} (hb : b.Accepts) :
    Steps (endsAny ss) b (b.stmts loop ss) := by
  cases ss with
  | nil => exact ⟨.refl hb.lt, hb.opened, fun _ => .inr rfl⟩
  | cons s rest =>
    rw [stmts, if_neg (by simp [hb.opened])]
    have hfirst := steps_stmt loop s hb
    rw [endsAny]
    cases hends : ends s with
    | true =>
      rw [hends] at hfirst
      rw [stmts_of_isTerminated hfirst.isTerminated]
      exact hfirst
    | false =>
      rw [hends] at hfirst
      exact hfirst.trans (steps_stmts loop rest hfirst.accepts) rfl

theorem sparing_tryStmts (loop : Option Loop) (test : Option Nat) (ss : List Stmt) :
    Sparing (tryStmts loop test ss) := by
  intro b hlt
  cases ss with
  | nil => exact .refl hlt
  | cons s rest =>
    cases hend : b.isTerminated with
    | true =>
      rw [tryStmts_of_isTerminated hend]
      exact .refl hlt
    | false =>
      have hb : b.Accepts := ⟨hlt, hend⟩
      rw [tryStmts_cons hb]
      exact (hb.dispatch test s).1.trans
        ((steps_stmt loop s (hb.dispatch test s).2).spares.run (sparing_tryStmts loop test rest))

theorem sparing_handlers (loop : Option Loop) (done i : Nat) : ∀ hs : List Handler,
    ∀ r ∈ handlerRooms loop done i hs, Sparing r.fill
  | [], _, hr => absurd hr List.not_mem_nil
  | .mk _ _ body :: rest, r, hr => by
    rcases List.mem_cons.mp hr with rfl | hr
    · exact sparing_of_steps (steps_stmts loop body)
    · exact sparing_handlers loop done (i + 1) rest r hr

theorem spares_cases {S : Nat → Prop} {b : Builder} (loop : Option Loop) (done i before : Nat) :
    ∀ (cs : List MatchCase) (c : Builder), Spares S b c → S before → (∀ j, c.graph.size ≤ j → S j) →
      Spares S b (c.cases loop done i before cs)
  | [], _, h, hbefore, _ => by
    rw [Builder.cases]
    exact h.edge hbefore done
  | .mk p guard body :: rest, c, h, hbefore, hnew => by
    rw [cases_cons]
    have hstart := h.caseStart hbefore hnew i p guard
    have hbody := ((hstart.goto (hnew _ (Nat.le_succ _)) (by rw [size_caseStart]; omega)).run
      (sparing_of_steps (steps_stmts loop body))).flowTo done
    refine spares_cases loop done (i + 1) c.graph.size rest _ hbody (hnew _ (Nat.le_refl _))
      fun j hj => hnew j ?_
    have hgoto : ((c.caseStart i before p guard).goto (c.graph.size + 1)).current <
        ((c.caseStart i before p guard).goto (c.graph.size + 1)).graph.size := by
      rw [graph_goto, size_caseStart, current_goto]
      omega
    have hsize := (sparing_of_steps (steps_stmts loop body) _ hgoto).size
    rw [graph_goto, size_caseStart] at hsize
    rw [size_flowTo] at hj
    omega

end

theorem sparing_stmts (loop : Option Loop) (ss : List Stmt) : Sparing (stmts loop ss) :=
  sparing_of_steps (steps_stmts loop ss)

end

end CloneScout.Flow.Builder
