import CloneScout.Proofs.Flow.Behaviour
import CloneScout.Proofs.Flow.Graph

/-!
# Paths of the graph of statements

The paths of the graph of statements have the traces of their runs. Each way to add statements to a
graph comes with the runs it stands for, whatever else is added later: `Builds`. Statements only
change the block they start in and blocks that they open themselves, so a later part of the graph
leaves the paths through an earlier one alone.
-/

namespace CloneScout.Flow

/-! ## What stays the same -/

/-- Of the blocks below `n`, at most block `c` has changed. -/
structure Graph.Grows (n c : Nat) (g g' : Graph) : Prop where
  size : g.size ≤ g'.size
  block : ∀ i < n, i ≠ c → g'.block i = g.block i

namespace Graph.Grows

variable {n c : Nat} {g g' g'' : Graph}

theorem refl (n c : Nat) (g : Graph) : Grows n c g g := ⟨Nat.le_refl _, fun _ _ _ => rfl⟩

theorem trans (h : Grows n c g g') (h' : Grows n c g' g'') : Grows n c g g'' where
  size := Nat.le_trans h.size h'.size
  block i hi hc := by rw [h'.block i hi hc, h.block i hi hc]

theorem mono {n' c' : Nat} (h : Grows n' c' g g') (hn : n ≤ n') (hc : c' = c ∨ n ≤ c') :
    Grows n c g g' where
  size := h.size
  block i hi hic := h.block i (by omega) (by omega)

theorem edge {i : Nat} (h : i = c ∨ n ≤ i) (g : Graph) (j : Nat) : Grows n c g (g.edge i j) where
  size := by simp
  block k hk hc := block_edge_of_ne (by omega)

theorem append {i : Nat} (h : i = c ∨ n ≤ i) (g : Graph) (e : Entry) :
    Grows n c g (g.append i e) where
  size := by simp
  block k hk hc := block_append_of_ne e (by omega)

theorem terminate {i : Nat} (h : i = c ∨ n ≤ i) (g : Graph) : Grows n c g (g.terminate i) where
  size := by simp
  block k hk hc := block_terminate_of_ne (by omega)

end Graph.Grows

namespace Builder

@[simp]
theorem graph_goto (i : Nat) (b : Builder) : (b.goto i).graph = b.graph := rfl

@[simp]
theorem current_goto (i : Nat) (b : Builder) : (b.goto i).current = i := rfl

@[simp]
theorem graph_edge (i j : Nat) (b : Builder) : (b.edge i j).graph = b.graph.edge i j := rfl

@[simp]
theorem current_edge (i j : Nat) (b : Builder) : (b.edge i j).current = b.current := rfl

@[simp]
theorem graph_append (i : Nat) (e : Entry) (b : Builder) :
    (b.append i e).graph = b.graph.append i e := rfl

@[simp]
theorem current_append (i : Nat) (e : Entry) (b : Builder) :
    (b.append i e).current = b.current := rfl

@[simp]
theorem size_create (n : Nat) (b : Builder) : (b.create n).graph.size = b.graph.size + n := by
  induction n generalizing b with
  | zero => rfl
  | succ n ih =>
    rw [create, ih, Graph.size_create]
    omega

@[simp]
theorem current_create (n : Nat) (b : Builder) : (b.create n).current = b.current := by
  induction n generalizing b with
  | zero => rfl
  | succ n ih => rw [create, ih]

@[simp]
theorem block_create (n i : Nat) (b : Builder) :
    (b.create n).graph.block i = b.graph.block i := by
  induction n generalizing b with
  | zero => rfl
  | succ n ih => rw [create, ih, Graph.block_create]

@[simp]
theorem current_flowTo (i : Nat) (b : Builder) : (b.flowTo i).current = b.current := by
  rw [flowTo]
  split <;> rfl

@[simp]
theorem size_flowTo (i : Nat) (b : Builder) : (b.flowTo i).graph.size = b.graph.size := by
  rw [flowTo]
  split
  · rfl
  · exact Graph.size_edge _ _ _

theorem grows_create (m c n : Nat) (b : Builder) :
    Graph.Grows m c b.graph (b.create n).graph where
  size := by simp
  block i _ _ := block_create n i b

theorem grows_flowTo {m c : Nat} {b : Builder} (h : b.current = c ∨ m ≤ b.current) (i : Nat) :
    Graph.Grows m c b.graph (b.flowTo i).graph := by
  rw [flowTo]
  split
  · exact .refl m c _
  · exact .edge h _ _

end Builder

/-! ## Paths from the middle of a block -/

namespace Graph

variable {G : Graph}

theorem path_iff {i : Nat} (hi : i ≠ exitBlock) {t : Trace} :
    G.Path i t ↔
      ∃ j ∈ (G.block i).successors, ∃ u, G.Path j u ∧ t = (G.block i).entries ++ u := by
  constructor
  · intro h
    cases h with
    | exit => exact absurd rfl hi
    | step hj hpath => exact ⟨_, hj, _, hpath, rfl⟩
  · rintro ⟨j, hj, u, hpath, rfl⟩
    exact .step hj hpath

theorem Path.entries_prefix {i : Nat} {t : Trace} (h : G.Path i t) : (G.block i).entries <+: t := by
  cases h with
  | exit => exact List.prefix_refl _
  | step => exact List.prefix_append _ _

/-- What is left of a path behind the first entries of its first block. -/
theorem path_append_iff {i : Nat} (hi : i ≠ exitBlock) {es es' t : Trace}
    (h : (G.block i).entries = es ++ es') :
    G.Path i (es ++ t) ↔ ∃ j ∈ (G.block i).successors, ∃ u, G.Path j u ∧ t = es' ++ u := by
  rw [path_iff hi, h]
  simp only [List.append_assoc, List.append_cancel_left_eq]

/-- A block that leads to two blocks. -/
theorem path_fork_iff {i : Nat} (j j' : Nat) (hi : i ≠ exitBlock) {es es' t : Trace}
    (hentries : (G.block i).entries = es ++ es')
    (hsuccessors : ∀ k, k ∈ (G.block i).successors ↔ k = j ∨ k = j') :
    G.Path i (es ++ t) ↔ ∃ u, (G.Path j u ∨ G.Path j' u) ∧ t = es' ++ u := by
  rw [path_append_iff hi hentries]
  simp only [hsuccessors, or_and_right, exists_or, exists_eq_left]

theorem path_end_iff {i : Nat} (hi : i ≠ exitBlock) {es t : Trace}
    (h : (G.block i).entries = es) :
    G.Path i (es ++ t) ↔ ∃ j ∈ (G.block i).successors, G.Path j t := by
  rw [path_iff hi, h]
  simp only [List.append_cancel_left_eq, exists_eq_right']

theorem path_append_cons_iff {i : Nat} {es t : Trace} {e : Entry}
    (h : es ++ [e] <+: (G.block i).entries) :
    G.Path i (es ++ t) ↔ ∃ u, G.Path i ((es ++ [e]) ++ u) ∧ t = [e] ++ u := by
  constructor
  · intro hpath
    obtain ⟨rest, hrest⟩ := h.trans hpath.entries_prefix
    rw [List.append_assoc, List.append_cancel_left_eq] at hrest
    subst hrest
    exact ⟨rest, by rwa [List.append_assoc], rfl⟩
  · rintro ⟨u, hpath, rfl⟩
    rwa [List.append_assoc] at hpath

/-- The traces that are still to come when a graph under construction has become `G`. -/
def Onward (G : Graph) (b : Builder) (t : Trace) : Prop :=
  G.Path b.current ((b.graph.block b.current).entries ++ t)

theorem onward_goto {b : Builder} {i : Nat} (h : b.graph.block i = {}) {t : Trace} :
    G.Onward (b.goto i) t ↔ G.Path i t := by
  rw [Onward, Builder.current_goto, Builder.graph_goto, h, List.nil_append]

/-- Block `c` and the blocks from `n` on are in `G` what they are in `g`. -/
def Holds (G g : Graph) (n c : Nat) : Prop :=
  ∀ i < g.size, i = c ∨ n ≤ i → G.block i = g.block i

/-- What follows statements in a loop when they are followed by the given traces. -/
def sequel (G : Graph) (loop : Option Loop) (next : Trace → Prop) : Sequel :=
  .mk next (G.Path (loop.elim exitBlock Loop.done)) (G.Path (loop.elim exitBlock Loop.again))
    (G.Path exitBlock)

/-- The graph `G` is a completion of what the statements between `b` and `b'` have added. -/
structure Completes (G : Graph) (b b' : Builder) : Prop where
  closed : ∀ i < b'.graph.size, i = b.current ∨ b.graph.size ≤ i →
    i ≠ b'.current ∨ b'.isTerminated = true → G.block i = b'.graph.block i
  opened : (b'.graph.block b'.current).entries <+: (G.block b'.current).entries

end Graph

/-! ## Adding statements -/

/-- The current block can take a statement. -/
structure Builder.Open (b : Builder) : Prop where
  lt : b.current < b.graph.size
  ne : b.current ≠ exitBlock
  size : exitBlock < b.graph.size
  successors : (b.graph.block b.current).successors = []
  terminated : (b.graph.block b.current).terminated = false

/-- Jumps lead to existing blocks. -/
def Loop.InRange (loop : Option Loop) (n : Nat) : Prop := ∀ l ∈ loop, l.again < n ∧ l.done < n

theorem Loop.InRange.mono {loop : Option Loop} {m n : Nat} (h : Loop.InRange loop m)
    (hmn : m ≤ n) : Loop.InRange loop n := by
  intro l hl
  obtain ⟨hagain, hdone⟩ := h l hl
  omega

/-- With `b'`, statements with the runs `p` have been added to `b`. -/
structure Builder.Adds (loop : Option Loop) (p : Behaviour) (b b' : Builder) : Prop where
  grows : Graph.Grows b.graph.size b.current b.graph b'.graph
  entries : (b.graph.block b.current).entries <+: (b'.graph.block b.current).entries
  current : b'.current = b.current ∨ b.graph.size ≤ b'.current
  lt : b'.current < b'.graph.size
  open_of_not_terminated : b'.isTerminated = false → b'.Open
  no_next : b'.isTerminated = true → ∀ t, ¬ p t .next
  traces : ∀ G : Graph, G.Completes b b' → ∀ t,
    G.Onward b t ↔ p.into (G.sequel loop (G.Onward b')) t

/-- The function adds statements with the runs `p` wherever it can. -/
def Builds (loop : Option Loop) (p : Behaviour) (f : Builder → Builder) : Prop :=
  ∀ b : Builder, b.Open → Loop.InRange loop b.graph.size → b.Adds loop p (f b)

namespace Builder

theorem Open.isTerminated {b : Builder} (h : b.Open) : b.isTerminated = false := h.terminated

namespace Adds

variable {loop : Option Loop} {p q : Behaviour} {b b₁ b₂ : Builder}

/-- What completes both parts completes the first. -/
theorem completes_left (h₁ : b.Adds loop p b₁) (h₂ : b₁.Adds loop q b₂)
    (hopen : b₁.isTerminated = false) {G : Graph} (h : G.Completes b b₂) : G.Completes b b₁ where
  closed i hi hstart hend := by
    have hne : i ≠ b₁.current := by simpa [hopen] using hend
    have hsize := h₂.grows.size
    have hcurrent := h₂.current
    rw [h.closed i (by omega) hstart (.inl (by omega)), h₂.grows.block i hi hne]
  opened := by
    by_cases hsame : b₂.current = b₁.current
    · have hopened := h.opened
      rw [hsame] at hopened
      exact h₂.entries.trans hopened
    · have hsize := h₂.grows.size
      have hlt := h₁.lt
      have hcurrent := h₁.current
      rw [h.closed b₁.current (by omega) hcurrent (.inl (Ne.symm hsame))]
      exact h₂.entries

/-- What completes both parts completes the second. -/
theorem completes_right (h₁ : b.Adds loop p b₁) {G : Graph} (h : G.Completes b b₂) :
    G.Completes b₁ b₂ where
  closed i hi hstart hend := by
    have hcurrent := h₁.current
    have hsize := h₁.grows.size
    exact h.closed i hi (by omega) hend
  opened := h.opened

theorem seq (h₁ : b.Adds loop p b₁) (h₂ : b₁.Adds loop q b₂) (hb : b.Open)
    (hopen : b₁.isTerminated = false) : b.Adds loop (.seq p q) b₂ where
  grows := h₁.grows.trans (h₂.grows.mono h₁.grows.size h₁.current)
  entries := by
    by_cases hsame : b₁.current = b.current
    · have hentries := h₂.entries
      rw [hsame] at hentries
      exact h₁.entries.trans hentries
    · have hlt := hb.lt
      have hsize := h₁.grows.size
      rw [h₂.grows.block b.current (by omega) (Ne.symm hsame)]
      exact h₁.entries
  current := by
    have hcurrent₁ := h₁.current
    have hcurrent₂ := h₂.current
    have hsize := h₁.grows.size
    omega
  lt := h₂.lt
  open_of_not_terminated := h₂.open_of_not_terminated
  no_next hend t ht := by
    obtain ⟨-, hne⟩ | ⟨t₁, t₂, -, hq, rfl⟩ := ht
    · exact hne rfl
    · exact h₂.no_next hend t₂ hq
  traces G hG t := by
    rw [h₁.traces G (h₁.completes_left h₂ hopen hG) t, Behaviour.into_seq]
    have htraces : G.Onward b₁ = q.into (G.sequel loop (G.Onward b₂)) :=
      funext fun u => propext (h₂.traces G (h₁.completes_right hG) u)
    rw [htraces]
    rfl

/-- Statements behind a jump are left out. -/
theorem seq_of_isTerminated (h₁ : b.Adds loop p b₁) (hend : b₁.isTerminated = true) :
    b.Adds loop (.seq p q) b₁ where
  grows := h₁.grows
  entries := h₁.entries
  current := h₁.current
  lt := h₁.lt
  open_of_not_terminated := h₁.open_of_not_terminated
  no_next _ t ht := by
    obtain ⟨-, hne⟩ | ⟨t₁, -, hp, -⟩ := ht
    · exact hne rfl
    · exact h₁.no_next hend t₁ hp
  traces G hG t := by
    rw [h₁.traces G hG t, Behaviour.into_seq]
    -- the run never comes to its end, so what would follow there does not matter
    apply Behaviour.into_congr
    intro t₁ o u hp
    cases o
    case next => exact absurd hp (h₁.no_next hend t₁)
    all_goals exact Iff.rfl

end Adds

end Builder

/-! ## Single statements -/

theorem builds_nil (loop : Option Loop) : Builds loop (.ends [] .next) id := by
  intro b hb _
  refine ⟨.refl _ _ _, List.prefix_refl _, .inl rfl, hb.lt, fun _ => hb, ?_, ?_⟩
  · intro hend
    rw [id, hb.isTerminated] at hend
    exact absurd hend (by decide)
  · intro G _ t
    rw [Behaviour.into_ends]
    simp [Graph.sequel, Sequel.mk]

/-- A statement that is recorded and passed. -/
theorem builds_append (loop : Option Loop) (e : Entry) :
    Builds loop (.ends [e] .next) fun b => b.append b.current e := by
  intro b hb _
  have hblock := Graph.block_append_self e hb.lt
  refine ⟨.append (.inl rfl) _ e, ?_, .inl rfl, ?_, fun _ => ⟨?_, hb.ne, ?_, ?_, ?_⟩, ?_, ?_⟩
  · simp [hblock]
  · simpa using hb.lt
  · simpa using hb.lt
  · simpa using hb.size
  · simpa [hblock] using hb.successors
  · simpa [hblock] using hb.terminated
  · intro hend
    rw [Builder.isTerminated, Graph.isTerminated, Builder.current_append, Builder.graph_append,
      hblock] at hend
    exact absurd (hb.terminated.symm.trans hend) (by decide)
  · intro G hG t
    have hopened := hG.opened
    rw [Builder.current_append, Builder.graph_append, hblock] at hopened
    rw [Behaviour.into_ends, Graph.Onward, Graph.path_append_cons_iff hopened]
    simp [Graph.sequel, Sequel.mk, Graph.Onward, hblock]

/-- A statement that jumps. -/
theorem builds_jump {loop : Option Loop} {s : Stmt} {o : Outcome} {i : Nat} (ho : o ≠ .next)
    (hi : ∀ n, exitBlock < n → Loop.InRange loop n → i < n)
    (hsequel : ∀ (G : Graph) (next : Trace → Prop), G.sequel loop next o = G.Path i) :
    Builds loop (.ends [.stmt s] o) fun b => b.jump s i := by
  intro b hb hloop
  have hlt : i < b.graph.size := hi _ hb.size hloop
  have hblock : (b.jump s i).graph.block b.current =
      { entries := (b.graph.block b.current).entries ++ [.stmt s], successors := [i],
        terminated := true } := by
    rw [Builder.jump, Graph.block_edge_self (by simpa using hb.lt) (by simpa using hlt),
      Graph.block_terminate_self (by simpa using hb.lt), Graph.block_append_self _ hb.lt,
      hb.successors]
    rfl
  have hend : (b.jump s i).isTerminated = true := congrArg Block.terminated hblock
  refine ⟨?_, ?_, .inl rfl, ?_, ?_, ?_, ?_⟩
  · exact ((Graph.Grows.append (.inl rfl) _ _).trans (.terminate (.inl rfl) _)).trans
      (.edge (.inl rfl) _ _)
  · simp [hblock]
  · simpa [Builder.jump] using hb.lt
  · intro hopen
    exact absurd (hend.symm.trans hopen) (by decide)
  · rintro _ t ⟨-, hnext⟩
    exact ho hnext.symm
  · intro G hG t
    have hheld : G.block b.current = _ :=
      (hG.closed b.current (by simpa [Builder.jump] using hb.lt) (.inl rfl) (.inr hend)).trans hblock
    rw [Behaviour.into_ends, hsequel, Graph.Onward,
      Graph.path_append_iff hb.ne (congrArg Block.entries hheld), hheld]
    simp

/-- An empty block can take a statement. -/
theorem Builder.Open.of_empty {b : Builder} {i : Nat} (hlt : i < b.graph.size)
    (hexit : exitBlock < i) (h : b.graph.block i = {}) : (b.goto i).Open where
  lt := hlt
  ne := by rw [Builder.current_goto]; omega
  size := Nat.lt_trans hexit hlt
  successors := by rw [Builder.graph_goto, Builder.current_goto, h]
  terminated := by rw [Builder.graph_goto, Builder.current_goto, h]

/-! ## Suites and conditions -/

/-- From `g` to `g'`, statements with the runs `p` fill block `i` and lead to block `d`. -/
structure Graph.Fills (loop : Option Loop) (p : Behaviour) (i d : Nat) (g g' : Graph) : Prop where
  grows : Graph.Grows g.size i g g'
  traces : ∀ G : Graph, G.Holds g' g.size i → ∀ t,
    G.Path i t ↔ p.into (G.sequel loop (G.Path d)) t

theorem Builder.Open.block_flowTo {b : Builder} (h : b.Open) {d : Nat} (hd : d < b.graph.size) :
    (b.flowTo d).graph.block b.current =
      { entries := (b.graph.block b.current).entries, successors := [d], terminated := false } := by
  rw [Builder.flowTo, if_neg (by simp [h.isTerminated]), Builder.graph_edge,
    Graph.block_edge_self h.lt hd, h.successors]
  simp [h.terminated, insertNumber]

/-- Statements in an empty block. -/
theorem Builds.fills_of_open {loop : Option Loop} {p : Behaviour} {f : Builder → Builder}
    (hf : Builds loop p f) {b : Builder} {i d : Nat} (hb : (b.goto i).Open)
    (hempty : b.graph.block i = {}) (hloop : Loop.InRange loop b.graph.size)
    (hd : d < b.graph.size) : Graph.Fills loop p i d b.graph ((f (b.goto i)).flowTo d).graph := by
  have hadds := hf (b.goto i) hb hloop
  have hsize : b.graph.size ≤ (f (b.goto i)).graph.size := hadds.grows.size
  refine ⟨hadds.grows.trans (Builder.grows_flowTo hadds.current d), ?_⟩
  intro G hG t
  have hcompletes : G.Completes (b.goto i) (f (b.goto i)) := by
    by_cases hend : (f (b.goto i)).isTerminated = true
    · have hflow : (f (b.goto i)).flowTo d = f (b.goto i) := by rw [Builder.flowTo, if_pos hend]
      rw [hflow] at hG
      refine ⟨fun j hj hstart _ => hG j hj hstart, ?_⟩
      rewrite [hG _ hadds.lt hadds.current]
      exact List.prefix_refl _
    · have hopen := hadds.open_of_not_terminated (by simpa using hend)
      refine ⟨fun j hj hstart hne => ?_, ?_⟩
      · rw [hG j (by simpa using hj) hstart, Builder.flowTo, if_neg hend, Builder.graph_edge,
          Graph.block_edge_of_ne (by simpa [hend] using hne)]
      · rewrite [hG _ (by simpa using hadds.lt) hadds.current, hopen.block_flowTo (by omega)]
        exact List.prefix_refl _
  rw [← Graph.onward_goto hempty, hadds.traces G hcompletes t]
  apply Behaviour.into_congr
  intro t₁ o u hp
  cases o
  case next =>
    have hopen : (f (b.goto i)).Open := by
      apply hadds.open_of_not_terminated
      rw [Bool.eq_false_iff]
      intro hend
      exact hadds.no_next hend t₁ hp
    have hblock := hG (f (b.goto i)).current (by simpa using hadds.lt) hadds.current
    rw [hopen.block_flowTo (by omega)] at hblock
    rw [Graph.sequel, Graph.sequel, Sequel.mk, Sequel.mk, Graph.Onward,
      Graph.path_end_iff hopen.ne (congrArg Block.entries hblock), hblock]
    simp
  all_goals exact Iff.rfl

/-- Statements in a new block. -/
theorem Builds.fills {loop : Option Loop} {p : Behaviour} {f : Builder → Builder}
    (hf : Builds loop p f) {b : Builder} {i d : Nat} (hexit : exitBlock < i)
    (hi : i < b.graph.size) (hempty : b.graph.block i = {})
    (hloop : Loop.InRange loop b.graph.size) (hd : d < b.graph.size) :
    Graph.Fills loop p i d b.graph ((f (b.goto i)).flowTo d).graph :=
  hf.fills_of_open (.of_empty hi hexit hempty) hempty hloop hd

/-- With `g`, the condition has been added to the current block; it leads to one of two blocks. -/
structure Builder.Decides (test : Test) (yes no : Nat) (b : Builder) (g : Graph) : Prop where
  grows : Graph.Grows b.graph.size b.current b.graph g
  entries : (b.graph.block b.current).entries <+: (g.block b.current).entries
  traces : ∀ G : Graph, G.Holds g b.graph.size b.current → ∀ t,
    G.Onward b t ↔ test.into (G.Path yes) (G.Path no) t

theorem decides_single {b : Builder} (hb : b.Open) {yes no : Nat} (hyes : yes < b.graph.size)
    (hno : no < b.graph.size) (e : Expr) :
    b.Decides (.single e) yes no
      (((b.append b.current (.expr e)).edge b.current yes).edge b.current no).graph := by
  have hblock : (((b.graph.append b.current (.expr e)).edge b.current yes).edge b.current no).block
      b.current = { b.graph.block b.current with
        entries := (b.graph.block b.current).entries ++ [.expr e],
        successors := insertNumber no (insertNumber yes []) } := by
    rw [Graph.block_edge_self (by simpa using hb.lt) (by simpa using hno),
      Graph.block_edge_self (by simpa using hb.lt) (by simpa using hyes),
      Graph.block_append_self _ hb.lt, hb.successors]
  refine ⟨?_, ?_, ?_⟩
  · exact ((Graph.Grows.append (.inl rfl) _ _).trans (.edge (.inl rfl) _ _)).trans
      (.edge (.inl rfl) _ _)
  · simp [hblock]
  · intro G hG t
    have hheld : G.block b.current = _ :=
      (hG b.current (by simpa using hb.lt) (.inl rfl)).trans hblock
    rw [Test.into_single, Graph.Onward,
      Graph.path_fork_iff yes no hb.ne (congrArg Block.entries hheld) fun k => ?_]
    rw [hheld, mem_insertNumber, mem_insertNumber, or_comm]
    simp

/-- What an operand adds in front of the next one. -/
theorem operand_step {b : Builder} {i early : Nat} (hb : (b.goto i).Open)
    (hearly : early < b.graph.size) (e : Expr) :
    let g := ((((b.append i (.expr e)).create 1).edge i b.graph.size).edge i early).graph
    g.size = b.graph.size + 1 ∧ g.block b.graph.size = {} ∧
      g.block i = { b.graph.block i with
        entries := (b.graph.block i).entries ++ [.expr e]
        successors := insertNumber early (insertNumber b.graph.size []) } ∧
      Graph.Grows b.graph.size i b.graph g := by
  have hlt : i < b.graph.size := hb.lt
  have hsuccessors : (b.graph.block i).successors = [] := hb.successors
  have hne : b.graph.size ≠ i := by omega
  have happend : Graph.Grows b.graph.size i b.graph (b.append i (.expr e)).graph :=
    .append (.inl rfl) _ _
  refine ⟨by simp, ?_, ?_, ?_⟩
  · simp only [Builder.graph_edge]
    rw [Graph.block_edge_of_ne hne, Graph.block_edge_of_ne hne, Builder.block_create,
      Builder.graph_append, Graph.block_append_of_ne _ hne, Graph.block_of_size_le (by simp)]
  · simp only [Builder.graph_edge]
    rw [Graph.block_edge_self (by simp; omega) (by simp; omega),
      Graph.block_edge_self (by simp; omega) (by simp), Builder.block_create,
      Builder.graph_append, Graph.block_append_self _ hlt, hsuccessors]
  · exact ((happend.trans (Builder.grows_create _ _ 1 _)).trans (.edge (.inl rfl) _ _)).trans
      (.edge (.inl rfl) _ _)

theorem decides_operands (op : BoolOp) {yes no : Nat} (es : List Expr) {i : Nat} {b : Builder}
    (hb : (b.goto i).Open) (hyes : yes < b.graph.size) (hno : no < b.graph.size) :
    (b.goto i).Decides (.operands op es) yes no (b.operands op yes no i es).graph := by
  have hlt : i < b.graph.size := hb.lt
  have hne : i ≠ exitBlock := hb.ne
  have hexit : exitBlock < b.graph.size := hb.size
  fun_induction Builder.operands op yes no i es b with
  | case1 i b =>
    refine ⟨.refl _ _ _, List.prefix_refl _, fun G hG t => ?_⟩
    have hheld : G.block i = b.graph.block i := hG i hlt (.inl rfl)
    have hsuccessors : (G.block i).successors = [] := by rw [hheld]; exact hb.successors
    show G.Path i ((b.graph.block i).entries ++ t) ↔ _
    rw [Graph.path_end_iff hne (congrArg Block.entries hheld), hsuccessors]
    simp [Test.into, Test.operands]
  | case2 i e b => exact decides_single hb hyes hno e
  | case3 i e rest b hrest next early b₁ ih =>
    obtain ⟨e', rest, rfl⟩ : ∃ e' rest', rest = e' :: rest' := List.exists_cons_of_ne_nil hrest
    have hearly : early = if Test.early op then yes else no := by cases op <;> rfl
    have hearlylt : early < b.graph.size := by rw [hearly]; split <;> assumption
    have hnew : next = b.graph.size := rfl
    obtain ⟨hsize, hnext, hblock, hgrows⟩ : b₁.graph.size = _ ∧ b₁.graph.block next = {} ∧
        b₁.graph.block i = _ ∧ Graph.Grows b.graph.size i b.graph b₁.graph :=
      operand_step hb hearlylt e
    have hopen : (b₁.goto next).Open := .of_empty (by omega) (by omega) hnext
    have hdecides := ih hopen (by omega) (by omega) (by omega) (by omega) (by omega)
    have hsizes : b₁.graph.size ≤ (b₁.operands op yes no next (e' :: rest)).graph.size :=
      hdecides.grows.size
    have hkept : (b₁.operands op yes no next (e' :: rest)).graph.block i = b₁.graph.block i :=
      hdecides.grows.block i (by rw [Builder.graph_goto]; omega)
        (by rw [Builder.current_goto]; omega)
    refine ⟨hgrows.trans (hdecides.grows.mono (by rw [Builder.graph_goto]; omega)
      (.inr (Nat.le_refl _))), ?_, ?_⟩
    · rw [Builder.current_goto, Builder.graph_goto, hkept, hblock]
      exact List.prefix_append _ _
    · intro G hG t
      have hheld : G.block i = _ := (hG i (by omega) (.inl rfl)).trans (hkept.trans hblock)
      have hrestHeld : G.Holds (b₁.operands op yes no next (e' :: rest)).graph b₁.graph.size next := by
        intro j hj hstart
        exact hG j hj (.inr (by rw [Builder.graph_goto]; omega))
      have hpath (u : Trace) : G.Path next u ↔
          (Test.operands op (e' :: rest)).into (G.Path yes) (G.Path no) u := by
        rw [← Graph.onward_goto hnext, hdecides.traces G hrestHeld u]
      show G.Path i ((b.graph.block i).entries ++ t) ↔ _
      rw [Test.into_operands_cons, 
        Graph.path_fork_iff next early hne (congrArg Block.entries hheld) fun k => ?_]
      · simp only [hpath, hearly]
        cases Test.early op <;> simp
      · rw [hheld, mem_insertNumber, mem_insertNumber, or_comm]
        simp [next]

theorem decides_condition (test : Expr) (yes no : Nat) {b : Builder} (hb : b.Open)
    (hyes : yes < b.graph.size) (hno : no < b.graph.size) :
    b.Decides (.ofExpr test) yes no (b.condition test yes no).graph := by
  cases test
  case boolean x op values => exact decides_operands op values hb hyes hno
  all_goals exact decides_single hb hyes hno _

/-! ## Compound statements -/

theorem Test.into_congr {test : Test} {yes yes' no no' : Trace → Prop}
    (hyes : ∀ t, yes t ↔ yes' t) (hno : ∀ t, no t ↔ no' t) {t : Trace} :
    test.into yes no t ↔ test.into yes' no' t := by
  simp only [Test.into, hyes, hno]

theorem Builder.Open.create {b : Builder} (h : b.Open) (n : Nat) : (b.create n).Open where
  lt := by
    have hlt := h.lt
    simp
    omega
  ne := by simpa using h.ne
  size := by
    have hsize := h.size
    simp
    omega
  successors := by simpa using h.successors
  terminated := by simpa using h.terminated

/-- Statements that go on in a new block. -/
theorem Builder.Adds.of_goto {loop : Option Loop} {p : Behaviour} {b b' : Builder} {d : Nat}
    (hb : b.Open) (hgrows : Graph.Grows b.graph.size b.current b.graph b'.graph)
    (hentries : (b.graph.block b.current).entries <+: (b'.graph.block b.current).entries)
    (hnew : b.graph.size ≤ d) (hlt : d < b'.graph.size) (hempty : b'.graph.block d = {})
    (htraces : ∀ G : Graph, (∀ i < b'.graph.size, i = b.current ∨ b.graph.size ≤ i → i ≠ d →
      G.block i = b'.graph.block i) →
      ∀ t, G.Onward b t ↔ p.into (G.sequel loop (G.Path d)) t) :
    b.Adds loop p (b'.goto d) := by
  have hexit := hb.size
  have hopen : (b'.goto d).Open := .of_empty hlt (by omega) hempty
  refine ⟨hgrows, hentries, .inr hnew, hlt, fun _ => hopen, ?_, ?_⟩
  · intro hend
    exact absurd (hopen.isTerminated.symm.trans hend) (by decide)
  · intro G hG t
    rw [htraces G (fun i hi hstart hne => hG.closed i hi hstart (.inl hne)) t]
    have honward : G.Onward (b'.goto d) = G.Path d :=
      funext fun u => propext (Graph.onward_goto hempty)
    rw [honward]

theorem builds_branch {loop : Option Loop} {p q : Behaviour} {f g : Builder → Builder}
    (hf : Builds loop p f) (hg : Builds loop q g) (test : Expr) :
    Builds loop (.choose (.ofExpr test) p q) fun b =>
      ((g (((f (((b.create 3).condition test b.graph.size (b.graph.size + 1)).goto
        b.graph.size)).flowTo (b.graph.size + 2)).goto (b.graph.size + 1))).flowTo
          (b.graph.size + 2)).goto (b.graph.size + 2) := by
  intro b hb hloop
  dsimp only
  have hexit := hb.size
  have hlt := hb.lt
  generalize hn : b.graph.size = n at *
  have hcreate : (b.create 3).graph.size = n + 3 := by rw [Builder.size_create, hn]
  have hnew {i : Nat} (hi : n ≤ i) : (b.create 3).graph.block i = {} := by
    rw [Builder.block_create, Graph.block_of_size_le (by omega)]
  have htest := decides_condition test n (n + 1) (hb.create 3) (by omega) (by omega)
  generalize (b.create 3).condition test n (n + 1) = b₁ at *
  have hsize₁ := htest.grows.size
  have hblock₁ := htest.grows.block
  rw [Builder.current_create, hcreate] at hblock₁
  have hbody : Graph.Fills loop p n (n + 2) b₁.graph ((f (b₁.goto n)).flowTo (n + 2)).graph :=
    hf.fills (by omega) (by omega) ((hblock₁ n (by omega) (by omega)).trans (hnew (by omega)))
      (hloop.mono (by omega)) (by omega)
  generalize (f (b₁.goto n)).flowTo (n + 2) = b₂ at *
  have hsize₂ := hbody.grows.size
  have hblock₂ := hbody.grows.block
  have horelse : Graph.Fills loop q (n + 1) (n + 2) b₂.graph
      ((g (b₂.goto (n + 1))).flowTo (n + 2)).graph := by
    refine hg.fills (by omega) (by omega) ?_ (hloop.mono (by omega)) (by omega)
    rw [hblock₂ _ (by omega) (by omega), hblock₁ _ (by omega) (by omega), hnew (by omega)]
  generalize (g (b₂.goto (n + 1))).flowTo (n + 2) = b₃ at *
  have hsize₃ := horelse.grows.size
  have hblock₃ := horelse.grows.block
  refine .of_goto hb ?_ ?_ (by omega) (by omega) ?_ ?_
  · rw [hn]
    exact (((Builder.grows_create _ _ 3 b).trans (htest.grows.mono (by omega) (.inl (by simp)))).trans
      (hbody.grows.mono (by omega) (.inr (by omega)))).trans
      (horelse.grows.mono (by omega) (.inr (by omega)))
  · rw [hblock₃ _ (by omega) (by omega), hblock₂ _ (by omega) (by omega)]
    simpa using htest.entries
  · rw [hblock₃ _ (by omega) (by omega), hblock₂ _ (by omega) (by omega),
      hblock₁ _ (by omega) (by omega), hnew (by omega)]
  · intro G hG t
    rw [hn] at hG
    have hyes := hbody.traces G fun i hi hstart => by
      rw [hG i (by omega) (by omega) (by omega), hblock₃ i (by omega) (by omega)]
    have hno := horelse.traces G fun i hi hstart => hG i hi (by omega) (by omega)
    have hdecides := htest.traces G fun i hi hstart => by
      simp only [Builder.current_create, hcreate] at hstart
      rw [hG i (by omega) (by omega) (by omega), hblock₃ i (by omega) (by omega),
        hblock₂ i (by omega) (by omega)]
    have hstart : G.Onward b t ↔ G.Onward (b.create 3) t := by
      rw [Graph.Onward, Graph.Onward, Builder.current_create, Builder.block_create]
    rw [hstart, hdecides t, Behaviour.into_choose]
    exact Test.into_congr hyes hno

/-- The current block leads to the first of some new blocks, which are empty. -/
theorem create_edge {b : Builder} (hb : b.Open) (k : Nat) (hk : 0 < k) :
    let g := ((b.create k).edge b.current b.graph.size).graph
    g.size = b.graph.size + k ∧ (∀ i, b.graph.size ≤ i → g.block i = {}) ∧
      g.block b.current = { b.graph.block b.current with successors := [b.graph.size] } ∧
      Graph.Grows b.graph.size b.current b.graph g := by
  have hlt := hb.lt
  refine ⟨by simp, fun i hi => ?_, ?_, ?_⟩
  · rw [Builder.graph_edge, Graph.block_edge_of_ne (by omega), Builder.block_create,
      Graph.block_of_size_le hi]
  · rw [Builder.graph_edge, Graph.block_edge_self (by simp; omega) (by simp; omega),
      Builder.block_create, hb.successors]
    rfl
  · exact (Builder.grows_create _ _ k b).trans (.edge (.inl rfl) _ _)

/-- A loop with header `n`, whose body fills block `n + 1`; the header leads to block `no` when the
loop is exhausted. -/
theorem adds_loop {loop : Option Loop} {test : Test} {p q : Behaviour} {b b₀ b₁ b₂ b₃ : Builder}
    {n no d : Nat} (hb : b.Open) (hn : b.graph.size = n) (hno : n + 2 ≤ no) (hd : no ≤ d)
    (hne : ∀ t v, test t v → t ≠ [])
    (hb₀ : b₀ = (b.create (d + 1 - n)).edge b.current n)
    (htest : (b₀.goto n).Decides test (n + 1) no b₁.graph)
    (hbody : Graph.Fills (some ⟨n, d⟩) p (n + 1) n b₁.graph b₂.graph)
    (hgrows : Graph.Grows b₂.graph.size no b₂.graph b₃.graph)
    (hdone : b₃.graph.block d = b₂.graph.block d)
    (horelse : ∀ G : Graph, (∀ i < b₃.graph.size, i = no ∨ b₂.graph.size ≤ i → i ≠ d →
      G.block i = b₃.graph.block i) →
      ∀ t, G.Path no t ↔ q.into (G.sequel loop (G.Path d)) t) :
    b.Adds loop (.repeats test p q) (b₃.goto d) := by
  have hexit := hb.size
  have hlt := hb.lt
  subst hn
  obtain ⟨hsize₀, hnew, hblock₀, hgrows₀⟩ := create_edge hb (d + 1 - b.graph.size) (by omega)
  rw [← hb₀] at hsize₀ hnew hblock₀ hgrows₀
  have hsize₁ : b₀.graph.size ≤ b₁.graph.size := htest.grows.size
  have hblock₁ : ∀ i < b₀.graph.size, i ≠ b.graph.size → b₁.graph.block i = b₀.graph.block i :=
    htest.grows.block
  have hsize₂ := hbody.grows.size
  have hblock₂ := hbody.grows.block
  have hsize₃ := hgrows.size
  have hblock₃ := hgrows.block
  refine .of_goto hb ?_ ?_ (by omega) (by omega) ?_ ?_
  · exact ((hgrows₀.trans (htest.grows.mono (by rw [Builder.graph_goto]; omega)
      (.inr (Nat.le_refl _)))).trans (hbody.grows.mono (by omega) (.inr (by omega)))).trans
      (hgrows.mono (by omega) (.inr (by omega)))
  · rewrite [hblock₃ _ (by omega) (by omega), hblock₂ _ (by omega) (by omega),
      hblock₁ _ (by omega) (by omega), hblock₀]
    exact List.prefix_refl _
  · rw [hdone, hblock₂ _ (by omega) (by omega), hblock₁ _ (by omega) (by omega),
      hnew _ (by omega)]
  · intro G hG t
    have hother := horelse G fun i hi hstart hid => hG i hi (by omega) hid
    have hinside := hbody.traces G fun i hi hstart => by
      rw [hG i (by omega) (by omega) (by omega), hblock₃ i (by omega) (by omega)]
    have hheader := htest.traces G fun i hi hstart => by
      rw [Builder.current_goto, Builder.graph_goto] at hstart
      rw [hG i (by omega) (by omega) (by omega), hblock₃ i (by omega) (by omega),
        hblock₂ i (by omega) (by omega)]
    have hheld : G.block b.current =
        { b.graph.block b.current with successors := [b.graph.size] } := by
      rw [hG _ (by omega) (.inl rfl) (by omega), hblock₃ _ (by omega) (by omega),
        hblock₂ _ (by omega) (by omega), hblock₁ _ (by omega) (by omega), hblock₀]
    have hstart : G.Onward b t ↔ G.Path b.graph.size t := by
      rw [Graph.Onward, Graph.path_end_iff hb.ne (congrArg Block.entries hheld), hheld]
      simp
    rw [hstart]
    apply Behaviour.into_repeats_iff hne
    intro u
    rw [← Graph.onward_goto (hnew _ (Nat.le_refl _)), hheader u]
    exact Test.into_congr hinside hother

theorem builds_loop {loop : Option Loop} {test : Test} {p q : Behaviour}
    {header : Nat → Nat → Builder → Builder} {f : Option Loop → Builder → Builder}
    {g : Builder → Builder} {orelse : List Stmt}
    (hheader : ∀ (yes no : Nat) {b : Builder}, b.Open → yes < b.graph.size → no < b.graph.size →
      b.Decides test yes no (header yes no b).graph)
    (hne : ∀ t v, test t v → t ≠ []) (hf : ∀ loop, Builds loop p (f loop)) (hg : Builds loop q g)
    (hq : orelse.isEmpty = true → q = .ends [] .next) :
    Builds loop (.repeats test p q) fun b =>
      let again := b.graph.size
      let inside := again + 1
      let other := again + 2
      let done := if orelse.isEmpty then again + 2 else again + 3
      let b := (b.create (done + 1 - again)).edge b.current again
      let b := header inside (if orelse.isEmpty then done else other) (b.goto again)
      let b := (f (some ⟨again, done⟩) (b.goto inside)).flowTo again
      let b := if orelse.isEmpty then b else (g (b.goto other)).flowTo done
      b.goto done := by
  intro b hb hloop
  dsimp only
  have hexit := hb.size
  have hlt := hb.lt
  generalize hn : b.graph.size = n at *
  generalize hd : (if orelse.isEmpty = true then n + 2 else n + 3) = d
  generalize hno : (if orelse.isEmpty = true then d else n + 2) = no
  have hrange : n + 2 ≤ no ∧ no ≤ d := by
    subst hno hd
    by_cases hempty : orelse.isEmpty = true <;> simp [hempty]
  obtain ⟨hsize₀, hnew, -, -⟩ := create_edge hb (d + 1 - n) (by omega)
  rw [hn] at hsize₀ hnew
  generalize hb₀ : (b.create (d + 1 - n)).edge b.current n = b₀ at *
  have htest := hheader (n + 1) no (.of_empty (b := b₀) (by omega) hexit (hnew n (Nat.le_refl n)))
    (by rw [Builder.graph_goto]; omega) (by rw [Builder.graph_goto]; omega)
  generalize header (n + 1) no (b₀.goto n) = b₁ at *
  have hsize₁ : b₀.graph.size ≤ b₁.graph.size := htest.grows.size
  have hblock₁ : ∀ i < b₀.graph.size, i ≠ n → b₁.graph.block i = b₀.graph.block i :=
    htest.grows.block
  have hbody : Graph.Fills (some ⟨n, d⟩) p (n + 1) n b₁.graph
      ((f (some ⟨n, d⟩) (b₁.goto (n + 1))).flowTo n).graph := by
    refine (hf _).fills (by omega) (by omega) ?_ ?_ (by omega)
    · rw [hblock₁ _ (by omega) (by omega), hnew _ (by omega)]
    · rintro l ⟨⟩
      show n < b₁.graph.size ∧ d < b₁.graph.size
      omega
  generalize (f (some ⟨n, d⟩) (b₁.goto (n + 1))).flowTo n = b₂ at *
  have hsize₂ := hbody.grows.size
  have hblock₂ := hbody.grows.block
  by_cases hempty : orelse.isEmpty = true
  · rw [if_pos hempty] at hno ⊢
    refine adds_loop hb hn hrange.1 hrange.2 hne hb₀.symm htest hbody (.refl _ _ _) rfl ?_
    intro G _ t
    rw [hq hempty, Behaviour.into_ends, hno]
    simp [Graph.sequel, Sequel.mk]
  · rw [if_neg hempty] at hd hno ⊢
    have horelse : Graph.Fills loop q (n + 2) d b₂.graph ((g (b₂.goto (n + 2))).flowTo d).graph := by
      refine hg.fills (by omega) (by omega) ?_ (hloop.mono (by omega)) (by omega)
      rw [hblock₂ _ (by omega) (by omega), hblock₁ _ (by omega) (by omega), hnew _ (by omega)]
    rw [hno] at horelse
    refine adds_loop hb hn hrange.1 hrange.2 hne hb₀.symm htest hbody ?_ ?_ ?_
    · rw [hno]
      exact horelse.grows
    · rw [hno]
      exact horelse.grows.block d (by omega) (by omega)
    · intro G hG
      rw [hno] at hG
      exact horelse.traces G fun i hi hstart => hG i hi hstart (by omega)

/-! ## Entries in a row -/

namespace Builder

/-- Records entries in block `i`. -/
def appendAll (i : Nat) (es : Trace) (b : Builder) : Builder := es.foldl (fun b e => b.append i e) b

@[simp]
theorem current_appendAll (i : Nat) (es : Trace) (b : Builder) :
    (b.appendAll i es).current = b.current := by
  induction es generalizing b with
  | nil => rfl
  | cons e es ih => exact ih (b.append i e)

@[simp]
theorem size_appendAll (i : Nat) (es : Trace) (b : Builder) :
    (b.appendAll i es).graph.size = b.graph.size := by
  induction es generalizing b with
  | nil => rfl
  | cons e es ih => exact (ih (b.append i e)).trans (Graph.size_append _ _ _)

theorem block_appendAll_of_ne {i j : Nat} (h : j ≠ i) (es : Trace) (b : Builder) :
    (b.appendAll i es).graph.block j = b.graph.block j := by
  induction es generalizing b with
  | nil => rfl
  | cons e es ih => exact (ih (b.append i e)).trans (Graph.block_append_of_ne e h)

theorem block_appendAll_self {i : Nat} (es : Trace) {b : Builder} (h : i < b.graph.size) :
    (b.appendAll i es).graph.block i =
      { b.graph.block i with entries := (b.graph.block i).entries ++ es } := by
  induction es generalizing b with
  | nil => simp [appendAll]
  | cons e es ih =>
    have hrest := ih (b := b.append i e) (by simpa using h)
    rw [graph_append, Graph.block_append_self e h, List.append_assoc] at hrest
    exact hrest

theorem foldl_withItems (items : List WithItem) (b : Builder) :
    items.foldl (fun b w => b.append b.current (.expr w.context)) b =
      b.appendAll b.current (items.map fun w => .expr w.context) := by
  induction items generalizing b with
  | nil => rfl
  | cons w items ih => exact ih (b.append b.current (.expr w.context))

theorem appendRemarks_eq (i : Nat) (remarks : List Text) (b : Builder) :
    b.appendRemarks i remarks = b.appendAll i (remarks.map .remark) := by
  rw [appendRemarks, appendAll, List.foldl_map]

/-- A guard is recorded behind the remarks of its case. -/
theorem elim_guard (i : Nat) (remarks : List Text) (guard : Option Expr) (b : Builder) :
    (guard.elim (b.appendRemarks i remarks) fun e => (b.appendRemarks i remarks).append i (.expr e)) =
      b.appendAll i (remarks.map .remark ++ guard.toList.map .expr) := by
  cases guard with
  | none => simp [appendRemarks_eq]
  | some e => simp [appendRemarks_eq, appendAll]

end Builder

theorem builds_with {loop : Option Loop} {p : Behaviour} {f : Builder → Builder}
    (hf : Builds loop p f) (items : List WithItem) :
    Builds loop (.behind (items.map fun w => .expr w.context) p) fun b =>
      let inside := b.graph.size
      let done := inside + 1
      let b := items.foldl (fun b w => b.append b.current (.expr w.context)) (b.create 2)
      let b := (f ((b.edge b.current inside).goto inside)).flowTo done
      b.goto done := by
  intro b hb hloop
  dsimp only
  have hexit := hb.size
  have hlt := hb.lt
  rw [Builder.foldl_withItems, Builder.current_appendAll, Builder.current_create]
  generalize (items.map fun w => Entry.expr w.context) = es
  generalize hn : b.graph.size = n at *
  have hsize₁ : (((b.create 2).appendAll b.current es).edge b.current n).graph.size = n + 2 := by
    simp [hn]
  have hnew : ∀ i, n ≤ i →
      (((b.create 2).appendAll b.current es).edge b.current n).graph.block i = {} := by
    intro i hi
    rw [Builder.graph_edge, Graph.block_edge_of_ne (by omega),
      Builder.block_appendAll_of_ne (by omega), Builder.block_create,
      Graph.block_of_size_le (by omega)]
  have hblock : (((b.create 2).appendAll b.current es).edge b.current n).graph.block b.current =
      { b.graph.block b.current with
        entries := (b.graph.block b.current).entries ++ es, successors := [n] } := by
    rw [Builder.graph_edge, Graph.block_edge_self (by simp; omega) (by simp; omega),
      Builder.block_appendAll_self es (by simp; omega), Builder.block_create, hb.successors]
    rfl
  have hkept : ∀ i < n, i ≠ b.current →
      (((b.create 2).appendAll b.current es).edge b.current n).graph.block i =
        b.graph.block i := by
    intro i _ hi
    rw [Builder.graph_edge, Graph.block_edge_of_ne hi, Builder.block_appendAll_of_ne hi,
      Builder.block_create]
  generalize ((b.create 2).appendAll b.current es).edge b.current n = b₁ at *
  have hbody : Graph.Fills loop p n (n + 1) b₁.graph ((f (b₁.goto n)).flowTo (n + 1)).graph :=
    hf.fills hexit (by omega) (hnew n (Nat.le_refl n)) (hloop.mono (by omega)) (by omega)
  generalize (f (b₁.goto n)).flowTo (n + 1) = b₂ at *
  have hsize₂ := hbody.grows.size
  have hblock₂ := hbody.grows.block
  refine .of_goto hb ?_ ?_ (by omega) (by omega) ?_ ?_
  · rw [hn]
    exact Graph.Grows.trans ⟨by omega, hkept⟩ (hbody.grows.mono (by omega) (.inr (Nat.le_refl n)))
  · rw [hblock₂ _ (by omega) (by omega), hblock]
    exact List.prefix_append _ _
  · rw [hblock₂ _ (by omega) (by omega), hnew _ (by omega)]
  · intro G hG t
    rw [hn] at hG
    have hinside := hbody.traces G fun i hi hstart => hG i hi (by omega) (by omega)
    have hheld : G.block b.current = { b.graph.block b.current with
        entries := (b.graph.block b.current).entries ++ es, successors := [n] } := by
      rw [hG _ (by omega) (.inl rfl) (by omega), hblock₂ _ (by omega) (by omega), hblock]
    rw [Graph.Onward, Graph.path_append_iff hb.ne (congrArg Block.entries hheld), hheld,
      Behaviour.into_behind]
    simp [hinside]

/-! ## Cases -/

/-- From `g` to `g'`, block `c` has been led on to a block where the runs `p` start, which lead to
block `d`. -/
structure Graph.Joins (loop : Option Loop) (p : Behaviour) (c d : Nat) (g g' : Graph) : Prop where
  grows : Graph.Grows g.size c g g'
  joins : ∃ j, g'.block c =
      { g.block c with successors := insertNumber j (g.block c).successors } ∧
    ∀ G : Graph, (∀ i < g'.size, g.size ≤ i → G.block i = g'.block i) →
      ∀ t, G.Path j t ↔ p.into (G.sequel loop (G.Path d)) t

/-- The function leads a block on to the runs `p`. -/
def Continues (loop : Option Loop) (p : Behaviour) (d : Nat) (f : Nat → Builder → Builder) : Prop :=
  ∀ (b : Builder) (c : Nat), exitBlock < b.graph.size → c < b.graph.size → d < b.graph.size →
    Loop.InRange loop b.graph.size → Graph.Joins loop p c d b.graph (f c b).graph

theorem continues_nil (loop : Option Loop) (d : Nat) :
    Continues loop (.ends [] .next) d fun c b => b.edge c d := by
  intro b c _ hc hd _
  refine ⟨.edge (.inl rfl) _ _, d, Graph.block_edge_self hc hd, fun G _ t => ?_⟩
  rw [Behaviour.into_ends]
  simp [Graph.sequel, Sequel.mk]

/-- The blocks of a case before its body is added. -/
theorem case_start {b : Builder} {c : Nat} (hc : c < b.graph.size) (es : Trace) :
    let g := ((((b.create 2).edge c b.graph.size).appendAll b.graph.size es).edge b.graph.size
      (b.graph.size + 1)).graph
    g.size = b.graph.size + 2 ∧ g.block (b.graph.size + 1) = {} ∧
      g.block b.graph.size = { entries := es, successors := [b.graph.size + 1] } ∧
      g.block c = { b.graph.block c with
        successors := insertNumber b.graph.size (b.graph.block c).successors } ∧
      Graph.Grows b.graph.size c b.graph g := by
  refine ⟨by simp, ?_, ?_, ?_, by simp, fun i hi hic => ?_⟩
  · rw [Builder.graph_edge, Graph.block_edge_of_ne (by omega),
      Builder.block_appendAll_of_ne (by omega), Builder.graph_edge,
      Graph.block_edge_of_ne (by omega), Builder.block_create, Graph.block_of_size_le (by omega)]
  · rw [Builder.graph_edge, Graph.block_edge_self (by simp) (by simp),
      Builder.block_appendAll_self es (by simp), Builder.graph_edge,
      Graph.block_edge_of_ne (by omega), Builder.block_create,
      Graph.block_of_size_le (Nat.le_refl _)]
    rfl
  · rw [Builder.graph_edge, Graph.block_edge_of_ne (by omega),
      Builder.block_appendAll_of_ne (by omega), Builder.graph_edge,
      Graph.block_edge_self (by simp; omega) (by simp), Builder.block_create]
  · rw [Builder.graph_edge, Graph.block_edge_of_ne (by omega),
      Builder.block_appendAll_of_ne (by omega), Builder.graph_edge, Graph.block_edge_of_ne hic,
      Builder.block_create]

theorem continues_cons {loop : Option Loop} {p q : Behaviour} {f : Builder → Builder}
    {h : Nat → Builder → Builder} {d : Nat} (hf : Builds loop p f) (hh : Continues loop q d h)
    (es : Trace) :
    Continues loop (.behind es (.either p q)) d fun c b =>
      h b.graph.size ((f (((((b.create 2).edge c b.graph.size).appendAll b.graph.size es).edge
        b.graph.size (b.graph.size + 1)).goto (b.graph.size + 1))).flowTo d) := by
  intro b c hexit hc hd hloop
  dsimp only
  obtain ⟨hsize₁, hnew, htest, hbefore, hgrows₁⟩ := case_start hc es
  generalize hn : b.graph.size = n at *
  generalize (((b.create 2).edge c n).appendAll n es).edge n (n + 1) = b₁ at *
  have hbody : Graph.Fills loop p (n + 1) d b₁.graph ((f (b₁.goto (n + 1))).flowTo d).graph :=
    hf.fills (by omega) (by omega) hnew (hloop.mono (by omega)) (by omega)
  generalize (f (b₁.goto (n + 1))).flowTo d = b₂ at *
  have hsize₂ := hbody.grows.size
  have hblock₂ := hbody.grows.block
  have hrest : Graph.Joins loop q n d b₂.graph (h n b₂).graph :=
    hh b₂ n (by omega) (by omega) (by omega) (hloop.mono (by omega))
  generalize h n b₂ = b₃ at *
  have hsize₃ := hrest.grows.size
  have hblock₃ := hrest.grows.block
  obtain ⟨j, hj, htraces⟩ := hrest.joins
  refine ⟨?_, n, ?_, fun G hG t => ?_⟩
  · rw [hn]
    exact (hgrows₁.trans (hbody.grows.mono (by omega) (.inr (by omega)))).trans
      (hrest.grows.mono (by omega) (.inr (Nat.le_refl n)))
  · rw [hblock₃ _ (by omega) (by omega), hblock₂ _ (by omega) (by omega), hbefore]
  · rw [hn] at hG
    have hinside := hbody.traces G fun i hi hstart => by
      rw [hG i (by omega) (by omega), hblock₃ i (by omega) (by omega)]
    have hother := htraces G fun i hi hstart => hG i hi (by omega)
    have hheld : G.block n = { entries := es, successors := insertNumber j [n + 1] } := by
      rw [hG n (by omega) (Nat.le_refl n), hj, hblock₂ _ (by omega) (by omega), htest]
    rw [← List.nil_append t, Graph.path_fork_iff (n + 1) j (by omega)
      (congrArg Block.entries hheld) fun k => ?_, List.nil_append, Behaviour.into_behind]
    · simp only [hinside, hother, Behaviour.into_either]
    · rw [hheld, mem_insertNumber, or_comm, List.mem_singleton]

theorem builds_match {loop : Option Loop} {p : Behaviour} {h : Nat → Nat → Builder → Builder}
    (hh : ∀ d, Continues loop p d (h d)) (subject : Expr) :
    Builds loop (.behind [.expr subject] p) fun b =>
      let b := b.append b.current (.expr subject)
      let done := b.graph.size
      (h done b.current (b.create 1)).goto done := by
  intro b hb hloop
  dsimp only
  have hexit := hb.size
  have hlt := hb.lt
  rw [Builder.current_append, Builder.graph_append, Graph.size_append]
  have hsize₁ : ((b.append b.current (.expr subject)).create 1).graph.size = b.graph.size + 1 := by
    simp
  have hblock₁ : ((b.append b.current (.expr subject)).create 1).graph.block b.current =
      { b.graph.block b.current with
        entries := (b.graph.block b.current).entries ++ [.expr subject] } := by
    rw [Builder.block_create, Builder.graph_append, Graph.block_append_self _ hlt]
  have hkept : ∀ i, i ≠ b.current →
      ((b.append b.current (.expr subject)).create 1).graph.block i = b.graph.block i := by
    intro i hi
    rw [Builder.block_create, Builder.graph_append, Graph.block_append_of_ne _ hi]
  generalize (b.append b.current (.expr subject)).create 1 = b₁ at *
  have hcases := hh b.graph.size b₁ b.current (by omega) (by omega) (by omega) (hloop.mono (by omega))
  generalize h b.graph.size b.current b₁ = b₂ at *
  have hsize₂ := hcases.grows.size
  have hblock₂ := hcases.grows.block
  obtain ⟨j, hj, htraces⟩ := hcases.joins
  refine .of_goto hb ?_ ?_ (Nat.le_refl _) (by omega) ?_ ?_
  · exact Graph.Grows.trans ⟨by omega, fun i _ hi => hkept i hi⟩
      (hcases.grows.mono (by omega) (.inl rfl))
  · rw [hj, hblock₁]
    exact List.prefix_append _ _
  · rw [hblock₂ _ (by omega) (by omega), hkept _ (by omega),
      Graph.block_of_size_le (Nat.le_refl _)]
  · intro G hG t
    have hruns := htraces G fun i hi hstart => hG i hi (by omega) (by omega)
    have hheld : G.block b.current = { b.graph.block b.current with
        entries := (b.graph.block b.current).entries ++ [.expr subject], successors := [j] } := by
      rw [hG _ (by omega) (.inl rfl) (by omega), hj, hblock₁, hb.successors]
      rfl
    rw [Graph.Onward, Graph.path_append_iff hb.ne (congrArg Block.entries hheld), hheld,
      Behaviour.into_behind]
    simp [hruns]

/-! ## Statements -/

theorem builds_cons {loop : Option Loop} {p q : Behaviour} {f : Builder → Builder}
    {rest : List Stmt} (hf : Builds loop p f) (hrest : Builds loop q (Builder.stmts loop rest)) :
    Builds loop (.seq p q) fun b =>
      if b.isTerminated then b else Builder.stmts loop rest (f b) := by
  intro b hb hloop
  dsimp only
  rw [if_neg (by simp [hb.isTerminated])]
  have hadds := hf b hb hloop
  by_cases hend : (f b).isTerminated = true
  · have hskip : Builder.stmts loop rest (f b) = f b := by
      cases rest with
      | nil => rfl
      | cons s rest => rw [Builder.stmts, if_pos hend]
    rw [hskip]
    exact hadds.seq_of_isTerminated hend
  · have hopen : (f b).isTerminated = false := by simpa using hend
    exact hadds.seq (hrest _ (hadds.open_of_not_terminated hopen) (hloop.mono hadds.grows.size))
      hb hopen

theorem Behaviour.ofStmts_of_isEmpty {ss : List Stmt} (h : ss.isEmpty = true) :
    Behaviour.ofStmts ss = .ends [] .next := by
  rw [List.isEmpty_iff.mp h, Behaviour.ofStmts]

mutual

theorem builds_stmt (loop : Option Loop) {s : Stmt} (h : isTryFree s = true) :
    Builds loop (.ofStmt s) (Builder.stmt loop s) := by
  intro b hb hloop
  cases s
  case ret x value =>
    rw [Builder.stmt, Behaviour.ofStmt]
    exact builds_jump (by decide) (fun n hn _ => hn) (fun G next => rfl) b hb hloop
  case raise x exc cause =>
    rw [Builder.stmt, Behaviour.ofStmt]
    exact builds_jump (by decide) (fun n hn _ => hn) (fun G next => rfl) b hb hloop
  case breakLoop x =>
    rw [Builder.stmt, Behaviour.ofStmt]
    refine builds_jump (by decide) (fun n hn hrange => ?_) (fun G next => rfl) b hb hloop
    cases loop with
    | none => exact hn
    | some l => exact (hrange l rfl).2
  case continueLoop x =>
    rw [Builder.stmt, Behaviour.ofStmt]
    refine builds_jump (by decide) (fun n hn hrange => ?_) (fun G next => rfl) b hb hloop
    cases loop with
    | none => exact hn
    | some l => exact (hrange l rfl).1
  case branch x test body orelse =>
    simp only [isTryFree, Bool.and_eq_true] at h
    rw [Builder.stmt, Behaviour.ofStmt]
    exact builds_branch (builds_stmts loop h.1) (builds_stmts loop h.2) test b hb hloop
  case whileLoop x test body orelse =>
    simp only [isTryFree, Bool.and_eq_true] at h
    rw [Builder.stmt, Behaviour.ofStmt]
    exact builds_loop (decides_condition test) (fun t v => Test.ofExpr_ne_nil)
      (fun loop => builds_stmts loop h.1) (builds_stmts loop h.2) Behaviour.ofStmts_of_isEmpty
      b hb hloop
  case forLoop x isAsync target iter body orelse =>
    simp only [isTryFree, Bool.and_eq_true] at h
    rw [Builder.stmt, Behaviour.ofStmt]
    exact builds_loop (fun yes no b hb hyes hno => decides_single hb hyes hno iter)
      (fun t v ht => by rw [ht]; simp) (fun loop => builds_stmts loop h.1)
      (builds_stmts loop h.2) Behaviour.ofStmts_of_isEmpty b hb hloop
  case withBlock x isAsync items body =>
    rw [Builder.stmt, Behaviour.ofStmt]
    rw [isTryFree] at h
    exact builds_with (builds_stmts loop h) items b hb hloop
  case tryBlock => exact absurd h (by simp [isTryFree])
  case matchBlock x subject cs =>
    rw [Builder.stmt, Behaviour.ofStmt]
    rw [isTryFree] at h
    exact builds_match (h := fun d c b => Builder.cases loop d 0 c cs b)
      (fun d => continues_cases loop d 0 h) subject b hb hloop
  all_goals
    rw [Builder.stmt, Behaviour.ofStmt]
    · exact builds_append loop _ b hb hloop
    all_goals simp

theorem builds_stmts (loop : Option Loop) {ss : List Stmt} (h : areTryFree ss = true) :
    Builds loop (.ofStmts ss) (Builder.stmts loop ss) := by
  cases ss with
  | nil => exact builds_nil loop
  | cons s rest =>
    simp only [areTryFree, Bool.and_eq_true] at h
    exact builds_cons (builds_stmt loop h.1) (builds_stmts loop h.2)

theorem continues_cases (loop : Option Loop) (d i : Nat) : ∀ {cs : List MatchCase},
    haveTryFree cs = true →
      Continues loop (.ofCases i cs) d fun c b => Builder.cases loop d i c cs b
  | [], _ => continues_nil loop d
  | .mk p guard body :: rest, h => by
    simp only [haveTryFree, Bool.and_eq_true] at h
    have hcases := continues_cons (builds_stmts loop h.1) (continues_cases loop d (i + 1) h.2)
      ((Builder.caseRemarks i p).map .remark ++ guard.toList.map .expr)
    intro b c hexit hc hd hloop
    have hjoins := hcases b c hexit hc hd hloop
    dsimp only at hjoins ⊢
    rw [Builder.cases, Builder.elim_guard]
    exact hjoins

end

/-- The graph of statements starts with them and leads to the exit, which is empty. -/
theorem fills_ofBody {body : List Stmt} (h : areTryFree body = true) :
    Graph.Fills none (.ofStmts body) entryBlock exitBlock {} (Graph.ofBody body) := by
  have hopen : (({} : Builder).goto entryBlock).Open :=
    ⟨by decide, by decide, by decide, rfl, rfl⟩
  exact (builds_stmts none h).fills_of_open hopen rfl (fun l hl => by simp at hl) (by decide)

theorem Graph.path_exit_iff {G : Graph} (h : G.block exitBlock = {}) {t : Trace} :
    G.Path exitBlock t ↔ t = [] := by
  constructor
  · intro hpath
    cases hpath with
    | exit => rw [h]
    | step hj _ =>
      rw [h] at hj
      exact absurd hj (List.not_mem_nil)
  · rintro rfl
    have hpath : G.Path exitBlock (G.block exitBlock).entries := .exit
    rwa [h] at hpath

/-- The paths from the entry to the exit of the graph of statements without `try` have the traces of
their runs. -/
theorem path_ofBody_iff {body : List Stmt} (h : areTryFree body = true) (t : Trace) :
    (Graph.ofBody body).Path entryBlock t ↔ ∃ o, Behaviour.ofStmts body t o := by
  have hfills := fills_ofBody h
  have hexit : (Graph.ofBody body).block exitBlock = {} :=
    hfills.grows.block exitBlock (by decide) (by decide)
  have hend (o : Outcome) (u : Trace) :
      (Graph.ofBody body).sequel none ((Graph.ofBody body).Path exitBlock) o u ↔ u = [] := by
    cases o <;> exact Graph.path_exit_iff hexit
  rw [hfills.traces _ (fun i _ _ => rfl) t]
  constructor
  · rintro ⟨t₁, o, u, hrun, hu, rfl⟩
    rw [(hend o u).mp hu, List.append_nil]
    exact ⟨o, hrun⟩
  · rintro ⟨o, hrun⟩
    exact ⟨t, o, [], hrun, (hend o []).mpr rfl, (List.append_nil t).symm⟩

/-- In `while a and b: break` with an `else` part, the `break` skips that part. -/
theorem path_ofBody_break :
    let x : Extent := ⟨⟨0, 0⟩, 0, 0⟩
    let a : Expr := .name x (utf8 "a") .load
    let b : Expr := .name x (utf8 "b") .load
    let body : List Stmt := [.whileLoop x (.boolean x .and [a, b]) [.breakLoop x] [.pass x]]
    areTryFree body = true ∧
      (Graph.ofBody body).Path entryBlock [.expr a, .expr b, .stmt (.breakLoop x)] := by
  intro x a b body
  refine ⟨by decide, (path_ofBody_iff (by decide) _).mpr ⟨.next, ?_⟩⟩
  have htest : Test.ofExpr (.boolean x .and [a, b]) [.expr a, .expr b] true :=
    .inr ⟨[.expr b], rfl, rfl⟩
  have hbody : Behaviour.ofStmts [.breakLoop x] [.stmt (.breakLoop x)] .broken := by
    simp only [Behaviour.ofStmts, Behaviour.ofStmt]
    exact .inl ⟨⟨rfl, rfl⟩, by decide⟩
  simp only [body, Behaviour.ofStmts, Behaviour.ofStmt] at hbody ⊢
  exact .inr ⟨_, [], .broken htest hbody, ⟨rfl, rfl⟩, rfl⟩

end CloneScout.Flow
