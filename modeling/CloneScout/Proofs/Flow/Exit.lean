import CloneScout.Proofs.Flow.Paths
import CloneScout.Proofs.Grammar.Twins.Parse
import Mathlib.Logic.Relation

/-!
# Every block leads to the exit

While a graph is under construction some of its blocks lead nowhere yet: the block that takes the
next statement, and the blocks that a compound statement has opened and not filled. `Builder.Covers`
says that every other block of a statement leads to one of these or to the target of a jump. Edges
are only ever added, so this is kept, and each step takes out of the blocks that are left those that
it has given a way on.
-/

namespace CloneScout.Flow

/-! ## Edges and ways -/

namespace Graph

/-- Control can go from block `i` straight to block `j`. -/
def Edge (g : Graph) (i j : Nat) : Prop := j ∈ (g.block i).successors

/-- Control can go from block `i` to one of the blocks `T`. -/
def Reaches (g : Graph) (T : Nat → Prop) (i : Nat) : Prop :=
  ∃ j, T j ∧ Relation.ReflTransGen g.Edge i j

namespace Reaches

variable {g g' : Graph} {T U : Nat → Prop} {i j : Nat}

theorem refl (h : T i) : g.Reaches T i := ⟨i, h, .refl⟩

theorem head (h : g.Edge i j) (hj : g.Reaches T j) : g.Reaches T i := by
  obtain ⟨k, hk, hpath⟩ := hj
  exact ⟨k, hk, .head h hpath⟩

theorem trans (h : g.Reaches T i) (hT : ∀ t, T t → g.Reaches U t) : g.Reaches U i := by
  obtain ⟨j, hj, hpath⟩ := h
  obtain ⟨k, hk, hpath'⟩ := hT j hj
  exact ⟨k, hk, hpath.trans hpath'⟩

theorem extend (h : g.Reaches T i) (hg : ∀ i j, g.Edge i j → g'.Edge i j) : g'.Reaches T i := by
  obtain ⟨j, hj, hpath⟩ := h
  exact ⟨j, hj, Relation.ReflTransGen.mono hg _ _ hpath⟩

end Reaches

variable {g : Graph}

theorem edge_edge_iff {i j k l : Nat} : (g.edge i j).Edge k l ↔
    g.Edge k l ∨ k = i ∧ l = j ∧ i < g.size ∧ j < g.size := by
  by_cases hrange : i < g.size ∧ j < g.size
  · by_cases hk : k = i
    · subst hk
      simp [Edge, block_edge_self hrange.1 hrange.2, mem_insertNumber, hrange, or_comm]
    · simp [Edge, block_edge_of_ne hk, hk]
  · have hsame : g.edge i j = g := by
      rw [edge, if_neg (by simpa using hrange)]
    rw [hsame]
    simp only [hrange, and_false, or_false]

theorem edge_append_iff {i k l : Nat} {e : Entry} : (g.append i e).Edge k l ↔ g.Edge k l := by
  by_cases hk : k = i
  · subst hk
    by_cases hlt : k < g.size
    · simp [Edge, block_append_self e hlt]
    · simp [Edge, block_of_size_le (by simpa using hlt : (g.append k e).size ≤ k),
        block_of_size_le (by simpa using hlt : g.size ≤ k)]
  · simp [Edge, block_append_of_ne e hk]

theorem edge_terminate_iff {i k l : Nat} : (g.terminate i).Edge k l ↔ g.Edge k l := by
  by_cases hk : k = i
  · subst hk
    by_cases hlt : k < g.size
    · simp [Edge, block_terminate_self hlt]
    · simp [Edge, block_of_size_le (by simpa using hlt : (g.terminate k).size ≤ k),
        block_of_size_le (by simpa using hlt : g.size ≤ k)]
  · simp [Edge, block_terminate_of_ne hk]

/-- Edges lead to existing blocks but never back to the entry, and the exit is empty. -/
structure Sound (g : Graph) : Prop where
  size : exitBlock < g.size
  range : ∀ i j, g.Edge i j → j < g.size ∧ j ≠ entryBlock
  exit : (g.block exitBlock).entries = [] ∧ (g.block exitBlock).successors = []

namespace Sound

variable {i j : Nat}

theorem edge (h : g.Sound) (hi : i ≠ exitBlock) (hj : j ≠ entryBlock) : (g.edge i j).Sound where
  size := by rw [size_edge]; exact h.size
  range k l hkl := by
    rw [size_edge]
    rcases edge_edge_iff.mp hkl with hkl | ⟨-, rfl, -, hlt⟩
    · exact h.range k l hkl
    · exact ⟨hlt, hj⟩
  exit := by rw [block_edge_of_ne (Ne.symm hi)]; exact h.exit

theorem append (h : g.Sound) (hi : i ≠ exitBlock) (e : Entry) : (g.append i e).Sound where
  size := by rw [size_append]; exact h.size
  range k l hkl := by
    rw [size_append]
    exact h.range k l (edge_append_iff.mp hkl)
  exit := by rw [block_append_of_ne e (Ne.symm hi)]; exact h.exit

theorem terminate (h : g.Sound) (hi : i ≠ exitBlock) : (g.terminate i).Sound where
  size := by rw [size_terminate]; exact h.size
  range k l hkl := by
    rw [size_terminate]
    exact h.range k l (edge_terminate_iff.mp hkl)
  exit := by rw [block_terminate_of_ne (Ne.symm hi)]; exact h.exit

end Sound

end Graph

/-! ## What a part of the graph leaves open -/

namespace Builder

/-- The block takes the next statement or is still to be opened. -/
def Owns (b : Builder) (i : Nat) : Prop := i = b.current ∨ b.graph.size ≤ i

/-- The graph of `b` has become `g`, with a way to one of the blocks `T` from each block of what was
added. -/
structure Covers (b : Builder) (T : Nat → Prop) (g : Graph) : Prop where
  sound : g.Sound
  grows : Graph.Grows b.graph.size b.current b.graph g
  edges : ∀ i j, b.graph.Edge i j → g.Edge i j
  reaches : ∀ i < g.size, b.Owns i → g.Reaches T i

namespace Covers

variable {b : Builder} {T U V : Nat → Prop} {g : Graph} {i j : Nat}

theorem refl (h : b.graph.Sound) : b.Covers (· = b.current) b.graph where
  sound := h
  grows := .refl _ _ _
  edges _ _ h := h
  reaches i hi howns := .refl (by unfold Owns at howns; omega)

theorem mono (h : b.Covers T g) (hT : ∀ t, T t → U t) : b.Covers U g :=
  { h with reaches := fun i hi howns => (h.reaches i hi howns).trans fun t ht => .refl (hT t ht) }

theorem owns_of_size_le (h : b.Covers T g) (hi : g.size ≤ i) : b.Owns i :=
  .inr (Nat.le_trans h.grows.size hi)

/-- New blocks are left open. -/
theorem create {c : Builder} (h : b.Covers T c.graph) (n : Nat) :
    b.Covers (fun t => T t ∨ c.graph.size ≤ t ∧ t < c.graph.size + n) (c.create n).graph := by
  have hedge (i j : Nat) : (c.create n).graph.Edge i j ↔ c.graph.Edge i j := by
    rw [Graph.Edge, block_create, Graph.Edge]
  refine ⟨⟨?_, fun i j hij => ?_, ?_⟩, h.grows.trans (grows_create _ _ n c),
    fun i j hij => (hedge i j).mpr (h.edges i j hij), fun i hi howns => ?_⟩
  · rw [size_create]
    exact Nat.lt_add_right n h.sound.size
  · rw [size_create]
    obtain ⟨hlt, hne⟩ := h.sound.range i j ((hedge i j).mp hij)
    exact ⟨Nat.lt_add_right n hlt, hne⟩
  · rw [block_create]
    exact h.sound.exit
  · rw [size_create] at hi
    by_cases hlt : i < c.graph.size
    · refine ((h.reaches i hlt howns).extend fun i j => (hedge i j).mpr).trans fun t ht => ?_
      exact .refl (.inl ht)
    · exact .refl (.inr ⟨by omega, hi⟩)

theorem append (h : b.Covers T g) (howns : b.Owns i) (hi : i ≠ exitBlock) (e : Entry) :
    b.Covers T (g.append i e) where
  sound := h.sound.append hi e
  grows := h.grows.trans (.append howns g e)
  edges k l hkl := Graph.edge_append_iff.mpr (h.edges k l hkl)
  reaches k hk howns := by
    rw [Graph.size_append] at hk
    exact (h.reaches k hk howns).extend fun _ _ => Graph.edge_append_iff.mpr

theorem terminate (h : b.Covers T g) (howns : b.Owns i) (hi : i ≠ exitBlock) :
    b.Covers T (g.terminate i) where
  sound := h.sound.terminate hi
  grows := h.grows.trans (.terminate howns g)
  edges k l hkl := Graph.edge_terminate_iff.mpr (h.edges k l hkl)
  reaches k hk howns := by
    rw [Graph.size_terminate] at hk
    exact (h.reaches k hk howns).extend fun _ _ => Graph.edge_terminate_iff.mpr

/-- One more edge. -/
theorem edge (h : b.Covers T g) (howns : b.Owns i) (hi : i ≠ exitBlock) (hj : j ≠ entryBlock) :
    b.Covers T (g.edge i j) where
  sound := h.sound.edge hi hj
  grows := h.grows.trans (.edge howns g j)
  edges k l hkl := Graph.edge_edge_iff.mpr (.inl (h.edges k l hkl))
  reaches k hk howns := by
    rw [Graph.size_edge] at hk
    exact (h.reaches k hk howns).extend fun _ _ hkl => Graph.edge_edge_iff.mpr (.inl hkl)

/-- An edge gives block `i` a way on. -/
theorem close (h : b.Covers T g) (howns : b.Owns i) (hi : i < g.size ∧ i ≠ exitBlock)
    (hj : j < g.size ∧ j ≠ entryBlock) (hT : ∀ t, T t → t = i ∨ U t) (hU : U j) :
    b.Covers U (g.edge i j) := by
  have hedge := h.edge howns hi.2 hj.2
  refine { hedge with reaches := fun k hk howns => (hedge.reaches k hk howns).trans fun t ht => ?_ }
  rcases hT t ht with rfl | hu
  · exact .head (Graph.edge_edge_iff.mpr (.inr ⟨rfl, rfl, hi.1, hj.1⟩)) (.refl hU)
  · exact .refl hu

/-- The current block of `c` is filled. -/
theorem fill {c : Builder} (h : b.Covers T c.graph) (howns : b.Owns c.current)
    (hlt : c.current < c.graph.size) (hfilled : c.Covers V g)
    (hT : ∀ t, T t → t = c.current ∨ U t) (hV : ∀ v, V v → g.Reaches U v) : b.Covers U g := by
  have hgrows := hfilled.grows.mono h.grows.size howns
  have hsize := hfilled.grows.size
  refine ⟨hfilled.sound, h.grows.trans hgrows, fun k l hkl => hfilled.edges k l (h.edges k l hkl),
    fun k hk hkowns => ?_⟩
  by_cases hold : k < c.graph.size
  · refine ((h.reaches k hold hkowns).extend hfilled.edges).trans fun t ht => ?_
    rcases hT t ht with rfl | hu
    · exact (hfilled.reaches _ (by omega) (.inl rfl)).trans hV
    · exact .refl hu
  · exact (hfilled.reaches k hk (.inr (Nat.le_of_not_lt hold))).trans hV

end Covers

/-! ## Statements -/

/-- Where jumps out of statements in a loop lead. -/
def Exits (loop : Option Loop) (t : Nat) : Prop :=
  t = exitBlock ∨ ∃ l ∈ loop, t = l.again ∨ t = l.done

/-- The current block can take statements of the given loop. -/
structure Ready (loop : Option Loop) (b : Builder) : Prop where
  sound : b.graph.Sound
  lt : b.current < b.graph.size
  ne : b.current ≠ exitBlock
  opened : b.isTerminated = false
  exits : ∀ t, Exits loop t → t < b.graph.size ∧ t ≠ entryBlock

/-- With `b'`, statements have been added to `b`, and there is a way from each of them to the end of
the last one or to the target of a jump. -/
structure Flows (loop : Option Loop) (b b' : Builder) : Prop where
  covers : b.Covers (fun t => Exits loop t ∨ b'.isTerminated = false ∧ t = b'.current) b'.graph
  lt : b'.current < b'.graph.size
  ne : b'.current ≠ exitBlock
  owns : b.Owns b'.current

/-- The function adds statements wherever it can. -/
def Extends (loop : Option Loop) (f : Builder → Builder) : Prop :=
  ∀ b : Builder, b.Ready loop → b.Flows loop (f b)

variable {loop : Option Loop} {b b₁ b₂ : Builder}

theorem Flows.ready (h : b.Flows loop b₁) (hb : b.Ready loop) (hopen : b₁.isTerminated = false) :
    b₁.Ready loop where
  sound := h.covers.sound
  lt := h.lt
  ne := h.ne
  opened := hopen
  exits t ht := by
    obtain ⟨hlt, hne⟩ := hb.exits t ht
    exact ⟨Nat.lt_of_lt_of_le hlt h.covers.grows.size, hne⟩

theorem Flows.trans (h : b.Flows loop b₁) (h' : b₁.Flows loop b₂) : b.Flows loop b₂ where
  covers := by
    refine h.covers.fill h.owns h.lt h'.covers (fun t ht => ?_) fun v hv => .refl hv
    rcases ht with hexit | ⟨-, rfl⟩
    · exact .inr (.inl hexit)
    · exact .inl rfl
  lt := h'.lt
  ne := h'.ne
  owns := by
    have hsize := h.covers.grows.size
    have howns := h.owns
    have howns' := h'.owns
    unfold Owns at *
    omega

/-- Behind the last statement control goes on to block `d`. -/
theorem Flows.flowTo (h : b.Flows loop b₁) {d : Nat} (hd : d < b₁.graph.size ∧ d ≠ entryBlock) :
    b.Covers (fun t => Exits loop t ∨ t = d) (b₁.flowTo d).graph := by
  rw [Builder.flowTo]
  split
  · next hend =>
    refine h.covers.mono fun t ht => .inl (ht.resolve_right fun hopen => ?_)
    rw [hend] at hopen
    cases hopen.1
  · refine h.covers.close h.owns ⟨h.lt, h.ne⟩ hd (fun t ht => ?_) (.inr rfl)
    rcases ht with hexit | ⟨-, rfl⟩
    · exact .inr (.inl hexit)
    · exact .inl rfl

theorem extends_append (loop : Option Loop) (e : Entry) :
    Extends loop fun b => b.append b.current e := by
  intro b hb
  have hopen : (b.append b.current e).isTerminated = false := by
    show ((b.graph.append b.current e).block b.current).terminated = false
    rw [Graph.block_append_self e hb.lt]
    exact hb.opened
  refine ⟨?_, by simpa using hb.lt, hb.ne, .inl rfl⟩
  exact ((Covers.refl hb.sound).append (.inl rfl) hb.ne e).mono fun t ht => .inr ⟨hopen, ht⟩

theorem extends_jump {i : Nat} (hi : Exits loop i) (s : Stmt) :
    Extends loop fun b => b.jump s i := by
  intro b hb
  refine ⟨?_, by simpa [jump] using hb.lt, hb.ne, .inl rfl⟩
  have hentry := (Covers.refl hb.sound).append (.inl rfl) hb.ne (.stmt s)
  refine (hentry.terminate (.inl rfl) hb.ne).close (.inl rfl) ⟨?_, hb.ne⟩ ⟨?_, (hb.exits i hi).2⟩
    (fun t ht => .inl ht) (.inl hi)
  · simpa using hb.lt
  · simpa using (hb.exits i hi).1

theorem exits_break (loop : Option Loop) : Exits loop (loop.elim exitBlock Loop.done) := by
  cases loop with
  | none => exact .inl rfl
  | some l => exact .inr ⟨l, rfl, .inr rfl⟩

theorem exits_continue (loop : Option Loop) : Exits loop (loop.elim exitBlock Loop.again) := by
  cases loop with
  | none => exact .inl rfl
  | some l => exact .inr ⟨l, rfl, .inl rfl⟩

theorem extends_nil (loop : Option Loop) : Extends loop id := by
  intro b hb
  exact ⟨(Covers.refl hb.sound).mono fun t ht => .inr ⟨hb.opened, ht⟩, hb.lt, hb.ne, .inl rfl⟩

/-- What follows a jump is left out. -/
theorem extends_cons {f g : Builder → Builder} (hf : Extends loop f) (hg : Extends loop g)
    (hend : ∀ b, b.isTerminated = true → g b = b) : Extends loop fun b => g (f b) := by
  intro b hb
  have hfirst := hf b hb
  cases hopen : (f b).isTerminated with
  | true =>
    show b.Flows loop (g (f b))
    rw [hend _ hopen]
    exact hfirst
  | false => exact hfirst.trans (hg _ (hfirst.ready hb hopen))

theorem stmts_of_isTerminated {ss : List Stmt} (h : b.isTerminated = true) :
    Builder.stmts loop ss b = b := by
  cases ss with
  | nil => rfl
  | cons s rest => rw [Builder.stmts, if_pos h]

theorem tryStmts_of_isTerminated {test : Option Nat} {ss : List Stmt} (h : b.isTerminated = true) :
    Builder.tryStmts loop test ss b = b := by
  cases ss with
  | nil => rfl
  | cons s rest =>
    rw [Builder.tryStmts.eq_def]
    exact if_pos h

/-! ## Blocks of compound statements -/

theorem Ready.goto {i : Nat} (hsound : b.graph.Sound) (hi : i < b.graph.size ∧ i ≠ exitBlock)
    (hempty : b.graph.block i = {})
    (hexits : ∀ t, Exits loop t → t < b.graph.size ∧ t ≠ entryBlock) : (b.goto i).Ready loop where
  sound := hsound
  lt := hi.1
  ne := hi.2
  opened := by
    show (b.graph.block i).terminated = false
    rw [hempty]
  exits := hexits

variable {T U : Nat → Prop}

/-- Jumps lead to blocks from which there is a way to `U`. -/
def Escapes (loop : Option Loop) (U : Nat → Prop) (g : Graph) : Prop :=
  ∀ t, Exits loop t → (t < g.size ∧ t ≠ entryBlock) ∧ g.Reaches U t

theorem Ready.escapes (hb : b.Ready loop) {g : Graph} (h : b.Covers T g)
    (hU : ∀ t, Exits loop t → U t) : Escapes loop U g := by
  intro t ht
  obtain ⟨hlt, hne⟩ := hb.exits t ht
  exact ⟨⟨Nat.lt_of_lt_of_le hlt h.grows.size, hne⟩, .refl (hU t ht)⟩

/-- The empty block `i` takes statements, which go on to block `d`. -/
theorem Covers.run {f : Builder → Builder} (h : b.Covers T b₁.graph) (hf : Extends loop f)
    {i d : Nat} (howns : b.Owns i) (hi : i < b₁.graph.size ∧ i ≠ exitBlock)
    (hempty : b₁.graph.block i = {}) (hexits : Escapes loop U b₁.graph)
    (hd : d < b₁.graph.size ∧ d ≠ entryBlock) (hU : b₁.graph.Reaches U d)
    (hT : ∀ t, T t → t = i ∨ U t) :
    b.Covers U ((f (b₁.goto i)).flowTo d).graph ∧
      Graph.Grows b₁.graph.size i b₁.graph ((f (b₁.goto i)).flowTo d).graph := by
  have hready : (b₁.goto i).Ready loop := .goto h.sound hi hempty fun t ht => (hexits t ht).1
  have hflows := hf _ hready
  have hsize : b₁.graph.size ≤ (f (b₁.goto i)).graph.size := hflows.covers.grows.size
  have hfilled := hflows.flowTo ⟨Nat.lt_of_lt_of_le hd.1 hsize, hd.2⟩
  refine ⟨h.fill (c := b₁.goto i) howns hi.1 hfilled hT fun v hv => ?_, hfilled.grows⟩
  rcases hv with hv | rfl
  · exact (hexits v hv).2.extend hfilled.edges
  · exact hU.extend hfilled.edges

/-- From each operand of a condition there is a way to where it fails. -/
theorem Covers.operands (op : BoolOp) {yes no : Nat} (hyes : yes ≠ entryBlock) (hno : U no)
    (hne : no ≠ entryBlock) {values : List Expr} (hvalues : values ≠ []) {i : Nat}
    (h : b.Covers (fun t => t = i ∨ U t) b₁.graph) (howns : b.Owns i)
    (hi : i < b₁.graph.size ∧ i ≠ exitBlock) (hlt : no < b₁.graph.size) :
    b.Covers U (b₁.operands op yes no i values).graph := by
  fun_induction Builder.operands op yes no i values b₁ with
  | case1 => exact absurd rfl hvalues
  | case2 i e b₁ =>
    refine ((h.append howns hi.2 (.expr e)).edge howns hi.2 hyes).close howns ⟨?_, hi.2⟩ ⟨?_, hne⟩
      (fun t ht => ht) hno
    · simpa using hi.1
    · simpa using hlt
  | case3 i e rest b₁ hrest next early b₂ ih =>
    have hnext : next ≠ entryBlock := Nat.ne_of_gt (Nat.zero_lt_of_lt hi.1)
    have hearly : early ≠ entryBlock := by
      dsimp only [early]
      split <;> assumption
    have hcreate := Covers.create (c := b₁.append i (.expr e)) (h.append howns hi.2 (.expr e)) 1
    have hclose := hcreate.close (i := i) (j := next) (U := fun t => t = next ∨ U t) howns
      ⟨by simp; omega, hi.2⟩ ⟨by simp [next], hnext⟩ (fun t ht => ?_) (.inl rfl)
    · exact ih hrest (hclose.edge howns hi.2 hearly) (h.owns_of_size_le (Nat.le_refl _))
        ⟨by simp [b₂, next], Nat.ne_of_gt h.sound.size⟩ (by simp [b₂]; omega)
    · rw [graph_append, Graph.size_append] at ht
      rcases ht with ht | ht
      · exact ht.imp_right .inr
      · exact .inr (.inl (by omega))

theorem covers_single (e : Expr) (yes no : Nat) (b : Builder) (hsound : b.graph.Sound)
    (hcurrent : b.current < b.graph.size ∧ b.current ≠ exitBlock) (hyes : yes ≠ entryBlock)
    (hno : no < b.graph.size ∧ no ≠ entryBlock) :
    b.Covers (· = no)
      (((b.append b.current (.expr e)).edge b.current yes).edge b.current no).graph := by
  have hentry := (Covers.refl hsound).append (.inl rfl) hcurrent.2 (.expr e)
  refine (hentry.edge (.inl rfl) hcurrent.2 hyes).close (.inl rfl) ⟨?_, hcurrent.2⟩ ⟨?_, hno.2⟩
    (fun t => .inl) rfl
  · simpa using hcurrent.1
  · simpa using hno.1

theorem covers_condition {test : Expr} (htest : WellFormed.expr .load test) (yes no : Nat)
    (b : Builder) (hsound : b.graph.Sound) (hcurrent : b.current < b.graph.size ∧ b.current ≠ exitBlock)
    (hyes : yes ≠ entryBlock) (hno : no < b.graph.size ∧ no ≠ entryBlock) :
    b.Covers (· = no) (b.condition test yes no).graph := by
  unfold condition
  split
  · next values =>
    have hvalues : values ≠ [] := by
      rintro rfl
      exact absurd htest.2.1 (by decide)
    exact ((Covers.refl hsound).mono fun t => .inl).operands (U := (· = no)) _ hyes rfl hno.2 hvalues
      (.inl rfl) hcurrent hno.1
  · exact covers_single test yes no b hsound hcurrent hyes hno

theorem Covers.appendAll {c : Builder} {i : Nat} (h : b.Covers T c.graph) (howns : b.Owns i)
    (hi : i ≠ exitBlock) (es : Trace) : b.Covers T (c.appendAll i es).graph := by
  induction es generalizing c with
  | nil => exact h
  | cons e es ih => exact ih (c := c.append i e) (h.append howns hi e)

/-- The empty block `d` takes what follows. -/
theorem Flows.of_goto {d : Nat} (h : b.Covers (fun t => t = d ∨ Exits loop t) b₁.graph)
    (hd : b.graph.size ≤ d ∧ d < b₁.graph.size) (hexit : exitBlock < b.graph.size)
    (hempty : b₁.graph.block d = {}) : b.Flows loop (b₁.goto d) where
  covers := by
    have hopen : (b₁.goto d).isTerminated = false := by
      show (b₁.graph.block d).terminated = false
      rw [hempty]
    refine h.mono fun t ht => ?_
    rcases ht with rfl | hexits
    · exact .inr ⟨hopen, rfl⟩
    · exact .inl hexits
  lt := hd.2
  ne := by
    rw [current_goto]
    omega
  owns := .inr hd.1

/-! ## Compound statements -/

theorem extends_branch (x : Extent) {test : Expr} (htest : WellFormed.expr .load test)
    {body orelse : List Stmt} (hbody : Extends loop (Builder.stmts loop body))
    (horelse : Extends loop (Builder.stmts loop orelse)) :
    Extends loop (Builder.stmt loop (.branch x test body orelse)) := by
  intro b hb
  rw [Builder.stmt]
  have hentry : entryBlock < exitBlock := by decide
  have hexit := hb.sound.size
  have hlt := hb.lt
  have hne := hb.ne
  have hcreate := (Covers.refl hb.sound).create 3
  generalize hn : b.graph.size = n at *
  have hcond := covers_condition htest n (n + 1) (b.create 3) hcreate.sound
    (by simp; omega) (by omega) (by simp; omega)
  have h₁ := hcreate.fill (U := fun t => n ≤ t ∧ t < n + 3) (.inl (current_create 3 b))
    (by simp; omega) hcond (fun t ht => by simpa using ht) fun v hv => .refl (by omega)
  have hsize₁ := hcond.grows.size
  have hempty₁ (i : Nat) (hi : n ≤ i ∧ i < n + 3) :
      ((b.create 3).condition test n (n + 1)).graph.block i = {} := by
    rw [hcond.grows.block i (by simp; omega) (by simp; omega), block_create,
      Graph.block_of_size_le (by omega)]
  rw [size_create, hn] at hsize₁
  generalize (b.create 3).condition test n (n + 1) = b₁ at *
  obtain ⟨h₂, hgrows₂⟩ := h₁.run (U := fun t => t = n + 1 ∨ t = n + 2 ∨ Exits loop t) hbody (i := n)
    (d := n + 2) (.inr (by omega)) ⟨by omega, by omega⟩ (hempty₁ n (by omega))
    (hb.escapes h₁ fun t ht => .inr (.inr ht)) ⟨by omega, by omega⟩ (.refl (.inr (.inl rfl)))
    fun t ht => by omega
  generalize (Builder.stmts loop body (b₁.goto n)).flowTo (n + 2) = b₂ at *
  have hsize₂ := hgrows₂.size
  have hempty₂ (i : Nat) (hi : n < i ∧ i < n + 3) : b₂.graph.block i = {} := by
    rw [hgrows₂.block i (by omega) (by omega), hempty₁ i (by omega)]
  obtain ⟨h₃, hgrows₃⟩ := h₂.run (U := fun t => t = n + 2 ∨ Exits loop t) horelse (i := n + 1)
    (d := n + 2) (.inr (by omega)) ⟨by omega, by omega⟩ (hempty₂ _ (by omega))
    (hb.escapes h₂ fun t => .inr) ⟨by omega, by omega⟩ (.refl (.inl rfl)) fun t ht => ht
  have hsize₃ := hgrows₃.size
  refine .of_goto h₃ ⟨by omega, by omega⟩ (by omega) ?_
  rw [hgrows₃.block _ (by omega) (by omega), hempty₂ _ (by omega)]

/-- The current block leads to the first of some new blocks, which are empty. -/
theorem Ready.open_blocks (hb : b.Ready loop) {n k : Nat} (hn : b.graph.size = n) (hk : 0 < k) :
    b.Covers (fun t => n ≤ t ∧ t < n + k) ((b.create k).edge b.current n).graph ∧
      ((b.create k).edge b.current n).graph.size = n + k ∧
      ∀ i, n ≤ i → ((b.create k).edge b.current n).graph.block i = {} := by
  subst hn
  have hlt := hb.lt
  have hexit := hb.sound.size
  refine ⟨?_, by simp, fun i hi => ?_⟩
  · refine ((Covers.refl hb.sound).create k).close (.inl rfl) ⟨by simp; omega, hb.ne⟩
      ⟨by simp; omega, Nat.ne_of_gt (Nat.zero_lt_of_lt hexit)⟩ (fun t ht => ht) ⟨Nat.le_refl _, by omega⟩
  · rw [graph_edge, Graph.block_edge_of_ne (by omega), block_create, Graph.block_of_size_le hi]

/-- A loop: its header leads to the block behind it or to the part for its regular end. -/
theorem extends_loop {header : Nat → Nat → Builder → Builder} {f : Option Loop → Builder → Builder}
    {g : Builder → Builder} {orelse : List Stmt}
    (hheader : ∀ (yes no : Nat) (b : Builder), b.graph.Sound →
      b.current < b.graph.size ∧ b.current ≠ exitBlock → yes ≠ entryBlock →
      no < b.graph.size ∧ no ≠ entryBlock → b.Covers (· = no) (header yes no b).graph)
    (hf : ∀ loop, Extends loop (f loop)) (hg : Extends loop g) :
    Extends loop fun b =>
      let again := b.graph.size
      let inside := again + 1
      let other := again + 2
      let done := if orelse.isEmpty then again + 2 else again + 3
      let b := (b.create (done + 1 - again)).edge b.current again
      let b := header inside (if orelse.isEmpty then done else other) (b.goto again)
      let b := (f (some ⟨again, done⟩) (b.goto inside)).flowTo again
      let b := if orelse.isEmpty then b else (g (b.goto other)).flowTo done
      b.goto done := by
  intro b hb
  dsimp only
  have hentry : entryBlock < exitBlock := by decide
  have hexit := hb.sound.size
  generalize hn : b.graph.size = n at *
  generalize hd : (if orelse.isEmpty = true then n + 2 else n + 3) = d
  generalize hno : (if orelse.isEmpty = true then d else n + 2) = no
  have hrange : n + 2 ≤ no ∧ no ≤ d := by
    subst hno hd
    by_cases hempty : orelse.isEmpty = true <;> simp [hempty]
  obtain ⟨h₀, hsize₀, hempty₀⟩ := hb.open_blocks hn (k := d + 1 - n) (by omega)
  generalize (b.create (d + 1 - n)).edge b.current n = b₀ at *
  have hhead := hheader (n + 1) no (b₀.goto n) h₀.sound
    ⟨by rw [current_goto, graph_goto]; omega, by rw [current_goto]; omega⟩ (by omega)
    ⟨by rw [graph_goto]; omega, by omega⟩
  have h₁ := h₀.fill (c := b₀.goto n) (U := fun t => n < t ∧ t ≤ d) (.inr (Nat.le_of_eq hn))
    (by rw [current_goto, graph_goto]; omega) hhead (fun t ht => by rw [current_goto]; omega)
    fun v hv => .refl (by omega)
  have hsize₁ : b₀.graph.size ≤ (header (n + 1) no (b₀.goto n)).graph.size := hhead.grows.size
  have hblock₁ (i : Nat) (hi : n < i ∧ i ≤ d) : (header (n + 1) no (b₀.goto n)).graph.block i = {} := by
    rw [hhead.grows.block i (by rw [graph_goto]; omega) (by rw [current_goto]; omega), graph_goto,
      hempty₀ i (by omega)]
  have hagain := hhead.reaches n (by omega) (.inl rfl)
  generalize header (n + 1) no (b₀.goto n) = b₁ at *
  have hescapes : Escapes (some ⟨n, d⟩) (fun t => n + 2 ≤ t ∧ t ≤ d ∨ t = exitBlock) b₁.graph := by
    rintro t (rfl | ⟨l, hl, ht⟩)
    · exact ⟨⟨by omega, by omega⟩, .refl (.inr rfl)⟩
    · obtain rfl := Option.some.inj hl
      rcases ht with rfl | rfl
      · exact ⟨⟨by omega, by omega⟩, hagain.trans fun v hv => .refl (.inl (by omega))⟩
      · exact ⟨⟨by omega, by omega⟩, .refl (.inl (by omega))⟩
  obtain ⟨h₂, hgrows₂⟩ := h₁.run (hf _) (i := n + 1) (d := n) (.inr (by omega))
    ⟨by omega, by omega⟩ (hblock₁ _ (by omega)) hescapes ⟨by omega, by omega⟩
    (hescapes n (.inr ⟨_, rfl, .inl rfl⟩)).2 fun t ht => by omega
  generalize (f (some ⟨n, d⟩) (b₁.goto (n + 1))).flowTo n = b₂ at *
  have hsize₂ := hgrows₂.size
  have hblock₂ (i : Nat) (hi : n + 2 ≤ i ∧ i ≤ d) : b₂.graph.block i = {} := by
    rw [hgrows₂.block i (by omega) (by omega), hblock₁ i (by omega)]
  by_cases hempty : orelse.isEmpty = true
  · rw [if_pos hempty] at hd ⊢
    refine .of_goto (h₂.mono fun t ht => ?_) ⟨by omega, by omega⟩ (by omega) (hblock₂ _ (by omega))
    exact ht.imp (fun h => by omega) .inl
  · rw [if_neg hempty] at hd ⊢
    have hleft (t : Nat) (ht : n + 2 ≤ t ∧ t ≤ d ∨ t = exitBlock) :
        t = n + 2 ∨ t = d ∨ Exits loop t := by
      rcases ht with ht | ht
      · omega
      · exact .inr (.inr (.inl ht))
    obtain ⟨h₃, hgrows₃⟩ := h₂.run (U := fun t => t = d ∨ Exits loop t) hg (i := n + 2) (d := d)
      (.inr (by omega)) ⟨by omega, by omega⟩ (hblock₂ _ (by omega))
      (hb.escapes h₂ fun t => .inr) ⟨by omega, by omega⟩ (.refl (.inl rfl)) hleft
    have hsize₃ := hgrows₃.size
    refine .of_goto h₃ ⟨by omega, by omega⟩ (by omega) ?_
    rw [hgrows₃.block _ (by omega) (by omega), hblock₂ _ (by omega)]

theorem extends_with (x : Extent) (isAsync : Bool) (items : List WithItem) {body : List Stmt}
    (hbody : Extends loop (Builder.stmts loop body)) :
    Extends loop (Builder.stmt loop (.withBlock x isAsync items body)) := by
  intro b hb
  rw [Builder.stmt, foldl_withItems, current_appendAll, current_create]
  have hentry : entryBlock < exitBlock := by decide
  have hexit := hb.sound.size
  have hlt := hb.lt
  have hcreate := (Covers.refl hb.sound).create 2
  generalize (items.map fun w => Entry.expr w.context) = es
  generalize hn : b.graph.size = n at *
  have hitems := hcreate.appendAll (.inl rfl) hb.ne es
  have h₁ := hitems.close (j := n) (U := fun t => n ≤ t ∧ t < n + 2) (.inl rfl)
    ⟨by simp; omega, hb.ne⟩ ⟨by simp; omega, by omega⟩ (fun t ht => ht) ⟨Nat.le_refl _, by omega⟩
  have hsize₁ : (((b.create 2).appendAll b.current es).edge b.current n).graph.size = n + 2 := by
    simp [hn]
  have hempty₁ (i : Nat) (hi : n ≤ i) :
      (((b.create 2).appendAll b.current es).edge b.current n).graph.block i = {} := by
    rw [graph_edge, Graph.block_edge_of_ne (by omega), block_appendAll_of_ne (by omega),
      block_create, Graph.block_of_size_le (by omega)]
  rw [← graph_edge] at h₁
  generalize ((b.create 2).appendAll b.current es).edge b.current n = b₁ at *
  obtain ⟨h₂, hgrows₂⟩ := h₁.run (U := fun t => t = n + 1 ∨ Exits loop t) hbody (i := n)
    (d := n + 1) (.inr (by omega)) ⟨by omega, by omega⟩ (hempty₁ n (by omega))
    (hb.escapes h₁ fun t => .inr) ⟨by omega, by omega⟩ (.refl (.inl rfl)) fun t ht => by omega
  have hsize₂ := hgrows₂.size
  refine .of_goto h₂ ⟨by omega, by omega⟩ (by omega) ?_
  rw [hgrows₂.block _ (by omega) (by omega), hempty₁ _ (by omega)]

/-- The function goes on from a given block, and all that it adds leads to block `d` or to the
target of a jump. -/
def Joins (loop : Option Loop) (d : Nat) (f : Nat → Builder → Builder) : Prop :=
  ∀ (before : Nat) (b : Builder), b.graph.Sound → before < b.graph.size ∧ before ≠ exitBlock →
    d < b.graph.size ∧ d ≠ entryBlock →
    (∀ t, Exits loop t → t < b.graph.size ∧ t ≠ entryBlock) →
    (b.goto before).Covers (fun t => t = d ∨ Exits loop t) (f before b).graph

theorem joins_nil (loop : Option Loop) (d : Nat) :
    Joins loop d fun before b => b.edge before d := by
  intro before b hsound hbefore hd _
  have hstart := Covers.refl (b := b.goto before) hsound
  exact hstart.close (.inl rfl) hbefore hd (fun t => .inl) (.inl rfl)

theorem joins_cons {d : Nat} {f : Builder → Builder} {g : Nat → Builder → Builder}
    (hf : Extends loop f) (hg : Joins loop d g) (es : Trace) :
    Joins loop d fun before b =>
      let test := b.graph.size
      let inside := test + 1
      let b := ((b.create 2).edge before test).appendAll test es
      let b := (f ((b.edge test inside).goto inside)).flowTo d
      g test b := by
  intro before b hsound hbefore hd hexits
  dsimp only
  have hentry : entryBlock < exitBlock := by decide
  have hexit := hsound.size
  have hcreate := (Covers.refl (b := b.goto before) hsound).create (c := b) 2
  generalize hn : b.graph.size = n at *
  have hstart := hcreate.close (j := n) (U := fun t => n ≤ t ∧ t < n + 2) (.inl rfl)
    ⟨by simp; omega, hbefore.2⟩ ⟨by simp; omega, by omega⟩ (fun t ht => ht) ⟨Nat.le_refl _, by omega⟩
  have howns : (b.goto before).Owns n := .inr (by rw [graph_goto]; omega)
  have h₁ := (Covers.appendAll (c := (b.create 2).edge before n) hstart howns (by omega) es).edge
    (j := n + 1) howns (by omega) (by omega)
  rw [← graph_edge] at h₁
  have hsize₁ : ((((b.create 2).edge before n).appendAll n es).edge n (n + 1)).graph.size = n + 2 := by
    simp [hn]
  have hempty₁ : ((((b.create 2).edge before n).appendAll n es).edge n (n + 1)).graph.block (n + 1) =
      {} := by
    rw [graph_edge, Graph.block_edge_of_ne (by omega), block_appendAll_of_ne (by omega), graph_edge,
      Graph.block_edge_of_ne (by omega), block_create, Graph.block_of_size_le (by omega)]
  generalize (((b.create 2).edge before n).appendAll n es).edge n (n + 1) = b₁ at *
  have hescapes : Escapes loop (fun t => t = n ∨ t = d ∨ Exits loop t) b₁.graph := fun t ht => by
    have hrange := hexits t ht
    exact ⟨⟨by omega, hrange.2⟩, .refl (.inr (.inr ht))⟩
  obtain ⟨h₂, hgrows₂⟩ := h₁.run hf (i := n + 1) (d := d) (.inr (by rw [graph_goto]; omega))
    ⟨by omega, by omega⟩ hempty₁ hescapes ⟨by omega, hd.2⟩ (.refl (.inr (.inl rfl)))
    fun t ht => by omega
  have hsize₂ := hgrows₂.size
  generalize (f (b₁.goto (n + 1))).flowTo d = b₂ at *
  have hrest := hg n b₂ h₂.sound ⟨by omega, by omega⟩ ⟨by omega, hd.2⟩ fun t ht => by
    have hrange := hexits t ht
    exact ⟨by omega, hrange.2⟩
  exact h₂.fill (c := b₂.goto n) howns (by rw [current_goto, graph_goto]; omega) hrest
    (fun t ht => ht) fun v hv => .refl hv

theorem extends_match (x : Extent) (subject : Expr) {cs : List MatchCase}
    (h : ∀ d, Joins loop d fun before b => Builder.cases loop d 0 before cs b) :
    Extends loop (Builder.stmt loop (.matchBlock x subject cs)) := by
  intro b hb
  rw [Builder.stmt]
  have hexit := hb.sound.size
  have hlt := hb.lt
  have hcreate := Covers.create (c := b.append b.current (.expr subject))
    ((Covers.refl hb.sound).append (.inl rfl) hb.ne (.expr subject)) 1
  have hsize : (b.append b.current (.expr subject)).graph.size = b.graph.size := by simp
  rw [current_append]
  rw [hsize] at hcreate ⊢
  generalize hn : b.graph.size = n at *
  have hempty : ((b.append b.current (.expr subject)).create 1).graph.block n = {} := by
    rw [block_create, graph_append, Graph.block_append_of_ne _ (by omega),
      Graph.block_of_size_le (by omega)]
  have hsize₁ : ((b.append b.current (.expr subject)).create 1).graph.size = n + 1 := by simp [hn]
  generalize (b.append b.current (.expr subject)).create 1 = b₁ at *
  have hcases := h n b.current b₁ hcreate.sound ⟨by omega, hb.ne⟩
    ⟨by omega, Nat.ne_of_gt (Nat.zero_lt_of_lt hexit)⟩ fun t ht => by
      have hrange := hb.exits t ht
      exact ⟨by omega, hrange.2⟩
  have hsize₂ : b₁.graph.size ≤ (Builder.cases loop n 0 b.current cs b₁).graph.size :=
    hcases.grows.size
  refine .of_goto (hcreate.fill (c := b₁.goto b.current) (.inl rfl)
    (by rw [current_goto, graph_goto]; omega) hcases (fun t ht => ?_) fun v hv => .refl hv)
    ⟨by omega, by omega⟩ (by omega) ?_
  · exact ht.imp_right fun hnew => .inl (by omega)
  · rw [hcases.grows.block n (by rw [graph_goto]; omega) (by rw [current_goto]; omega), graph_goto,
      hempty]

/-! ### Try -/

theorem isTerminated_edge (b : Builder) (i j : Nat) : (b.edge i j).isTerminated = b.isTerminated :=
  (Graph.block_edge b.graph i j b.current).2

/-- One more edge does not keep the current block from taking statements. -/
theorem extends_edge {f : Builder → Builder} (hf : Extends loop f) {j : Nat} (hj : j ≠ entryBlock) :
    Extends loop fun b => f (b.edge b.current j) := by
  intro b hb
  have hopen : (b.edge b.current j).isTerminated = false := by
    rw [isTerminated_edge]
    exact hb.opened
  have hedge : b.Flows loop (b.edge b.current j) :=
    ⟨((Covers.refl hb.sound).edge (.inl rfl) hb.ne hj).mono fun t ht => .inr ⟨hopen, ht⟩,
      by simpa using hb.lt, hb.ne, .inl rfl⟩
  exact hedge.trans (hf _ (hedge.ready hb hopen))

theorem current_handlerTests (done i test body : Nat) (hs : List Handler) (b : Builder) :
    (b.handlerTests done i test body hs).current = b.current := by
  induction hs generalizing i test body b with
  | nil => rfl
  | cons h rest ih => rw [handlerTests, ih, current_edge, current_edge, appendRemarks_eq, current_appendAll]

/-- The tests of handlers lead on; only their blocks change. -/
theorem Covers.handlerTests {c : Builder} {done : Nat} (hdone : done ≠ entryBlock) (i test body : Nat)
    (hs : List Handler) (h : b.Covers (fun t => test ≤ t ∧ t < test + hs.length ∨ U t) c.graph)
    (htest : b.graph.size ≤ test ∧ exitBlock < test)
    (hbody : test + hs.length ≤ body ∧ body + hs.length ≤ c.graph.size)
    (hU : ∀ t, body ≤ t → t < body + hs.length → U t) :
    b.Covers U (c.handlerTests done i test body hs).graph ∧
      (c.handlerTests done i test body hs).graph.size = c.graph.size ∧
      ∀ t, t < test ∨ test + hs.length ≤ t →
        (c.handlerTests done i test body hs).graph.block t = c.graph.block t := by
  have hentry : entryBlock < exitBlock := by decide
  induction hs generalizing i test body c with
  | nil => exact ⟨h.mono fun t ht => ht.resolve_left (by simp), rfl, fun _ _ => rfl⟩
  | cons handler rest ih =>
    rw [List.length_cons] at h hbody hU ⊢
    rw [Builder.handlerTests, appendRemarks_eq]
    generalize (handlerRemarks i handler).map Entry.remark = es
    have hnext : (if rest.isEmpty = true then done else test + 1) ≠ entryBlock := by
      split
      · exact hdone
      · omega
    generalize (if rest.isEmpty = true then done else test + 1) = next at *
    have howns : b.Owns test := .inr htest.1
    have hentries := h.appendAll howns (by omega) es
    have hleft (t : Nat) (ht : test ≤ t ∧ t < test + (rest.length + 1) ∨ U t) :
        t = test ∨ test + 1 ≤ t ∧ t < test + 1 + rest.length ∨ U t := by
      rcases ht with ht | ht
      · omega
      · exact .inr (.inr ht)
    have hbodyEdge := hentries.close (j := body) howns ⟨by simp; omega, by omega⟩
      ⟨by simp; omega, by omega⟩ hleft (.inr (hU body (Nat.le_refl _) (by omega)))
    obtain ⟨hcovers, hsize, hblock⟩ := ih (c := ((c.appendAll test es).edge test body).edge test next)
      (i + 1) (test + 1) (body + 1) (hbodyEdge.edge howns (by omega) hnext)
      ⟨by omega, by omega⟩ ⟨by omega, by simp; omega⟩ fun t ht ht' => hU t (by omega) (by omega)
    refine ⟨hcovers, hsize.trans (by simp), fun t ht => ?_⟩
    rw [hblock t (by omega), graph_edge, Graph.block_edge_of_ne (by omega), graph_edge,
      Graph.block_edge_of_ne (by omega), block_appendAll_of_ne (by omega)]

/-- The function fills the `k` empty blocks from `i` on, and they lead to block `d`. -/
def FillsBodies (loop : Option Loop) (d i k : Nat) (f : Builder → Builder) : Prop :=
  ∀ (b b₁ : Builder) (U : Nat → Prop), b.Ready loop →
    b.Covers (fun t => i ≤ t ∧ t < i + k ∨ U t) b₁.graph → b.graph.size ≤ i → i + k ≤ b₁.graph.size →
    (∀ t, i ≤ t → t < i + k → b₁.graph.block t = {}) → d < b₁.graph.size ∧ d ≠ entryBlock → U d →
    (∀ t, Exits loop t → U t) →
    b.Covers U (f b₁).graph ∧ b₁.graph.size ≤ (f b₁).graph.size ∧
      ∀ t < b₁.graph.size, t < i ∨ i + k ≤ t → (f b₁).graph.block t = b₁.graph.block t

theorem fillsBodies_nil (loop : Option Loop) (d i : Nat) : FillsBodies loop d i 0 id := by
  intro b b₁ U _ h _ _ _ _ _ _
  exact ⟨h.mono fun t ht => ht.resolve_left (by omega), Nat.le_refl _, fun _ _ _ => rfl⟩

theorem fillsBodies_cons {d i k : Nat} {f g : Builder → Builder} (hf : Extends loop f)
    (hg : FillsBodies loop d (i + 1) k g) :
    FillsBodies loop d i (k + 1) fun b => g ((f (b.goto i)).flowTo d) := by
  intro b b₁ U hb h hi hk hempty hd hU hexits
  dsimp only
  have hexit := hb.sound.size
  have hleft (t : Nat) (ht : i ≤ t ∧ t < i + (k + 1) ∨ U t) :
      t = i ∨ i + 1 ≤ t ∧ t < i + 1 + k ∨ U t := by
    rcases ht with ht | ht
    · omega
    · exact .inr (.inr ht)
  obtain ⟨h₂, hgrows₂⟩ := h.run hf (i := i) (d := d) (.inr hi) ⟨by omega, by omega⟩
    (hempty i (Nat.le_refl _) (by omega)) (hb.escapes h fun t ht => .inr (hexits t ht)) hd
    (.refl (.inr hU)) hleft
  have hsize₂ := hgrows₂.size
  generalize (f (b₁.goto i)).flowTo d = b₂ at *
  have hempty₂ (t : Nat) (ht : i + 1 ≤ t) (ht' : t < i + 1 + k) : b₂.graph.block t = {} := by
    rw [hgrows₂.block t (by omega) (by omega), hempty t (by omega) (by omega)]
  obtain ⟨h₃, hsize₃, hblock₃⟩ := hg b b₂ U hb h₂ (by omega) (by omega) hempty₂ ⟨by omega, hd.2⟩ hU
    hexits
  refine ⟨h₃, by omega, fun t ht ht' => ?_⟩
  rw [hblock₃ t (by omega) (by omega), hgrows₂.block t ht (by omega)]

theorem extends_try (x : Extent) (isStar : Bool) {body : List Stmt} {hs : List Handler}
    {orelse finalbody : List Stmt}
    (hbody : ∀ test : Option Nat, (∀ i ∈ test, i ≠ entryBlock) →
      Extends loop (Builder.tryStmts loop test body))
    (hhandlers : ∀ d i, FillsBodies loop d i hs.length (Builder.handlerBodies loop d i hs))
    (horelse : Extends loop (Builder.stmts loop orelse))
    (hfinal : Extends loop (Builder.stmts loop finalbody)) :
    Extends loop (Builder.stmt loop (.tryBlock x isStar body hs orelse finalbody)) := by
  intro b hb
  rw [Builder.stmt]
  have hentry : entryBlock < exitBlock := by decide
  have hexit := hb.sound.size
  generalize hn : b.graph.size = n at *
  generalize hk : hs.length = k at *
  generalize hd : (if orelse.isEmpty = true then n + 1 + k + k else n + 1 + k + k + 1) = d
  generalize hother : (if orelse.isEmpty = true then d else n + 1 + k + k) = other
  have hrange : n + 1 + k + k ≤ other ∧ other ≤ d := by
    subst hother hd
    by_cases hempty : orelse.isEmpty = true <;> simp [hempty]
  obtain ⟨h₀, hsize₀, hempty₀⟩ := hb.open_blocks hn (k := d + 1 - n) (by omega)
  generalize (b.create (d + 1 - n)).edge b.current n = b₀ at *
  -- the tests of handlers
  have hleft₀ (t : Nat) (ht : n ≤ t ∧ t < n + (d + 1 - n)) :
      n + 1 ≤ t ∧ t < n + 1 + hs.length ∨ t = n ∨ n + 1 + k ≤ t ∧ t ≤ d := by omega
  obtain ⟨h₁, hsize₁, hblock₁⟩ := Covers.handlerTests (c := b₀.goto n) (by omega : d ≠ entryBlock)
    0 (n + 1) (n + 1 + k) hs (h₀.mono hleft₀) ⟨by omega, by omega⟩
    ⟨by omega, by rw [graph_goto]; omega⟩ fun t ht ht' => .inr ⟨ht, by omega⟩
  have hcurrent₁ := current_handlerTests d 0 (n + 1) (n + 1 + k) hs (b₀.goto n)
  have hempty₁ (i : Nat) (hi : i = n ∨ n + 1 + k ≤ i) :
      ((b₀.goto n).handlerTests d 0 (n + 1) (n + 1 + k) hs).graph.block i = {} := by
    rw [hblock₁ i (by omega), graph_goto, hempty₀ i (by omega)]
  rw [graph_goto] at hsize₁
  generalize (b₀.goto n).handlerTests d 0 (n + 1) (n + 1 + k) hs = b₁ at *
  -- the body
  have hself : b₁ = b₁.goto n := by
    cases b₁
    exact congrArg _ hcurrent₁
  have htest : ∀ i ∈ (if hs.isEmpty = true then none else some (n + 1)), i ≠ entryBlock := by
    intro i hi
    split at hi
    · exact nomatch hi
    · obtain rfl := Option.some.inj hi
      omega
  have hleft₁ (t : Nat) (ht : t = n ∨ n + 1 + k ≤ t ∧ t ≤ d) :
      t = n ∨ (n + 1 + k ≤ t ∧ t < n + 1 + k + k ∨ n + 1 + k + k ≤ t ∧ t ≤ d ∨ Exits loop t) := by
    rcases ht with ht | ht
    · exact .inl ht
    · by_cases hlt : t < n + 1 + k + k
      · exact .inr (.inl ⟨ht.1, hlt⟩)
      · exact .inr (.inr (.inl ⟨by omega, ht.2⟩))
  obtain ⟨h₂, hgrows₂⟩ := h₁.run (hbody _ htest) (i := n) (d := other) (.inr (by omega))
    ⟨by omega, by omega⟩ (hempty₁ n (.inl rfl)) (hb.escapes h₁ fun t ht => .inr (.inr ht))
    ⟨by omega, by omega⟩ (.refl (.inr (.inl hrange))) hleft₁
  rw [← hself] at h₂ hgrows₂
  have hsize₂ := hgrows₂.size
  have hempty₂ (i : Nat) (hi : n + 1 + k ≤ i ∧ i ≤ d) :
      ((Builder.tryStmts loop (if hs.isEmpty = true then none else some (n + 1)) body b₁).flowTo
        other).graph.block i = {} := by
    rw [hgrows₂.block i (by omega) (by omega), hempty₁ i (by omega)]
  generalize (Builder.tryStmts loop (if hs.isEmpty = true then none else some (n + 1)) body b₁).flowTo
    other = b₂ at *
  -- the bodies of handlers
  obtain ⟨h₃, hsize₃, hblock₃⟩ := hhandlers d (n + 1 + k) b b₂ _ hb h₂ (by omega) (by omega)
    (fun t ht ht' => hempty₂ t (by omega)) ⟨by omega, by omega⟩ (.inl ⟨by omega, Nat.le_refl _⟩)
    fun t => .inr
  have hempty₃ (i : Nat) (hi : n + 1 + k + k ≤ i ∧ i ≤ d) :
      (Builder.handlerBodies loop d (n + 1 + k) hs b₂).graph.block i = {} := by
    rw [hblock₃ i (by omega) (by omega), hempty₂ i (by omega)]
  generalize Builder.handlerBodies loop d (n + 1 + k) hs b₂ = b₃ at *
  -- the part for the regular end, and the last part
  obtain ⟨b₄, hb₄, h₄, hlt₄, hempty₄⟩ : ∃ b₄, (if orelse.isEmpty = true then b₃
      else (Builder.stmts loop orelse (b₃.goto (n + 1 + k + k))).flowTo d) = b₄ ∧
      b.Covers (fun t => t = d ∨ Exits loop t) b₄.graph ∧ d < b₄.graph.size ∧
      b₄.graph.block d = {} := by
    by_cases hempty : orelse.isEmpty = true
    · rw [if_pos hempty] at hd ⊢
      refine ⟨b₃, rfl, h₃.mono fun t ht => ?_, by omega, hempty₃ d (by omega)⟩
      exact ht.imp_left fun h => by omega
    · rw [if_neg hempty] at hd ⊢
      have hleft₃ (t : Nat) (ht : n + 1 + k + k ≤ t ∧ t ≤ d ∨ Exits loop t) :
          t = n + 1 + k + k ∨ t = d ∨ Exits loop t := by
        rcases ht with ht | ht
        · omega
        · exact .inr (.inr ht)
      obtain ⟨h₄, hgrows₄⟩ := h₃.run horelse (d := d) (.inr (by omega)) ⟨by omega, by omega⟩
        (hempty₃ _ (by omega)) (hb.escapes h₃ fun t => .inr) ⟨by omega, by omega⟩ (.refl (.inl rfl))
        hleft₃
      have hsize₄ := hgrows₄.size
      refine ⟨_, rfl, h₄, by omega, ?_⟩
      rw [hgrows₄.block _ (by omega) (by omega), hempty₃ _ (by omega)]
  rw [hb₄]
  have hdone : b.Flows loop (b₄.goto d) := .of_goto h₄ ⟨by omega, hlt₄⟩ (by omega) hempty₄
  have hready : (b₄.goto d).Ready loop :=
    .goto h₄.sound ⟨hlt₄, by omega⟩ hempty₄ fun t ht =>
      (hb.escapes (U := Exits loop) h₄ (fun _ => id) t ht).1
  exact hdone.trans (hfinal _ hready)

end Builder

/-! ## All statements -/

open Builder (Extends Joins FillsBodies)

mutual

theorem extends_stmt (loop : Option Loop) {s : Stmt} (h : WellFormed.stmt s) :
    Extends loop (Builder.stmt loop s) := by
  cases s
  case ret x value =>
    intro b hb
    rw [Builder.stmt]
    exact Builder.extends_jump (.inl rfl) _ b hb
  case raise x exc cause =>
    intro b hb
    rw [Builder.stmt]
    exact Builder.extends_jump (.inl rfl) _ b hb
  case breakLoop x =>
    intro b hb
    rw [Builder.stmt]
    exact Builder.extends_jump (Builder.exits_break loop) _ b hb
  case continueLoop x =>
    intro b hb
    rw [Builder.stmt]
    exact Builder.extends_jump (Builder.exits_continue loop) _ b hb
  case branch x test body orelse =>
    exact Builder.extends_branch x h.1 (extends_stmts loop h.2.1) (extends_stmts loop h.2.2)
  case whileLoop x test body orelse =>
    intro b hb
    rw [Builder.stmt]
    exact Builder.extends_loop (Builder.covers_condition h.1) (fun loop => extends_stmts loop h.2.1)
      (extends_stmts loop h.2.2) b hb
  case forLoop x isAsync target iter body orelse =>
    intro b hb
    rw [Builder.stmt]
    exact Builder.extends_loop (Builder.covers_single iter) (fun loop => extends_stmts loop h.2.2.1)
      (extends_stmts loop h.2.2.2) b hb
  case withBlock x isAsync items body =>
    exact Builder.extends_with x isAsync items (extends_stmts loop h.2)
  case tryBlock x isStar body hs orelse finalbody =>
    exact Builder.extends_try x isStar (fun test htest => extends_tryStmts loop htest h.1)
      (fun d i => fillsBodies_handlers loop d i h.2.1) (extends_stmts loop h.2.2.1)
      (extends_stmts loop h.2.2.2)
  case matchBlock x subject cs =>
    exact Builder.extends_match x subject fun d => joins_cases loop d 0 h.2
  all_goals
    intro b hb
    rw [Builder.stmt]
    · exact Builder.extends_append loop _ b hb
    all_goals simp

theorem extends_stmts (loop : Option Loop) {ss : List Stmt} (h : WellFormed.stmts ss) :
    Extends loop (Builder.stmts loop ss) := by
  cases ss with
  | nil => exact Builder.extends_nil loop
  | cons s rest =>
    intro b hb
    rw [Builder.stmts, if_neg (by simp [hb.opened])]
    exact Builder.extends_cons (extends_stmt loop h.1) (extends_stmts loop h.2)
      (fun b => Builder.stmts_of_isTerminated) b hb

theorem extends_tryStmts (loop : Option Loop) {test : Option Nat} (htest : ∀ i ∈ test, i ≠ entryBlock)
    {ss : List Stmt} (h : WellFormed.stmts ss) : Extends loop (Builder.tryStmts loop test ss) := by
  cases ss with
  | nil => exact Builder.extends_nil loop
  | cons s rest =>
    intro b hb
    rw [Builder.tryStmts.eq_def]
    dsimp only
    rw [if_neg (by simp [hb.opened])]
    have hstmt := extends_stmt loop h.1
    have hrest := extends_tryStmts loop htest h.2
    split
    · next i =>
      split
      · exact Builder.extends_cons (Builder.extends_edge hstmt (htest i rfl)) hrest
          (fun b => Builder.tryStmts_of_isTerminated) b hb
      · exact Builder.extends_cons hstmt hrest (fun b => Builder.tryStmts_of_isTerminated) b hb
    · exact Builder.extends_cons hstmt hrest (fun b => Builder.tryStmts_of_isTerminated) b hb

theorem fillsBodies_handlers (loop : Option Loop) (d i : Nat) :
    ∀ {hs : List Handler}, WellFormed.handlers hs →
      FillsBodies loop d i hs.length (Builder.handlerBodies loop d i hs)
  | [], _ => Builder.fillsBodies_nil loop d i
  | .mk _ _ _ :: _, h =>
    Builder.fillsBodies_cons (extends_stmts loop h.2.1) (fillsBodies_handlers loop d (i + 1) h.2.2)

theorem joins_cases (loop : Option Loop) (d i : Nat) : ∀ {cs : List MatchCase},
    WellFormed.cases cs → Joins loop d fun before b => Builder.cases loop d i before cs b
  | [], _ => Builder.joins_nil loop d
  | .mk p guard body :: rest, h => by
    have hcases := Builder.joins_cons (extends_stmts loop h.2.2.1) (joins_cases loop d (i + 1) h.2.2.2)
      ((Builder.caseRemarks i p).map .remark ++ guard.toList.map .expr)
    intro before b hsound hbefore hd hexits
    have hjoins := hcases before b hsound hbefore hd hexits
    dsimp only at hjoins ⊢
    rw [Builder.cases, Builder.elim_guard]
    exact hjoins

end

/-! ## Graphs of functions -/

/-- A graph in which control always finds a way out: the number of a block is its place, edges lead
to existing blocks and none to the entry, the exit is empty and leads nowhere, every other block
leads on, and from every block there is a way to the exit. -/
structure Graph.WellFormed (g : Graph) : Prop where
  numbered : ∀ cfg, ∀ i < g.size,
    (blockTexts cfg 0 g.blocks.toList)[i]? = some ((g.block i).text cfg i)
  range : ∀ i j, g.Edge i j → j < g.size
  entry : ∀ i, ¬ g.Edge i entryBlock
  exit : exitBlock < g.size ∧ (g.block exitBlock).entries = [] ∧
    (g.block exitBlock).successors = []
  leads : ∀ i < g.size, i ≠ exitBlock → ∃ j, g.Edge i j
  leaves : ∀ i < g.size, Relation.ReflTransGen g.Edge i exitBlock

theorem Builder.ready_start : Builder.Ready none {} := by
  refine ⟨⟨by decide, fun i j hij => ?_, rfl, rfl⟩, by decide, by decide, rfl, ?_⟩
  · rw [Graph.Edge, Graph.block_empty] at hij
    exact absurd hij List.not_mem_nil
  · rintro t (rfl | ⟨l, hl, -⟩)
    · decide
    · exact nomatch hl

theorem Graph.wellFormed_ofBody {body : List Stmt} (h : WellFormed.stmts body) :
    (Graph.ofBody body).WellFormed := by
  have hflows := extends_stmts none h _ Builder.ready_start
  have hsize : 2 ≤ _ := hflows.covers.grows.size
  have hcovers := hflows.flowTo (d := exitBlock) ⟨hsize, by decide⟩
  have hleaves (i : Nat) (hi : i < (ofBody body).size) :
      Relation.ReflTransGen (ofBody body).Edge i exitBlock := by
    by_cases hexit : i = exitBlock
    · rw [hexit]
    · have howns : ({} : Builder).Owns i := by
        show i = 0 ∨ 2 ≤ i
        have hne : i ≠ 1 := hexit
        omega
      obtain ⟨j, hj, hpath⟩ := hcovers.reaches i hi howns
      have hj : j = exitBlock := by
        rcases hj with (hj | ⟨l, hl, -⟩) | hj
        · exact hj
        · exact nomatch hl
        · exact hj
      rw [← hj]
      exact hpath
  refine ⟨fun cfg i => Graph.getElem?_texts _ cfg, fun i j hij => (hcovers.sound.range i j hij).1,
    fun i hi => (hcovers.sound.range i _ hi).2 rfl, ⟨hcovers.sound.size, hcovers.sound.exit⟩,
    fun i hi hne => ?_, hleaves⟩
  rcases (hleaves i hi).cases_head with heq | ⟨j, hij, -⟩
  · exact absurd heq hne
  · exact ⟨j, hij⟩

theorem wellFormed_withoutDocstring {body : List Stmt} (h : WellFormed.stmts body) :
    WellFormed.stmts (withoutDocstring body) := by
  unfold withoutDocstring
  split
  · cases body with
    | nil => exact h
    | cons s rest => exact h.2
  · exact h

/-- The graph of every function in a source text that is read without a fault is well formed, with or
without its docstring. -/
theorem wellFormed_ofFunction {source : Text} {maxErrors : Nat}
    (hok : (Parsed.ofSource source maxErrors).ok = true) {d : Nat} {f : Stmt}
    (hf : ⟨d, .stmt f⟩ ∈ Walk.module (Parsed.ofSource source maxErrors).module)
    (ignoreDocstrings : Bool) :
    (Graph.ofFunction ignoreDocstrings f.functionBody).WellFormed := by
  have hformed : WellFormed.Tree (Parsed.ofSource source maxErrors).module :=
    ⟨(Parsed.agree_self hok).formed⟩
  have hbody := WellFormed.functionBody (hformed.stmt hf)
  unfold Graph.ofFunction
  refine Graph.wellFormed_ofBody ?_
  split
  · exact wellFormed_withoutDocstring hbody
  · exact hbody

/-- A loop in `try` that is left by a jump, with code that control never reaches. -/
theorem wellFormed_ofFunction_try :
    let p := Parsed.ofSource
      (utf8 "def f():\n try:\n  while a and b:\n   return c\n   d\n except e:\n  raise\n") 1
    p.ok = true ∧ ∃ f, p.module.body = [f] ∧
      (Graph.ofFunction true f.functionBody).WellFormed := by
  intro p
  have hok : p.ok = true := by decide +kernel
  have hlength : p.module.body.length = 1 := by decide +kernel
  obtain ⟨f, hbody⟩ := List.length_eq_one_iff.mp hlength
  have hmem : ⟨1, .stmt f⟩ ∈ Walk.module p.module := by
    rw [Walk.module, hbody, Walk.stmts]
    cases f <;> simp [Walk.stmt]
  exact ⟨hok, f, hbody, wellFormed_ofFunction hok hmem true⟩

end CloneScout.Flow
