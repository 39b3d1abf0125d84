import CloneScout.Proofs.Flow.Exit
import Mathlib.Algebra.BigOperators.Group.Finset.Basic

/-!
# What adds up in a graph

Every statement adds blocks and tests to the graph, no matter what stands around it, unless it
follows a jump in its list. So the number of blocks and the number of tests of one kind in the graph
of a function are sums over its statements. A test is a block that starts with a remark.
-/

namespace CloneScout.Flow

/-! ## Weights of graphs -/

def Entry.remark? : Entry → Option Text
  | .remark t => some t
  | _ => none

/-- The block asks for a handler or a case. -/
def Block.isTest (b : Block) : Bool := (b.entries.head?.bind Entry.remark?).isSome

/-- What the parts of a graph count for. -/
structure Weights where
  block : Nat
  /-- The entries of a test together, of which only the remarks are told apart. -/
  test : List (Option Text) → Nat

namespace Weights

variable (w : Weights)

def ofBlock (b : Block) : Nat :=
  w.block +
    if b.isTest then w.test (b.entries.map Entry.remark?) else 0

def ofGraph (g : Graph) : Nat := ∑ i ∈ Finset.range g.size, w.ofBlock (g.block i)

/-! ## Weights of statements -/

end Weights

mutual

/-- Nothing of what follows the statement in its list is reached: it jumps, or what it does last
jumps. -/
def ends : Stmt → Bool
  | .ret .. => true
  | .raise .. => true
  | .breakLoop .. => true
  | .continueLoop .. => true
  | .tryBlock _ _ _ _ _ finalbody => endsAny finalbody
  | _ => false

def endsAny : List Stmt → Bool
  | [] => false
  | s :: rest => ends s || endsAny rest

end

/-- What the test for handler number `i` says. -/
def handlerView (i : Nat) (h : Handler) : List (Option Text) :=
  (Builder.handlerRemarks i h).map some

/-- What the test for case number `i` says. -/
def caseView (i : Nat) : MatchCase → List (Option Text)
  | .mk p guard _ => (Builder.caseRemarks i p).map some ++ guard.toList.map fun _ => none

namespace Weights

variable (w : Weights)

def condition : Expr → Nat
  | .boolean _ _ values => w.block * (values.length - 1)
  | _ => 0

/-- Tests for handlers or cases, numbered from `i` on, given what they say. -/
def tests {α : Type} (view : Nat → α → List (Option Text)) : (i : Nat) → List α → Nat
  | _, [] => 0
  | i, a :: rest => w.test (view i a) + tests view (i + 1) rest

/-- The blocks of a loop: the header, the body, what follows, and the part for its regular end. -/
def loop (orelse : List Stmt) : Nat := w.block * if orelse.isEmpty then 3 else 4

mutual

def stmt : Stmt → Nat
  | .branch _ test body orelse => w.block * 3 + w.condition test + stmts body + stmts orelse
  | .whileLoop _ test body orelse =>
    w.loop orelse + w.condition test + stmts body + stmts orelse
  | .forLoop _ _ _ _ body orelse => w.loop orelse + stmts body + stmts orelse
  | .withBlock _ _ _ body => w.block * 2 + stmts body
  | .tryBlock _ _ body hs orelse finalbody =>
    w.block * (if orelse.isEmpty then 2 else 3) + w.block * (2 * hs.length) +
      w.tests handlerView 0 hs + stmts body + handlerBodies hs + stmts orelse + stmts finalbody
  | .matchBlock _ _ cs =>
    w.block + (w.block * (2 * cs.length) + w.tests caseView 0 cs + caseBodies cs)
  | _ => 0

/-- Statements up to the first that jumps. -/
def stmts : List Stmt → Nat
  | [] => 0
  | s :: rest => stmt s + if ends s then 0 else stmts rest

def handlerBodies : List Handler → Nat
  | [] => 0
  | .mk _ _ body :: rest => stmts body + handlerBodies rest

def caseBodies : List MatchCase → Nat
  | [] => 0
  | .mk _ _ body :: rest => stmts body + caseBodies rest

end

/-! ## Single steps -/

variable {w} {g g' : Graph} {i j : Nat}

theorem ofBlock_empty : w.ofBlock {} = w.block := by simp [ofBlock, Block.isTest]

/-- Only block `i` has changed. -/
theorem ofGraph_change (hsize : g'.size = g.size) (hi : i < g.size)
    (hothers : ∀ j, j ≠ i → g'.block j = g.block j) :
    w.ofGraph g' + w.ofBlock (g.block i) = w.ofGraph g + w.ofBlock (g'.block i) := by
  have hmem : i ∈ Finset.range g.size := Finset.mem_range.mpr hi
  have hrest : ∑ j ∈ (Finset.range g.size).erase i, w.ofBlock (g'.block j) =
      ∑ j ∈ (Finset.range g.size).erase i, w.ofBlock (g.block j) :=
    Finset.sum_congr rfl fun j hj => by rw [hothers j (Finset.ne_of_mem_erase hj)]
  rw [ofGraph, ofGraph, hsize, ← Finset.add_sum_erase _ _ hmem, ← Finset.add_sum_erase _ _ hmem,
    hrest]
  omega

theorem ofGraph_create (g : Graph) : w.ofGraph g.create = w.ofGraph g + w.block := by
  rw [ofGraph, Graph.size_create, Finset.sum_range_succ, Graph.block_create,
    Graph.block_of_size_le (Nat.le_refl _), ofBlock_empty]
  simp only [Graph.block_create]
  rfl

/-- A change that keeps the entries of block `i`. -/
theorem ofGraph_modify {f : Block → Block} (hf : ∀ b : Block, (f b).entries = b.entries) :
    w.ofGraph (g.modify i f) = w.ofGraph g := by
  by_cases hi : i < g.size
  · have hchange : w.ofGraph (g.modify i f) + w.ofBlock (g.block i) = _ :=
      ofGraph_change (Graph.size_modify g i f) hi fun j hj => Graph.block_modify_of_ne f hj
    have hsame : w.ofBlock (f (g.block i)) = w.ofBlock (g.block i) := by
      rw [ofBlock, Block.isTest, hf]
      rfl
    rw [Graph.block_modify_self f hi, hsame] at hchange
    omega
  · rw [ofGraph, Graph.size_modify]
    refine Finset.sum_congr rfl fun j hj => ?_
    have hj := Finset.mem_range.mp hj
    rw [Graph.block_modify_of_ne f (by omega)]

theorem ofGraph_edge (g : Graph) (i j : Nat) : w.ofGraph (g.edge i j) = w.ofGraph g := by
  rw [Graph.edge]
  split
  · exact ofGraph_modify fun _ => rfl
  · rfl

theorem ofGraph_terminate (g : Graph) (i : Nat) : w.ofGraph (g.terminate i) = w.ofGraph g :=
  ofGraph_modify fun _ => rfl

/-- Entries that are no remarks do not make a test of a block. -/
theorem isTest_append {b : Block} {es : List Entry} (hplain : b.isTest = false)
    (hes : ∀ e ∈ es, e.remark? = none) :
    Block.isTest { b with entries := b.entries ++ es } = false := by
  unfold Block.isTest at hplain ⊢
  cases hentries : b.entries with
  | nil => cases es <;> simp_all
  | cons e rest => simpa [hentries] using hplain

theorem ofBlock_append {b : Block} {es : List Entry} (hplain : b.isTest = false)
    (hes : ∀ e ∈ es, e.remark? = none) :
    w.ofBlock { b with entries := b.entries ++ es } =
      w.ofBlock b := by
  rw [ofBlock, isTest_append hplain hes, ofBlock, hplain, if_neg (by decide), if_neg (by decide)]

end Weights

namespace Builder

variable {w : Weights} {b : Builder} {i : Nat}

/-- The current block is no test. -/
def Plain (b : Builder) : Prop := (b.graph.block b.current).isTest = false

theorem weight_create (n : Nat) (b : Builder) :
    w.ofGraph (b.create n).graph = w.ofGraph b.graph + w.block * n := by
  induction n generalizing b with
  | zero => rfl
  | succ n ih =>
    rw [create, ih, Weights.ofGraph_create, Nat.mul_succ]
    omega

theorem weight_flowTo (i : Nat) (b : Builder) :
    w.ofGraph (b.flowTo i).graph = w.ofGraph b.graph := by
  rw [flowTo]
  split
  · rfl
  · exact Weights.ofGraph_edge _ _ _

/-- Entries in a block that is no test. -/
theorem weight_appendAll (hi : i < b.graph.size) (hplain : (b.graph.block i).isTest = false)
    {es : Trace} (hes : ∀ e ∈ es, e.remark? = none) :
    w.ofGraph (b.appendAll i es).graph = w.ofGraph b.graph := by
  have hchange : w.ofGraph (b.appendAll i es).graph + w.ofBlock (b.graph.block i) = _ :=
    Weights.ofGraph_change (size_appendAll i es b) hi fun j hj => block_appendAll_of_ne hj es b
  rw [block_appendAll_self es hi, Weights.ofBlock_append hplain hes] at hchange
  omega

theorem weight_append (hi : i < b.graph.size) (hplain : (b.graph.block i).isTest = false)
    {e : Entry} (he : e.remark? = none) :
    w.ofGraph (b.append i e).graph = w.ofGraph b.graph := by
  have hes : ∀ e' ∈ [e], e'.remark? = none := by simpa using he
  show w.ofGraph (b.appendAll i [e]).graph = w.ofGraph b.graph
  exact weight_appendAll hi hplain hes

/-- Entries in an empty block, the first of which is a remark. -/
theorem weight_test (hi : i < b.graph.size) (hempty : b.graph.block i = {}) {t : Text}
    {es : Trace} :
    w.ofGraph (b.appendAll i (.remark t :: es)).graph =
      w.ofGraph b.graph + w.test ((Entry.remark t :: es).map Entry.remark?) := by
  have hchange : w.ofGraph (b.appendAll i (.remark t :: es)).graph +
      w.ofBlock (b.graph.block i) = _ :=
    Weights.ofGraph_change (size_appendAll i _ b) hi fun j hj => block_appendAll_of_ne hj _ b
  rw [block_appendAll_self _ hi, hempty, Weights.ofBlock_empty] at hchange
  have htest : w.ofBlock { entries := .remark t :: es } =
      w.block + w.test ((Entry.remark t :: es).map Entry.remark?) := rfl
  rw [List.nil_append, htest] at hchange
  omega

theorem plain_append (hb : b.Plain) {e : Entry} (he : e.remark? = none) :
    (b.append b.current e).Plain := by
  by_cases hlt : b.current < b.graph.size
  · show ((b.graph.append b.current e).block b.current).isTest = false
    rw [Graph.block_append_self e hlt]
    exact Weights.isTest_append hb (by simpa using he)
  · show ((b.graph.append b.current e).block b.current).isTest = false
    rw [Graph.block_of_size_le (by simpa using hlt)]
    rfl

/-! ## Conditions -/

theorem weight_operands (op : BoolOp) (yes no : Nat) {values : List Expr} (hi : i < b.graph.size)
    (hplain : (b.graph.block i).isTest = false) :
    w.ofGraph (b.operands op yes no i values).graph =
      w.ofGraph b.graph + w.block * (values.length - 1) := by
  fun_induction Builder.operands op yes no i values b with
  | case1 => simp
  | case2 i e b =>
    rw [graph_edge, graph_edge, Weights.ofGraph_edge, Weights.ofGraph_edge,
      weight_append hi hplain rfl]
    simp
  | case3 i e rest b hrest next early b₂ ih =>
    have hsize : b₂.graph.size = b.graph.size + 1 := by simp [b₂]
    have hfresh : (b₂.graph.block next).isTest = false := by
      have hne : next ≠ i := Nat.ne_of_gt hi
      rw [show b₂.graph.block next = {} from ?_]
      · rfl
      · simp only [b₂, graph_edge]
        rw [Graph.block_edge_of_ne hne, Graph.block_edge_of_ne hne, block_create, graph_append,
          Graph.block_append_of_ne _ hne, Graph.block_of_size_le (Nat.le_refl _)]
    have hweight : w.ofGraph b₂.graph = w.ofGraph b.graph + w.block := by
      simp only [b₂, graph_edge]
      rw [Weights.ofGraph_edge, Weights.ofGraph_edge, weight_create, weight_append hi hplain rfl,
        Nat.mul_one]
    obtain ⟨e', rest, rfl⟩ := List.exists_cons_of_ne_nil hrest
    rw [ih (by rw [hsize]; exact Nat.lt_succ_self _) hfresh, hweight]
    simp only [List.length_cons, Nat.add_sub_cancel, Nat.mul_succ]
    omega

theorem weight_single (e : Expr) (yes no : Nat) (b : Builder) (hlt : b.current < b.graph.size)
    (hplain : b.Plain) :
    w.ofGraph (((b.append b.current (.expr e)).edge b.current yes).edge b.current no).graph =
      w.ofGraph b.graph := by
  rw [graph_edge, graph_edge, Weights.ofGraph_edge, Weights.ofGraph_edge,
    weight_append hlt hplain rfl]

theorem weight_condition (test : Expr) (yes no : Nat) (b : Builder)
    (hlt : b.current < b.graph.size) (hplain : b.Plain) :
    w.ofGraph (b.condition test yes no).graph = w.ofGraph b.graph + w.condition test := by
  cases test with
  | boolean _ op values => exact weight_operands op yes no hlt hplain
  | _ => exact weight_single _ yes no b hlt hplain

/-! ## Blocks that wait -/

/-- A graph under construction of known weight, in which the blocks `F` are still empty. -/
structure Stage (w : Weights) (loop : Option Loop) (total : Nat)
    (F : Nat → Prop) (g : Graph) : Prop where
  sound : g.Sound
  weight : w.ofGraph g = total
  waits : ∀ i, F i → exitBlock < i ∧ i < g.size ∧ g.block i = {}
  exits : ∀ t, Exits loop t → t < g.size ∧ t ≠ entryBlock

/-- Wherever it can the function adds statements of weight `k`, and their end is reached unless they
have `ended`. -/
structure Weighs (w : Weights) (loop : Option Loop) (k : Nat) (ended : Bool)
    (f : Builder → Builder) : Prop where
  flows : Extends loop f
  sum : ∀ b : Builder, b.Ready loop → b.Plain → w.ofGraph (f b).graph = w.ofGraph b.graph + k ∧
    (f b).isTerminated = ended ∧ (f b).Plain

namespace Stage

variable {loop : Option Loop} {n : Nat} {F G : Nat → Prop} {g : Graph}

theorem of_ready (hb : b.Ready loop) :
    Stage w loop (w.ofGraph b.graph) (fun _ => False) b.graph :=
  ⟨hb.sound, rfl, fun _ h => h.elim, hb.exits⟩

/-- A waiting block takes statements. -/
theorem ready (h : Stage w loop n F b.graph) (hi : F i) :
    (b.goto i).Ready loop ∧ (b.goto i).Plain := by
  obtain ⟨hexit, hlt, hempty⟩ := h.waits i hi
  refine ⟨.goto h.sound ⟨hlt, Nat.ne_of_gt hexit⟩ hempty h.exits, ?_⟩
  show (b.graph.block i).isTest = false
  rw [hempty]
  rfl

/-- New blocks wait too. -/
theorem create (h : Stage w loop n F b.graph) (k : Nat)
    (hG : ∀ i, G i → F i ∨ b.graph.size ≤ i ∧ i < b.graph.size + k) :
    Stage w loop (n + w.block * k) G (b.create k).graph where
  sound := (((Covers.refl h.sound).mono fun t _ => trivial).create (T := fun _ => True) k).sound
  weight := by rw [weight_create, h.weight]
  waits i hi := by
    have hexit := h.sound.size
    rw [size_create, block_create]
    rcases hG i hi with hold | hnew
    · obtain ⟨hne, hlt, hempty⟩ := h.waits i hold
      exact ⟨hne, Nat.lt_add_right k hlt, hempty⟩
    · exact ⟨by omega, hnew.2, Graph.block_of_size_le hnew.1⟩
  exits t ht := by
    rw [size_create]
    exact ⟨Nat.lt_add_right k (h.exits t ht).1, (h.exits t ht).2⟩

/-- An edge from a block that does not wait. -/
theorem edge (h : Stage w loop n F g) {i j : Nat} (hi : ¬ F i) (hne : i ≠ exitBlock)
    (hj : j ≠ entryBlock) : Stage w loop n F (g.edge i j) where
  sound := h.sound.edge hne hj
  weight := by rw [Weights.ofGraph_edge, h.weight]
  waits k hk := by
    have hki : k ≠ i := by
      rintro rfl
      exact hi hk
    rw [Graph.size_edge, Graph.block_edge_of_ne hki]
    exact h.waits k hk
  exits t ht := by
    rw [Graph.size_edge]
    exact h.exits t ht

/-- Block `i` is filled. -/
theorem fill (h : Stage w loop n F b.graph) {V : Nat → Prop} {k : Nat}
    (hcovers : (b.goto i).Covers V g) (hweight : w.ofGraph g = w.ofGraph b.graph + k)
    (hG : ∀ j, G j → F j ∧ j ≠ i) : Stage w loop (n + k) G g where
  sound := hcovers.sound
  weight := by rw [hweight, h.weight]
  waits j hj := by
    obtain ⟨hF, hne⟩ := hG j hj
    obtain ⟨hexit, hlt, hempty⟩ := h.waits j hF
    have hsize : b.graph.size ≤ g.size := hcovers.grows.size
    have hblock : g.block j = b.graph.block j := hcovers.grows.block j hlt hne
    exact ⟨hexit, Nat.lt_of_lt_of_le hlt hsize, hblock.trans hempty⟩
  exits t ht := by
    have hsize : b.graph.size ≤ g.size := hcovers.grows.size
    exact ⟨Nat.lt_of_lt_of_le (h.exits t ht).1 hsize, (h.exits t ht).2⟩

/-- A waiting block takes the entries of a test. -/
theorem test (h : Stage w loop n F b.graph) (hi : F i) (t : Text) (es : Trace)
    (hG : ∀ j, G j → F j ∧ j ≠ i) :
    Stage w loop (n + w.test ((Entry.remark t :: es).map Entry.remark?)) G
      (b.appendAll i (.remark t :: es)).graph := by
  obtain ⟨hexit, hlt, hempty⟩ := h.waits i hi
  have hstart : (b.goto i).Covers (· = i) b.graph := Covers.refl h.sound
  exact h.fill (hstart.appendAll (.inl rfl) (Nat.ne_of_gt hexit) _) (weight_test hlt hempty) hG

/-- A block that does not wait takes entries. -/
theorem entries (h : Stage w loop n F b.graph) (hi : ¬ F i) (hlt : i < b.graph.size)
    (hne : i ≠ exitBlock) (hplain : (b.graph.block i).isTest = false) (es : Trace)
    (hes : ∀ e ∈ es, e.remark? = none) :
    Stage w loop n F (b.appendAll i es).graph := by
  have hstart : (b.goto i).Covers (· = i) b.graph := Covers.refl h.sound
  refine h.fill (k := 0) (hstart.appendAll (.inl rfl) hne es) (weight_appendAll hlt hplain hes) ?_
  refine fun j hj => ⟨hj, ?_⟩
  rintro rfl
  exact hi hj

/-- A waiting block takes statements of an inner loop, which go on to block `d`. -/
theorem run (h : Stage w loop n F b.graph) {inner : Option Loop} {f : Builder → Builder}
    {k : Nat} {ended : Bool} (hf : Weighs w inner k ended f) (hi : F i) {d : Nat}
    (hd : d < b.graph.size ∧ d ≠ entryBlock)
    (hexits : ∀ t, Exits inner t → t < b.graph.size ∧ t ≠ entryBlock)
    (hG : ∀ j, G j → F j ∧ j ≠ i) :
    Stage w loop (n + k) G ((f (b.goto i)).flowTo d).graph := by
  have hinner : Stage w inner n F b.graph := ⟨h.sound, h.weight, h.waits, hexits⟩
  obtain ⟨hready, hplain⟩ := hinner.ready hi
  have hflows := hf.flows _ hready
  have hsize : b.graph.size ≤ (f (b.goto i)).graph.size := hflows.covers.grows.size
  refine h.fill (hflows.flowTo ⟨Nat.lt_of_lt_of_le hd.1 hsize, hd.2⟩) ?_ hG
  rw [weight_flowTo, (hf.sum _ hready hplain).1]
  rfl

/-- The current block leads to the first of new blocks, the last of which is `d`. -/
theorem of_opened (hb : b.Ready loop) {d : Nat} (hd : b.graph.size ≤ d) :
    Stage w loop (w.ofGraph b.graph + w.block * (d + 1 - b.graph.size))
      (fun i => b.graph.size ≤ i ∧ i ≤ d)
      ((b.create (d + 1 - b.graph.size)).edge b.current b.graph.size).graph := by
  have hlt := hb.lt
  have hne : b.graph.size ≠ entryBlock := Nat.ne_of_gt (Nat.zero_lt_of_lt hlt)
  exact ((of_ready hb).create _ fun i hi => .inr ⟨hi.1, by omega⟩).edge (by omega) hb.ne hne

theorem size_run (h : Stage w loop n F b.graph) {f : Builder → Builder} {k : Nat} {ended : Bool}
    (hf : Weighs w loop k ended f) (hi : F i) (d : Nat) :
    b.graph.size ≤ ((f (b.goto i)).flowTo d).graph.size := by
  rw [size_flowTo]
  exact (hf.flows _ (h.ready hi).1).covers.grows.size

/-- Block `i` takes the part for a regular end unless that is empty. -/
theorem regularEnd (h : Stage w loop n F b.graph) {orelse : List Stmt} {f : Builder → Builder}
    {k : Nat} {ended : Bool} (hf : Weighs w loop k ended f) (hk : orelse.isEmpty = true → k = 0)
    {d : Nat} (hi : orelse.isEmpty = false → F i ∧ i ≠ d) (hd : F d) :
    Stage w loop (n + k) (· = d)
      (if orelse.isEmpty = true then b else (f (b.goto i)).flowTo d).graph := by
  obtain ⟨hexit, hlt, -⟩ := h.waits d hd
  cases hempty : orelse.isEmpty with
  | true =>
    rw [if_pos rfl, hk hempty]
    exact ⟨h.sound, h.weight, fun t ht => h.waits t (ht ▸ hd), h.exits⟩
  | false =>
    obtain ⟨hF, hne⟩ := hi hempty
    rw [if_neg (by decide)]
    refine h.run hf hF ⟨hlt, Nat.ne_of_gt (Nat.zero_lt_of_lt hexit)⟩ h.exits fun t ht => ?_
    subst ht
    exact ⟨hd, Ne.symm hne⟩

/-- What follows goes to a waiting block. -/
theorem goto (h : Stage w loop n F b.graph) {d : Nat} (hd : F d) :
    w.ofGraph (b.goto d).graph = n ∧ (b.goto d).isTerminated = false ∧ (b.goto d).Plain := by
  obtain ⟨hready, hplain⟩ := h.ready hd
  exact ⟨h.weight, hready.opened, hplain⟩

end Stage

/-! ## Statements -/

section

variable {loop : Option Loop} {k l m : Nat} {ended ended' : Bool} {f g : Builder → Builder}

theorem plain_edge (hb : b.Plain) (i j : Nat) : (b.edge i j).Plain := by
  show ((b.graph.edge i j).block b.current).isTest = false
  rw [Block.isTest, (Graph.block_edge b.graph i j b.current).1]
  exact hb

theorem plain_create (hb : b.Plain) (n : Nat) : (b.create n).Plain := by
  rw [Plain, current_create, block_create]
  exact hb

theorem weighs_append (loop : Option Loop) {e : Entry} (he : e.remark? = none) :
    Weighs w loop 0 false fun b => b.append b.current e := by
  refine ⟨extends_append loop e, fun b hb hplain => ?_⟩
  refine ⟨weight_append hb.lt hplain he, ?_, plain_append hplain he⟩
  show ((b.graph.append b.current e).block b.current).terminated = false
  rw [Graph.block_append_self e hb.lt]
  exact hb.opened

theorem weighs_jump (hi : Exits loop i) (s : Stmt) :
    Weighs w loop 0 true fun b => b.jump s i := by
  refine ⟨extends_jump hi s, fun b hb hplain => ?_⟩
  have hlt : b.current < (b.graph.append b.current (.stmt s)).size := by simpa using hb.lt
  obtain ⟨hentries, hterminated⟩ := Graph.block_edge
    ((b.graph.append b.current (.stmt s)).terminate b.current) b.current i b.current
  rw [Graph.block_terminate_self hlt] at hentries hterminated
  refine ⟨?_, hterminated, ?_⟩
  · show w.ofGraph (((b.graph.append b.current (.stmt s)).terminate b.current).edge b.current i) = _
    rw [Weights.ofGraph_edge, Weights.ofGraph_terminate]
    exact weight_append hb.lt hplain rfl
  · have happend : (b.append b.current (.stmt s)).Plain := plain_append hplain rfl
    show ((((b.graph.append b.current (.stmt s)).terminate b.current).edge b.current i).block
      b.current).isTest = false
    rw [Block.isTest, hentries]
    exact happend

theorem weighs_nil (loop : Option Loop) : Weighs w loop 0 false id :=
  ⟨extends_nil loop, fun _ hb hplain => ⟨rfl, hb.opened, hplain⟩⟩

/-- What follows a jump is left out. -/
theorem weighs_cons (hf : Weighs w loop k ended f) (hg : Weighs w loop l ended' g)
    (hend : ∀ b : Builder, b.isTerminated = true → g b = b) :
    Weighs w loop (k + if ended then 0 else l) (ended || ended') fun b => g (f b) := by
  refine ⟨extends_cons hf.flows hg.flows hend, fun b hb hplain => ?_⟩
  obtain ⟨hweight, hopen, hplain₁⟩ := hf.sum b hb hplain
  cases ended with
  | true =>
    rw [hend _ hopen]
    exact ⟨hweight, hopen, hplain₁⟩
  | false =>
    obtain ⟨hrest, hopen₂, hplain₂⟩ := hg.sum _ ((hf.flows b hb).ready hb hopen) hplain₁
    refine ⟨?_, hopen₂, hplain₂⟩
    rw [hrest, hweight, Nat.add_assoc]
    rfl

/-- One more edge changes nothing. -/
theorem weighs_edge (hf : Weighs w loop k ended f) {j : Nat} (hj : j ≠ entryBlock) :
    Weighs w loop k ended fun b => f (b.edge b.current j) := by
  refine ⟨extends_edge hf.flows hj, fun b hb hplain => ?_⟩
  have hready : (b.edge b.current j).Ready loop := by
    refine ⟨hb.sound.edge hb.ne hj, by simpa using hb.lt, hb.ne, ?_, by simpa using hb.exits⟩
    rw [isTerminated_edge]
    exact hb.opened
  obtain ⟨hweight, hrest⟩ := hf.sum _ hready (plain_edge hplain _ _)
  refine ⟨?_, hrest⟩
  rw [hweight, graph_edge, Weights.ofGraph_edge]

theorem weighs_branch (x : Extent) {test : Expr} (htest : WellFormed.expr .load test)
    {body orelse : List Stmt} (hbody : Weighs w loop k ended (Builder.stmts loop body))
    (horelse : Weighs w loop l ended' (Builder.stmts loop orelse)) :
    Weighs w loop (w.block * 3 + w.condition test + k + l) false
      (Builder.stmt loop (.branch x test body orelse)) := by
  refine ⟨extends_branch x htest hbody.flows horelse.flows, fun b hb hplain => ?_⟩
  rw [Builder.stmt]
  have hentry : entryBlock < exitBlock := by decide
  have hexit := hb.sound.size
  have hlt := hb.lt
  have hne := hb.ne
  have h₀ : Stage w loop (w.ofGraph b.graph + w.block * 3)
      (fun i => b.graph.size ≤ i ∧ i < b.graph.size + 3) (b.create 3).graph :=
    (Stage.of_ready hb).create 3 fun i => .inr
  generalize hn : b.graph.size = n at *
  have hcurrent : (b.create 3).current < (b.create 3).graph.size ∧
      (b.create 3).current ≠ exitBlock := by
    simp; omega
  have hcond := covers_condition htest n (n + 1) (b.create 3) h₀.sound hcurrent (by omega)
    ⟨by simp; omega, by omega⟩
  have h₁ : Stage w loop _ (fun i => n ≤ i ∧ i < n + 3) _ :=
    h₀.fill hcond (weight_condition test n (n + 1) _ hcurrent.1 (plain_create hplain 3))
      fun i hi => ⟨hi, by simp; omega⟩
  generalize (b.create 3).condition test n (n + 1) = b₁ at *
  have hdone₁ := h₁.waits (n + 2) (by omega)
  have h₂ : Stage w loop _ (fun i => n < i ∧ i < n + 3) _ :=
    h₁.run hbody (i := n) (d := n + 2) (by omega) ⟨hdone₁.2.1, by omega⟩ h₁.exits
      fun i hi => by omega
  generalize (Builder.stmts loop body (b₁.goto n)).flowTo (n + 2) = b₂ at *
  have hdone₂ := h₂.waits (n + 2) (by omega)
  have h₃ : Stage w loop _ (fun i => i = n + 2) _ :=
    h₂.run horelse (i := n + 1) (d := n + 2) (by omega) ⟨hdone₂.2.1, by omega⟩ h₂.exits
      fun i hi => by omega
  obtain ⟨hweight, hrest⟩ := h₃.goto rfl
  refine ⟨?_, hrest⟩
  rw [hweight]
  omega

/-- A loop. Its part for the regular end has no block if it is empty. -/
theorem weighs_loop {header : Nat → Nat → Builder → Builder} {f : Option Loop → Builder → Builder}
    {orelse : List Stmt}
    (hheader : ∀ (yes no : Nat) (b : Builder), b.graph.Sound →
      b.current < b.graph.size ∧ b.current ≠ exitBlock → yes ≠ entryBlock →
      no < b.graph.size ∧ no ≠ entryBlock → b.Covers (· = no) (header yes no b).graph)
    (hweight : ∀ (yes no : Nat) (b : Builder), b.current < b.graph.size → b.Plain →
      w.ofGraph (header yes no b).graph = w.ofGraph b.graph + m)
    (hf : ∀ loop, Weighs w loop k ended (f loop)) (hg : Weighs w loop l ended' g)
    (hl : orelse.isEmpty = true → l = 0) :
    Weighs w loop (w.loop orelse + m + k + l) false fun b =>
      let again := b.graph.size
      let inside := again + 1
      let other := again + 2
      let done := if orelse.isEmpty then again + 2 else again + 3
      let b := (b.create (done + 1 - again)).edge b.current again
      let b := header inside (if orelse.isEmpty then done else other) (b.goto again)
      let b := (f (some ⟨again, done⟩) (b.goto inside)).flowTo again
      let b := if orelse.isEmpty then b else (g (b.goto other)).flowTo done
      b.goto done := by
  refine ⟨extends_loop hheader (fun loop => (hf loop).flows) hg.flows, fun b hb hplain => ?_⟩
  dsimp only
  have hentry : entryBlock < exitBlock := by decide
  have hexit := hb.sound.size
  have hlt := hb.lt
  have hopened {d : Nat} (hd : b.graph.size ≤ d) : Stage w loop _ _ _ := Stage.of_opened hb hd
  generalize hn : b.graph.size = n at *
  generalize hd : (if orelse.isEmpty = true then n + 2 else n + 3) = d
  generalize hno : (if orelse.isEmpty = true then d else n + 2) = no
  have hrange : n + 2 ≤ no ∧ no ≤ d := by
    subst hno hd
    by_cases hempty : orelse.isEmpty = true <;> simp [hempty]
  have hblocks : w.block * (d + 1 - n) = w.loop orelse := by
    subst hd
    rw [Weights.loop]
    by_cases hempty : orelse.isEmpty = true
    · rw [if_pos hempty, if_pos hempty, show n + 2 + 1 - n = 3 by omega]
    · rw [if_neg hempty, if_neg hempty, show n + 3 + 1 - n = 4 by omega]
  have h₀ := hopened (d := d) (by omega)
  rw [hblocks] at h₀
  generalize (b.create (d + 1 - n)).edge b.current n = b₀ at *
  have hagain := h₀.waits n (by omega)
  have hno₀ := h₀.waits no (by omega)
  have hhead := hheader (n + 1) no (b₀.goto n) h₀.sound ⟨hagain.2.1, Nat.ne_of_gt hagain.1⟩
    (by omega) ⟨hno₀.2.1, by omega⟩
  have h₁ : Stage w loop _ (fun i => n < i ∧ i ≤ d) _ :=
    h₀.fill hhead (hweight (n + 1) no _ hagain.2.1 (h₀.ready (by omega)).2) fun i hi => by omega
  have hsize₁ : b₀.graph.size ≤ (header (n + 1) no (b₀.goto n)).graph.size := hhead.grows.size
  generalize header (n + 1) no (b₀.goto n) = b₁ at *
  have hdone₁ := h₁.waits d (by omega)
  have hexits (t : Nat) (ht : Exits (some ⟨n, d⟩) t) : t < b₁.graph.size ∧ t ≠ entryBlock := by
    rcases ht with rfl | ⟨l, hl, ht⟩
    · exact ⟨by omega, by omega⟩
    · obtain rfl := Option.some.inj hl
      rcases ht with rfl | rfl
      · exact ⟨by omega, by omega⟩
      · exact ⟨by omega, by omega⟩
  have h₂ : Stage w loop _ (fun i => n + 2 ≤ i ∧ i ≤ d) _ :=
    h₁.run (hf (some ⟨n, d⟩)) (i := n + 1) (d := n) (by omega) ⟨by omega, by omega⟩ hexits
      fun i hi => by omega
  generalize (f (some ⟨n, d⟩) (b₁.goto (n + 1))).flowTo n = b₂ at *
  have h₃ := h₂.regularEnd hg hl (i := n + 2) (d := d) (fun hempty => ?_) (by omega)
  · obtain ⟨hsum, hrest⟩ := h₃.goto rfl
    exact ⟨by rw [hsum]; omega, hrest⟩
  · rw [hempty, if_neg (by decide)] at hd
    omega

theorem weighs_with (x : Extent) (isAsync : Bool) (items : List WithItem) {body : List Stmt}
    (hbody : Weighs w loop k ended (Builder.stmts loop body)) :
    Weighs w loop (w.block * 2 + k) false
      (Builder.stmt loop (.withBlock x isAsync items body)) := by
  refine ⟨extends_with x isAsync items hbody.flows, fun b hb hplain => ?_⟩
  rw [Builder.stmt, foldl_withItems, current_appendAll, current_create]
  have hentry : entryBlock < exitBlock := by decide
  have hexit := hb.sound.size
  have hlt := hb.lt
  have h₀ : Stage w loop (w.ofGraph b.graph + w.block * 2)
      (fun i => b.graph.size ≤ i ∧ i < b.graph.size + 2) (b.create 2).graph :=
    (Stage.of_ready hb).create 2 fun i => .inr
  have hes : ∀ e ∈ items.map fun w => Entry.expr w.context, e.remark? = none := by
    simp [Entry.remark?]
  generalize (items.map fun w => Entry.expr w.context) = es at *
  generalize hn : b.graph.size = n at *
  have hblock : ((b.create 2).graph.block b.current).isTest = false := by
    rw [block_create]
    exact hplain
  have h₁ : Stage w loop _ (fun i => n ≤ i ∧ i < n + 2)
      (((b.create 2).appendAll b.current es).graph.edge b.current n) :=
    (h₀.entries (by omega) (by simp; omega) hb.ne hblock es hes).edge (by omega) hb.ne (by omega)
  rw [← graph_edge] at h₁
  generalize ((b.create 2).appendAll b.current es).edge b.current n = b₁ at *
  have hdone := h₁.waits (n + 1) (by omega)
  have h₂ : Stage w loop _ (fun i => i = n + 1) _ :=
    h₁.run hbody (i := n) (d := n + 1) (by omega) ⟨hdone.2.1, by omega⟩ h₁.exits
      fun i hi => by omega
  obtain ⟨hsum, hrest⟩ := h₂.goto rfl
  exact ⟨by rw [hsum]; omega, hrest⟩

/-! ### Cases -/

/-- The function goes on from a given block, adds parts of weight `k`, and leaves block `d`
empty. -/
def Sums (w : Weights) (loop : Option Loop) (d k : Nat)
    (f : Nat → Builder → Builder) : Prop :=
  ∀ (before : Nat) (b : Builder) (n : Nat), Stage w loop n (· = d) b.graph →
    before < b.graph.size ∧ before ≠ exitBlock → before ≠ d →
    Stage w loop (n + k) (· = d) (f before b).graph

theorem sums_nil (loop : Option Loop) (d : Nat) :
    Sums w loop d 0 fun before b => b.edge before d := by
  intro before b n h hbefore hne
  obtain ⟨hexit, -, -⟩ := h.waits d rfl
  have hd : d ≠ entryBlock := Nat.ne_of_gt (Nat.zero_lt_of_lt hexit)
  exact h.edge hne hbefore.2 hd

theorem sums_cons {d : Nat} {f : Builder → Builder} {g : Nat → Builder → Builder}
    (hf : Weighs w loop k ended f) (hg : Sums w loop d l g) (t : Text) (es : Trace) :
    Sums w loop d
      (w.block * 2 + w.test ((Entry.remark t :: es).map Entry.remark?) + k + l) fun before b =>
      let test := b.graph.size
      let inside := test + 1
      let b := ((b.create 2).edge before test).appendAll test (.remark t :: es)
      let b := (f ((b.edge test inside).goto inside)).flowTo d
      g test b := by
  intro before b n h hbefore hne
  dsimp only
  have hentry : entryBlock < exitBlock := by decide
  have hexit := h.sound.size
  obtain ⟨hexitd, hltd, -⟩ := h.waits d rfl
  have h₀ : Stage w loop (n + w.block * 2)
      (fun i => i = d ∨ b.graph.size ≤ i ∧ i < b.graph.size + 2)
      ((b.create 2).edge before b.graph.size).graph :=
    (h.create 2 fun i hi => hi).edge (by omega) hbefore.2 (by omega)
  generalize hs : b.graph.size = s at *
  have h₁ : Stage w loop _ (fun i => i = d ∨ i = s + 1) _ :=
    (h₀.test (i := s) (by omega) t es fun i hi => by omega).edge (i := s) (j := s + 1)
      (by omega) (by omega) (by omega)
  rw [← graph_edge] at h₁
  generalize (((b.create 2).edge before s).appendAll s (.remark t :: es)).edge s (s + 1) = b₁ at *
  have hdone₁ := h₁.waits d (.inl rfl)
  have hsize₁ := h₁.waits (s + 1) (.inr rfl)
  have h₂ : Stage w loop _ (fun i => i = d) _ :=
    h₁.run hf (i := s + 1) (d := d) (.inr rfl) ⟨hdone₁.2.1, by omega⟩ h₁.exits fun i hi => by omega
  have hsize₂ := h₁.size_run hf (i := s + 1) (.inr rfl) d
  generalize (f (b₁.goto (s + 1))).flowTo d = b₂ at *
  have h₃ := hg s b₂ _ h₂ ⟨by omega, by omega⟩ (by omega)
  rw [show n + (w.block * 2 + w.test ((Entry.remark t :: es).map Entry.remark?) + k + l) =
    n + w.block * 2 + w.test ((Entry.remark t :: es).map Entry.remark?) + k + l by omega]
  exact h₃

theorem weighs_match (x : Extent) {subject : Expr} {cs : List MatchCase}
    (hflows : Extends loop (Builder.stmt loop (.matchBlock x subject cs)))
    (h : ∀ d, Sums w loop d k fun before b => Builder.cases loop d 0 before cs b) :
    Weighs w loop (w.block + k) false
      (Builder.stmt loop (.matchBlock x subject cs)) := by
  refine ⟨hflows, fun b hb hplain => ?_⟩
  rw [Builder.stmt]
  have hexit := hb.sound.size
  have hlt := hb.lt
  have hsubject : Stage w loop _ (fun _ => False) (b.append b.current (.expr subject)).graph :=
    (Stage.of_ready hb).entries (fun h => h) hb.lt hb.ne hplain [.expr subject]
      (by simp [Entry.remark?])
  have hsize : (b.append b.current (.expr subject)).graph.size = b.graph.size := by simp
  have h₀ : Stage w loop _ (fun i => i = b.graph.size)
      ((b.append b.current (.expr subject)).create 1).graph :=
    hsubject.create 1 fun i hi => .inr (by omega)
  rw [current_append, hsize]
  have hsize₀ : ((b.append b.current (.expr subject)).create 1).graph.size = b.graph.size + 1 := by
    simp
  generalize (b.append b.current (.expr subject)).create 1 = b₀ at *
  obtain ⟨hsum, hrest⟩ := (h b.graph.size b.current b₀ _ h₀ ⟨by omega, hb.ne⟩ (by omega)).goto rfl
  refine ⟨?_, hrest⟩
  rw [hsum]
  omega

/-! ### Try -/

theorem sums_handlerTests {F G : Nat → Prop} {n done : Nat} (hdone : done ≠ entryBlock)
    (i test body : Nat) (hs : List Handler) (h : Stage w loop n F b.graph)
    (hF : ∀ t, test ≤ t → t < test + hs.length → F t) (hbody : exitBlock < body)
    (hG : ∀ t, G t → F t ∧ (t < test ∨ test + hs.length ≤ t)) :
    Stage w loop (n + w.tests handlerView i hs) G (b.handlerTests done i test body hs).graph := by
  have hentry : entryBlock < exitBlock := by decide
  induction hs generalizing i test body b n F with
  | nil =>
    refine ⟨h.sound, h.weight, fun t ht => h.waits t (hG t ht).1, h.exits⟩
  | cons handler rest ih =>
    obtain ⟨type, id, stmts⟩ := handler
    rw [List.length_cons] at hF hG
    rw [Builder.handlerTests, appendRemarks_eq, Weights.tests, ← Nat.add_assoc]
    obtain ⟨hexit, -, -⟩ := h.waits test (hF test (Nat.le_refl _) (by omega))
    have hnext : (if rest.isEmpty = true then done else test + 1) ≠ entryBlock := by
      split
      · exact hdone
      · omega
    have htest : Stage w loop (n + w.test (handlerView i (.mk type id stmts)))
        (fun t => F t ∧ t ≠ test)
        (b.appendAll test ((handlerRemarks i (.mk type id stmts)).map .remark)).graph :=
      h.test (hF test (Nat.le_refl _) (by omega)) _ [.remark _] fun t ht => ht
    generalize (if rest.isEmpty = true then done else test + 1) = next at *
    have hbodyEdge := htest.edge (i := test) (j := body) (fun ht => ht.2 rfl) (by omega) (by omega)
    have hedges := hbodyEdge.edge (i := test) (fun ht => ht.2 rfl) (by omega) hnext
    rw [← graph_edge, ← graph_edge] at hedges
    refine ih (i + 1) (test + 1) (body + 1) hedges (fun t ht ht' => ?_) (by omega) fun t ht => ?_
    · exact ⟨hF t (by omega) (by omega), by omega⟩
    · obtain ⟨hFt, hrange⟩ := hG t ht
      exact ⟨⟨hFt, by omega⟩, by omega⟩

/-- The function fills the `m` blocks from `i` on with parts of weight `k`. -/
def SumsBodies (w : Weights) (loop : Option Loop) (d i m k : Nat)
    (f : Builder → Builder) : Prop :=
  ∀ (b : Builder) (n : Nat) (F G : Nat → Prop), Stage w loop n F b.graph →
    (∀ t, i ≤ t → t < i + m → F t) → d < b.graph.size ∧ d ≠ entryBlock →
    (∀ t, G t → F t ∧ (t < i ∨ i + m ≤ t)) → Stage w loop (n + k) G (f b).graph

theorem sumsBodies_nil (loop : Option Loop) (d i : Nat) : SumsBodies w loop d i 0 0 id :=
  fun _ _ _ _ h _ _ hG => ⟨h.sound, h.weight, fun t ht => h.waits t (hG t ht).1, h.exits⟩

theorem sumsBodies_cons {d i : Nat} (hf : Weighs w loop k ended f)
    (hg : SumsBodies w loop d (i + 1) m l g) :
    SumsBodies w loop d i (m + 1) (k + l) fun b => g ((f (b.goto i)).flowTo d) := by
  intro b n F G h hF hd hG
  have hi : F i := hF i (Nat.le_refl _) (by omega)
  have hfirst : Stage w loop (n + k) (fun t => F t ∧ t ≠ i) _ :=
    h.run hf hi hd h.exits fun t ht => ht
  have hsize := h.size_run hf hi d
  rw [← Nat.add_assoc]
  refine hg _ _ _ G hfirst (fun t ht ht' => ⟨hF t (by omega) (by omega), by omega⟩)
    ⟨by omega, hd.2⟩ fun t ht => ?_
  obtain ⟨hFt, hrange⟩ := hG t ht
  exact ⟨⟨hFt, by omega⟩, by omega⟩

theorem weighs_try (x : Extent) (isStar : Bool) {body : List Stmt} {hs : List Handler}
    {orelse finalbody : List Stmt} {c : Nat}
    (hbody : ∀ test : Option Nat, (∀ i ∈ test, i ≠ entryBlock) →
      Weighs w loop k ended (Builder.tryStmts loop test body))
    (hflows : Extends loop (Builder.stmt loop (.tryBlock x isStar body hs orelse finalbody)))
    (hhandlers : ∀ d i, SumsBodies w loop d i hs.length l (Builder.handlerBodies loop d i hs))
    (horelse : Weighs w loop m ended' (Builder.stmts loop orelse))
    (hm : orelse.isEmpty = true → m = 0) {last : Bool}
    (hfinal : Weighs w loop c last (Builder.stmts loop finalbody)) :
    Weighs w loop (w.block * (if orelse.isEmpty then 2 else 3) + w.block * (2 * hs.length) +
      w.tests handlerView 0 hs + k + l + m + c) last
      (Builder.stmt loop (.tryBlock x isStar body hs orelse finalbody)) := by
  refine ⟨hflows, fun b hb hplain => ?_⟩
  rw [Builder.stmt]
  have hentry : entryBlock < exitBlock := by decide
  have hexit := hb.sound.size
  have hlt := hb.lt
  have hopened {d : Nat} (hd : b.graph.size ≤ d) : Stage w loop _ _ _ := Stage.of_opened hb hd
  generalize hn : b.graph.size = n at *
  generalize hj : hs.length = j at *
  generalize hd : (if orelse.isEmpty = true then n + 1 + j + j else n + 1 + j + j + 1) = d
  generalize hother : (if orelse.isEmpty = true then d else n + 1 + j + j) = other
  have hrange : n + 1 + j + j ≤ other ∧ other ≤ d := by
    subst hother hd
    by_cases hempty : orelse.isEmpty = true <;> simp [hempty]
  have hblocks : w.block * (d + 1 - n) =
      w.block * (if orelse.isEmpty then 2 else 3) + w.block * (2 * j) := by
    rw [← Nat.mul_add]
    congr 1
    subst hd
    split <;> omega
  have h₀ := hopened (d := d) (by omega)
  rw [hblocks] at h₀
  generalize (b.create (d + 1 - n)).edge b.current n = b₀ at *
  -- the tests of handlers
  have h₁ : Stage w loop _ (fun i => i = n ∨ n + 1 + j ≤ i ∧ i ≤ d) _ :=
    sums_handlerTests (b := b₀.goto n) (by omega : d ≠ entryBlock) 0 (n + 1) (n + 1 + j) hs h₀
      (fun t ht ht' => by omega) (by omega) fun t ht => by omega
  have hcurrent₁ := current_handlerTests d 0 (n + 1) (n + 1 + j) hs (b₀.goto n)
  generalize (b₀.goto n).handlerTests d 0 (n + 1) (n + 1 + j) hs = b₁ at *
  -- the body
  have hself : b₁ = b₁.goto n := by
    cases b₁
    exact congrArg _ hcurrent₁
  have htest : ∀ i ∈ (if hs.isEmpty = true then none else some (n + 1)), i ≠ entryBlock := by
    intro i hi
    split at hi
    · exact nomatch hi
    · obtain rfl := Option.some.inj hi
      omega
  have hother₁ := h₁.waits other (by omega)
  have h₂ : Stage w loop _ (fun i => n + 1 + j ≤ i ∧ i ≤ d) _ :=
    h₁.run (hbody _ htest) (i := n) (d := other) (.inl rfl) ⟨hother₁.2.1, by omega⟩ h₁.exits
      fun i hi => by omega
  rw [← hself] at h₂
  generalize (Builder.tryStmts loop (if hs.isEmpty = true then none else some (n + 1)) body
    b₁).flowTo other = b₂ at *
  -- the bodies of handlers
  have hdone₂ := h₂.waits d (by omega)
  have h₃ : Stage w loop _ (fun i => n + 1 + j + j ≤ i ∧ i ≤ d) _ :=
    hhandlers d (n + 1 + j) b₂ _ _ _ h₂ (fun t ht ht' => by omega) ⟨hdone₂.2.1, by omega⟩
      fun i hi => by omega
  generalize Builder.handlerBodies loop d (n + 1 + j) hs b₂ = b₃ at *
  -- the part for the regular end, and the last part
  have h₄ := h₃.regularEnd horelse hm (i := n + 1 + j + j) (d := d) (fun hempty => ?_) (by omega)
  · obtain ⟨hready, hplain₄⟩ := h₄.ready rfl
    obtain ⟨hsum, hrest⟩ := hfinal.sum _ hready hplain₄
    refine ⟨?_, hrest⟩
    rw [hsum, graph_goto, h₄.weight]
    omega
  · rw [hempty, if_neg (by decide)] at hd
    omega

end

end Builder

/-! ## All statements -/

open Builder (Weighs Sums SumsBodies)

variable (w : Weights)

theorem Weights.stmts_of_isEmpty {ss : List Stmt} (h : ss.isEmpty = true) : w.stmts ss = 0 := by
  rw [List.isEmpty_iff.mp h, Weights.stmts]

mutual

theorem weighs_stmt (loop : Option Loop) {s : Stmt} (h : WellFormed.stmt s) :
    Weighs w loop (w.stmt s) (ends s) (Builder.stmt loop s) := by
  have hflows := extends_stmt loop h
  cases s
  case ret x value =>
    refine ⟨hflows, fun b hb hplain => ?_⟩
    rw [Builder.stmt]
    exact (Builder.weighs_jump (.inl rfl) _).sum b hb hplain
  case raise x exc cause =>
    refine ⟨hflows, fun b hb hplain => ?_⟩
    rw [Builder.stmt]
    exact (Builder.weighs_jump (.inl rfl) _).sum b hb hplain
  case breakLoop x =>
    refine ⟨hflows, fun b hb hplain => ?_⟩
    rw [Builder.stmt]
    exact (Builder.weighs_jump (Builder.exits_break loop) _).sum b hb hplain
  case continueLoop x =>
    refine ⟨hflows, fun b hb hplain => ?_⟩
    rw [Builder.stmt]
    exact (Builder.weighs_jump (Builder.exits_continue loop) _).sum b hb hplain
  case branch x test body orelse =>
    exact Builder.weighs_branch x h.1 (weighs_stmts loop h.2.1) (weighs_stmts loop h.2.2)
  case whileLoop x test body orelse =>
    refine ⟨hflows, fun b hb hplain => ?_⟩
    rw [Builder.stmt]
    exact (Builder.weighs_loop (Builder.covers_condition h.1) (Builder.weight_condition test)
      (fun loop => weighs_stmts loop h.2.1) (weighs_stmts loop h.2.2)
      w.stmts_of_isEmpty).sum b hb hplain
  case forLoop x isAsync target iter body orelse =>
    refine ⟨hflows, fun b hb hplain => ?_⟩
    rw [Builder.stmt]
    exact (Builder.weighs_loop (m := 0) (Builder.covers_single iter) (Builder.weight_single iter)
      (fun loop => weighs_stmts loop h.2.2.1) (weighs_stmts loop h.2.2.2)
      w.stmts_of_isEmpty).sum b hb hplain
  case withBlock x isAsync items body =>
    exact Builder.weighs_with x isAsync items (weighs_stmts loop h.2)
  case tryBlock x isStar body hs orelse finalbody =>
    exact Builder.weighs_try x isStar (fun test htest => weighs_tryStmts loop htest h.1) hflows
      (fun d i => sumsBodies_handlers loop d i h.2.1) (weighs_stmts loop h.2.2.1)
      w.stmts_of_isEmpty (weighs_stmts loop h.2.2.2)
  case matchBlock x subject cs =>
    exact Builder.weighs_match x hflows fun d => sums_cases loop d 0 h.2
  all_goals
    refine ⟨hflows, fun b hb hplain => ?_⟩
    rw [Builder.stmt]
    · exact (Builder.weighs_append loop rfl).sum b hb hplain
    all_goals simp

theorem weighs_stmts (loop : Option Loop) {ss : List Stmt} (h : WellFormed.stmts ss) :
    Weighs w loop (w.stmts ss) (endsAny ss) (Builder.stmts loop ss) := by
  cases ss with
  | nil => exact Builder.weighs_nil loop
  | cons s rest =>
    refine ⟨extends_stmts loop h, fun b hb hplain => ?_⟩
    rw [Builder.stmts, if_neg (by simp [hb.opened])]
    exact (Builder.weighs_cons (weighs_stmt loop h.1) (weighs_stmts loop h.2)
      fun b => Builder.stmts_of_isTerminated).sum b hb hplain

theorem weighs_tryStmts (loop : Option Loop) {test : Option Nat}
    (htest : ∀ i ∈ test, i ≠ entryBlock) {ss : List Stmt} (h : WellFormed.stmts ss) :
    Weighs w loop (w.stmts ss) (endsAny ss) (Builder.tryStmts loop test ss) := by
  cases ss with
  | nil => exact Builder.weighs_nil loop
  | cons s rest =>
    refine ⟨extends_tryStmts loop htest h, fun b hb hplain => ?_⟩
    have hstmt := weighs_stmt loop h.1
    have hrest := weighs_tryStmts loop htest h.2
    rw [Builder.tryStmts.eq_def]
    dsimp only
    rw [if_neg (by simp [hb.opened])]
    split
    · next i =>
      split
      · exact (Builder.weighs_cons (Builder.weighs_edge hstmt (htest i rfl)) hrest
          fun b => Builder.tryStmts_of_isTerminated).sum b hb hplain
      · exact (Builder.weighs_cons hstmt hrest
          fun b => Builder.tryStmts_of_isTerminated).sum b hb hplain
    · exact (Builder.weighs_cons hstmt hrest
        fun b => Builder.tryStmts_of_isTerminated).sum b hb hplain

theorem sumsBodies_handlers (loop : Option Loop) (d i : Nat) : ∀ {hs : List Handler},
    WellFormed.handlers hs → SumsBodies w loop d i hs.length (w.handlerBodies hs)
      (Builder.handlerBodies loop d i hs)
  | [], _ => Builder.sumsBodies_nil loop d i
  | .mk _ _ _ :: _, h =>
    Builder.sumsBodies_cons (weighs_stmts loop h.2.1) (sumsBodies_handlers loop d (i + 1) h.2.2)

theorem sums_cases (loop : Option Loop) (d i : Nat) : ∀ {cs : List MatchCase},
    WellFormed.cases cs → Sums w loop d
      (w.block * (2 * cs.length) + w.tests caseView i cs + w.caseBodies cs)
      fun before b => Builder.cases loop d i before cs b
  | [], _ => Builder.sums_nil loop d
  | .mk p guard body :: rest, h => by
    have hcases := Builder.sums_cons (weighs_stmts loop h.2.2.1) (sums_cases loop d (i + 1) h.2.2.2)
      (utf8 "MATCH_CASE_INDEX:" ++ Text.ofNat i)
      (.remark (utf8 "MATCH_PATTERN:" ++ Dump.patternText false p) :: guard.toList.map .expr)
    have hview : (Entry.remark (utf8 "MATCH_CASE_INDEX:" ++ Text.ofNat i) ::
        .remark (utf8 "MATCH_PATTERN:" ++ Dump.patternText false p) ::
          guard.toList.map .expr).map Entry.remark? = caseView i (.mk p guard body) := by
      cases guard <;> rfl
    intro before b n hstage hbefore hne
    have hsum := hcases before b n hstage hbefore hne
    dsimp only at hsum ⊢
    rw [hview] at hsum
    have hblocks :
        w.block * (2 * (rest.length + 1)) = w.block * (2 * rest.length) + w.block * 2 := by
      rw [← Nat.mul_add]
      rfl
    rw [Builder.cases, Builder.elim_guard, Weights.tests, Weights.caseBodies, List.length_cons,
      hblocks]
    refine ⟨hsum.sound, hsum.weight.trans ?_, hsum.waits, hsum.exits⟩
    omega

end

/-- The weight of the graph of statements is the weight of the statements and of the blocks where
control enters and leaves. -/
theorem weight_ofBody {body : List Stmt} (h : WellFormed.stmts body) :
    w.ofGraph (Graph.ofBody body) = w.block * 2 + w.stmts body := by
  have hsum := (weighs_stmts w none h).sum {} Builder.ready_start rfl
  have hstart : w.ofGraph ({} : Builder).graph = w.block * 2 := by
    show ∑ i ∈ Finset.range 2, w.ofBlock (({} : Graph).block i) = _
    simp only [Finset.sum_range_succ, Finset.sum_range_zero, Graph.block_empty,
      Weights.ofBlock_empty]
    omega
  rw [Graph.ofBody, Builder.weight_flowTo, hsum.1, hstart]

end CloneScout.Flow
