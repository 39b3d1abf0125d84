import CloneScout.Proofs.Flow.Raise
import Mathlib.Algebra.BigOperators.Pi

/-!
# What a graph holds

Every live statement stands in the graph of its function once, and so does every expression that a
live compound statement evaluates itself. A statement is live unless a statement in front of it in
its list ends the list, or the compound statement that holds it is not live. What control can come
to is another matter: statements behind a loop that is never left are live.
-/

namespace CloneScout.Flow

/-! ## Contents of graphs -/

def Entry.stmt? : Entry → Option Stmt
  | .stmt s => some s
  | _ => none

def Entry.expr? : Entry → Option Expr
  | .expr e => some e
  | _ => none

namespace Graph

/-- The statements in all blocks, each as often as it stands there. -/
def statements (g : Graph) : Multiset Stmt :=
  ∑ i ∈ Finset.range g.size, ((g.block i).entries.filterMap Entry.stmt? : Multiset Stmt)

/-- The expressions in all blocks, each as often as it stands there. -/
def expressions (g : Graph) : Multiset Expr :=
  ∑ i ∈ Finset.range g.size, ((g.block i).entries.filterMap Entry.expr? : Multiset Expr)

end Graph

/-! ## Live statements -/

/-- The expressions that a condition is decided by, one after the other. -/
def decisions : Expr → List Expr
  | .boolean _ _ values => values
  | e => [e]

namespace Live

mutual

/-- The live simple statements of a live statement; definitions count as simple ones. In a list,
nothing behind a statement that `ends` is live. -/
def ofStmt : Stmt → List Stmt
  | .branch _ _ body orelse => ofStmts body ++ ofStmts orelse
  | .whileLoop _ _ body orelse => ofStmts body ++ ofStmts orelse
  | .forLoop _ _ _ _ body orelse => ofStmts body ++ ofStmts orelse
  | .withBlock _ _ _ body => ofStmts body
  | .tryBlock _ _ body hs orelse finalbody =>
    ofStmts body ++ ofHandlers hs ++ ofStmts orelse ++ ofStmts finalbody
  | .matchBlock _ _ cs => ofCases cs
  | s => [s]

def ofStmts : List Stmt → List Stmt
  | [] => []
  | s :: rest => ofStmt s ++ if ends s then [] else ofStmts rest

def ofHandlers : List Handler → List Stmt
  | [] => []
  | .mk _ _ body :: rest => ofStmts body ++ ofHandlers rest

def ofCases : List MatchCase → List Stmt
  | [] => []
  | .mk _ _ body :: rest => ofStmts body ++ ofCases rest

end

mutual

/-- What the live compound statements evaluate themselves: what they decide by, what a loop runs
over, the contexts of `with`, the subject of `match` and the guards of its cases. -/
def evaluated : Stmt → List Expr
  | .branch _ test body orelse => decisions test ++ evaluatedAll body ++ evaluatedAll orelse
  | .whileLoop _ test body orelse => decisions test ++ evaluatedAll body ++ evaluatedAll orelse
  | .forLoop _ _ _ iter body orelse => [iter] ++ evaluatedAll body ++ evaluatedAll orelse
  | .withBlock _ _ items body => items.map WithItem.context ++ evaluatedAll body
  | .tryBlock _ _ body hs orelse finalbody =>
    evaluatedAll body ++ evaluatedHandlers hs ++ evaluatedAll orelse ++ evaluatedAll finalbody
  | .matchBlock _ subject cs => [subject] ++ evaluatedCases cs
  | _ => []

def evaluatedAll : List Stmt → List Expr
  | [] => []
  | s :: rest => evaluated s ++ if ends s then [] else evaluatedAll rest

def evaluatedHandlers : List Handler → List Expr
  | [] => []
  | .mk _ _ body :: rest => evaluatedAll body ++ evaluatedHandlers rest

def evaluatedCases : List MatchCase → List Expr
  | [] => []
  | .mk _ guard body :: rest => guard.toList ++ evaluatedAll body ++ evaluatedCases rest

end

/-- The live statements of a list itself: those up to the first that ends it. -/
def ofList : List Stmt → List Stmt
  | [] => []
  | s :: rest => s :: if ends s then [] else ofList rest

/-- A statement of a list is live if none in front of it ends the list. -/
theorem getElem?_ofList (ss : List Stmt) (i : Nat) (s : Stmt) :
    (ofList ss)[i]? = some s ↔ ss[i]? = some s ∧ ∀ s' ∈ ss.take i, ends s' = false := by
  induction ss generalizing i with
  | nil => simp [ofList]
  | cons first rest ih =>
    cases i with
    | zero => simp [ofList]
    | succ i => cases hends : ends first <;> simp [ofList, hends, ih]

theorem ofStmts_eq (ss : List Stmt) : ofStmts ss = (ofList ss).flatMap ofStmt := by
  induction ss with
  | nil => rfl
  | cons s rest ih => cases hends : ends s <;> simp [ofStmts, ofList, hends, ih]

theorem evaluatedAll_eq (ss : List Stmt) : evaluatedAll ss = (ofList ss).flatMap evaluated := by
  induction ss with
  | nil => rfl
  | cons s rest ih => cases hends : ends s <;> simp [evaluatedAll, ofList, hends, ih]

/-- A list ends with a live statement if it ends at all. -/
theorem endsAny_eq (ss : List Stmt) : endsAny ss = (ofList ss).any ends := by
  induction ss with
  | nil => rfl
  | cons s rest ih => cases hends : ends s <;> simp [endsAny, ofList, hends, ih]

end Live

/-! ## Both at once -/

/-- Statements and expressions. -/
abbrev Held := Multiset Stmt × Multiset Expr

/-- A remark is no part of the program. -/
def Entry.held : Entry → Held
  | .stmt s => ({s}, 0)
  | .expr e => (0, {e})
  | .remark _ => 0

def Held.ofEntries (es : List Entry) : Held := (es.map Entry.held).sum

def Held.ofExprs (es : List Expr) : Held := (0, (es : Multiset Expr))

def Graph.held (g : Graph) : Held := ∑ i ∈ Finset.range g.size, Held.ofEntries (g.block i).entries

namespace Held

theorem ofEntries_append (es es' : List Entry) :
    ofEntries (es ++ es') = ofEntries es + ofEntries es' := by
  rw [ofEntries, List.map_append, List.sum_append]
  rfl

theorem ofEntries_cons (e : Entry) (es : List Entry) :
    ofEntries (e :: es) = e.held + ofEntries es := by
  rw [ofEntries, List.map_cons, List.sum_cons]
  rfl

theorem ofEntries_remarks (ts : List Text) : ofEntries (ts.map .remark) = 0 := by
  induction ts with
  | nil => rfl
  | cons t ts ih => rw [List.map_cons, ofEntries_cons, ih, Entry.held, add_zero]

theorem ofEntries_exprs (es : List Expr) : ofEntries (es.map .expr) = ofExprs es := by
  induction es with
  | nil => rfl
  | cons e es ih =>
    rw [List.map_cons, ofEntries_cons, ih]
    rfl

theorem ofEntries_eq (es : List Entry) :
    ofEntries es = ((es.filterMap Entry.stmt? : Multiset Stmt),
      (es.filterMap Entry.expr? : Multiset Expr)) := by
  induction es with
  | nil => rfl
  | cons e es ih =>
    rw [ofEntries_cons, ih]
    cases e <;> simp [Entry.held, Entry.stmt?, Entry.expr?, List.filterMap_cons,
      ← Multiset.cons_coe, ← Multiset.singleton_add]

end Held

namespace Graph

theorem held_eq (g : Graph) : g.held = (g.statements, g.expressions) := by
  refine Prod.ext ?_ ?_
  · rw [held, Prod.fst_sum]
    exact Finset.sum_congr rfl fun i _ => congrArg Prod.fst (Held.ofEntries_eq _)
  · rw [held, Prod.snd_sum]
    exact Finset.sum_congr rfl fun i _ => congrArg Prod.snd (Held.ofEntries_eq _)

/-- Entries are added to block `i` alone. -/
theorem held_change {g g' : Graph} {i : Nat} {es : List Entry} (hsize : g'.size = g.size)
    (hi : i < g.size) (hself : (g'.block i).entries = (g.block i).entries ++ es)
    (hothers : ∀ j, j ≠ i → g'.block j = g.block j) : g'.held = g.held + Held.ofEntries es := by
  have hmem : i ∈ Finset.range g.size := Finset.mem_range.mpr hi
  have hrest : ∑ j ∈ (Finset.range g.size).erase i, Held.ofEntries (g'.block j).entries =
      ∑ j ∈ (Finset.range g.size).erase i, Held.ofEntries (g.block j).entries :=
    Finset.sum_congr rfl fun j hj => by rw [hothers j (Finset.ne_of_mem_erase hj)]
  rw [held, held, hsize, ← Finset.sum_erase_add _ _ hmem, ← Finset.sum_erase_add _ _ hmem, hrest,
    hself, Held.ofEntries_append, add_assoc]

theorem held_create (g : Graph) : g.create.held = g.held := by
  rw [held, size_create, Finset.sum_range_succ, block_create, block_of_size_le (Nat.le_refl _)]
  simp only [block_create]
  exact add_zero _

/-- A change that keeps the entries of a block. -/
theorem held_modify {g : Graph} {i : Nat} {f : Block → Block}
    (hf : ∀ b : Block, (f b).entries = b.entries) : (g.modify i f).held = g.held := by
  rw [held, held, size_modify]
  refine Finset.sum_congr rfl fun j hj => ?_
  by_cases hij : j = i
  · rw [hij] at hj ⊢
    rw [block_modify_self f (Finset.mem_range.mp hj), hf]
  · rw [block_modify_of_ne f hij]

theorem held_edge (g : Graph) (i j : Nat) : (g.edge i j).held = g.held := by
  rw [edge]
  split
  · exact held_modify fun _ => rfl
  · rfl

theorem held_terminate (g : Graph) (i : Nat) : (g.terminate i).held = g.held :=
  held_modify fun _ => rfl

theorem held_append {g : Graph} {i : Nat} (e : Entry) (hi : i < g.size) :
    (g.append i e).held = g.held + e.held := by
  have hself : ((g.append i e).block i).entries = (g.block i).entries ++ [e] := by
    rw [block_append_self e hi]
  rw [held_change (size_append g i e) hi hself fun j hj => block_append_of_ne e hj,
    Held.ofEntries_cons, Held.ofEntries]
  simp

end Graph

namespace Builder

variable {loop : Option Loop} {b c : Builder} {k : Held}

/-! ## What is added -/

theorem held_create (n : Nat) (b : Builder) : (b.create n).graph.held = b.graph.held := by
  induction n generalizing b with
  | zero => rfl
  | succ n ih => rw [create, ih, Graph.held_create]

theorem held_flowTo (i : Nat) (b : Builder) : (b.flowTo i).graph.held = b.graph.held := by
  rw [flowTo]
  split
  · rfl
  · exact Graph.held_edge _ _ _

theorem held_appendAll {i : Nat} (es : Trace) (hi : i < b.graph.size) :
    (b.appendAll i es).graph.held = b.graph.held + Held.ofEntries es :=
  Graph.held_change (size_appendAll i es b) hi (by rw [block_appendAll_self es hi])
    fun j hj => block_appendAll_of_ne hj es b

theorem held_operands (op : BoolOp) (yes no : Nat) {i : Nat} (values : List Expr)
    (hi : i < b.graph.size) : (b.operands op yes no i values).graph.held =
      b.graph.held + Held.ofExprs values := by
  fun_induction Builder.operands op yes no i values b with
  | case1 => exact (add_zero _).symm
  | case2 i e b =>
    rw [graph_edge, graph_edge, Graph.held_edge, Graph.held_edge, graph_append,
      Graph.held_append _ hi]
    rfl
  | case3 i e rest b hrest next early b₂ ih =>
    have hsize : b₂.graph.size = b.graph.size + 1 := by simp [b₂]
    have hfirst : b₂.graph.held = b.graph.held + Entry.held (.expr e) := by
      simp only [b₂, graph_edge]
      rw [Graph.held_edge, Graph.held_edge, held_create, graph_append, Graph.held_append _ hi]
    rw [ih (by rw [hsize]; exact Nat.lt_succ_self _), hfirst, add_assoc]
    rfl

theorem held_condition (test : Expr) (yes no : Nat) (hlt : b.current < b.graph.size) :
    (b.condition test yes no).graph.held = b.graph.held + Held.ofExprs (decisions test) := by
  unfold condition
  split
  · exact held_operands _ yes no _ hlt
  · next hplain =>
    have hsingle : decisions test = [test] := by
      cases test <;> first | rfl | exact absurd rfl (hplain _ _ _)
    rw [graph_edge, graph_edge, Graph.held_edge, Graph.held_edge, graph_append,
      Graph.held_append _ hlt, hsingle]
    rfl

theorem held_handlerTests (done i test body : Nat) (hs : List Handler)
    (hlt : test + hs.length ≤ b.graph.size) :
    (b.handlerTests done i test body hs).graph.held = b.graph.held := by
  induction hs generalizing i test body b with
  | nil => rfl
  | cons h rest ih =>
    rw [List.length_cons] at hlt
    rw [handlerTests, appendRemarks_eq, ih, graph_edge, graph_edge, Graph.held_edge,
      Graph.held_edge, held_appendAll _ (by omega), Held.ofEntries_remarks, add_zero]
    simp only [graph_edge, Graph.size_edge, size_appendAll]
    omega

/-- Wherever the builder can take a statement, the function adds just this to what the graph
holds. -/
def Records (k : Held) (f : Builder → Builder) : Prop :=
  ∀ b : Builder, b.Accepts → (f b).graph.held = b.graph.held + k

theorem records_append (e : Entry) : Records e.held fun b => b.append b.current e :=
  fun _ hb => Graph.held_append e hb.lt

theorem records_jump (s : Stmt) (i : Nat) : Records (Entry.held (.stmt s)) (Builder.jump s i) :=
  fun b hb => by rw [jump, Graph.held_edge, Graph.held_terminate, Graph.held_append _ hb.lt]

/-! ## Rooms -/

/-- Each room is filled with what belongs to it. -/
theorem Opens.held_fillRooms {n done : Nat} {b₀ : Builder} {rooms : List Room}
    (h : Opens b n b₀ rooms done) (hb : b.Accepts) {filled rest : List Room} {ks : List Held}
    (hrooms : rooms = filled ++ rest)
    (hrest : List.Forall₂ (fun r k => Records k r.fill) rest ks) :
    (b₀.fillRooms rooms).graph.held = (b₀.fillRooms filled).graph.held + ks.sum := by
  induction hrest generalizing filled with
  | nil => rw [hrooms, List.append_nil, List.sum_nil, add_zero]
  | @cons r k rest ks hfill _ ih =>
    have hmem : r ∈ rooms := hrooms ▸ List.mem_append_right _ List.mem_cons_self
    have hsubset : filled ⊆ rooms := hrooms ▸ List.subset_append_left _ _
    have hother : ∀ r' ∈ filled, r'.start ≠ r.start := by
      have hsorted := (List.pairwise_append.mp h.sorted).1
      rw [hrooms, List.map_append, List.pairwise_append] at hsorted
      exact fun r' hr' => Nat.ne_of_lt (hsorted.2.2 _ (List.mem_map_of_mem hr') _ (by simp))
    -- The room is still empty when its turn comes.
    obtain ⟨hlt, hempty⟩ := (h.filled hsubset (mem_starts hmem) hother).block_eq_empty hb.lt
      (h.range _ (mem_starts hmem))
    have hone : (b₀.fillRooms (filled ++ [r])).graph.held = (b₀.fillRooms filled).graph.held + k := by
      rw [fillRooms, List.foldl_append, List.foldl_cons, List.foldl_nil, held_flowTo]
      exact hfill _ (Accepts.goto hlt hempty)
    have hnext : rooms = (filled ++ [r]) ++ rest := by rw [hrooms, List.append_assoc]; rfl
    rw [ih hnext, hone, List.sum_cons, add_assoc]

theorem Opens.held {n done : Nat} {b₀ : Builder} {rooms : List Room}
    (h : Opens b n b₀ rooms done) (hb : b.Accepts) {ks : List Held}
    (hrooms : List.Forall₂ (fun r k => Records k r.fill) rooms ks) (i : Nat) :
    ((b₀.fillRooms rooms).goto i).graph.held = b₀.graph.held + ks.sum :=
  @held_fillRooms b n done b₀ rooms h hb [] rooms ks rfl hrooms

/-! ## Lists -/

/-- The first statement of a list, and the others if it does not end the list. -/
theorem held_cons {s : Stmt} {f : Builder → Builder} {k' : Held} (hb : b.Accepts)
    (hstmt : Records k (stmt loop s)) (hrest : Records k' f)
    (hend : ∀ c : Builder, c.isTerminated = true → f c = c) :
    (f (b.stmt loop s)).graph.held = b.graph.held + (k + if ends s then 0 else k') := by
  have hfirst := steps_stmt loop s hb
  cases hends : ends s with
  | true =>
    rw [hends] at hfirst
    rw [hend _ hfirst.isTerminated, hstmt b hb, if_pos rfl, add_zero]
  | false =>
    rw [hends] at hfirst
    rw [hrest _ hfirst.accepts, hstmt b hb, if_neg Bool.false_ne_true, add_assoc]

theorem held_dispatch (test : Option Nat) (s : Stmt) (b : Builder) :
    (b.dispatch test s).graph.held = b.graph.held := by
  unfold dispatch
  split
  · split
    · exact Graph.held_edge _ _ _
    · rfl
  · rfl

end Builder

/-! ## All statements -/

namespace Live

def heldStmt (s : Stmt) : Held := (↑(ofStmt s), ↑(evaluated s))

def heldStmts (ss : List Stmt) : Held := (↑(ofStmts ss), ↑(evaluatedAll ss))

def heldHandler : Handler → Held
  | .mk _ _ body => heldStmts body

def heldCases (cs : List MatchCase) : Held := (↑(ofCases cs), ↑(evaluatedCases cs))

theorem heldStmts_cons (s : Stmt) (rest : List Stmt) :
    heldStmts (s :: rest) = heldStmt s + if ends s then 0 else heldStmts rest := by
  rw [heldStmts, heldStmts, heldStmt, ofStmts, evaluatedAll]
  cases ends s <;> simp

theorem sum_heldHandlers (hs : List Handler) :
    (hs.map heldHandler).sum = (↑(ofHandlers hs), ↑(evaluatedHandlers hs)) := by
  induction hs with
  | nil => rfl
  | cons h rest ih =>
    obtain ⟨_, _, body⟩ := h
    rw [List.map_cons, List.sum_cons, ih]
    rfl

/-- An `else` list is left out if it is empty. -/
theorem sum_heldElse (orelse : List Stmt) :
    (if orelse.isEmpty then [] else [heldStmts orelse]).sum = heldStmts orelse := by
  cases orelse with
  | nil => rfl
  | cons s rest => exact List.sum_singleton

end Live

namespace Builder

open Live

variable {loop : Option Loop} {b : Builder}

/-- Rooms for an `else` list. -/
theorem forall₂_else {r : Room} {orelse : List Stmt} (h : Records (heldStmts orelse) r.fill) :
    List.Forall₂ (fun r k => Records k r.fill) (if orelse.isEmpty then [] else [r])
      (if orelse.isEmpty then [] else [heldStmts orelse]) := by
  split
  · exact .nil
  · exact .cons h .nil

theorem forall₂_tryRooms {body : List Stmt} {hs : List Handler} {orelse : List Stmt}
    (hbody : ∀ test, Records (heldStmts body) (tryStmts loop test body))
    (hhandlers : ∀ done i, List.Forall₂ (fun r k => Records k r.fill)
      (handlerRooms loop done i hs) (hs.map heldHandler))
    (horelse : Records (heldStmts orelse) (stmts loop orelse)) (n : Nat) :
    List.Forall₂ (fun r k => Records k r.fill) (tryRooms loop body hs orelse n)
      (heldStmts body :: (hs.map heldHandler ++
        if orelse.isEmpty then [] else [heldStmts orelse])) :=
  .cons (hbody _) (List.rel_append (hhandlers _ _) (forall₂_else horelse))

theorem held_loopStart {header : Nat → Nat → Builder → Builder} {es : List Expr}
    (hheader : ∀ {yes no : Nat} {c : Builder}, c.current < c.graph.size →
      (header yes no c).graph.held = c.graph.held + Held.ofExprs es) (orelse : List Stmt)
    (b : Builder) :
    (loopStart header orelse b).graph.held = b.graph.held + Held.ofExprs es := by
  rw [loopStart, hheader]
  · rw [graph_goto, graph_edge, Graph.held_edge, held_create]
  · have hdone : b.graph.size + 2 ≤ loopDone orelse b.graph.size := by
      unfold loopDone
      split <;> omega
    rw [current_goto, graph_goto, graph_edge, Graph.size_edge, size_create]
    omega

/-- A loop, with the expressions that its header evaluates. -/
theorem held_loop {header : Nat → Nat → Builder → Builder} {es : List Expr}
    {body orelse : List Stmt}
    (hopens : b.Opens (loopDone orelse b.graph.size + 1 - b.graph.size) (loopStart header orelse b)
      (loopRooms loop body orelse b.graph.size) (loopDone orelse b.graph.size))
    (hheader : ∀ {yes no : Nat} {c : Builder}, c.current < c.graph.size →
      (header yes no c).graph.held = c.graph.held + Held.ofExprs es)
    (hbody : ∀ loop, Records (heldStmts body) (stmts loop body))
    (horelse : Records (heldStmts orelse) (stmts loop orelse)) (hb : b.Accepts) :
    (((loopStart header orelse b).fillRooms (loopRooms loop body orelse b.graph.size)).goto
      (loopDone orelse b.graph.size)).graph.held =
        b.graph.held + (Held.ofExprs es + heldStmts body + heldStmts orelse) := by
  rw [hopens.held hb (.cons (hbody _) (forall₂_else horelse)), held_loopStart hheader,
    List.sum_cons, sum_heldElse, add_assoc, add_assoc]

theorem held_eachStart (iter : Expr) {yes no : Nat} {c : Builder} (hlt : c.current < c.graph.size) :
    (eachStart iter yes no c).graph.held = c.graph.held + Held.ofExprs [iter] := by
  rw [eachStart, graph_edge, graph_edge, Graph.held_edge, Graph.held_edge, graph_append,
    Graph.held_append _ hlt]
  rfl

theorem held_caseStart (i : Nat) {before : Nat} (p : Pattern) (guard : Option Expr) (b : Builder) :
    (b.caseStart i before p guard).graph.held = b.graph.held + Held.ofExprs guard.toList := by
  have hlt : b.graph.size < ((b.create 2).edge before b.graph.size).graph.size := by
    rw [graph_edge, Graph.size_edge, size_create]
    omega
  rw [caseStart, graph_edge, Graph.held_edge, held_appendAll _ hlt, graph_edge, Graph.held_edge,
    held_create, Held.ofEntries_append, Held.ofEntries_remarks, Held.ofEntries_exprs, zero_add]

mutual

theorem records_stmt (loop : Option Loop) (s : Stmt) : Records (heldStmt s) (stmt loop s) := by
  intro b hb
  cases s
  case ret x value =>
    rw [stmt]
    exact records_jump _ _ b hb
  case raise x exc cause =>
    rw [stmt]
    exact records_jump _ _ b hb
  case breakLoop x =>
    rw [stmt]
    exact records_jump _ _ b hb
  case continueLoop x =>
    rw [stmt]
    exact records_jump _ _ b hb
  case branch x test body orelse =>
    have hopens := opens_branch hb.lt test (sparing_stmts loop body) (sparing_stmts loop orelse)
    have hlt : (b.create 3).current < (b.create 3).graph.size := by
      rw [current_create, size_create]
      exact Nat.lt_add_right 3 hb.lt
    rw [stmt_branch, hopens.held hb (.cons (records_stmts loop body)
      (.cons (records_stmts loop orelse) .nil)), held_condition test _ _ hlt, held_create, add_assoc]
    simp [heldStmt, heldStmts, Held.ofExprs, ofStmt, evaluated, ← Multiset.coe_add]
  case whileLoop x test body orelse =>
    have hopens := @opens_loop loop b hb.lt (condition test)
      (fun h hc hnew => h.condition test _ _ hc hnew) _ _
      (fun loop => sparing_stmts loop body) (sparing_stmts loop orelse)
    rw [stmt_whileLoop, held_loop hopens (held_condition test _ _)
      (fun loop => records_stmts loop body) (records_stmts loop orelse) hb]
    simp [heldStmt, heldStmts, Held.ofExprs, ofStmt, evaluated, ← Multiset.coe_add, add_assoc]
  case forLoop x isAsync target iter body orelse =>
    have hopens := @opens_loop loop b hb.lt (eachStart iter)
      (fun h hc _ => ((h.append hc _).edge hc _).edge hc _) _ _
      (fun loop => sparing_stmts loop body) (sparing_stmts loop orelse)
    rw [stmt_forLoop, held_loop hopens (held_eachStart iter)
      (fun loop => records_stmts loop body) (records_stmts loop orelse) hb, heldStmt, ofStmt,
      evaluated, List.append_assoc]
    simp [heldStmts, Held.ofExprs]
  case withBlock x isAsync items body =>
    have hlt : b.current < (b.create 2).graph.size := by
      rw [size_create]
      exact Nat.lt_add_right 2 hb.lt
    have hcontexts : items.map (fun w => Entry.expr w.context) =
        (items.map WithItem.context).map .expr := (List.map_map ..).symm
    rw [stmt_withBlock, (opens_with hb.lt items (sparing_stmts loop body)).held hb
      (.cons (records_stmts loop body) .nil), withStart, graph_edge, Graph.held_edge,
      held_appendAll _ hlt, held_create, hcontexts, Held.ofEntries_exprs, add_assoc]
    simp [heldStmt, heldStmts, Held.ofExprs, ofStmt, evaluated, ← Multiset.coe_add]
  case tryBlock x isStar body hs orelse finalbody =>
    have hopens := opens_tryBlock loop body hs orelse hb
    have hstart : (tryStart hs orelse b).graph.held = b.graph.held := by
      have hdone := lt_tryDone hs orelse b.graph.size
      rw [tryStart, held_handlerTests, graph_edge, Graph.held_edge, held_create]
      rw [graph_edge, Graph.size_edge, size_create]
      omega
    have hrooms := forall₂_tryRooms (fun test => records_tryStmts loop test body)
      (fun done i => records_handlers loop done i hs) (records_stmts loop orelse) b.graph.size
    rw [stmt_tryBlock, records_stmts loop finalbody _ (hopens.steps hb).accepts,
      hopens.held hb hrooms, hstart, List.sum_cons, List.sum_append, sum_heldHandlers,
      sum_heldElse, add_assoc]
    simp [heldStmt, heldStmts, ofStmt, evaluated, ← Multiset.coe_add, add_assoc]
  case matchBlock x subject cs =>
    have hlt : b.current < ((b.append b.current (.expr subject)).create 1).graph.size := by
      rw [size_create, graph_append, Graph.size_append]
      exact Nat.lt_add_right 1 hb.lt
    rw [stmt, current_append, graph_goto, held_cases loop _ 0 cs hlt, held_create, graph_append,
      Graph.held_append _ hb.lt, add_assoc]
    rfl
  all_goals
    rw [stmt]
    · exact records_append _ b hb
    all_goals simp

theorem records_stmts (loop : Option Loop) (ss : List Stmt) :
    Records (heldStmts ss) (stmts loop ss) := by
  intro b hb
  cases ss with
  | nil => exact (add_zero _).symm
  | cons s rest =>
    rw [stmts, if_neg (by simp [hb.opened]), heldStmts_cons]
    exact held_cons hb (records_stmt loop s) (records_stmts loop rest)
      fun _ => stmts_of_isTerminated

theorem records_tryStmts (loop : Option Loop) (test : Option Nat) (ss : List Stmt) :
    Records (heldStmts ss) (tryStmts loop test ss) := by
  intro b hb
  cases ss with
  | nil => exact (add_zero _).symm
  | cons s rest =>
    rw [tryStmts_cons hb, heldStmts_cons, ← held_dispatch test s b]
    exact held_cons (hb.dispatch test s).2 (records_stmt loop s) (records_tryStmts loop test rest)
      fun _ => tryStmts_of_isTerminated

theorem records_handlers (loop : Option Loop) (done i : Nat) : ∀ hs : List Handler,
    List.Forall₂ (fun r k => Records k r.fill) (handlerRooms loop done i hs) (hs.map heldHandler)
  | [] => .nil
  | .mk _ _ body :: rest => .cons (records_stmts loop body) (records_handlers loop done (i + 1) rest)

theorem held_cases {before : Nat} (loop : Option Loop) (done i : Nat) :
    ∀ (cs : List MatchCase) {b : Builder}, before < b.graph.size →
      (b.cases loop done i before cs).graph.held = b.graph.held + heldCases cs
  | [], b, _ => by
    rw [Builder.cases, graph_edge, Graph.held_edge]
    exact (add_zero _).symm
  | .mk p guard body :: rest, b, hbefore => by
    obtain ⟨haccepts, -⟩ := accepts_case i p guard hbefore
    have hsize := (sparing_stmts loop body _ haccepts.lt).size
    rw [graph_goto, size_caseStart] at hsize
    rw [cases_cons, held_cases loop done (i + 1) rest (by rw [size_flowTo]; omega), held_flowTo,
      records_stmts loop body _ haccepts, graph_goto, held_caseStart, add_assoc, add_assoc]
    simp [heldCases, heldStmts, Held.ofExprs, ofCases, evaluatedCases, ← Multiset.coe_add]

end

end Builder

/-! ## Functions -/

theorem Graph.held_ofBody (body : List Stmt) : (Graph.ofBody body).held = Live.heldStmts body := by
  have hempty : ({} : Graph).held = 0 := by
    rw [Graph.held]
    exact Finset.sum_eq_zero fun i _ => by rw [Graph.block_empty]; rfl
  have hstart : ({} : Builder).Accepts :=
    ⟨by decide, congrArg Block.terminated (Graph.block_empty entryBlock)⟩
  rw [Graph.ofBody, Builder.held_flowTo, Builder.records_stmts none body _ hstart, hempty, zero_add]

/-- The graph of a function holds every live simple statement once, and once every expression that a
live compound statement evaluates itself. -/
theorem statements_ofFunction (ignoreDocstrings : Bool) (body : List Stmt) :
    let lived := if ignoreDocstrings then withoutDocstring body else body
    (Graph.ofFunction ignoreDocstrings body).statements = ↑(Live.ofStmts lived) ∧
      (Graph.ofFunction ignoreDocstrings body).expressions = ↑(Live.evaluatedAll lived) := by
  intro lived
  have hheld : (Graph.ofFunction ignoreDocstrings body).held = Live.heldStmts lived :=
    Graph.held_ofBody lived
  rw [Graph.held_eq] at hheld
  exact ⟨congrArg Prod.fst hheld, congrArg Prod.snd hheld⟩

/-- The body of the loop ends with its `finally` list, so the call of `h` is not held. -/
example :
    let p := Parsed.ofSource (utf8
      "def f():\n for i in r:\n  try:\n   g()\n  finally:\n   continue\n  h()\n return i\n") 1
    p.ok = true ∧ p.module.body.map (fun f =>
      (Graph.ofFunction true f.functionBody).statements.card) = [3] := by
  decide +kernel


end CloneScout.Flow
