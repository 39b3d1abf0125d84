import CloneScout.Proofs.Flow.Graph
import CloneScout.Proofs.Normal.Outline
import Mathlib.Data.List.Forall2

/-!
# Outlines and flow of control

The graph of statements has the shape of the graph of their outline, and the entries of its blocks
have the same texts wherever the outline hides only what is irrelevant to a configuration.
-/

namespace CloneScout

open Flow (raises canRaise)

/-! ## Exceptions -/

/-- An expression that can raise an exception is among the nodes. -/
def Flow.raising (vs : List Visit) : Bool := vs.any fun v => raises v.node

namespace Flow

@[simp]
theorem raising_nil : raising [] = false := rfl

@[simp]
theorem raising_cons (v : Visit) (vs : List Visit) :
    raising (v :: vs) = (raises v.node || raising vs) := rfl

@[simp]
theorem raising_append (vs ws : List Visit) : raising (vs ++ ws) = (raising vs || raising ws) :=
  List.any_append

end Flow

namespace Outline

open Flow (raising)

mutual

theorem raising_expr {o : Outline} (h : o.Silent .shown) (d : Nat) (p : Place) (e : Expr) :
    raising (Walk.expr d (o.expr p e)) = raising (Walk.expr d e) := by
  cases e <;> simp [expr, Walk.expr, raises, h.swap, raising_expr h, raising_exprs h,
    raising_optExpr h, raising_keys h, raising_values h, raising_keywords h,
    raising_comprehensions h, raising_params h]

theorem raising_exprs {o : Outline} (h : o.Silent .shown) (d : Nat) (p : Place) (es : List Expr) :
    raising (Walk.exprs d (o.exprs p es)) = raising (Walk.exprs d es) := by
  cases es <;> simp [exprs, Walk.exprs, raising_expr h, raising_exprs h]

theorem raising_optExpr {o : Outline} (h : o.Silent .shown) (d : Nat) (p : Place)
    (e : Option Expr) : raising (Walk.optExpr d (o.optExpr p e)) = raising (Walk.optExpr d e) := by
  cases e <;> simp [optExpr, Walk.optExpr, raising_expr h]

theorem raising_keys {o : Outline} (h : o.Silent .shown) (d : Nat) (p : Place) :
    ∀ es : List Entry, raising (Walk.keys d (o.entries p es)) = raising (Walk.keys d es)
  | [] => rfl
  | .pair _ _ :: _ => by simp [entries, Walk.keys, raising_expr h, raising_keys h]
  | .unpack _ :: _ => by simp [entries, Walk.keys, raising_keys h]

theorem raising_values {o : Outline} (h : o.Silent .shown) (d : Nat) (p : Place) :
    ∀ es : List Entry, raising (Walk.values d (o.entries p es)) = raising (Walk.values d es)
  | [] => rfl
  | .pair _ _ :: _ => by simp [entries, Walk.values, raising_expr h, raising_values h]
  | .unpack _ :: _ => by simp [entries, Walk.values, raising_expr h, raising_values h]

theorem raising_keywords {o : Outline} (h : o.Silent .shown) (d : Nat) (p : Place) :
    ∀ ks : List Keyword,
      raising (Walk.keywords d (o.keywords p ks)) = raising (Walk.keywords d ks)
  | [] => rfl
  | .mk _ _ :: _ => by simp [keywords, Walk.keywords, raising_expr h, raising_keywords h]

theorem raising_comprehensions {o : Outline} (h : o.Silent .shown) (d : Nat) (p : Place) :
    ∀ gs : List Comprehension,
      raising (Walk.comprehensions d (o.comprehensions p gs)) = raising (Walk.comprehensions d gs)
  | [] => rfl
  | .mk _ _ _ _ :: _ => by
    simp [comprehensions, Walk.comprehensions, raising_expr h, raising_exprs h,
      raising_comprehensions h]

theorem raising_hints {o : Outline} (h : o.Silent .shown) (d : Nat) (p : Place) :
    ∀ qs : List Param, raising (Walk.hints d (o.paramList p qs)) = raising (Walk.hints d qs)
  | [] => rfl
  | .mk _ _ _ :: _ => by
    simp [paramList, param, Walk.hints, h.hints, raising_optExpr h, raising_hints h]

theorem raising_optHint {o : Outline} (h : o.Silent .shown) (d : Nat) (p : Place) :
    ∀ q : Option Param, raising (Walk.optHint d (o.optParam p q)) = raising (Walk.optHint d q)
  | none => rfl
  | some (.mk _ _ _) => by simp [optParam, param, Walk.optHint, h.hints, raising_optExpr h]

theorem raising_defaults {o : Outline} (h : o.Silent .shown) (d : Nat) (p : Place) :
    ∀ qs : List Param, raising (Walk.defaults d (o.paramList p qs)) = raising (Walk.defaults d qs)
  | [] => rfl
  | .mk _ _ _ :: _ => by
    simp [paramList, param, Walk.defaults, raising_optExpr h, raising_defaults h]

theorem raising_params {o : Outline} (h : o.Silent .shown) (d : Nat) (p : Place) :
    ∀ ps : Params, raising (Walk.params d (o.params p ps)) = raising (Walk.params d ps)
  | .mk _ _ _ _ _ => by
    simp [params, Walk.params, raising_hints h, raising_optHint h, raising_defaults h]

end

mutual

theorem raising_pattern {o : Outline} (h : o.Silent .shown) (d : Nat) (p : Pattern) :
    raising (Walk.pattern d (o.pattern p)) = raising (Walk.pattern d p) := by
  cases p <;> simp [pattern, Walk.pattern, raises, raising_expr h, raising_patterns h,
    raising_optPattern h, raising_patternKeys h, raising_patternValues h,
    raising_keywordPatterns h]

theorem raising_patterns {o : Outline} (h : o.Silent .shown) (d : Nat) (ps : List Pattern) :
    raising (Walk.patterns d (o.patterns ps)) = raising (Walk.patterns d ps) := by
  cases ps <;> simp [patterns, Walk.patterns, raising_pattern h, raising_patterns h]

theorem raising_optPattern {o : Outline} (h : o.Silent .shown) (d : Nat) (p : Option Pattern) :
    raising (Walk.optPattern d (o.optPattern p)) = raising (Walk.optPattern d p) := by
  cases p <;> simp [optPattern, Walk.optPattern, raising_pattern h]

theorem raising_patternKeys {o : Outline} (h : o.Silent .shown) (d : Nat) :
    ∀ es : List PatternEntry,
      raising (Walk.patternKeys d (o.patternEntries es)) = raising (Walk.patternKeys d es)
  | [] => rfl
  | .mk _ _ :: _ => by
    simp [patternEntries, Walk.patternKeys, raising_expr h, raising_patternKeys h]

theorem raising_patternValues {o : Outline} (h : o.Silent .shown) (d : Nat) :
    ∀ es : List PatternEntry,
      raising (Walk.patternValues d (o.patternEntries es)) = raising (Walk.patternValues d es)
  | [] => rfl
  | .mk _ _ :: _ => by
    simp [patternEntries, Walk.patternValues, raising_pattern h, raising_patternValues h]

theorem raising_keywordPatterns {o : Outline} (h : o.Silent .shown) (d : Nat) :
    ∀ ks : List PatternKeyword,
      raising (Walk.keywordPatterns d (o.patternKeywords ks)) = raising (Walk.keywordPatterns d ks)
  | [] => rfl
  | .mk _ _ :: _ => by
    simp [patternKeywords, Walk.keywordPatterns, raising_pattern h, raising_keywordPatterns h]

end

theorem raising_withItems {o : Outline} (h : o.Silent .shown) (d : Nat) (items : List WithItem) :
    raising ((items.map o.withItem).flatMap (Walk.withItem d)) =
      raising (items.flatMap (Walk.withItem d)) := by
  induction items with
  | nil => rfl
  | cons w items ih => simp [Walk.withItem, withItem, raising_expr h, raising_optExpr h, ih]

mutual

theorem raising_stmt {o : Outline} (h : o.Silent .shown) (d : Nat) (s : Stmt) :
    raising (Walk.stmt d (o.stmt s)) = raising (Walk.stmt d s) := by
  cases s <;> simp [stmt, Walk.stmt, raises, h.hints, raising_expr h, raising_exprs h,
    raising_optExpr h, raising_keywords h, raising_params h, raising_withItems h,
    raising_stmts h, raising_handlers h, raising_cases h]

theorem raising_stmts {o : Outline} (h : o.Silent .shown) (d : Nat) (ss : List Stmt) :
    raising (Walk.stmts d (o.stmts ss)) = raising (Walk.stmts d ss) := by
  cases ss <;> simp [stmts, Walk.stmts, raising_stmt h, raising_stmts h]

theorem raising_handlers {o : Outline} (h : o.Silent .shown) (d : Nat) :
    ∀ hs : List Handler, raising (Walk.handlers d (o.handlers hs)) = raising (Walk.handlers d hs)
  | [] => rfl
  | .mk _ _ _ :: _ => by
    simp [handlers, Walk.handlers, raising_optExpr h, raising_stmts h, raising_handlers h]

theorem raising_cases {o : Outline} (h : o.Silent .shown) (d : Nat) :
    ∀ cs : List MatchCase, raising (Walk.cases d (o.cases cs)) = raising (Walk.cases d cs)
  | [] => rfl
  | .mk _ _ _ :: _ => by
    simp [cases, Walk.cases, raising_pattern h, raising_optExpr h, raising_stmts h,
      raising_cases h]

end

theorem canRaise_stmt {o : Outline} (h : o.Silent .shown) (s : Stmt) :
    canRaise (o.stmt s) = canRaise s := by
  have hraising : raising (Walk.stmt 0 (o.stmt s)) = raising (Walk.stmt 0 s) := raising_stmt h 0 s
  cases s <;> first | rfl | exact hraising

end Outline

/-! ## Graphs with the same text -/

namespace Flow

/-- The blocks show the same texts and lead to the same blocks. -/
structure Block.Alike (cfg : Normal.Config) (a b : Block) : Prop where
  texts : a.entries.map (Entry.text cfg) = b.entries.map (Entry.text cfg)
  successors : a.successors = b.successors
  terminated : a.terminated = b.terminated

theorem Block.Alike.refl (cfg : Normal.Config) (a : Block) : a.Alike cfg a := ⟨rfl, rfl, rfl⟩

theorem Block.Alike.text_eq {cfg : Normal.Config} {a b : Block} (h : a.Alike cfg b) (i : Nat) :
    a.text cfg i = b.text cfg i := by
  rw [Block.text, h.texts, h.successors, Block.text]

theorem blockTexts_congr {cfg : Normal.Config} {as bs : List Block}
    (h : List.Forall₂ (Block.Alike cfg) as bs) (i : Nat) :
    blockTexts cfg i as = blockTexts cfg i bs := by
  induction h generalizing i with
  | nil => rfl
  | cons hab _ ih => rw [blockTexts, blockTexts, hab.text_eq, ih]

/-- The graphs have equally many blocks, which are alike. -/
structure Graph.Alike (cfg : Normal.Config) (g g' : Graph) : Prop where
  size : g.size = g'.size
  block (i : Nat) : (g.block i).Alike cfg (g'.block i)

namespace Graph.Alike

variable {cfg : Normal.Config} {g g' : Graph}

theorem text_eq (h : g.Alike cfg g') : g.text cfg = g'.text cfg := by
  rw [Graph.text, Graph.text]
  congr 1
  apply blockTexts_congr
  rw [List.forall₂_iff_get]
  refine ⟨h.size, fun i hi hi' => ?_⟩
  have hblock := h.block i
  rw [Graph.block, Graph.block, Array.getElem?_eq_getElem hi, Array.getElem?_eq_getElem hi']
    at hblock
  exact hblock

theorem create (h : g.Alike cfg g') : g.create.Alike cfg g'.create where
  size := by rw [size_create, size_create, h.size]
  block i := by simpa using h.block i

theorem modify (h : g.Alike cfg g') (i : Nat) {f f' : Block → Block}
    (hf : ∀ a b : Block, a.Alike cfg b → (f a).Alike cfg (f' b)) :
    (g.modify i f).Alike cfg (g'.modify i f') where
  size := by rw [size_modify, size_modify, h.size]
  block j := by
    by_cases hij : j = i
    · subst hij
      by_cases hj : j < g.size
      · rw [block_modify_self f hj, block_modify_self f' (h.size ▸ hj)]
        exact hf _ _ (h.block j)
      · have hj' : ¬ j < g'.size := h.size ▸ hj
        rw [block_of_size_le (by simpa using hj), block_of_size_le (by simpa using hj')]
        exact .refl cfg _
    · rw [block_modify_of_ne f hij, block_modify_of_ne f' hij]
      exact h.block j

theorem edge (h : g.Alike cfg g') (i j : Nat) : (g.edge i j).Alike cfg (g'.edge i j) := by
  rw [Graph.edge, Graph.edge, ← h.size]
  split
  · exact h.modify i fun _ _ hab => ⟨hab.texts, by simp [hab.successors], hab.terminated⟩
  · exact h

theorem append (h : g.Alike cfg g') (i : Nat) {e e' : Entry} (he : e.text cfg = e'.text cfg) :
    (g.append i e).Alike cfg (g'.append i e') :=
  h.modify i fun _ _ hab => ⟨by simp [hab.texts, he], hab.successors, hab.terminated⟩

theorem terminate (h : g.Alike cfg g') (i : Nat) : (g.terminate i).Alike cfg (g'.terminate i) :=
  h.modify i fun _ _ hab => ⟨hab.texts, hab.successors, rfl⟩

end Graph.Alike

/-- The graphs are alike, and the next statement goes to the same block. -/
structure Builder.Alike (cfg : Normal.Config) (b b' : Builder) : Prop where
  graph : b.graph.Alike cfg b'.graph
  current : b.current = b'.current

namespace Builder.Alike

variable {cfg : Normal.Config} {b b' : Builder}

theorem size (h : b.Alike cfg b') : b.graph.size = b'.graph.size := h.graph.size

theorem isTerminated (h : b.Alike cfg b') : b.isTerminated = b'.isTerminated := by
  rw [Builder.isTerminated, Builder.isTerminated, h.current]
  exact (h.graph.block _).terminated

theorem create (h : b.Alike cfg b') (n : Nat) : (b.create n).Alike cfg (b'.create n) := by
  induction n generalizing b b' with
  | zero => exact h
  | succ n ih => exact ih ⟨h.graph.create, h.current⟩

theorem goto (h : b.Alike cfg b') (i : Nat) : (b.goto i).Alike cfg (b'.goto i) := ⟨h.graph, rfl⟩

theorem edge (h : b.Alike cfg b') (i j : Nat) : (b.edge i j).Alike cfg (b'.edge i j) :=
  ⟨h.graph.edge i j, h.current⟩

theorem append (h : b.Alike cfg b') (i : Nat) {e e' : Entry} (he : e.text cfg = e'.text cfg) :
    (b.append i e).Alike cfg (b'.append i e') :=
  ⟨h.graph.append i he, h.current⟩

theorem flowTo (h : b.Alike cfg b') (i : Nat) : (b.flowTo i).Alike cfg (b'.flowTo i) := by
  rw [Builder.flowTo, Builder.flowTo, h.isTerminated, h.current]
  split
  · exact h
  · exact h.edge _ _

theorem jump (h : b.Alike cfg b') {s s' : Stmt} (i : Nat)
    (hs : (Entry.stmt s).text cfg = (Entry.stmt s').text cfg) :
    (b.jump s i).Alike cfg (b'.jump s' i) := by
  rw [Builder.jump, Builder.jump, h.current]
  exact ⟨((h.graph.append _ hs).terminate _).edge _ _, rfl⟩

theorem appendRemarks (h : b.Alike cfg b') (i : Nat) (remarks : List Text) :
    (b.appendRemarks i remarks).Alike cfg (b'.appendRemarks i remarks) := by
  induction remarks generalizing b b' with
  | nil => exact h
  | cons t remarks ih => exact ih (h.append i rfl)

theorem orSkip (skip : Bool) {f f' : Builder → Builder}
    (hf : ∀ {c c' : Builder}, c.Alike cfg c' → (f c).Alike cfg (f' c')) (h : b.Alike cfg b') :
    (if skip then b else f b).Alike cfg (if skip then b' else f' b') := by
  split
  · exact h
  · exact hf h

end Builder.Alike

end Flow

/-! ## Graphs of outlines -/

namespace Outline

open Flow (Builder Graph Loop)

section

variable {o : Outline} {cfg : Normal.Config} (hf : o.Fits cfg) (hs : o.Silent .shown)
  {b b' : Builder}

include hf

theorem stmtEntry_text {s : Stmt} (h : Every.stmt Node.Lawful s) :
    (Flow.Entry.stmt (o.stmt s)).text cfg = (Flow.Entry.stmt s).text cfg :=
  stmtText_outline hf h

theorem exprEntry_text {e : Expr} (h : Every.expr Node.Lawful e) :
    (Flow.Entry.expr (o.expr .free e)).text cfg = (Flow.Entry.expr e).text cfg := by
  rw [Flow.Entry.text, Flow.Entry.text, exprText_outline hf h]

theorem alike_operands (op : BoolOp) (yes no i : Nat) {es : List Expr}
    (h : Every.exprs Node.Lawful es) (hb : b.Alike cfg b') :
    (Builder.operands op yes no i (o.exprs .free es) b).Alike cfg
      (Builder.operands op yes no i es b') := by
  induction es generalizing i b b' with
  | nil => exact hb
  | cons e es ih =>
    obtain ⟨he, hes⟩ := h
    cases es with
    | nil => exact ((hb.append i (exprEntry_text hf he)).edge i yes).edge i no
    | cons e' es =>
      have hsize := hb.size
      simp only [exprs, Builder.operands, hsize] at ih ⊢
      exact ih _ hes ((((hb.append i (exprEntry_text hf he)).create 1).edge i _).edge i _)

include hs

theorem alike_condition {test : Expr} (h : Every.expr Node.Lawful test) (yes no : Nat)
    (hb : b.Alike cfg b') :
    (b.condition (o.expr .free test) yes no).Alike cfg (b'.condition test yes no) := by
  have hother := ((hb.append b'.current (exprEntry_text hf h)).edge b'.current yes).edge
    b'.current no
  rw [← hb.current] at hother
  cases test
  case boolean x op values =>
    simp only [Every.expr] at h
    simp only [expr, Builder.condition, hb.current]
    exact alike_operands hf op yes no _ h.2 hb
  case binary x left op right =>
    simp only [expr, hs.swap] at hother ⊢
    simpa [Builder.condition, hb.current] using hother
  all_goals
    simp only [expr] at hother ⊢
    simpa [Builder.condition, hb.current] using hother

omit hf

theorem handlerRemarks_outline (i : Nat) (type : Option Expr) (id : Option Text)
    (body body' : List Stmt) :
    Builder.handlerRemarks i (.mk (o.optExpr .shown type) id body') =
      Builder.handlerRemarks i (.mk type id body) := by
  cases type <;> simp [optExpr, Builder.handlerRemarks, Dump.exprText, dump_expr hs]

theorem caseRemarks_outline (i : Nat) (p : Pattern) :
    Builder.caseRemarks i (o.pattern p) = Builder.caseRemarks i p := by
  simp [Builder.caseRemarks, Dump.patternText, dump_pattern hs]

theorem alike_handlerTests (done i test body : Nat) (handlers : List Handler)
    (hb : b.Alike cfg b') :
    (Builder.handlerTests done i test body (o.handlers handlers) b).Alike cfg
      (Builder.handlerTests done i test body handlers b') := by
  induction handlers generalizing i test body b b' with
  | nil => exact hb
  | cons h rest ih =>
    obtain ⟨type, id, stmts⟩ := h
    have hempty : (o.handlers rest).isEmpty = rest.isEmpty := by
      rcases rest with _ | ⟨⟨_, _, _⟩, _⟩ <;> rfl
    rw [Outline.handlers, Builder.handlerTests, Builder.handlerTests, hempty,
      handlerRemarks_outline hs i type id stmts]
    exact ih _ _ _ (((hb.appendRemarks test _).edge test body).edge test _)

include hf

omit hs in
theorem alike_withItems {items : List WithItem} (h : Every.withItems Node.Lawful items)
    (hb : b.Alike cfg b') :
    ((items.map o.withItem).foldl (fun b w => b.append b.current (.expr w.context)) b).Alike cfg
      (items.foldl (fun b w => b.append b.current (.expr w.context)) b') := by
  induction items generalizing b b' with
  | nil => exact hb
  | cons w items ih =>
    simp only [Every.withItems, List.mem_cons, forall_eq_or_imp] at h
    simp only [List.map_cons, List.foldl_cons, hb.current]
    exact ih h.2 (hb.append _ (exprEntry_text hf h.1.1))

end

theorem length_handlers (o : Outline) (hs : List Handler) :
    (o.handlers hs).length = hs.length := by
  induction hs with
  | nil => rfl
  | cons h rest ih =>
    obtain ⟨type, id, body⟩ := h
    rw [handlers, List.length_cons, ih, List.length_cons]

theorem isEmpty_handlers (o : Outline) (hs : List Handler) :
    (o.handlers hs).isEmpty = hs.isEmpty := by
  rcases hs with _ | ⟨⟨_, _, _⟩, _⟩ <;> rfl

theorem isEmpty_stmts (o : Outline) (ss : List Stmt) : (o.stmts ss).isEmpty = ss.isEmpty := by
  cases ss <;> rfl

mutual

theorem alike_stmt {o : Outline} {cfg : Normal.Config} (hf : o.Fits cfg) (hs : o.Silent .shown)
    (loop : Option Loop) {s : Stmt} (h : Every.stmt Node.Lawful s) {b b' : Builder}
    (hb : b.Alike cfg b') :
    (Builder.stmt loop (o.stmt s) b).Alike cfg (Builder.stmt loop s b') := by
  have hentry := stmtEntry_text hf h
  cases s
  case ret => exact hb.jump _ hentry
  case raise => exact hb.jump _ hentry
  case breakLoop => exact hb.jump _ hentry
  case continueLoop => exact hb.jump _ hentry
  case branch x test body orelse =>
    simp only [Every.stmt] at h
    simp only [Outline.stmt, Builder.stmt, hb.size]
    apply Builder.Alike.goto
    apply Builder.Alike.flowTo
    apply alike_stmts hf hs loop h.2.2.2
    apply Builder.Alike.goto
    apply Builder.Alike.flowTo
    apply alike_stmts hf hs loop h.2.2.1
    apply Builder.Alike.goto
    exact alike_condition hf hs h.2.1 _ _ (hb.create 3)
  case whileLoop x test body orelse =>
    simp only [Every.stmt] at h
    simp only [Outline.stmt, Builder.stmt, hb.size, hb.current, isEmpty_stmts]
    apply Builder.Alike.goto
    refine Builder.Alike.orSkip orelse.isEmpty
      (fun hc => (alike_stmts hf hs loop h.2.2.2 (hc.goto _)).flowTo _) ?_
    apply Builder.Alike.flowTo
    apply alike_stmts hf hs _ h.2.2.1
    apply Builder.Alike.goto
    apply alike_condition hf hs h.2.1
    exact ((hb.create _).edge _ _).goto _
  case forLoop x isAsync target iter body orelse =>
    simp only [Every.stmt] at h
    simp only [Outline.stmt, Builder.stmt, hb.size, hb.current, isEmpty_stmts]
    apply Builder.Alike.goto
    refine Builder.Alike.orSkip orelse.isEmpty
      (fun hc => (alike_stmts hf hs loop h.2.2.2.2 (hc.goto _)).flowTo _) ?_
    apply Builder.Alike.flowTo
    apply alike_stmts hf hs _ h.2.2.2.1
    apply Builder.Alike.goto
    apply Builder.Alike.edge
    apply Builder.Alike.edge
    exact ((hb.create _).edge _ _).append _ (exprEntry_text hf h.2.2.1)
  case withBlock x isAsync items body =>
    simp only [Every.stmt] at h
    have hitems := alike_withItems hf h.2.1 (hb.create 2)
    simp only [Outline.stmt, Builder.stmt, hb.size, hitems.current]
    apply Builder.Alike.goto
    apply Builder.Alike.flowTo
    apply alike_stmts hf hs loop h.2.2
    exact (hitems.edge _ _).goto _
  case tryBlock x isStar body handlers orelse finalbody =>
    simp only [Every.stmt] at h
    simp only [Outline.stmt, Builder.stmt, hb.size, hb.current, isEmpty_stmts, isEmpty_handlers,
      length_handlers]
    apply alike_stmts hf hs loop h.2.2.2.2
    apply Builder.Alike.goto
    refine Builder.Alike.orSkip orelse.isEmpty
      (fun hc => (alike_stmts hf hs loop h.2.2.2.1 (hc.goto _)).flowTo _) ?_
    apply alike_handlerBodies hf hs loop _ _ h.2.2.1
    apply Builder.Alike.flowTo
    apply alike_tryStmts hf hs loop _ h.2.1
    apply alike_handlerTests hs
    exact ((hb.create _).edge _ _).goto _
  case matchBlock x subject cs =>
    simp only [Every.stmt] at h
    simp only [Outline.stmt, Builder.stmt, hb.current]
    have hsubject := hb.append b'.current (exprEntry_text hf h.2.1)
    rw [hsubject.size, hsubject.current]
    apply Builder.Alike.goto
    apply alike_cases hf hs loop _ _ _ h.2.2
    exact hsubject.create 1
  all_goals
    rw [Outline.stmt, Builder.stmt, Builder.stmt, hb.current]
    · exact hb.append _ hentry
    all_goals simp

theorem alike_stmts {o : Outline} {cfg : Normal.Config} (hf : o.Fits cfg) (hs : o.Silent .shown)
    (loop : Option Loop) {ss : List Stmt} (h : Every.stmts Node.Lawful ss) {b b' : Builder}
    (hb : b.Alike cfg b') :
    (Builder.stmts loop (o.stmts ss) b).Alike cfg (Builder.stmts loop ss b') := by
  cases ss with
  | nil => exact hb
  | cons s rest =>
    rw [Outline.stmts, Builder.stmts, Builder.stmts, hb.isTerminated]
    split
    · exact hb
    · exact alike_stmts hf hs loop h.2 (alike_stmt hf hs loop h.1 hb)

theorem alike_tryStmts {o : Outline} {cfg : Normal.Config} (hf : o.Fits cfg)
    (hs : o.Silent .shown) (loop : Option Loop) (test : Option Nat) {ss : List Stmt}
    (h : Every.stmts Node.Lawful ss) {b b' : Builder} (hb : b.Alike cfg b') :
    (Builder.tryStmts loop test (o.stmts ss) b).Alike cfg
      (Builder.tryStmts loop test ss b') := by
  cases ss with
  | nil => exact hb
  | cons s rest =>
    simp only [Outline.stmts, Builder.tryStmts, hb.isTerminated, hb.current, canRaise_stmt hs]
    split
    · exact hb
    · apply alike_tryStmts hf hs loop test h.2
      apply alike_stmt hf hs loop h.1
      cases test with
      | none => exact hb
      | some i =>
        dsimp only
        split
        · exact hb.edge _ _
        · exact hb

theorem alike_handlerBodies {o : Outline} {cfg : Normal.Config} (hf : o.Fits cfg)
    (hs : o.Silent .shown) (loop : Option Loop) (done i : Nat) :
    ∀ {handlers : List Handler}, Every.handlers Node.Lawful handlers → ∀ {b b' : Builder},
      b.Alike cfg b' → (Builder.handlerBodies loop done i (o.handlers handlers) b).Alike cfg
        (Builder.handlerBodies loop done i handlers b')
  | [], _, _, _, hb => hb
  | .mk type id body :: rest, h, b, b', hb => by
    rw [Outline.handlers, Builder.handlerBodies, Builder.handlerBodies]
    exact alike_handlerBodies hf hs loop done (i + 1) h.2.2
      ((alike_stmts hf hs loop h.2.1 (hb.goto i)).flowTo done)

theorem alike_cases {o : Outline} {cfg : Normal.Config} (hf : o.Fits cfg) (hs : o.Silent .shown)
    (loop : Option Loop) (done i before : Nat) :
    ∀ {cs : List MatchCase}, Every.cases Node.Lawful cs → ∀ {b b' : Builder},
      b.Alike cfg b' → (Builder.cases loop done i before (o.cases cs) b).Alike cfg
        (Builder.cases loop done i before cs b')
  | [], _, b, b', hb => hb.edge before done
  | .mk p guard body :: rest, h, b, b', hb => by
    simp only [Outline.cases, Builder.cases, hb.size, caseRemarks_outline hs]
    have hremarks := ((hb.create 2).edge before b'.graph.size).appendRemarks b'.graph.size
      (Builder.caseRemarks i p)
    apply alike_cases hf hs loop done (i + 1) _ h.2.2.2
    refine Builder.Alike.flowTo (alike_stmts hf hs loop h.2.2.1 ?_) done
    apply Builder.Alike.goto
    apply Builder.Alike.edge
    cases guard with
    | none => exact hremarks
    | some e => exact hremarks.append _ (exprEntry_text hf h.2.1)

end

/-- The graph of an outline has the text of the graph. -/
theorem text_ofBody {o : Outline} {cfg : Normal.Config} (hf : o.Fits cfg) (hs : o.Silent .shown)
    {body : List Stmt} (h : Every.stmts Node.Lawful body) :
    (Graph.ofBody (o.stmts body)).text cfg = (Graph.ofBody body).text cfg := by
  have hstart : ({} : Builder).Alike cfg {} := ⟨⟨rfl, fun i => .refl cfg _⟩, rfl⟩
  exact ((alike_stmts hf hs none h hstart).flowTo Flow.exitBlock).graph.text_eq

end Outline

end CloneScout
