import CloneScout.Proofs.Clone.Layout
import CloneScout.Proofs.Flow.Text
import CloneScout.Proofs.Flow.Weights
import CloneScout.Proofs.Tree.Positional

/-!
# Changes that show in the text of a graph

The text of a graph determines its blocks, and so every weight of the graph. Handlers or cases in
another order, a guard that was not there and a part for the regular end of a loop each change some
weight, wherever they stand among the statements that control can reach. Behind a jump nothing is
added to the graph, so a change there does not show.
-/

set_option maxRecDepth 4000

namespace CloneScout.Flow

open Outline (plain spelled)
open Text (pruned)

variable {cfg cfg' : Normal.Config} {w : Weights}

/-! ## Weights are read off the text -/

/-- The mark of remarks is no part of a name. -/
theorem shown_ne_marked {e : Expr} (h : Every.expr Node.Lawful e) (t : Text) :
    (Dump.expr e).shown pruned true ≠ Dump.expr (.name .blank (Normal.metaMark ++ t) .load) := by
  intro hshown
  cases e
  case name x id ctx =>
    have hid : id.IsWord := h.1
    -- a name keeps its bytes, so it would hold the mark itself
    have hmark : id = Normal.metaMark ++ t := by
      rw [← Normal.keepsNames_pruned id hid.isPath]
      exact Document.quoted.inj (Option.some.inj (Prod.mk.inj
        (List.cons.inj (Document.node.inj hshown).2).1).2)
    have hmeta : Normal.isMeta id = true := by
      rw [hmark]
      exact Text.startsWith_iff.mpr (List.prefix_append _ _)
    rw [hid.isMeta_eq_false] at hmeta
    exact nomatch hmeta
  all_goals exact absurd (Document.node.inj hshown).1 (by decide)

theorem shown_value (x : Extent) (e : Expr) : (Dump.stmt (.expr x e)).shown pruned true =
    .node "Expr" [("value", some ((Dump.expr e).shown pruned true))] := by
  have hno : Document.isNoKeywords "value" (Dump.expr e) = false :=
    Document.isNoKeywords_of_ne (by decide) _
  simp [Dump.stmt, Document.shown, Document.shownFields, hno]

theorem value_ne_marked {e : Expr} (h : Every.expr Node.Lawful e) (t : Text) :
    Document.node "Expr" [("value", some ((Dump.expr e).shown pruned true))] ≠
      Dump.stmt (.expr .blank (.name .blank (Normal.metaMark ++ t) .load)) := by
  intro hshown
  refine shown_ne_marked h t ?_
  exact Option.some.inj (Prod.mk.inj (List.cons.inj (Document.node.inj hshown).2).1).2

/-- No statement is written as a remark. -/
theorem shown_stmt_ne_marked {s : Stmt} (h : Every.stmt Node.Lawful s) (t : Text) :
    (Dump.stmt s).shown pruned true ≠
      Dump.stmt (.expr .blank (.name .blank (Normal.metaMark ++ t) .load)) := by
  intro hshown
  have hlabel : s.label = "Expr" := by
    apply utf8_injective
    rw [← Dump.word_stmt, ← Document.word_shown (Dump.stmt s), hshown]
    rfl
  cases s <;> try (simp [Stmt.label] at hlabel; done)
  case expr x value =>
    rw [shown_value] at hshown
    exact value_ne_marked h.2 t hshown
  all_goals
    simp only [Stmt.label] at hlabel
    split at hlabel <;> exact absurd hlabel (by decide)

namespace Entry

variable {e e' : Entry}

/-- An entry that is no remark is not written as one. -/
theorem document_ne_marked (h : e.Lawful) (hplain : e.remark? = none) (t : Text) :
    e.document cfg ≠ (Entry.remark t).document cfg' := by
  cases e with
  | stmt s => exact shown_stmt_ne_marked (Normal.lawful_stmt cfg h) t
  | expr e =>
    have hstmt : Every.stmt Node.Lawful (.expr .blank e) := ⟨trivial, h⟩
    exact value_ne_marked (Normal.lawful_stmt cfg hstmt).2 t
  | remark u => exact nomatch hplain

/-- The text of an entry tells whether it is a remark, and which. -/
theorem remark?_eq_of_text_eq (h : e.Lawful) (h' : e'.Lawful) (htext : e.text cfg = e'.text cfg') :
    e.remark? = e'.remark? := by
  rw [text_eq cfg h, text_eq cfg' h'] at htext
  have hdocument : e.document cfg = e'.document cfg' :=
    Document.legible_readable.eq_of_toText_eq (readable_document cfg h) (readable_document cfg' h')
      htext
  cases hremark : e.remark? with
  | none =>
    cases hremark' : e'.remark? with
    | none => rfl
    | some t =>
      cases e' with
      | remark u => exact absurd hdocument (document_ne_marked h hremark u)
      | _ => exact nomatch hremark'
  | some t =>
    cases e with
    | remark u =>
      cases e' with
      | remark u' =>
        have hname : Document.quoted (Normal.metaMark ++ u) = .quoted (Normal.metaMark ++ u') := by
          have hvalue := Option.some.inj (Prod.mk.inj
            (List.cons.inj (Document.node.inj hdocument).2).1).2
          exact Option.some.inj (Prod.mk.inj (List.cons.inj (Document.node.inj hvalue).2).1).2
        rw [← hremark, remark?, remark?, List.append_cancel_left (Document.quoted.inj hname)]
      | stmt s => exact absurd hdocument.symm (document_ne_marked h' rfl u)
      | expr e => exact absurd hdocument.symm (document_ne_marked h' rfl u)
    | _ => exact nomatch hremark

end Entry

namespace Weights

variable {a b : Block} {g g' : Graph}

theorem remarks_eq {es es' : List Entry} (hes : ∀ e ∈ es, e.Lawful) (hes' : ∀ e ∈ es', e.Lawful)
    (h : es.map (Entry.text cfg) = es'.map (Entry.text cfg')) :
    es.map Entry.remark? = es'.map Entry.remark? := by
  induction es generalizing es' with
  | nil =>
    rw [List.map_eq_nil_iff.mp h.symm]
  | cons e es ih =>
    cases es' with
    | nil => exact nomatch h
    | cons e' es' =>
      obtain ⟨he, hes⟩ := List.forall_mem_cons.mp hes
      obtain ⟨he', hes'⟩ := List.forall_mem_cons.mp hes'
      obtain ⟨hfirst, hrest⟩ := List.cons.inj h
      rw [List.map_cons, List.map_cons, Entry.remark?_eq_of_text_eq he he' hfirst,
        ih hes hes' hrest]

theorem ofBlock_eq (ha : a.Lawful) (hb : b.Lawful) (h : a.Same cfg cfg' b) :
    w.ofBlock a = w.ofBlock b := by
  have hremarks := remarks_eq ha hb h.texts
  have htest (c : Block) : c.isTest = ((c.entries.map Entry.remark?).head?.bind id).isSome := by
    rw [Block.isTest, List.head?_map]
    cases c.entries.head? <;> rfl
  rw [ofBlock, ofBlock, htest, htest, hremarks]

/-- Graphs that show the same have the same weight. -/
theorem ofGraph_eq (hg : g.Lawful) (hg' : g'.Lawful) (h : g.Same cfg cfg' g') :
    w.ofGraph g = w.ofGraph g' := by
  rw [ofGraph, ofGraph, h.size]
  exact Finset.sum_congr rfl fun i _ => ofBlock_eq (hg i) (hg' i) (h.block i)

/-! ## Weights do not depend on extents and docstrings -/

theorem condition_plain (e : Expr) : w.condition (plain.expr .free e) = w.condition e := by
  have hlength (es : List Expr) : (plain.exprs Place.free.inner es).length = es.length := by
    induction es with
    | nil => rfl
    | cons e es ih => rw [Outline.exprs, List.length_cons, ih, List.length_cons]
  cases e <;> simp [Outline.expr, Outline.swap_plain, condition, hlength]

theorem handlers_plain (i : Nat) (hs : List Handler) :
    w.tests handlerView i (plain.handlers hs) = w.tests handlerView i hs := by
  induction hs generalizing i with
  | nil => rfl
  | cons h rest ih =>
    obtain ⟨type, id, body⟩ := h
    rw [Outline.handlers, tests, tests, ih, handlerView, handlerView,
      Outline.handlerRemarks_outline (Outline.silent_plain _) i type id body]

theorem cases_plain (i : Nat) (cs : List MatchCase) :
    w.tests caseView i (plain.cases cs) = w.tests caseView i cs := by
  induction cs generalizing i with
  | nil => rfl
  | cons c rest ih =>
    obtain ⟨p, guard, body⟩ := c
    rw [Outline.cases, tests, tests, ih, caseView, caseView,
      Outline.caseRemarks_outline (Outline.silent_plain _)]
    cases guard <;> rfl

theorem length_cases_plain (cs : List MatchCase) : (plain.cases cs).length = cs.length := by
  induction cs with
  | nil => rfl
  | cons c rest ih =>
    obtain ⟨p, guard, body⟩ := c
    rw [Outline.cases, List.length_cons, ih, List.length_cons]

end Weights

mutual

theorem ends_plain (s : Stmt) : ends (plain.stmt s) = ends s := by
  cases s
  case tryBlock x isStar body hs orelse finalbody => exact endsAny_plain finalbody
  all_goals rfl

theorem endsAny_plain (ss : List Stmt) : endsAny (plain.stmts ss) = endsAny ss := by
  cases ss with
  | nil => rfl
  | cons s rest => rw [Outline.stmts, endsAny, endsAny, ends_plain, endsAny_plain]

end

mutual

theorem Weights.stmt_plain (w : Weights) (s : Stmt) : w.stmt (plain.stmt s) = w.stmt s := by
  cases s <;> simp [Outline.stmt, Weights.stmt, Weights.loop, Weights.condition_plain,
    Weights.handlers_plain, Weights.cases_plain, Weights.length_cases_plain,
    Outline.isEmpty_stmts, Outline.length_handlers, Weights.stmts_plain,
    Weights.handlerBodies_plain, Weights.caseBodies_plain]

theorem Weights.stmts_plain (w : Weights) (ss : List Stmt) :
    w.stmts (plain.stmts ss) = w.stmts ss := by
  cases ss with
  | nil => rfl
  | cons s rest =>
    rw [Outline.stmts, Weights.stmts, Weights.stmts, Weights.stmt_plain, ends_plain,
      Weights.stmts_plain]

theorem Weights.handlerBodies_plain (w : Weights) : ∀ hs : List Handler,
    w.handlerBodies (plain.handlers hs) = w.handlerBodies hs
  | [] => rfl
  | .mk _ _ body :: rest => by
    rw [Outline.handlers, Weights.handlerBodies, Weights.handlerBodies, Weights.stmts_plain,
      Weights.handlerBodies_plain]

theorem Weights.caseBodies_plain (w : Weights) : ∀ cs : List MatchCase,
    w.caseBodies (plain.cases cs) = w.caseBodies cs
  | [] => rfl
  | .mk _ _ body :: rest => by
    rw [Outline.cases, Weights.caseBodies, Weights.caseBodies, Weights.stmts_plain,
      Weights.caseBodies_plain]

end

/-- A docstring weighs nothing. -/
theorem Weights.stmts_withoutDocstring (w : Weights) (body : List Stmt) :
    w.stmts (withoutDocstring body) = w.stmts body := by
  unfold withoutDocstring
  split
  next hdoc =>
    unfold startsWithDocstring at hdoc
    split at hdoc
    · simp [Weights.stmts, Weights.stmt, ends]
    · exact nomatch hdoc
  next => rfl

/-- The weight of the graph of a function's body. -/
theorem weight_ofFunction {body : List Stmt} (h : WellFormed.stmts body) (skip : Bool) :
    w.ofGraph (Graph.ofFunction skip body) = w.block * 2 + w.stmts body := by
  unfold Graph.ofFunction
  split
  · rw [weight_ofBody w (wellFormed_withoutDocstring h), w.stmts_withoutDocstring]
  · exact weight_ofBody w h

theorem Graph.lawful_ofFunction {body : List Stmt} (h : Every.stmts Node.Lawful body)
    (skip : Bool) : (Graph.ofFunction skip body).Lawful := by
  refine Graph.lawful_ofBody (Every.stmts_iff.mpr fun s hs => Every.stmts_iff.mp h s ?_)
  unfold withoutDocstring at hs
  split at hs
  · split at hs
    · exact List.mem_of_mem_drop hs
    · exact hs
  · exact hs

/-! ## Places that control can reach -/

/-- A list of statements as a part of a statement. -/
inductive Part : (List Stmt → Stmt) → Prop
  | branchBody (x : Extent) (test : Expr) (orelse : List Stmt) :
    Part fun ss => .branch x test ss orelse
  | branchElse (x : Extent) (test : Expr) (body : List Stmt) :
    Part fun ss => .branch x test body ss
  | whileBody (x : Extent) (test : Expr) (orelse : List Stmt) :
    Part fun ss => .whileLoop x test ss orelse
  | whileElse (x : Extent) (test : Expr) (body : List Stmt) :
    Part fun ss => .whileLoop x test body ss
  | forBody (x : Extent) (isAsync : Bool) (target iter : Expr) (orelse : List Stmt) :
    Part fun ss => .forLoop x isAsync target iter ss orelse
  | forElse (x : Extent) (isAsync : Bool) (target iter : Expr) (body : List Stmt) :
    Part fun ss => .forLoop x isAsync target iter body ss
  | withBody (x : Extent) (isAsync : Bool) (items : List WithItem) :
    Part fun ss => .withBlock x isAsync items ss
  | tryBody (x : Extent) (isStar : Bool) (hs : List Handler) (orelse finalbody : List Stmt) :
    Part fun ss => .tryBlock x isStar ss hs orelse finalbody
  | handler (x : Extent) (isStar : Bool) (body : List Stmt) (hs : List Handler)
      (type : Option Expr) (id : Option Text) (hs' : List Handler) (orelse finalbody : List Stmt) :
    Part fun ss => .tryBlock x isStar body (hs ++ .mk type id ss :: hs') orelse finalbody
  | tryElse (x : Extent) (isStar : Bool) (body : List Stmt) (hs : List Handler)
      (finalbody : List Stmt) :
    Part fun ss => .tryBlock x isStar body hs ss finalbody
  | tryLast (x : Extent) (isStar : Bool) (body : List Stmt) (hs : List Handler)
      (orelse : List Stmt) :
    Part fun ss => .tryBlock x isStar body hs orelse ss
  | case (x : Extent) (subject : Expr) (cs : List MatchCase) (p : Pattern) (guard : Option Expr)
      (cs' : List MatchCase) :
    Part fun ss => .matchBlock x subject (cs ++ .mk p guard ss :: cs')

/-- A place for a statement among others. Control can reach it: nothing in front of it ends its
list, nor the list of a statement around it. -/
inductive Reached : (Stmt → List Stmt) → Prop
  | here (rest : List Stmt) : Reached fun s => s :: rest
  | after {c : Stmt → List Stmt} (first : Stmt) (hfirst : ends first = false) (h : Reached c) :
    Reached fun s => first :: c s
  | inside {c : Stmt → List Stmt} {k : List Stmt → Stmt} (hk : Part k) (rest : List Stmt)
      (h : Reached c) : Reached fun s => k (c s) :: rest

theorem Reached.isEmpty {c : Stmt → List Stmt} (h : Reached c) (s : Stmt) :
    (c s).isEmpty = false := by
  cases h <;> rfl

section

variable {α : Type} {view : Nat → α → List (Option Text)}

theorem Weights.tests_append (w : Weights) (i : Nat) (as bs : List α) :
    w.tests view i (as ++ bs) = w.tests view i as + w.tests view (i + as.length) bs := by
  induction as generalizing i with
  | nil => simp [Weights.tests]
  | cons a as ih =>
    rw [List.cons_append, Weights.tests, Weights.tests, ih, List.length_cons]
    have hindex : i + 1 + as.length = i + (as.length + 1) := by omega
    rw [hindex]
    omega

end

theorem Weights.handlerBodies_append (w : Weights) (hs hs' : List Handler) :
    w.handlerBodies (hs ++ hs') = w.handlerBodies hs + w.handlerBodies hs' := by
  induction hs with
  | nil => simp [Weights.handlerBodies]
  | cons h hs ih =>
    obtain ⟨type, id, body⟩ := h
    rw [List.cons_append, Weights.handlerBodies, Weights.handlerBodies, ih]
    omega

theorem Weights.caseBodies_append (w : Weights) (cs cs' : List MatchCase) :
    w.caseBodies (cs ++ cs') = w.caseBodies cs + w.caseBodies cs' := by
  induction cs with
  | nil => simp [Weights.caseBodies]
  | cons c cs ih =>
    obtain ⟨p, guard, body⟩ := c
    rw [List.cons_append, Weights.caseBodies, Weights.caseBodies, ih]
    omega

/-- A part adds its own weight to the statement. -/
theorem Part.weight {k : List Stmt → Stmt} (hk : Part k) (w : Weights) {ss ss' : List Stmt}
    (hempty : ss.isEmpty = ss'.isEmpty) :
    w.stmt (k ss) + w.stmts ss' = w.stmt (k ss') + w.stmts ss := by
  cases hk
  case handler x isStar body hs type id hs' orelse finalbody =>
    have htests : w.tests handlerView 0 (hs ++ .mk type id ss :: hs') =
        w.tests handlerView 0 (hs ++ .mk type id ss' :: hs') := by
      rw [w.tests_append, w.tests_append]
      rfl
    simp only [Weights.stmt, htests, w.handlerBodies_append, Weights.handlerBodies,
      List.length_append, List.length_cons]
    omega
  case case x subject cs p guard cs' =>
    have htests : w.tests caseView 0 (cs ++ .mk p guard ss :: cs') =
        w.tests caseView 0 (cs ++ .mk p guard ss' :: cs') := by
      rw [w.tests_append, w.tests_append]
      rfl
    simp only [Weights.stmt, htests, w.caseBodies_append, Weights.caseBodies, List.length_append,
      List.length_cons]
    omega
  all_goals
    simp only [Weights.stmt, Weights.loop, hempty]
    omega

theorem Part.ends_eq {k : List Stmt → Stmt} (hk : Part k) {ss ss' : List Stmt}
    (h : endsAny ss = endsAny ss') : ends (k ss) = ends (k ss') := by
  cases hk
  case tryLast => exact h
  all_goals rfl

/-- In a place that control can reach, a statement adds its own weight. -/
theorem Reached.weight {c : Stmt → List Stmt} (h : Reached c) (w : Weights) {s s' : Stmt}
    (hends : ends s = ends s') :
    w.stmts (c s) + w.stmt s' = w.stmts (c s') + w.stmt s ∧ endsAny (c s) = endsAny (c s') := by
  induction h with
  | here rest =>
    refine ⟨?_, by rw [endsAny, endsAny, hends]⟩
    rw [Weights.stmts, Weights.stmts, hends]
    omega
  | after first hfirst hc ih =>
    refine ⟨?_, by rw [endsAny, endsAny, ih.2]⟩
    rw [Weights.stmts, Weights.stmts, hfirst, if_neg (by decide), if_neg (by decide)]
    omega
  | @inside c k hk rest hc ih =>
    have hpart := hk.weight w ((hc.isEmpty s).trans (hc.isEmpty s').symm)
    have hsame := hk.ends_eq ih.2
    refine ⟨?_, by rw [endsAny, endsAny, hsame]⟩
    rw [Weights.stmts, Weights.stmts, hsame]
    omega

theorem Part.lawful {P : Node → Prop} {k : List Stmt → Stmt} (hk : Part k) {ss : List Stmt}
    (h : Every.stmt P (k ss)) : Every.stmts P ss := by
  cases hk
  case branchBody => exact h.2.2.1
  case branchElse => exact h.2.2.2
  case whileBody => exact h.2.2.1
  case whileElse => exact h.2.2.2
  case forBody => exact h.2.2.2.1
  case forElse => exact h.2.2.2.2
  case withBody => exact h.2.2
  case tryBody => exact h.2.1
  case handler x isStar body hs type id hs' orelse finalbody =>
    have hhandler : Every.handlers P [.mk type id ss] :=
      Every.handlers_iff.mp h.2.2.1 _ (List.mem_append_right _ List.mem_cons_self)
    exact hhandler.2.1
  case tryElse => exact h.2.2.2.1
  case tryLast => exact h.2.2.2.2
  case case x subject cs p guard cs' =>
    have hcase : Every.cases P [.mk p guard ss] :=
      Every.cases_iff.mp h.2.2 _ (List.mem_append_right _ List.mem_cons_self)
    exact hcase.2.2.1

theorem Reached.lawful {P : Node → Prop} {c : Stmt → List Stmt} (h : Reached c) {s : Stmt}
    (hs : Every.stmts P (c s)) : Every.stmt P s := by
  induction h with
  | here rest => exact hs.1
  | after first hfirst hc ih => exact ih hs.2
  | inside hk rest hc ih => exact ih (hk.lawful hs.1)

/-! ## Changes -/

/-- The type that a handler asks for, apart from its extent and the spelling of numbers. -/
def typeOf : Handler → Option Expr
  | .mk type _ _ => (spelled id).optExpr .shown type

/-- The pattern of a case, apart from its extent and the spelling of numbers. -/
def patternOf : MatchCase → Pattern
  | .mk p _ _ => (spelled id).pattern p

/-- Handlers with other types or cases with other patterns in their places, a new guard, or a new
part for the regular end of a loop. -/
inductive Altered : Stmt → Stmt → Prop
  | handlers (x : Extent) (isStar : Bool) (body : List Stmt) {hs hs' : List Handler}
      (orelse finalbody : List Stmt) (hperm : hs'.Perm hs)
      (htypes : hs'.map typeOf ≠ hs.map typeOf) :
    Altered (.tryBlock x isStar body hs orelse finalbody)
      (.tryBlock x isStar body hs' orelse finalbody)
  | cases (x : Extent) (subject : Expr) {cs cs' : List MatchCase} (hperm : cs'.Perm cs)
      (hpatterns : cs'.map patternOf ≠ cs.map patternOf) :
    Altered (.matchBlock x subject cs) (.matchBlock x subject cs')
  | guard (x : Extent) (subject : Expr) (cs : List MatchCase) (p : Pattern) (test : Expr)
      (body : List Stmt) (cs' : List MatchCase) :
    Altered (.matchBlock x subject (cs ++ .mk p none body :: cs'))
      (.matchBlock x subject (cs ++ .mk p (some test) body :: cs'))
  | whileElse (x : Extent) (test : Expr) (body : List Stmt) (first : Stmt) (rest : List Stmt) :
    Altered (.whileLoop x test body []) (.whileLoop x test body (first :: rest))
  | forElse (x : Extent) (isAsync : Bool) (target iter : Expr) (body : List Stmt) (first : Stmt)
      (rest : List Stmt) :
    Altered (.forLoop x isAsync target iter body [])
      (.forLoop x isAsync target iter body (first :: rest))

/-- The weight that counts the tests with a property. -/
def counting (p : List (Option Text) → Bool) : Weights where
  block := 0
  test v := if p v then 1 else 0

theorem test_counting (p : List (Option Text) → Bool) (v : List (Option Text)) :
    (counting p).test v = if p v then 1 else 0 := rfl

section

variable {α : Type} {view : Nat → α → List (Option Text)} {p : List (Option Text) → Bool}
  {i k : Nat} (hindex : ∀ j a, p (view j a) = true → j = i)

include hindex

theorem tests_counting_of_lt (hk : i < k) (as : List α) : (counting p).tests view k as = 0 := by
  induction as generalizing k with
  | nil => rfl
  | cons a as ih =>
    have hno : p (view k a) ≠ true := fun h => absurd (hindex k a h) (by omega)
    rw [Weights.tests, ih (Nat.lt_succ_of_lt hk), test_counting, if_neg hno]

/-- Where only tests with number `i` count, the weight is that of this test. -/
theorem tests_counting (hk : k ≤ i) (as : List α) :
    (counting p).tests view k as = (as[i - k]?).elim 0 fun a => if p (view i a) then 1 else 0 := by
  induction as generalizing k with
  | nil => rfl
  | cons a as ih =>
    rw [Weights.tests, test_counting]
    by_cases hki : k = i
    · subst hki
      rw [tests_counting_of_lt hindex (Nat.lt_succ_self k), Nat.sub_self]
      rfl
    · have hno : p (view k a) ≠ true := fun h => hki (hindex k a h)
      have hnext : i - k = (i - (k + 1)) + 1 := by omega
      rw [ih (by omega), hnext, List.getElem?_cons_succ, if_neg hno, Nat.zero_add]

/-- The weight tells one list of tests from another if the tests with number `i` count in the first
and not in the second. -/
theorem tests_counting_ne {as bs : List α} {a b : α} (ha : as[i]? = some a) (hb : bs[i]? = some b)
    (hcounts : p (view i a) = true) (hnot : p (view i b) = false) :
    (counting p).tests view 0 as ≠ (counting p).tests view 0 bs := by
  rw [tests_counting hindex (Nat.zero_le i), tests_counting hindex (Nat.zero_le i), Nat.sub_zero,
    ha, hb, Option.elim_some, Option.elim_some, hcounts, hnot]
  decide

end

/-- Lists that show different things do so at some number. -/
theorem exists_getElem?_ne {α β : Type} {f : α → β} {as bs : List α}
    (hlength : as.length = bs.length) (h : as.map f ≠ bs.map f) :
    ∃ (i : Nat) (a b : α), as[i]? = some a ∧ bs[i]? = some b ∧ f a ≠ f b := by
  by_contra hnone
  refine h (List.ext_getElem? fun i => ?_)
  rw [List.getElem?_map, List.getElem?_map]
  by_cases hi : i < as.length
  · have hi' : i < bs.length := hlength ▸ hi
    have hsame : f as[i] = f bs[i] := by
      by_contra hne
      exact hnone ⟨i, as[i], bs[i], List.getElem?_eq_getElem hi, List.getElem?_eq_getElem hi', hne⟩
    rw [List.getElem?_eq_getElem hi, List.getElem?_eq_getElem hi', Option.map_some, Option.map_some,
      hsame]
  · rw [List.getElem?_eq_none (Nat.le_of_not_lt hi),
      List.getElem?_eq_none (hlength ▸ Nat.le_of_not_lt hi)]

/-- Two remarks that start alike and show numbers show the same number. -/
theorem ofNat_eq_of_append_eq {start : Text} {i j : Nat}
    (h : start ++ Text.ofNat i = start ++ Text.ofNat j) : i = j :=
  Text.ofNat_injective (List.append_cancel_left h)

/-- An expression is written with a bracket. -/
theorem bare_ne_exprText (e : Expr) : utf8 "BARE" ≠ Dump.exprText false e := by
  intro hbare
  obtain ⟨kind, fs, hnode⟩ : ∃ kind fs, Dump.expr e = .node kind fs := by
    cases e <;> exact ⟨_, _, rfl⟩
  have hbracket : ascii '(' ∈ Dump.exprText false e := by
    have hself : ascii '(' ∈ utf8 "(" := by decide
    rw [Dump.exprText, hnode, Document.toText_parts]
    exact List.mem_append_right _ (List.mem_append_left _ hself)
  rw [← hbare] at hbracket
  exact absurd hbracket (by decide)

/-- What a handler says of its type determines the type. -/
theorem typeOf_eq {type type' : Option Expr} (h : Every.optExpr Node.Lawful type)
    (h' : Every.optExpr Node.Lawful type')
    (htext : type.elim (utf8 "BARE") (Dump.exprText false) =
      type'.elim (utf8 "BARE") (Dump.exprText false)) :
    (spelled id).optExpr .shown type = (spelled id).optExpr .shown type' := by
  cases type with
  | none =>
    cases type' with
    | none => rfl
    | some e' => exact absurd htext (bare_ne_exprText e')
  | some e =>
    cases type' with
    | none => exact absurd htext.symm (bare_ne_exprText e)
    | some e' => exact congrArg some (Dump.spelled_eq_of_exprText_eq h h' htext .shown)

theorem handlerView_inj {i j : Nat} {h h' : Handler} (heq : handlerView i h = handlerView j h') :
    i = j ∧ (Every.handlers Node.Lawful [h] → Every.handlers Node.Lawful [h'] →
      typeOf h = typeOf h') := by
  obtain ⟨type, id, body⟩ := h
  obtain ⟨type', id', body'⟩ := h'
  simp only [handlerView, Builder.handlerRemarks, List.map_cons, List.map_nil, List.cons.injEq,
    Option.some.injEq, and_true] at heq
  exact ⟨ofNat_eq_of_append_eq heq.1,
    fun hh hh' => typeOf_eq hh.1 hh'.1 (List.append_cancel_left heq.2)⟩

theorem caseRemarks_inj {i j : Nat} {p p' : Pattern}
    (heq : Builder.caseRemarks i p = Builder.caseRemarks j p') :
    i = j ∧ (Every.pattern Node.Lawful p → Every.pattern Node.Lawful p' →
      (spelled id).pattern p = (spelled id).pattern p') := by
  simp only [Builder.caseRemarks, List.cons.injEq, and_true] at heq
  exact ⟨ofNat_eq_of_append_eq heq.1,
    fun hp hp' => Dump.spelled_eq_of_patternText_eq hp hp' (List.append_cancel_left heq.2)⟩

/-- Of what the test of a case says, the remarks come first. -/
theorem take_caseView (i : Nat) (p : Pattern) (guard : Option Expr) (body : List Stmt) :
    (caseView i (.mk p guard body)).take 2 = (Builder.caseRemarks i p).map some := rfl

theorem handlerBodies_perm {hs hs' : List Handler} (h : hs'.Perm hs) :
    w.handlerBodies hs' = w.handlerBodies hs := by
  induction h with
  | nil => rfl
  | cons a h ih =>
    obtain ⟨type, id, body⟩ := a
    rw [Weights.handlerBodies, Weights.handlerBodies, ih]
  | swap a b hs =>
    obtain ⟨type, id, body⟩ := a
    obtain ⟨type', id', body'⟩ := b
    simp only [Weights.handlerBodies]
    omega
  | trans _ _ ih ih' => exact ih.trans ih'

theorem caseBodies_perm {cs cs' : List MatchCase} (h : cs'.Perm cs) :
    w.caseBodies cs' = w.caseBodies cs := by
  induction h with
  | nil => rfl
  | cons a h ih =>
    obtain ⟨p, guard, body⟩ := a
    rw [Weights.caseBodies, Weights.caseBodies, ih]
  | swap a b cs =>
    obtain ⟨p, guard, body⟩ := a
    obtain ⟨p', guard', body'⟩ := b
    simp only [Weights.caseBodies]
    omega
  | trans _ _ ih ih' => exact ih.trans ih'

/-- Handlers in another order: the test that asks for one of them at its number is lost. -/
theorem handlers_ne {hs hs' : List Handler} (hlawful : Every.handlers Node.Lawful hs)
    (hperm : hs'.Perm hs) (htypes : hs'.map typeOf ≠ hs.map typeOf) :
    ∃ p, (counting p).tests handlerView 0 hs ≠ (counting p).tests handlerView 0 hs' := by
  obtain ⟨i, h', h, hi', hi, hne⟩ := exists_getElem?_ne hperm.length_eq htypes
  have hh : Every.handlers Node.Lawful [h] :=
    Every.handlers_iff.mp hlawful h (List.mem_of_getElem? hi)
  have hh' : Every.handlers Node.Lawful [h'] :=
    Every.handlers_iff.mp hlawful h' (hperm.subset (List.mem_of_getElem? hi'))
  refine ⟨fun v => v = handlerView i h, tests_counting_ne (fun j a hj => ?_) hi hi' ?_ ?_⟩
  · exact (handlerView_inj (of_decide_eq_true hj)).1
  · exact decide_eq_true rfl
  · exact decide_eq_false fun heq => hne ((handlerView_inj heq).2 hh' hh)

/-- Cases in another order: the test for one of the patterns at its number is lost. -/
theorem cases_ne {cs cs' : List MatchCase} (hlawful : Every.cases Node.Lawful cs)
    (hperm : cs'.Perm cs) (hpatterns : cs'.map patternOf ≠ cs.map patternOf) :
    ∃ p, (counting p).tests caseView 0 cs ≠ (counting p).tests caseView 0 cs' := by
  obtain ⟨i, c', c, hi', hi, hne⟩ := exists_getElem?_ne hperm.length_eq hpatterns
  have hc : Every.cases Node.Lawful [c] := Every.cases_iff.mp hlawful c (List.mem_of_getElem? hi)
  have hc' : Every.cases Node.Lawful [c'] :=
    Every.cases_iff.mp hlawful c' (hperm.subset (List.mem_of_getElem? hi'))
  obtain ⟨p, guard, body⟩ := c
  obtain ⟨p', guard', body'⟩ := c'
  have hinj {j k : Nat} {q q' : Pattern}
      (heq : (Builder.caseRemarks j q).map some = (Builder.caseRemarks k q').map some) :
      Builder.caseRemarks j q = Builder.caseRemarks k q' :=
    List.map_injective_iff.mpr (Option.some_injective _) heq
  refine ⟨fun v => v.take 2 = (Builder.caseRemarks i p).map some,
    tests_counting_ne (fun j a hj => ?_) hi hi' ?_ ?_⟩
  · obtain ⟨q, guard, body⟩ := a
    rw [decide_eq_true_eq, take_caseView] at hj
    exact (caseRemarks_inj (hinj hj)).1
  · exact decide_eq_true (take_caseView i p guard body)
  · refine decide_eq_false fun heq => hne ?_
    rw [take_caseView] at heq
    exact (caseRemarks_inj (hinj heq)).2 hc'.1 hc.1

/-- Each block counts. -/
def Weights.blocks : Weights := ⟨1, fun _ => 0⟩

/-- What tests hold besides remarks counts: the guards of cases. -/
def Weights.guards : Weights := ⟨0, fun v => v.count none⟩

theorem guards_caseView (i : Nat) (p : Pattern) (guard : Option Expr) (body : List Stmt) :
    Weights.guards.test (caseView i (.mk p guard body)) = guard.toList.length := by
  cases guard <;> simp [Weights.guards, caseView, Builder.caseRemarks]

/-- A part for the regular end of a loop takes a block of its own. -/
theorem blocks_loop_lt (first : Stmt) (rest : List Stmt) :
    Weights.blocks.loop [] + Weights.blocks.stmts [] <
      Weights.blocks.loop (first :: rest) + Weights.blocks.stmts (first :: rest) := by
  have hloop : Weights.blocks.loop [] < Weights.blocks.loop (first :: rest) := Nat.lt_succ_self 3
  exact Nat.lt_of_lt_of_le hloop (Nat.le_add_right _ _)

/-- Each change changes the weight of the statement in some way. -/
theorem Altered.exists_weight_ne {s s' : Stmt} (h : Altered s s')
    (hlawful : Every.stmt Node.Lawful s) : ∃ w : Weights, w.stmt s ≠ w.stmt s' := by
  cases h with
  | handlers x isStar body orelse finalbody hperm htypes =>
    obtain ⟨p, hne⟩ := handlers_ne hlawful.2.2.1 hperm htypes
    refine ⟨counting p, fun heq => hne ?_⟩
    rw [Weights.stmt, Weights.stmt, hperm.length_eq, handlerBodies_perm hperm] at heq
    omega
  | cases x subject hperm hpatterns =>
    obtain ⟨p, hne⟩ := cases_ne hlawful.2.2 hperm hpatterns
    refine ⟨counting p, fun heq => hne ?_⟩
    rw [Weights.stmt, Weights.stmt, hperm.length_eq, caseBodies_perm hperm] at heq
    omega
  | guard x subject cs p test body cs' =>
    refine ⟨.guards, fun heq => ?_⟩
    simp only [Weights.stmt, Weights.tests_append, Weights.tests, guards_caseView,
      Weights.caseBodies_append, Weights.caseBodies, List.length_append, List.length_cons,
      Option.toList_none, Option.toList_some, List.length_nil] at heq
    omega
  | whileElse x test body first rest =>
    refine ⟨.blocks, fun heq => ?_⟩
    have hmore := blocks_loop_lt first rest
    rw [Weights.stmt, Weights.stmt] at heq
    omega
  | forElse x isAsync target iter body first rest =>
    refine ⟨.blocks, fun heq => ?_⟩
    have hmore := blocks_loop_lt first rest
    rw [Weights.stmt, Weights.stmt] at heq
    omega

theorem Altered.ends_eq {s s' : Stmt} (h : Altered s s') : ends s = ends s' := by
  cases h <;> rfl

/-! ## Functions -/

/-- Apart from extents, the second list has a change in a place of the first that control can
reach. -/
def Redrawn (body body' : List Stmt) : Prop :=
  ∃ (c : Stmt → List Stmt) (s s' : Stmt), Reached c ∧ Altered s s' ∧ body = c s ∧
    plain.stmts body' = plain.stmts (c s')

/-- A change in a place that control can reach changes some weight. -/
theorem Redrawn.exists_weight_ne {body body' : List Stmt} (h : Redrawn body body')
    (hlawful : Every.stmts Node.Lawful body) : ∃ w : Weights, w.stmts body ≠ w.stmts body' := by
  obtain ⟨c, s, s', hc, halters, rfl, hbody'⟩ := h
  obtain ⟨w, hne⟩ := halters.exists_weight_ne (hc.lawful hlawful)
  refine ⟨w, fun heq => hne ?_⟩
  have hsum := (hc.weight w halters.ends_eq).1
  have hsame : w.stmts (c s) = w.stmts (c s') := by
    rw [heq, ← w.stmts_plain body', hbody', w.stmts_plain]
  omega

theorem wellFormed_functionBody {source : Text} {maxErrors : Nat}
    (hok : (Parsed.ofSource source maxErrors).ok = true) {d : Nat} {f : Stmt}
    (hf : ⟨d, .stmt f⟩ ∈ Walk.module (Parsed.ofSource source maxErrors).module) :
    WellFormed.stmts f.functionBody := by
  have hformed : WellFormed.Tree (Parsed.ofSource source maxErrors).module :=
    ⟨(Parsed.agree_self hok).formed⟩
  exact WellFormed.functionBody (hformed.stmt hf)

/-- The texts of the graphs of two functions in faultless sources are the same only if the graphs
have equally many blocks, which show the same and lead to the same blocks. So the texts differ where
one function has, in a place that control can reach, handlers or cases of the other in another
order, a new guard, or a new part for the regular end of a loop. -/
theorem same_of_text_ofFunction_eq {source source' : Text} {maxErrors maxErrors' : Nat}
    {d d' : Nat} {f f' : Stmt} (hok : (Parsed.ofSource source maxErrors).ok = true)
    (hok' : (Parsed.ofSource source' maxErrors').ok = true)
    (hf : ⟨d, .stmt f⟩ ∈ Walk.module (Parsed.ofSource source maxErrors).module)
    (hf' : ⟨d', .stmt f'⟩ ∈ Walk.module (Parsed.ofSource source' maxErrors').module)
    (skip skip' : Bool) (cfg cfg' : Normal.Config) :
    let g := Graph.ofFunction skip f.functionBody
    let g' := Graph.ofFunction skip' f'.functionBody
    (g.text cfg = g'.text cfg' → g.Same cfg cfg' g') ∧
      (Redrawn f.functionBody f'.functionBody → g.text cfg ≠ g'.text cfg') := by
  intro g g'
  have hlawful : Every.stmts Node.Lawful f.functionBody :=
    Every.functionBody (Every.node_of_mem_walk (Parsed.lawful_module hok) hf)
  have hlawful' : Every.stmts Node.Lawful f'.functionBody :=
    Every.functionBody (Every.node_of_mem_walk (Parsed.lawful_module hok') hf')
  have hg : g.Lawful := Graph.lawful_ofFunction hlawful skip
  have hg' : g'.Lawful := Graph.lawful_ofFunction hlawful' skip'
  refine ⟨Graph.same_of_text_eq hg hg', fun hredrawn htext => ?_⟩
  obtain ⟨w, hne⟩ := hredrawn.exists_weight_ne hlawful
  have hbody : WellFormed.stmts f.functionBody := wellFormed_functionBody hok hf
  have hbody' : WellFormed.stmts f'.functionBody := wellFormed_functionBody hok' hf'
  have hweight : w.ofGraph g = w.ofGraph g' :=
    Weights.ofGraph_eq hg hg' (Graph.same_of_text_eq hg hg' htext)
  rw [weight_ofFunction hbody, weight_ofFunction hbody'] at hweight
  exact hne (Nat.add_left_cancel hweight)

/-- The handler `except` with the type at the given byte and the expression `a` behind it. -/
def sampleHandler (type : String) (lo line : Nat) : Handler :=
  .mk (some (.name ⟨⟨lo, lo + 1⟩, line, line⟩ (utf8 type) .load)) none
    [.expr ⟨⟨lo + 2, lo + 3⟩, line, line⟩
      (.name ⟨⟨lo + 2, lo + 3⟩, line, line⟩ (utf8 "a") .load)]

/-- The expression `a` in `try`, from the given byte on. -/
def sampleTry (lo line : Nat) (handlers : List Handler) : Stmt :=
  .tryBlock ⟨⟨lo, lo + 29⟩, line, line + 2⟩ false
    [.expr ⟨⟨lo + 4, lo + 5⟩, line, line⟩
      (.name ⟨⟨lo + 4, lo + 5⟩, line, line⟩ (utf8 "a") .load)]
    handlers [] []

theorem typeOf_sampleHandler_ne (lo line lo' line' : Nat) :
    [sampleHandler "B" lo' line', sampleHandler "A" lo line].map typeOf ≠
      [sampleHandler "A" lo line, sampleHandler "B" lo' line'].map typeOf := by
  have hne : utf8 "B" ≠ utf8 "A" := by decide
  intro heq
  have hname := Option.some.inj (List.cons.inj heq).1
  exact hne (Expr.name.inj hname).2.1

/-- Two handlers change places. -/
theorem text_ofFunction_ne_reordered :
    let p := Parsed.ofSource (utf8 "def f():\n try:a\n except A:a\n except B:a\n") 64
    let p' := Parsed.ofSource (utf8 "def f():\n try:a\n except B:a\n except A:a\n") 64
    ∃ f f', p.module.body = [f] ∧ p'.module.body = [f'] ∧
      Redrawn f.functionBody f'.functionBody ∧
      ∀ skip cfg, (Graph.ofFunction skip f.functionBody).text cfg ≠
        (Graph.ofFunction skip f'.functionBody).text cfg := by
  intro p p'
  let s := sampleTry 10 2 [sampleHandler "A" 24 3, sampleHandler "B" 36 4]
  let s' := sampleTry 10 2 [sampleHandler "B" 24 3, sampleHandler "A" 36 4]
  let f : Stmt := .function ⟨⟨0, 39⟩, 1, 4⟩ false (utf8 "f") .empty [s] [] none
  let f' : Stmt := .function ⟨⟨0, 39⟩, 1, 4⟩ false (utf8 "f") .empty [s'] [] none
  have hbody : p.module.body = [f] := rfl
  have hbody' : p'.module.body = [f'] := rfl
  have hredrawn : Redrawn f.functionBody f'.functionBody :=
    ⟨fun s => [s], s, _, .here [],
      .handlers _ _ _ _ _ (.swap _ _ []) (typeOf_sampleHandler_ne _ _ _ _), rfl, rfl⟩
  have hmem : ⟨1, .stmt f⟩ ∈ Walk.module p.module := by
    rw [Walk.module, hbody]
    simp [Walk.stmts, Walk.stmt, f]
  have hmem' : ⟨1, .stmt f'⟩ ∈ Walk.module p'.module := by
    rw [Walk.module, hbody']
    simp [Walk.stmts, Walk.stmt, f']
  refine ⟨f, f', hbody, hbody', hredrawn, fun skip cfg => ?_⟩
  exact (same_of_text_ofFunction_eq (by decide +kernel) (by decide +kernel) hmem hmem' skip skip cfg
    cfg).2 hredrawn

/-- Nothing behind a jump is added to the graph. -/
theorem Graph.ofBody_ret (x : Extent) (value : Option Expr) (rest : List Stmt) :
    Graph.ofBody (.ret x value :: rest) = Graph.ofBody [.ret x value] := by
  have hstart : ({} : Builder).isTerminated = false := rfl
  have hjump : (({} : Builder).jump (.ret x value) exitBlock).isTerminated = true := rfl
  rw [Graph.ofBody, Graph.ofBody, Builder.stmts, Builder.stmts, hstart, if_neg (by decide),
    if_neg (by decide), Builder.stmt, Builder.stmts_of_isTerminated hjump,
    Builder.stmts_of_isTerminated hjump]

/-- Behind a jump handlers may change places: the graphs are the same. -/
theorem text_ofFunction_eq_after_return :
    let p := Parsed.ofSource (utf8 "def f():\n return\n try:a\n except A:a\n except B:a\n") 64
    let p' := Parsed.ofSource (utf8 "def f():\n return\n try:a\n except B:a\n except A:a\n") 64
    p.ok = true ∧ p'.ok = true ∧
    ∃ f f' first s s', p.module.body = [f] ∧ p'.module.body = [f'] ∧
      f.functionBody = [first, s] ∧ plain.stmts f'.functionBody = plain.stmts [first, s'] ∧
      Altered s s' ∧ ∀ skip cfg, (Graph.ofFunction skip f.functionBody).text cfg =
        (Graph.ofFunction skip f'.functionBody).text cfg := by
  intro p p'
  let first : Stmt := .ret ⟨⟨10, 16⟩, 2, 2⟩ none
  let s := sampleTry 18 3 [sampleHandler "A" 32 4, sampleHandler "B" 44 5]
  let s' := sampleTry 18 3 [sampleHandler "B" 44 5, sampleHandler "A" 32 4]
  let s'' := sampleTry 18 3 [sampleHandler "B" 32 4, sampleHandler "A" 44 5]
  let f : Stmt := .function ⟨⟨0, 47⟩, 1, 5⟩ false (utf8 "f") .empty [first, s] [] none
  let f' : Stmt := .function ⟨⟨0, 47⟩, 1, 5⟩ false (utf8 "f") .empty [first, s''] [] none
  refine ⟨by decide +kernel, by decide +kernel, f, f', first, s, s', rfl, rfl, rfl, rfl, ?_, ?_⟩
  · exact .handlers _ _ _ _ _ (.swap _ _ []) (typeOf_sampleHandler_ne _ _ _ _)
  · intro skip cfg
    have hgraph (s : Stmt) : Graph.ofFunction skip [first, s] = Graph.ofBody [first] := by
      cases skip <;> exact Graph.ofBody_ret _ none [s]
    show (Graph.ofFunction skip [first, s]).text cfg = (Graph.ofFunction skip [first, s'']).text cfg
    rw [hgraph, hgraph]

end CloneScout.Flow
