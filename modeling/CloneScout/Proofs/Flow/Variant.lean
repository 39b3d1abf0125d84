import CloneScout.Proofs.Flow.Outline
import CloneScout.Proofs.Tree.Variant

/-!
# Variants and flow of control

The graph of a function is built from its statements as they are written, so an annotation that the
normal form drops can still show in it: a function that is defined in the body of a `try` statement
can raise an exception if its annotations can. Apart from that, variants have graphs with one text.
-/

namespace CloneScout

open Flow (Builder Graph Loop canRaise raising)

/-! ## Statements in front of handlers -/

namespace Flow

mutual

/-- The statements under a statement before which control may go on to a handler: those that stand
directly in the body of a `try` statement with handlers. -/
def guardedStmt : Stmt → List Stmt
  | .forLoop _ _ _ _ body orelse => guarded body ++ guarded orelse
  | .whileLoop _ _ body orelse => guarded body ++ guarded orelse
  | .branch _ _ body orelse => guarded body ++ guarded orelse
  | .withBlock _ _ _ body => guarded body
  | .matchBlock _ _ cs => guardedCases cs
  | .tryBlock _ _ body hs orelse finalbody =>
    (if hs.isEmpty then [] else body) ++
      (guarded body ++ (guardedHandlers hs ++ (guarded orelse ++ guarded finalbody)))
  | _ => []

def guarded : List Stmt → List Stmt
  | [] => []
  | s :: rest => guardedStmt s ++ guarded rest

def guardedHandlers : List Handler → List Stmt
  | [] => []
  | .mk _ _ body :: rest => guarded body ++ guardedHandlers rest

def guardedCases : List MatchCase → List Stmt
  | [] => []
  | .mk _ _ body :: rest => guarded body ++ guardedCases rest

end

/-- A docstring guards nothing. -/
theorem guarded_withoutDocstring (body : List Stmt) :
    guarded (withoutDocstring body) = guarded body := by
  unfold withoutDocstring startsWithDocstring
  split <;> rfl

end Flow

open Flow (guarded guardedStmt guardedHandlers guardedCases)

namespace Outline

mutual

theorem guardedStmt_outline (o : Outline) (s : Stmt) :
    guardedStmt (o.stmt s) = (guardedStmt s).map o.stmt := by
  cases s
  case forLoop => simp [stmt, guardedStmt, guarded_outline o]
  case whileLoop => simp [stmt, guardedStmt, guarded_outline o]
  case branch => simp [stmt, guardedStmt, guarded_outline o]
  case withBlock => simp [stmt, guardedStmt, guarded_outline o]
  case matchBlock => simp [stmt, guardedStmt, guardedCases_outline o]
  case tryBlock x isStar body hs orelse finalbody =>
    have hbody : (if hs.isEmpty then [] else o.stmts body) =
        (if hs.isEmpty then [] else body).map o.stmt := by
      rw [stmts_eq_map]
      split <;> rfl
    simp only [stmt, guardedStmt, isEmpty_handlers, hbody, guarded_outline o,
      guardedHandlers_outline o, List.map_append]
  all_goals rfl

theorem guarded_outline (o : Outline) (ss : List Stmt) :
    guarded (o.stmts ss) = (guarded ss).map o.stmt := by
  cases ss <;> simp [stmts, guarded, guardedStmt_outline o, guarded_outline o]

theorem guardedHandlers_outline (o : Outline) :
    ∀ hs : List Handler, guardedHandlers (o.handlers hs) = (guardedHandlers hs).map o.stmt
  | [] => rfl
  | .mk _ _ _ :: _ => by
    simp [handlers, guardedHandlers, guarded_outline o, guardedHandlers_outline o]

theorem guardedCases_outline (o : Outline) :
    ∀ cs : List MatchCase, guardedCases (o.cases cs) = (guardedCases cs).map o.stmt
  | [] => rfl
  | .mk _ _ _ :: _ => by simp [cases, guardedCases, guarded_outline o, guardedCases_outline o]

end

theorem canRaise_guarded {o : Outline} (h : o.Silent .shown) (ss : List Stmt) :
    (guarded (o.stmts ss)).map canRaise = (guarded ss).map canRaise := by
  rw [guarded_outline, List.map_map]
  exact List.map_congr_left fun s _ => canRaise_stmt h s

end Outline

/-! ## Steps of the builder that depend on expressions alone -/

namespace Flow.Builder.Alike

variable {cfg : Normal.Config} {b b' : Builder}

theorem appendHere (h : b.Alike cfg b') {e e' : Entry} (he : e.text cfg = e'.text cfg) :
    (b.append b.current e).Alike cfg (b'.append b'.current e') := by
  rw [h.current]
  exact h.append _ he

theorem operands (op : BoolOp) (yes no i : Nat) (es : List Expr) (h : b.Alike cfg b') :
    (Builder.operands op yes no i es b).Alike cfg (Builder.operands op yes no i es b') := by
  induction es generalizing i b b' with
  | nil => exact h
  | cons e es ih =>
    cases es with
    | nil => exact ((h.append i rfl).edge i yes).edge i no
    | cons e' es =>
      simp only [Builder.operands, h.size] at ih ⊢
      exact ih _ ((((h.append i rfl).create 1).edge i _).edge i _)

theorem condition (h : b.Alike cfg b') (test : Expr) (yes no : Nat) :
    (b.condition test yes no).Alike cfg (b'.condition test yes no) := by
  unfold Builder.condition
  split
  · rw [h.current]
    exact operands _ yes no _ _ h
  · rw [h.current]
    exact ((h.append _ rfl).edge _ yes).edge _ no

theorem withItems (items : List WithItem) (h : b.Alike cfg b') :
    (items.foldl (fun b w => b.append b.current (.expr w.context)) b).Alike cfg
      (items.foldl (fun b w => b.append b.current (.expr w.context)) b') := by
  induction items generalizing b b' with
  | nil => exact h
  | cons w items ih =>
    exact ih (h.appendHere rfl)

end Flow.Builder.Alike

namespace Variant

variable {v : Leeway} {cfg : Normal.Config} {b b' : Builder}

/-! ## Exceptions -/

theorem forall₂_of_stmts {ss ts : List Stmt} (h : stmts v ss ts) :
    List.Forall₂ (stmt v) ss ts := by
  induction ss generalizing ts with
  | nil =>
    obtain rfl := h
    exact .nil
  | cons s rest ih =>
    obtain ⟨t, rest', rfl, hs, hrest⟩ := h
    exact .cons hs (ih hrest)

mutual

theorem forall₂_guardedStmt {s t : Stmt} (h : stmt v s t) :
    List.Forall₂ (stmt v) (guardedStmt s) (guardedStmt t) := by
  cases s
  case function =>
    obtain ⟨_, _, _, _, rfl, -⟩ := h
    exact .nil
  case classDef =>
    obtain ⟨_, rfl, -⟩ := h
    exact .nil
  case forLoop =>
    obtain ⟨body', orelse', rfl, hbody, horelse⟩ := h
    exact List.rel_append (forall₂_guarded hbody) (forall₂_guarded horelse)
  case whileLoop =>
    obtain ⟨body', orelse', rfl, hbody, horelse⟩ := h
    exact List.rel_append (forall₂_guarded hbody) (forall₂_guarded horelse)
  case branch =>
    obtain ⟨body', orelse', rfl, hbody, horelse⟩ := h
    exact List.rel_append (forall₂_guarded hbody) (forall₂_guarded horelse)
  case withBlock =>
    obtain ⟨body', rfl, hbody⟩ := h
    exact forall₂_guarded hbody
  case matchBlock =>
    obtain ⟨cs', rfl, hcases⟩ := h
    exact forall₂_guardedCases hcases
  case tryBlock =>
    obtain ⟨body', hs', orelse', finalbody', rfl, hbody, hhandlers, horelse, hfinal⟩ := h
    simp only [guardedStmt, isEmpty_handlers hhandlers]
    refine List.rel_append ?_ (List.rel_append (forall₂_guarded hbody) (List.rel_append
      (forall₂_guardedHandlers hhandlers) (List.rel_append (forall₂_guarded horelse)
        (forall₂_guarded hfinal))))
    split
    · exact .nil
    · exact forall₂_of_stmts hbody
  all_goals
    obtain rfl := h
    exact .nil
termination_by structural s

theorem forall₂_guarded {ss ts : List Stmt} (h : stmts v ss ts) :
    List.Forall₂ (stmt v) (guarded ss) (guarded ts) := by
  cases ss with
  | nil =>
    obtain rfl := h
    exact .nil
  | cons s rest =>
    obtain ⟨t, rest', rfl, hs, hrest⟩ := h
    exact List.rel_append (forall₂_guardedStmt hs) (forall₂_guarded hrest)
termination_by structural ss

theorem forall₂_guardedHandlers {hs hs' : List Handler} (h : handlers v hs hs') :
    List.Forall₂ (stmt v) (guardedHandlers hs) (guardedHandlers hs') := by
  rcases hs with _ | ⟨⟨type, id, body⟩, rest⟩
  · obtain rfl := h
    exact .nil
  · obtain ⟨body', rest', rfl, hbody, hrest⟩ := h
    exact List.rel_append (forall₂_guarded hbody) (forall₂_guardedHandlers hrest)
termination_by structural hs

theorem forall₂_guardedCases {cs cs' : List MatchCase} (h : cases v cs cs') :
    List.Forall₂ (stmt v) (guardedCases cs) (guardedCases cs') := by
  rcases cs with _ | ⟨⟨p, guard, body⟩, rest⟩
  · obtain rfl := h
    exact .nil
  · obtain ⟨body', rest', rfl, hbody, hrest⟩ := h
    exact List.rel_append (forall₂_guarded hbody) (forall₂_guardedCases hrest)
termination_by structural cs

end

/-- A docstring raises nothing. -/
theorem raising_docstring {doc : Stmt} (h : startsWithDocstring [doc] = true) (d : Nat) :
    raising (Walk.stmt d doc) = false := by
  unfold startsWithDocstring at h
  split at h
  · rename_i heq
    obtain ⟨rfl, -⟩ := List.cons.inj heq
    rfl
  · cases h

mutual

theorem raising_stmt (hv : v.hints = false) (d : Nat) {s t : Stmt} (h : stmt v s t) :
    raising (Walk.stmt d t) = raising (Walk.stmt d s) := by
  cases s
  case function =>
    obtain ⟨ps', rest, body', returns', rfl, hsig, hbody, hdoc⟩ := h
    -- annotations stay what they are, so that only a docstring can be new
    rw [Leeway.Signature, hv] at hsig
    obtain ⟨rfl, rfl⟩ := hsig
    have hrest := raising_stmts hv (d + 1) hbody
    obtain rfl | ⟨-, -, doc, hnew, rfl⟩ := hdoc
    · simp [Walk.stmt, Flow.raises, hrest]
    · simp [Walk.stmt, Walk.stmts, Flow.raises, hrest, raising_docstring hnew]
  case classDef =>
    obtain ⟨body', rfl, hbody⟩ := h
    simp [Walk.stmt, Flow.raises, raising_stmts hv _ hbody]
  case forLoop =>
    obtain ⟨body', orelse', rfl, hbody, horelse⟩ := h
    simp [Walk.stmt, Flow.raises, raising_stmts hv _ hbody, raising_stmts hv _ horelse]
  case whileLoop =>
    obtain ⟨body', orelse', rfl, hbody, horelse⟩ := h
    simp [Walk.stmt, Flow.raises, raising_stmts hv _ hbody, raising_stmts hv _ horelse]
  case branch =>
    obtain ⟨body', orelse', rfl, hbody, horelse⟩ := h
    simp [Walk.stmt, Flow.raises, raising_stmts hv _ hbody, raising_stmts hv _ horelse]
  case withBlock =>
    obtain ⟨body', rfl, hbody⟩ := h
    simp [Walk.stmt, Flow.raises, raising_stmts hv _ hbody]
  case matchBlock =>
    obtain ⟨cs', rfl, hcases⟩ := h
    simp [Walk.stmt, Flow.raises, raising_cases hv _ hcases]
  case tryBlock =>
    obtain ⟨body', hs', orelse', finalbody', rfl, hbody, hhandlers, horelse, hfinal⟩ := h
    simp [Walk.stmt, Flow.raises, raising_stmts hv _ hbody, raising_handlers hv _ hhandlers,
      raising_stmts hv _ horelse, raising_stmts hv _ hfinal]
  all_goals
    obtain rfl := h
    rfl
termination_by structural s

theorem raising_stmts (hv : v.hints = false) (d : Nat) {ss ts : List Stmt} (h : stmts v ss ts) :
    raising (Walk.stmts d ts) = raising (Walk.stmts d ss) := by
  cases ss with
  | nil =>
    obtain rfl := h
    rfl
  | cons s rest =>
    obtain ⟨t, rest', rfl, hs, hrest⟩ := h
    simp [Walk.stmts, raising_stmt hv d hs, raising_stmts hv d hrest]
termination_by structural ss

theorem raising_handlers (hv : v.hints = false) (d : Nat) {hs hs' : List Handler}
    (h : handlers v hs hs') : raising (Walk.handlers d hs') = raising (Walk.handlers d hs) := by
  rcases hs with _ | ⟨⟨type, id, body⟩, rest⟩
  · obtain rfl := h
    rfl
  · obtain ⟨body', rest', rfl, hbody, hrest⟩ := h
    simp [Walk.handlers, raising_stmts hv d hbody, raising_handlers hv d hrest]
termination_by structural hs

theorem raising_cases (hv : v.hints = false) (d : Nat) {cs cs' : List MatchCase}
    (h : cases v cs cs') : raising (Walk.cases d cs') = raising (Walk.cases d cs) := by
  rcases cs with _ | ⟨⟨p, guard, body⟩, rest⟩
  · obtain rfl := h
    rfl
  · obtain ⟨body', rest', rfl, hbody, hrest⟩ := h
    simp [Walk.cases, raising_stmts hv d hbody, raising_cases hv d hrest]
termination_by structural cs

end

theorem canRaise_stmt (hv : v.hints = false) {s t : Stmt} (h : stmt v s t) :
    canRaise t = canRaise s := by
  have hraising : raising (Walk.stmt 0 t) = raising (Walk.stmt 0 s) := raising_stmt hv 0 h
  cases s
  case function => obtain ⟨_, _, _, _, rfl, -⟩ := h; exact hraising
  case classDef => obtain ⟨_, rfl, -⟩ := h; exact hraising
  case forLoop => obtain ⟨_, _, rfl, -⟩ := h; exact hraising
  case whileLoop => obtain ⟨_, _, rfl, -⟩ := h; exact hraising
  case branch => obtain ⟨_, _, rfl, -⟩ := h; exact hraising
  case withBlock => obtain ⟨_, rfl, -⟩ := h; exact hraising
  case matchBlock => obtain ⟨_, rfl, -⟩ := h; exact hraising
  case tryBlock => obtain ⟨_, _, _, _, rfl, -⟩ := h; exact hraising
  all_goals
    obtain rfl := h
    rfl

/-- The same statements of both lists can raise an exception. -/
def SameRaise (ss ts : List Stmt) : Prop := ts.map canRaise = ss.map canRaise

theorem SameRaise.of_append {R : Stmt → Stmt → Prop} {ss ss' ts ts' : List Stmt}
    (hpairs : List.Forall₂ R ss ts) (h : SameRaise (ss ++ ss') (ts ++ ts')) :
    SameRaise ss ts ∧ SameRaise ss' ts' := by
  rw [SameRaise, List.map_append, List.map_append] at h
  exact List.append_inj h (by rw [List.length_map, List.length_map, hpairs.length_eq])

theorem SameRaise.of_forall₂ (hv : v.hints = false) {ss ts : List Stmt}
    (h : List.Forall₂ (stmt v) ss ts) : SameRaise ss ts := by
  induction h with
  | nil => rfl
  | cons hs _ ih =>
    rw [SameRaise, List.map_cons, List.map_cons, canRaise_stmt hv hs]
    exact congrArg _ ih

/-! ## Graphs -/

theorem alike_handlerTests (done i test body : Nat) {hs hs' : List Handler}
    (h : handlers v hs hs') (hb : b.Alike cfg b') :
    (Builder.handlerTests done i test body hs b).Alike cfg
      (Builder.handlerTests done i test body hs' b') := by
  induction hs generalizing i test body b b' hs' with
  | nil =>
    obtain rfl := h
    exact hb
  | cons first rest ih =>
    obtain ⟨type, id, stmts⟩ := first
    obtain ⟨body', rest', rfl, -, hrest⟩ := h
    rw [Builder.handlerTests, Builder.handlerTests, isEmpty_handlers hrest]
    exact ih _ _ _ hrest (((hb.appendRemarks test _).edge test body).edge test _)

mutual

theorem alike_stmt (hv : v.Fits cfg) (loop : Option Loop) {s t : Stmt} (h : stmt v s t)
    (hraise : SameRaise (guardedStmt s) (guardedStmt t)) {b b' : Builder} (hb : b.Alike cfg b') :
    (Builder.stmt loop s b).Alike cfg (Builder.stmt loop t b') := by
  have hentry : (Flow.Entry.stmt s).text cfg = (Flow.Entry.stmt t).text cfg := by
    rw [Flow.Entry.text, Flow.Entry.text, Normal.stmtText, Normal.stmtText, normal_stmt hv h]
  cases s
  case function =>
    obtain ⟨_, _, _, _, rfl, -⟩ := h
    exact hb.appendHere hentry
  case classDef =>
    obtain ⟨_, rfl, -⟩ := h
    exact hb.appendHere hentry
  case branch x test body orelse =>
    obtain ⟨body', orelse', rfl, hbody, horelse⟩ := h
    obtain ⟨hraise, hraise'⟩ := hraise.of_append (forall₂_guarded hbody)
    simp only [Builder.stmt, hb.size]
    apply Builder.Alike.goto
    apply Builder.Alike.flowTo
    apply alike_stmts hv loop horelse hraise'
    apply Builder.Alike.goto
    apply Builder.Alike.flowTo
    apply alike_stmts hv loop hbody hraise
    apply Builder.Alike.goto
    exact (hb.create 3).condition _ _ _
  case whileLoop x test body orelse =>
    obtain ⟨body', orelse', rfl, hbody, horelse⟩ := h
    obtain ⟨hraise, hraise'⟩ := hraise.of_append (forall₂_guarded hbody)
    simp only [Builder.stmt, hb.size, hb.current, isEmpty_stmts horelse]
    apply Builder.Alike.goto
    refine Builder.Alike.orSkip orelse.isEmpty
      (fun hc => (alike_stmts hv loop horelse hraise' (hc.goto _)).flowTo _) ?_
    apply Builder.Alike.flowTo
    apply alike_stmts hv _ hbody hraise
    apply Builder.Alike.goto
    apply Builder.Alike.condition
    exact ((hb.create _).edge _ _).goto _
  case forLoop x isAsync target iter body orelse =>
    obtain ⟨body', orelse', rfl, hbody, horelse⟩ := h
    obtain ⟨hraise, hraise'⟩ := hraise.of_append (forall₂_guarded hbody)
    simp only [Builder.stmt, hb.size, hb.current, isEmpty_stmts horelse]
    apply Builder.Alike.goto
    refine Builder.Alike.orSkip orelse.isEmpty
      (fun hc => (alike_stmts hv loop horelse hraise' (hc.goto _)).flowTo _) ?_
    apply Builder.Alike.flowTo
    apply alike_stmts hv _ hbody hraise
    apply Builder.Alike.goto
    apply Builder.Alike.edge
    apply Builder.Alike.edge
    exact ((hb.create _).edge _ _).append _ rfl
  case withBlock x isAsync items body =>
    obtain ⟨body', rfl, hbody⟩ := h
    have hitems := (hb.create 2).withItems items
    simp only [Builder.stmt, hb.size, hitems.current]
    apply Builder.Alike.goto
    apply Builder.Alike.flowTo
    apply alike_stmts hv loop hbody hraise
    exact (hitems.edge _ _).goto _
  case tryBlock x isStar body hs orelse finalbody =>
    obtain ⟨body', hs', orelse', finalbody', rfl, hbody, hhandlers, horelse, hfinal⟩ := h
    -- what is known of the guarded statements goes to the parts in the order of `guardedStmt`
    simp only [guardedStmt, isEmpty_handlers hhandlers] at hraise
    obtain ⟨hraise₁, hraise⟩ := hraise.of_append (R := stmt v) (by
      split
      · exact .nil
      · exact forall₂_of_stmts hbody)
    obtain ⟨hraise₂, hraise⟩ := hraise.of_append (forall₂_guarded hbody)
    obtain ⟨hraise₃, hraise⟩ := hraise.of_append (forall₂_guardedHandlers hhandlers)
    obtain ⟨hraise₄, hraise₅⟩ := hraise.of_append (forall₂_guarded horelse)
    simp only [Builder.stmt, hb.size, hb.current, isEmpty_stmts horelse,
      isEmpty_handlers hhandlers, length_handlers hhandlers]
    apply alike_stmts hv loop hfinal hraise₅
    apply Builder.Alike.goto
    refine Builder.Alike.orSkip orelse.isEmpty
      (fun hc => (alike_stmts hv loop horelse hraise₄ (hc.goto _)).flowTo _) ?_
    apply alike_handlerBodies hv loop _ _ hhandlers hraise₃
    apply Builder.Alike.flowTo
    apply alike_tryStmts hv loop _ hbody _ hraise₂
    · apply alike_handlerTests _ _ _ _ hhandlers
      exact ((hb.create _).edge _ _).goto _
    · split
      · exact .inl rfl
      · rename_i hempty
        rw [if_neg hempty, if_neg hempty] at hraise₁
        exact .inr hraise₁
  case matchBlock x subject cs =>
    obtain ⟨cs', rfl, hcases⟩ := h
    simp only [Builder.stmt, hb.current]
    have hsubject := hb.append b'.current (e := .expr subject) rfl
    rw [hsubject.size, hsubject.current]
    apply Builder.Alike.goto
    apply alike_cases hv loop _ _ _ hcases hraise
    exact hsubject.create 1
  case ret => obtain rfl := h; exact hb.jump _ rfl
  case raise => obtain rfl := h; exact hb.jump _ rfl
  case breakLoop => obtain rfl := h; exact hb.jump _ rfl
  case continueLoop => obtain rfl := h; exact hb.jump _ rfl
  all_goals
    obtain rfl := h
    exact hb.appendHere rfl
termination_by structural s

theorem alike_stmts (hv : v.Fits cfg) (loop : Option Loop) {ss ts : List Stmt}
    (h : stmts v ss ts) (hraise : SameRaise (guarded ss) (guarded ts)) {b b' : Builder}
    (hb : b.Alike cfg b') :
    (Builder.stmts loop ss b).Alike cfg (Builder.stmts loop ts b') := by
  cases ss with
  | nil =>
    obtain rfl := h
    exact hb
  | cons s rest =>
    obtain ⟨t, rest', rfl, hs, hrest⟩ := h
    obtain ⟨hraise, hraise'⟩ := hraise.of_append (forall₂_guardedStmt hs)
    rw [Builder.stmts, Builder.stmts, hb.isTerminated]
    split
    · exact hb
    · exact alike_stmts hv loop hrest hraise' (alike_stmt hv loop hs hraise hb)
termination_by structural ss

theorem alike_tryStmts (hv : v.Fits cfg) (loop : Option Loop) (test : Option Nat)
    {ss ts : List Stmt} (h : stmts v ss ts) (htest : test = none ∨ SameRaise ss ts)
    (hraise : SameRaise (guarded ss) (guarded ts)) {b b' : Builder} (hb : b.Alike cfg b') :
    (Builder.tryStmts loop test ss b).Alike cfg (Builder.tryStmts loop test ts b') := by
  cases ss with
  | nil =>
    obtain rfl := h
    exact hb
  | cons s rest =>
    obtain ⟨t, rest', rfl, hs, hrest⟩ := h
    obtain ⟨hraise, hraise'⟩ := hraise.of_append (forall₂_guardedStmt hs)
    simp only [Builder.tryStmts, hb.isTerminated, hb.current]
    split
    · exact hb
    · cases test with
      | none =>
        exact alike_tryStmts hv loop none hrest (.inl rfl) hraise' (alike_stmt hv loop hs hraise hb)
      | some i =>
        -- the way to the first handler is added on both sides or on neither
        have hsame := htest.resolve_left (Option.some_ne_none i)
        obtain ⟨hfirst, hsame⟩ := List.cons.inj hsame
        apply alike_tryStmts hv loop (some i) hrest (.inr hsame) hraise'
        apply alike_stmt hv loop hs hraise
        dsimp only
        rw [hfirst]
        split
        · exact hb.edge _ _
        · exact hb
termination_by structural ss

theorem alike_handlerBodies (hv : v.Fits cfg) (loop : Option Loop) (done i : Nat)
    {hs hs' : List Handler} (h : handlers v hs hs')
    (hraise : SameRaise (guardedHandlers hs) (guardedHandlers hs')) {b b' : Builder}
    (hb : b.Alike cfg b') :
    (Builder.handlerBodies loop done i hs b).Alike cfg
      (Builder.handlerBodies loop done i hs' b') := by
  rcases hs with _ | ⟨⟨type, id, body⟩, rest⟩
  · obtain rfl := h
    exact hb
  · obtain ⟨body', rest', rfl, hbody, hrest⟩ := h
    obtain ⟨hraise, hraise'⟩ := hraise.of_append (forall₂_guarded hbody)
    rw [Builder.handlerBodies, Builder.handlerBodies]
    exact alike_handlerBodies hv loop done (i + 1) hrest hraise'
      ((alike_stmts hv loop hbody hraise (hb.goto i)).flowTo done)
termination_by structural hs

theorem alike_cases (hv : v.Fits cfg) (loop : Option Loop) (done i before : Nat)
    {cs cs' : List MatchCase} (h : cases v cs cs')
    (hraise : SameRaise (guardedCases cs) (guardedCases cs')) {b b' : Builder}
    (hb : b.Alike cfg b') :
    (Builder.cases loop done i before cs b).Alike cfg
      (Builder.cases loop done i before cs' b') := by
  rcases cs with _ | ⟨⟨p, guard, body⟩, rest⟩
  · obtain rfl := h
    exact hb.edge before done
  · obtain ⟨body', rest', rfl, hbody, hrest⟩ := h
    obtain ⟨hraise, hraise'⟩ := hraise.of_append (forall₂_guarded hbody)
    simp only [Builder.cases, hb.size]
    have hremarks := ((hb.create 2).edge before b'.graph.size).appendRemarks b'.graph.size
      (Builder.caseRemarks i p)
    apply alike_cases hv loop done (i + 1) _ hrest hraise'
    refine Builder.Alike.flowTo (alike_stmts hv loop hbody hraise ?_) done
    apply Builder.Alike.goto
    apply Builder.Alike.edge
    cases guard with
    | none => exact hremarks
    | some e => exact hremarks.append _ rfl
termination_by structural cs

end

/-- The graphs of variants have one text if the same guarded statements can raise. -/
theorem text_ofBody (hv : v.Fits cfg) {ss ts : List Stmt} (h : stmts v ss ts)
    (hraise : SameRaise (guarded ss) (guarded ts)) :
    (Graph.ofBody ss).text cfg = (Graph.ofBody ts).text cfg := by
  have hstart : ({} : Builder).Alike cfg {} := ⟨⟨rfl, fun i => .refl cfg _⟩, rfl⟩
  exact ((alike_stmts hv none h hraise hstart).flowTo Flow.exitBlock).graph.text_eq

end Variant

end CloneScout
