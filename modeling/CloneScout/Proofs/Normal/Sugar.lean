import CloneScout.Proofs.Grammar.Twins.Parse
import CloneScout.Proofs.Normal.Order

/-!
# Sugar and what it stands for

An augmented assignment has the normal form of the assignment that it abbreviates, and a negated
membership or identity test that of the opposite test. No other negated comparison loses its `not`.
-/

namespace CloneScout

namespace Normal

open Text (pruned_append_cons pruned_append_of_not_mem)

/-! ## Negated comparisons -/

theorem stableExpr_not (x : Extent) (operand : Expr) :
    Dump.stableExpr (.unary x .not operand) =
      utf8 "UnaryOp(op=Not(), operand=" ++ Dump.stableExpr operand ++ utf8 ")" := by
  have htext : Dump.exprText true (.unary x .not operand) =
      utf8 "UnaryOp(op=Not()" ++ (utf8 ", " ++ (utf8 "operand=" ++
        (Dump.exprText true operand ++ utf8 ")"))) := by
    have hstart : utf8 "UnaryOp(op=Not()" = utf8 "UnaryOp" ++ utf8 "(" ++ utf8 "op" ++ utf8 "=" ++
        utf8 "Not" ++ utf8 "(" ++ utf8 ")" := by decide
    have hoperand : utf8 "operand=" = utf8 "operand" ++ utf8 "=" := by decide
    rw [Dump.exprText, Dump.expr, Document.toText_node, hstart, hoperand]
    simp [Document.present, Document.fieldText, Text.join, Document.bare, Document.toText_node,
      UnaryOp.label, Dump.exprText]
  have hwhole : utf8 "UnaryOp(op=Not(), operand=" =
      utf8 "UnaryOp(op=Not()" ++ utf8 ", " ++ utf8 "operand=" := by decide
  have hclose : utf8 ")" = ascii ')' :: [] := by decide
  show Text.pruned (Dump.exprText true _) = _
  rw [htext, pruned_append_of_not_mem (by decide), pruned_separator (by decide) (by decide),
    pruned_append_of_not_mem (by decide), hclose, pruned_append_cons (by decide), hwhole]
  simp only [List.append_assoc]
  rfl

/-- A negated test that has an opposite is written like the opposite. -/
theorem exprText_not_test {test test' : CompareOp} (h : opposite? test = some test') (cfg : Config)
    (x y z : Extent) (left right : Expr) :
    exprText cfg (.unary x .not (.compare y left [test] [right])) =
      exprText cfg (.compare z left [test'] [right]) := by
  simp only [exprText, expr, unary, h]
  rfl

/-- Every other negated comparison keeps its `not`. -/
theorem exprText_not_compare {tests : List CompareOp} (hin : tests ≠ [.isIn]) (his : tests ≠ [.is])
    (cfg : Config) (x y : Extent) (left : Expr) (comparators : List Expr) :
    exprText cfg (.unary x .not (.compare y left tests comparators)) =
      utf8 "UnaryOp(op=Not(), operand=" ++ exprText cfg (.compare y left tests comparators) ++
        utf8 ")" := by
  have hkept : expr cfg false (.unary x .not (.compare y left tests comparators)) =
      .unary x .not (expr cfg false (.compare y left tests comparators)) := by
    obtain _ | ⟨test, _ | ⟨next, tests⟩⟩ := tests
    · rfl
    · cases test <;> first | rfl | exact absurd rfl hin | exact absurd rfl his
    · rfl
  rw [exprText, hkept, stableExpr_not, exprText]

/-! ## Augmented assignments -/

theorem expr_load_simple (cfg : Config) {target : Expr} (h : Target.isSimple target = true) :
    expr cfg false (load target) = load (expr cfg false target) := by
  cases target <;> simp_all [Target.isSimple, load, expr]

theorem mark_load {target : Expr} (h : Target.isSimple target = true)
    (hformed : WellFormed.expr .store target) : Target.mark .store (load target) = target := by
  cases target <;> simp_all [Target.isSimple, load, Target.mark, WellFormed.expr]

theorem wellFormed_load {target : Expr} (h : Target.isSimple target = true)
    (hformed : WellFormed.expr .store target) : WellFormed.expr .load (load target) := by
  cases target <;> simp_all [Target.isSimple, load, WellFormed.expr]

/-- The target stands on both sides of the assignment, and it is no number that could change places
with the value. -/
theorem stmtText_augAssign (cfg : Config) {target : Expr} (h : Target.isSimple target = true)
    (x y z : Extent) (op : BinaryOp) (value : Expr) :
    stmtText cfg (.augAssign x target op value) =
      stmtText cfg (.assign y [target] (.binary z (load target) op value)) := by
  have hstay : swaps op (load target) value = false := Outline.swaps_load_of_isSimple value h
  simp only [stmtText, stmt, exprs, expr, binary, hstay, expr_load_simple cfg h]
  rfl

end Normal

open Normal (exprText stmtText)

/-- An augmented assignment is normalized like the assignment of the operation to its target, which
is loaded there. A negated `in` or `is` is normalized like `not in` or `is not`; every other negated
comparison keeps its `not`. -/
theorem normalText_sugar (cfg : Normal.Config) :
    (∀ source maxErrors, (Parsed.ofSource source maxErrors).ok = true →
      ∀ d x target op value,
        ⟨d, .stmt (.augAssign x target op value)⟩ ∈
            Walk.module (Parsed.ofSource source maxErrors).module →
        ∃ loaded, WellFormed.expr .load loaded ∧ Target.mark .store loaded = target ∧
          ∀ y z, stmtText cfg (.augAssign x target op value) =
            stmtText cfg (.assign y [target] (.binary z loaded op value))) ∧
      (∀ x y z a b,
        exprText cfg (.unary x .not (.compare y a [.isIn] [b])) =
            exprText cfg (.compare z a [.notIn] [b]) ∧
          exprText cfg (.unary x .not (.compare y a [.is] [b])) =
            exprText cfg (.compare z a [.isNot] [b])) ∧
      ∀ x y a tests bs, tests ≠ [.isIn] → tests ≠ [.is] →
        exprText cfg (.unary x .not (.compare y a tests bs)) =
          utf8 "UnaryOp(op=Not(), operand=" ++ exprText cfg (.compare y a tests bs) ++ utf8 ")" := by
  refine ⟨?_, ?_, ?_⟩
  · intro source maxErrors hok d x target op value hmem
    have hformed : WellFormed.expr .store target :=
      (WellFormed.Tree.stmt ⟨(Parsed.agree_self hok).formed⟩ hmem).1
    have hlawful : Every.stmt Node.Lawful (.augAssign x target op value) :=
      Every.node_of_mem_walk (Parsed.lawful_module hok) hmem
    have hsimple : Target.isSimple target = true := by
      simp only [Every.stmt, Node.Lawful] at hlawful
      exact hlawful.1
    exact ⟨Normal.load target, Normal.wellFormed_load hsimple hformed,
      Normal.mark_load hsimple hformed,
      fun y z => Normal.stmtText_augAssign cfg hsimple x y z op value⟩
  · intro x y z a b
    exact ⟨Normal.exprText_not_test rfl cfg x y z a b, Normal.exprText_not_test rfl cfg x y z a b⟩
  · intro x y a tests bs hin his
    exact Normal.exprText_not_compare hin his cfg x y a bs

/-- A subscript of an attribute is multiplied by a negated test. -/
theorem normalText_sugar_subscript :
    let p := Parsed.ofSource (utf8 "a.b[c] *= not d < e\n") 1
    let spot (lo hi : Nat) : Extent := ⟨⟨lo, hi⟩, 1, 1⟩
    let name (lo : Nat) (id : String) : Expr := .name (spot lo (lo + 1)) (utf8 id) .load
    let target := Expr.subscript (spot 0 6)
      (.attribute (spot 0 3) (name 0 "a") (utf8 "b") .load) (name 4 "c") .store
    let test := Expr.compare (spot 14 19) (name 14 "d") [.lt] [name 18 "e"]
    let value := Expr.unary (spot 10 19) .not test
    p.module.body = [.augAssign (spot 0 19) target .mult value] ∧
      (∃ loaded, WellFormed.expr .load loaded ∧ Target.mark .store loaded = target ∧
        ∀ y z, stmtText {} (.augAssign (spot 0 19) target .mult value) =
          stmtText {} (.assign y [target] (.binary z loaded .mult value))) ∧
      exprText {} value =
        utf8 "UnaryOp(op=Not(), operand=" ++ exprText {} test ++ utf8 ")" := by
  intro p spot name target test value
  have hbody : p.module.body = [.augAssign (spot 0 19) target .mult value] := rfl
  have hmem : ⟨1, .stmt (.augAssign (spot 0 19) target .mult value)⟩ ∈ Walk.module p.module := by
    simp [Walk.module, hbody, Walk.stmts, Walk.stmt]
  have hok : p.ok = true := by decide +kernel
  obtain ⟨hassign, -, hkept⟩ := normalText_sugar {}
  exact ⟨hbody, hassign _ _ hok _ _ _ _ _ hmem, hkept _ _ _ _ _ (by decide) (by decide)⟩

end CloneScout
