import CloneScout.Proofs.Grammar.Parse
import CloneScout.Proofs.Normal.Outline
import CloneScout.Proofs.Tree.Compose

/-!
# Normal forms and the values of numbers

Where constants are irrelevant, the values of numbers show in a normal form only through the order
of operands: two operations on numbers that a commutative operator joins are put in the order of
their texts, and these hold the values. Trees that differ only in the values of numbers once such
operands stand in order have one normal form.
-/

set_option maxRecDepth 4000

namespace CloneScout

/-- The constant without the value of a number. -/
def Constant.valueless : Constant → Constant
  | .int _ => .int 0
  | .float _ => .float []
  | .imaginary _ => .imaginary []
  | c => c

/-- The constant with an ellipsis in place of a number. -/
def Constant.numberless : Constant → Constant
  | .int _ => .ellipsis
  | .float _ => .ellipsis
  | .imaginary _ => .ellipsis
  | c => c

def Expr.isOperation : Expr → Bool
  | .binary .. => true
  | _ => false

namespace Outline

open Normal (swaps isNumeric isCommutative)

/-- Everything but extents and the values of numbers. -/
def valueless : Outline where
  constant := Constant.valueless

/-- Everything but extents and the values of numbers. Operations on numbers that a commutative
operator joins stand in the order of their texts. -/
def arranged : Outline where
  constant := Constant.valueless
  swap op left right := left.isOperation && right.isOperation && swaps op left right

/-- Everything but extents and numbers, with all operands in the order of the normal form. -/
def ordered : Outline where
  constant := Constant.numberless
  swap := swaps

/-- What turns an arranged outline into an ordered one: an operation comes before a number. -/
def rearranged : Outline where
  constant := Constant.numberless
  swap op left right :=
    isCommutative op && isNumeric op left && isNumeric op right && !left.isOperation &&
      right.isOperation

/-! ## Ordered outlines have the normal form of the tree -/

theorem isNumeric_ordered (op : BinaryOp) (p : Place) (e : Expr) :
    isNumeric op (ordered.expr p e) = false := by
  cases e with
  | constant x c => cases c <;> rfl
  | binary x left op' right =>
    have hl := isNumeric_ordered op p.inner left
    have hr := isNumeric_ordered op p.inner right
    rw [expr]
    split <;> simp [isNumeric, hl, hr]
  | _ => rfl

theorem swaps_ordered (op : BinaryOp) (p : Place) (left right : Expr) :
    swaps op (ordered.expr p left) (ordered.expr p right) = false := by
  simp [swaps, isNumeric_ordered]

theorem fits_ordered {cfg : Normal.Config} (hconstants : cfg.constants = true) :
    ordered.Fits cfg where
  free _ := rfl
  kept _ _ := rfl
  constant c := by cases c <;> simp [ordered, Constant.numberless, Normal.constant, hconstants]
  text c := by cases c <;> simp [ordered, Constant.numberless]
  hints := .inl rfl
  swap op p left right h := ⟨h, swaps_ordered op p right left⟩
  stay op p left right h := by rw [swaps_ordered, ← h]; rfl

/-! ## From arranged to ordered outlines -/

theorem isOperation_expr (o : Outline) (p : Place) (e : Expr) :
    (o.expr p e).isOperation = e.isOperation := by
  cases e with
  | binary =>
    rw [expr]
    split <;> rfl
  | _ => rfl

theorem isNumber_valueless (op : BinaryOp) (c : Constant) :
    Normal.isNumber op c.valueless = Normal.isNumber op c := by
  cases c <;> rfl

theorem isNumeric_arranged (op : BinaryOp) (p : Place) (e : Expr) :
    isNumeric op (arranged.expr p e) = isNumeric op e := by
  cases e with
  | constant x c => exact isNumber_valueless op c
  | binary x left op' right =>
    have hl := isNumeric_arranged op p.inner left
    have hr := isNumeric_arranged op p.inner right
    rw [expr]
    split <;> simp only [isNumeric, hl, hr]
    rw [Bool.and_assoc, Bool.and_assoc, Bool.and_comm (isNumeric op right)]
  | _ => rfl

/-- A numeric expression that is no operation is a number. -/
theorem exists_number {op : BinaryOp} {e : Expr} (h : isNumeric op e = true)
    (hno : e.isOperation = false) : ∃ x c, e = .constant x c ∧ c.numberless = .ellipsis := by
  cases e with
  | constant x c =>
    refine ⟨x, c, rfl, ?_⟩
    cases c <;> simp_all [isNumeric, Normal.isNumber, Constant.numberless]
  | binary => exact absurd hno (by simp [Expr.isOperation])
  | _ => exact absurd h (by simp [isNumeric])

/-- Of two operands that are not both operations, the operation comes first. Two numbers are alike
in an ordered outline, so their order does not matter. -/
theorem swaps_of_isOperation (op : BinaryOp) {left right : Expr}
    (hone : (left.isOperation && right.isOperation) = false) :
    swaps op left right = (rearranged.swap op left right) ∨
      ∀ p, ordered.expr p left = ordered.expr p right := by
  by_cases hnumeric : isNumeric op left = true ∧ isNumeric op right = true
  · obtain ⟨hleft, hright⟩ := hnumeric
    cases hl : left.isOperation <;> cases hr : right.isOperation
    · obtain ⟨x, c, rfl, hc⟩ := exists_number hleft hl
      obtain ⟨x', c', rfl, hc'⟩ := exists_number hright hr
      exact .inr fun p => by simp [expr, ordered, hc, hc']
    · obtain ⟨x, c, rfl, -⟩ := exists_number hleft hl
      obtain ⟨x', left', op', right', rfl⟩ : ∃ x' left' op' right', right =
          .binary x' left' op' right' := by
        cases right <;> simp_all [Expr.isOperation]
      exact .inl (by simp [swaps, rearranged, hleft, hright, hl, hr, Normal.writtenBefore])
    · obtain ⟨x, c, rfl, -⟩ := exists_number hright hr
      obtain ⟨x', left', op', right', rfl⟩ : ∃ x' left' op' right', left =
          .binary x' left' op' right' := by
        cases left <;> simp_all [Expr.isOperation]
      exact .inl (by simp [swaps, rearranged, hl, Normal.writtenBefore])
    · simp [hl, hr] at hone
  · have hswaps : swaps op left right = false := by
      cases hl : isNumeric op left <;> simp_all [swaps]
    have hrearranged : rearranged.swap op left right = false := by
      cases hl : isNumeric op left <;> simp_all [rearranged]
    exact .inl (hswaps.trans hrearranged.symm)

theorem swap_rearranged_arranged (op : BinaryOp) (p : Place) (left right : Expr) :
    rearranged.swap op (arranged.expr p left) (arranged.expr p right) =
      rearranged.swap op left right := by
  simp [rearranged, isNumeric_arranged, isOperation_expr]

theorem composes_arranged : Composes arranged rearranged ordered where
  name _ _ := rfl
  constant c := by cases c <;> rfl
  hints := rfl
  binary p x left op right hl hr := by
    cases hboth : left.isOperation && right.isOperation with
    | true =>
      obtain ⟨hleft, hright⟩ := Bool.and_eq_true_iff.mp hboth
      -- neither operand is a number, so the second outline leaves them where the first puts them
      have hstay (a b : Expr) (ha : a.isOperation = true) :
          rearranged.swap op (arranged.expr p.inner a) (arranged.expr p.inner b) = false := by
        simp [rearranged, isOperation_expr, ha]
      have hswap : arranged.swap op left right = ordered.swap op left right := by
        simp [arranged, ordered, hleft, hright]
      rw [expr, hswap]
      split
      next hs => rw [expr, expr, hl, hr, if_pos hs]; simp [hstay right left hright]
      next hs => rw [expr, expr, hl, hr, if_neg hs]; simp [hstay left right hleft]
    | false =>
      have harranged : arranged.swap op left right = false := by
        rw [arranged]
        simp only [hboth, Bool.false_and]
      rw [expr, harranged]
      simp only [Bool.false_eq_true, if_false]
      rw [expr, expr, hl, hr, swap_rearranged_arranged]
      rcases swaps_of_isOperation op hboth with hsame | halike
      · rw [← hsame]
        rfl
      · rw [halike p.inner]
        split <;> split <;> rfl

/-- Statements with the same arranged outline have normal forms with the same text. -/
theorem stmtText_arranged {cfg : Normal.Config} (hconstants : cfg.constants = true) {s s' : Stmt}
    (hs : Every.stmt Node.Lawful s) (hs' : Every.stmt Node.Lawful s')
    (h : arranged.stmt s = arranged.stmt s') : Normal.stmtText cfg s = Normal.stmtText cfg s' := by
  have hfits := fits_ordered hconstants
  calc
    Normal.stmtText cfg s = Normal.stmtText cfg (ordered.stmt s) := (stmtText_outline hfits hs).symm
    _ = Normal.stmtText cfg (ordered.stmt s') := by
      rw [← stmt_stmt composes_arranged, ← stmt_stmt composes_arranged, h]
    _ = Normal.stmtText cfg s' := stmtText_outline hfits hs'

end Outline

open Outline (arranged valueless)

end CloneScout
