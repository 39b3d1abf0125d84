import CloneScout.Proofs.Normal.Faithful
import CloneScout.Proofs.Normal.Numbers
import CloneScout.Proofs.Normal.Order
import CloneScout.Proofs.Text.Order

/-!
# Operands that change places

In an expression of whole numbers and one commutative operator, the operands of an operation stand
in the order of the texts that they have in the tree, not in their normal forms. So exchanges of
operands do not show as long as they leave the order of all texts above them alone, as they do where
every operation has a number for an operand; others can show.
-/

set_option maxRecDepth 4000

namespace CloneScout

open Text (pruned)

namespace Normal

open Outline (plain spelled)

/-! ## Expressions of one operator -/

/-- The expression is made of such constants and the operator alone. -/
inductive Uniform (leaf : Constant → Prop) (op : BinaryOp) : Expr → Prop
  | constant (x : Extent) {c : Constant} (h : leaf c) : Uniform leaf op (.constant x c)
  | operation (x : Extent) {left right : Expr} (hl : Uniform leaf op left)
      (hr : Uniform leaf op right) : Uniform leaf op (.binary x left op right)

/-- The expression is made of whole numbers and the operator alone. -/
abbrev IsSum : BinaryOp → Expr → Prop := Uniform fun c => ∃ n, c = .int n

/-- A whole number, or the word that stands for it in normal forms. -/
def Settles (c : Constant) : Prop := (∃ n, c = .int n) ∨ c = .text constantWord false

variable {cfg : Config} {op : BinaryOp}

theorem IsSum.isNumeric {e : Expr} (h : IsSum op e) : isNumeric op e = true := by
  induction h with
  | constant x h =>
    obtain ⟨n, rfl⟩ := h
    rfl
  | operation x _ _ ihl ihr => simp [Normal.isNumeric, ihl, ihr]

theorem IsSum.settles {e : Expr} (h : IsSum op e) : Uniform Settles op e := by
  induction h with
  | constant x h => exact .constant x (.inl h)
  | operation x _ _ ihl ihr => exact .operation x ihl ihr

theorem IsSum.expr {e : Expr} (h : IsSum op e) : Uniform Settles op (expr cfg false e) := by
  induction h with
  | constant x h =>
    obtain ⟨n, rfl⟩ := h
    refine .constant x ?_
    simp only [Normal.constant]
    split
    · exact .inr rfl
    · exact .inl ⟨n, rfl⟩
  | operation x _ _ ihl ihr =>
    rw [Normal.expr, Normal.binary]
    split
    · exact .operation x ihr ihl
    · exact .operation x ihl ihr

theorem Uniform.lawful {e : Expr} (h : Uniform Settles op e) : Every.expr Node.Lawful e := by
  induction h with
  | constant x h =>
    rcases h with ⟨n, rfl⟩ | rfl
    · exact ⟨trivial, trivial⟩
    · exact ⟨.of_ascii (by decide), trivial⟩
  | operation x _ _ ihl ihr => exact ⟨trivial, ihl, ihr⟩

theorem Uniform.spelled_eq {e : Expr} (h : Uniform Settles op e) (p : Place) :
    (spelled pruned).expr p e = plain.expr p e := by
  induction h generalizing p with
  | constant x h =>
    rcases h with ⟨n, rfl⟩ | rfl
    · rfl
    · rfl
  | operation x _ _ ihl ihr => simp [Outline.expr, ihl, ihr, Outline.swap_plain]

/-- Their texts tell everything but extents. -/
theorem Uniform.stableExpr_eq_iff {e e' : Expr} (h : Uniform Settles op e)
    (h' : Uniform Settles op e') :
    Dump.stableExpr e = Dump.stableExpr e' ↔ plain.expr .free e = plain.expr .free e' := by
  constructor
  · intro htext
    have hshown := Document.shown_eq_of_pruned_eq (Dump.readable_expr h.lawful)
      (Dump.readable_expr h'.lawful) htext
    have hspelled := Dump.expr_eq keepsNames_pruned h.lawful h'.lawful .free hshown
    rwa [h.spelled_eq, h'.spelled_eq] at hspelled
  · intro hplain
    rw [← Outline.stableExpr_plain .free e, hplain, Outline.stableExpr_plain]

/-- Sums with one text have normal forms with one text. -/
theorem IsSum.exprText_eq {e e' : Expr} (h : IsSum op e) (h' : IsSum op e')
    (htext : Dump.stableExpr e = Dump.stableExpr e') : exprText cfg e = exprText cfg e' := by
  rw [← Outline.exprText_outline (Outline.fits_plain cfg) h.settles.lawful,
    (h.settles.stableExpr_eq_iff h'.settles).mp htext,
    Outline.exprText_outline (Outline.fits_plain cfg) h'.settles.lawful]

/-! ## The order of two operands -/

/-- The order of the texts of two expressions. -/
def order (a b : Expr) : Ordering := Text.cmp (Dump.stableExpr a) (Dump.stableExpr b)

theorem order_swap (a b : Expr) : order b a = (order a b).swap :=
  @Std.OrientedCmp.eq_swap _ Text.cmp _ _ _

theorem stableExpr_eq_of_order {a b : Expr} (h : order a b = .eq) :
    Dump.stableExpr a = Dump.stableExpr b :=
  Std.LawfulEqCmp.eq_of_compare h

theorem writtenBefore_iff {a b : Expr} (ha : isNumeric op a = true) (hb : isNumeric op b = true) :
    writtenBefore a b = true ↔ order a b = .lt := by
  constructor
  · intro h
    rw [order, stableExpr_eq ha, stableExpr_eq hb]
    exact cmp_of_writtenBefore ha hb h
  · intro h
    fun_cases writtenBefore a b with
    | case1 => rfl
    | case2 x c x' left op' right =>
      have hbefore := cmp_of_writtenBefore hb ha rfl
      rw [order, stableExpr_eq ha, stableExpr_eq hb] at h
      have hself := Text.cmp_trans h hbefore
      rw [Text.cmp_self] at hself
      exact absurd hself (by decide)
    | case3 _ _ hleft hright => simpa [writtenBefore, order] using h

/-- Two operands, with the one that is written before the other in front. -/
def inOrder (left right : Expr) : Expr × Expr :=
  if order right left = .lt then (right, left) else (left, right)

theorem IsSum.inOrder {left right : Expr} (hl : IsSum op left) (hr : IsSum op right) :
    IsSum op (inOrder left right).1 ∧ IsSum op (inOrder left right).2 := by
  rw [Normal.inOrder]
  split
  · exact ⟨hr, hl⟩
  · exact ⟨hl, hr⟩

theorem exprText_binary_iff (hop : isCommutative op = true) {left right left' right' : Expr}
    (hl : IsSum op left) (hr : IsSum op right) (hl' : IsSum op left') (hr' : IsSum op right')
    (x x' : Extent) :
    exprText cfg (.binary x left op right) = exprText cfg (.binary x' left' op right') ↔
      exprText cfg (inOrder left right).1 = exprText cfg (inOrder left' right').1 ∧
        exprText cfg (inOrder left right).2 = exprText cfg (inOrder left' right').2 := by
  have hnormal {l r : Expr} (hl : IsSum op l) (hr : IsSum op r) (x : Extent) :
      plain.expr .free (expr cfg false (.binary x l op r)) =
        .binary .blank (plain.expr .free (expr cfg false (inOrder l r).1)) op
          (plain.expr .free (expr cfg false (inOrder l r).2)) := by
    have hswap : swaps op l r = true ↔ order r l = .lt := by
      simp [swaps, hop, hl.isNumeric, hr.isNumeric, writtenBefore_iff hr.isNumeric hl.isNumeric]
    rw [expr, binary, inOrder]
    by_cases h : order r l = .lt
    · rw [if_pos (hswap.mpr h), if_pos h]
      rfl
    · rw [if_neg (mt hswap.mp h), if_neg h]
      rfl
  have hs := IsSum.inOrder hl hr
  have hs' := IsSum.inOrder hl' hr'
  rw [exprText, exprText, exprText, exprText, exprText, exprText,
    Uniform.stableExpr_eq_iff (IsSum.expr (.operation x hl hr)) (IsSum.expr (.operation x' hl' hr')),
    Uniform.stableExpr_eq_iff hs.1.expr hs'.1.expr, Uniform.stableExpr_eq_iff hs.2.expr hs'.2.expr,
    hnormal hl hr, hnormal hl' hr']
  simp

/-! ## Exchanged operands -/

/-- The second expression is the first, made of whole numbers and the operator alone, with the
operands of some operations exchanged. Where the exchanges are `steady`, those below an operation
leave the order of the texts of its operands as it is. -/
inductive Swapped (op : BinaryOp) (steady : Bool) : Expr → Expr → Prop
  | number (x x' : Extent) (n : Nat) :
    Swapped op steady (.constant x (.int n)) (.constant x' (.int n))
  | kept (x x' : Extent) {left right left' right' : Expr} (hl : Swapped op steady left left')
      (hr : Swapped op steady right right')
      (h : steady = true → order left right = order left' right') :
    Swapped op steady (.binary x left op right) (.binary x' left' op right')
  | exchanged (x x' : Extent) {left right left' right' : Expr} (hl : Swapped op steady left left')
      (hr : Swapped op steady right right')
      (h : steady = true → order left right = order left' right') :
    Swapped op steady (.binary x left op right) (.binary x' right' op left')

/-- Numbers that the configuration does not tell apart, or operations whose operands match once
each pair of them stands in the order of its texts. -/
inductive Matches (cfg : Config) (op : BinaryOp) : Expr → Expr → Prop
  | number (x x' : Extent) {n n' : Nat} (h : cfg.constants = true ∨ n = n') :
    Matches cfg op (.constant x (.int n)) (.constant x' (.int n'))
  | operation (x x' : Extent) {left right left' right' : Expr}
      (hfirst : Matches cfg op (inOrder left right).1 (inOrder left' right').1)
      (hsecond : Matches cfg op (inOrder left right).2 (inOrder left' right').2) :
    Matches cfg op (.binary x left op right) (.binary x' left' op right')

/-- Every operation has an operand that is no operation, as in a sum without brackets. -/
def isChain : Expr → Bool
  | .binary _ left _ right =>
    (!left.isOperation || !right.isOperation) && isChain left && isChain right
  | _ => true

variable {steady : Bool} {t t' : Expr}

theorem Swapped.isSum (h : Swapped op steady t t') : IsSum op t ∧ IsSum op t' := by
  induction h with
  | number x x' n => exact ⟨.constant x ⟨n, rfl⟩, .constant x' ⟨n, rfl⟩⟩
  | kept x x' _ _ _ ihl ihr => exact ⟨.operation x ihl.1 ihr.1, .operation x' ihl.2 ihr.2⟩
  | exchanged x x' _ _ _ ihl ihr => exact ⟨.operation x ihl.1 ihr.1, .operation x' ihr.2 ihl.2⟩

theorem exprText_number_iff {n n' : Nat} (x x' : Extent) :
    exprText cfg (.constant x (.int n)) = exprText cfg (.constant x' (.int n')) ↔
      cfg.constants = true ∨ n = n' := by
  have hsum (x : Extent) (n : Nat) : IsSum .add (.constant x (.int n)) := .constant x ⟨n, rfl⟩
  rw [exprText, exprText, Uniform.stableExpr_eq_iff (hsum x n).expr (hsum x' n').expr]
  cases hconstants : cfg.constants <;>
    simp [Normal.expr, Outline.expr, constant, hconstants, Outline.plain]

theorem exprText_number_ne {n : Nat} {left right : Expr} (hl : IsSum op left) (hr : IsSum op right)
    (x x' : Extent) :
    exprText cfg (.constant x (.int n)) ≠ exprText cfg (.binary x' left op right) := by
  have hn : IsSum op (.constant x (.int n)) := .constant x ⟨n, rfl⟩
  rw [exprText, exprText, Ne,
    Uniform.stableExpr_eq_iff hn.expr (IsSum.expr (.operation x' hl hr))]
  rw [Normal.expr, Normal.expr, binary]
  split <;> simp [Outline.expr, Outline.swap_plain]

/-- The texts of normal forms show what the matching operands are. -/
theorem exprText_eq_iff_matches (hop : isCommutative op = true) (h : IsSum op t)
    (h' : IsSum op t') : exprText cfg t = exprText cfg t' ↔ Matches cfg op t t' := by
  constructor
  · intro htext
    induction h generalizing t' with
    | constant x hn =>
      obtain ⟨n, rfl⟩ := hn
      cases h' with
      | constant x' hn' =>
        obtain ⟨n', rfl⟩ := hn'
        exact .number x x' ((exprText_number_iff x x').mp htext)
      | operation x' hl' hr' => exact absurd htext (exprText_number_ne hl' hr' x x')
    | @operation x left right hl hr ihl ihr =>
      cases h' with
      | constant x' hn' =>
        obtain ⟨n', rfl⟩ := hn'
        exact absurd htext.symm (exprText_number_ne hl hr x' x)
      | operation x' hl' hr' =>
        obtain ⟨hfirst, hsecond⟩ := (exprText_binary_iff hop hl hr hl' hr' x x').mp htext
        have hsums := IsSum.inOrder hl' hr'
        -- the operands in order are the operands, so both hypotheses speak of them
        have ihs : (∀ {e}, IsSum op e → exprText cfg (inOrder left right).1 = exprText cfg e →
              Matches cfg op (inOrder left right).1 e) ∧
            ∀ {e}, IsSum op e → exprText cfg (inOrder left right).2 = exprText cfg e →
              Matches cfg op (inOrder left right).2 e := by
          unfold inOrder
          split
          · exact ⟨ihr, ihl⟩
          · exact ⟨ihl, ihr⟩
        exact .operation x x' (ihs.1 hsums.1 hfirst) (ihs.2 hsums.2 hsecond)
  · intro hmatches
    induction hmatches with
    | number x x' hn => exact (exprText_number_iff x x').mpr hn
    | operation x x' _ _ ihfirst ihsecond =>
      cases h with
      | operation _ hl hr =>
        cases h' with
        | operation _ hl' hr' =>
          have hsums := IsSum.inOrder hl hr
          have hsums' := IsSum.inOrder hl' hr'
          exact (exprText_binary_iff hop hl hr hl' hr' x x').mpr
            ⟨ihfirst hsums.1 hsums'.1, ihsecond hsums.2 hsums'.2⟩

/-- Steady exchanges do not show. -/
theorem Swapped.exprText_eq (hop : isCommutative op = true) (h : Swapped op true t t') :
    exprText cfg t = exprText cfg t' := by
  induction h with
  | number x x' n => rfl
  | kept x x' hl hr h ihl ihr =>
    rename_i left right left' right'
    have hinverse : order right left = order right' left' := by
      rw [order_swap, h rfl, ← order_swap]
    refine (exprText_binary_iff hop hl.isSum.1 hr.isSum.1 hl.isSum.2 hr.isSum.2 x x').mpr ?_
    rw [inOrder, inOrder, hinverse]
    split
    · exact ⟨ihr, ihl⟩
    · exact ⟨ihl, ihr⟩
  | exchanged x x' hl hr h ihl ihr =>
    rename_i left right left' right'
    refine (exprText_binary_iff hop hl.isSum.1 hr.isSum.1 hr.isSum.2 hl.isSum.2 x x').mpr ?_
    rw [inOrder, inOrder, order_swap left right, ← h rfl]
    cases horder : order left right with
    | lt => exact ⟨ihl, ihr⟩
    | gt => exact ⟨ihr, ihl⟩
    | eq =>
      have hsame : exprText cfg left = exprText cfg right :=
        hl.isSum.1.exprText_eq hr.isSum.1 (stableExpr_eq_of_order horder)
      exact ⟨hsame.trans ihr, hsame.symm.trans ihl⟩

theorem Swapped.isOperation_eq (h : Swapped op steady t t') : t'.isOperation = t.isOperation := by
  cases h <;> rfl

/-- An operation is written before a number. -/
theorem order_operation_number {a b : Expr} (ha : IsSum op a) (hb : IsSum op b)
    (h : a.isOperation = true) (h' : b.isOperation = false) : order a b = .lt := by
  cases ha with
  | constant => exact absurd h (by simp [Expr.isOperation])
  | operation x hl hr =>
    cases hb with
    | operation => exact absurd h' (by simp [Expr.isOperation])
    | constant x' hn =>
      exact (writtenBefore_iff (IsSum.isNumeric (.operation x hl hr))
        (IsSum.isNumeric (.constant x' hn))).mp rfl

theorem Swapped.stableExpr_eq (h : Swapped op steady t t') (hnumber : t.isOperation = false) :
    Dump.stableExpr t' = Dump.stableExpr t := by
  cases h with
  | number => rfl
  | kept => exact absurd hnumber (by simp [Expr.isOperation])
  | exchanged => exact absurd hnumber (by simp [Expr.isOperation])

/-- Exchanges below do not change the order of two operands one of which is a number. -/
theorem Swapped.order_eq {left right left' right' : Expr} (hl : Swapped op steady left left')
    (hr : Swapped op steady right right')
    (h : left.isOperation = false ∨ right.isOperation = false) :
    order left right = order left' right' := by
  cases hleft : left.isOperation with
  | false =>
    cases hright : right.isOperation with
    | false => rw [order, order, hl.stableExpr_eq hleft, hr.stableExpr_eq hright]
    | true =>
      rw [order_swap right left, order_swap right' left',
        order_operation_number hr.isSum.1 hl.isSum.1 hright hleft,
        order_operation_number hr.isSum.2 hl.isSum.2 (hr.isOperation_eq.trans hright)
          (hl.isOperation_eq.trans hleft)]
  | true =>
    have hright : right.isOperation = false := h.resolve_left (by simp [hleft])
    rw [order_operation_number hl.isSum.1 hr.isSum.1 hleft hright,
      order_operation_number hl.isSum.2 hr.isSum.2 (hl.isOperation_eq.trans hleft)
        (hr.isOperation_eq.trans hright)]

/-- In a chain all exchanges are steady. -/
theorem Swapped.steady_of_isChain (h : Swapped op steady t t') (hchain : isChain t = true) :
    Swapped op true t t' := by
  induction h with
  | number x x' n => exact .number x x' n
  | kept x x' hl hr _ ihl ihr =>
    simp only [isChain, Bool.and_eq_true, Bool.or_eq_true, Bool.not_eq_true'] at hchain
    exact .kept x x' (ihl hchain.1.2) (ihr hchain.2) fun _ => hl.order_eq hr hchain.1.1
  | exchanged x x' hl hr _ ihl ihr =>
    simp only [isChain, Bool.and_eq_true, Bool.or_eq_true, Bool.not_eq_true'] at hchain
    exact .exchanged x x' (ihl hchain.1.2) (ihr hchain.2) fun _ => hl.order_eq hr hchain.1.1

end Normal

open Normal (Swapped Matches exprText)

/-- Whether an exchange of operands shows in the normal form: it does not if the operands match once
they stand in the order of their texts. So no exchange shows in a chain, and no exchange shows that
leaves the order of texts above it alone. -/
theorem exprText_eq_iff_of_swapped (cfg : Normal.Config) {op : BinaryOp}
    (hop : Normal.isCommutative op = true) {t t' : Expr} (h : Swapped op false t t') :
    (exprText cfg t = exprText cfg t' ↔ Matches cfg op t t') ∧
      (Swapped op true t t' → exprText cfg t = exprText cfg t') ∧
      (Normal.isChain t = true → exprText cfg t = exprText cfg t') :=
  ⟨Normal.exprText_eq_iff_matches hop h.isSum.1 h.isSum.2, Swapped.exprText_eq hop,
    fun hchain => (h.steady_of_isChain hchain).exprText_eq hop⟩

/-- The operands of both additions of `1 + 2 + 3` are exchanged, and the sum is a chain. -/
theorem exprText_eq_iff_of_swapped_chain :
    let number (n : Nat) : Expr := .constant .blank (.int n)
    let sum (a b : Expr) : Expr := .binary .blank a .add b
    let t := sum (sum (number 1) (number 2)) (number 3)
    let t' := sum (number 3) (sum (number 2) (number 1))
    Swapped .add false t t' ∧ Normal.isChain t = true ∧ Matches { constants := false } .add t t' ∧
      exprText { constants := false } t = exprText { constants := false } t' := by
  intro number sum t t'
  have hswapped : Swapped .add false t t' :=
    .exchanged _ _ (.exchanged _ _ (.number _ _ 1) (.number _ _ 2) nofun) (.number _ _ 3) nofun
  obtain ⟨hiff, -, hchain⟩ := exprText_eq_iff_of_swapped { constants := false } rfl hswapped
  exact ⟨hswapped, rfl, hiff.mp (hchain rfl), hchain rfl⟩

/-- The exchange of the operands `2` and `1 + 1` turns around the order of the texts of the operands
of the outer addition, so it shows under every configuration. -/
theorem exprText_ne_of_swapped :
    let number (line lo n : Nat) : Expr := .constant ⟨⟨lo, lo + 1⟩, line, line⟩ (.int n)
    let sum (line lo hi : Nat) (a b : Expr) : Expr := .binary ⟨⟨lo, hi⟩, line, line⟩ a .add b
    let t := sum 1 4 25 (sum 1 4 15 (number 1 4 2) (sum 1 9 14 (number 1 9 1) (number 1 13 1)))
      (sum 1 19 24 (number 1 19 1) (number 1 23 1))
    let t' := sum 2 30 49 (sum 2 30 39 (sum 2 30 35 (number 2 30 1) (number 2 34 1)) (number 2 38 2))
      (sum 2 43 48 (number 2 43 1) (number 2 47 1))
    let p := Parsed.ofSource (utf8 "x = 2 + (1 + 1) + (1 + 1)\nx = 1 + 1 + 2 + (1 + 1)\n") 1
    p.ok = true ∧
      p.module.body =
        [.assign ⟨⟨0, 25⟩, 1, 1⟩ [.name ⟨⟨0, 1⟩, 1, 1⟩ (utf8 "x") .store] t,
          .assign ⟨⟨26, 49⟩, 2, 2⟩ [.name ⟨⟨26, 27⟩, 2, 2⟩ (utf8 "x") .store] t'] ∧
      Swapped .add false t t' ∧ ∀ cfg, exprText cfg t ≠ exprText cfg t' := by
  intro number sum t t' p
  have hones (line line' lo lo' hi hi' a b a' b' : Nat) : Swapped .add false
      (sum line lo hi (number line a 1) (number line b 1))
      (sum line' lo' hi' (number line' a' 1) (number line' b' 1)) :=
    .kept _ _ (.number _ _ 1) (.number _ _ 1) nofun
  have hswapped : Swapped .add false t t' :=
    .kept _ _ (.exchanged _ _ (.number _ _ 2) (hones ..) nofun) (hones ..) nofun
  have hne : ∀ docstrings hints attributes constants names : Bool,
      exprText ⟨docstrings, hints, attributes, constants, names⟩ t ≠
        exprText ⟨docstrings, hints, attributes, constants, names⟩ t' := by
    decide +kernel +zetaReduce
  exact ⟨by decide +kernel, rfl, hswapped, fun _ => hne _ _ _ _ _⟩

end CloneScout
