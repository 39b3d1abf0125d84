import CloneScout.Text.Basic
import Mathlib.Data.List.Perm.Basic

/-!
# Order

Texts and numbers are ordered in the usual way, and so are records by several of their fields, one
after the other. Whichever way a list is sorted by such an order, the result depends on its elements
alone when elements that the order does not tell apart are equal.
-/

namespace CloneScout

/-! ## Orders -/

theorem Text.cmp_eq_compareLex (s t : Text) : cmp s t = List.compareLex compare s t := by
  induction s generalizing t with
  | nil => cases t <;> rfl
  | cons a s ih =>
    cases t with
    | nil => rfl
    | cons b t =>
      rw [cmp, List.compareLex_cons_cons, ← ih]
      by_cases hab : a < b
      · simp [hab, Std.compare_eq_lt.mpr hab]
      · by_cases hba : b < a
        · simp [hab, hba, Std.compare_eq_gt.mpr hba]
        · have heq : a = b := UInt8.le_antisymm (UInt8.not_lt.mp hba) (UInt8.not_lt.mp hab)
          simp [heq]

theorem natCmp_eq_compare (a b : Nat) : natCmp a b = compare a b := by
  rw [natCmp]
  rcases Nat.lt_trichotomy a b with h | h | h
  · simp [h, Nat.compare_eq_lt.mpr h]
  · simp [h]
  · simp [h, Nat.lt_asymm h, Nat.compare_eq_gt.mpr h]

instance : Std.TransCmp Text.cmp := by
  have heq : Text.cmp = List.compareLex compare := funext₂ Text.cmp_eq_compareLex
  rw [heq]
  infer_instance

instance : Std.LawfulEqCmp Text.cmp := by
  have heq : Text.cmp = List.compareLex compare := funext₂ Text.cmp_eq_compareLex
  rw [heq]
  infer_instance

instance : Std.TransCmp natCmp := by
  have heq : natCmp = compare := funext₂ natCmp_eq_compare
  rw [heq]
  infer_instance

instance : Std.LawfulEqCmp natCmp := by
  have heq : natCmp = compare := funext₂ natCmp_eq_compare
  rw [heq]
  infer_instance

/-- Records in the order of one of their fields. -/
theorem transCmp_on {α β : Type} (cmp : β → β → Ordering) [h : Std.TransCmp cmp] (f : α → β) :
    Std.TransCmp fun a b => cmp (f a) (f b) where
  eq_swap := h.eq_swap
  isLE_trans := h.isLE_trans

/-- Records in the order of one field, and in another order where that is the same. -/
theorem transCmp_then {α β : Type} (cmp : β → β → Ordering) [Std.TransCmp cmp] (f : α → β)
    {next : α → α → Ordering} (h : Std.TransCmp next) :
    Std.TransCmp fun a b => (cmp (f a) (f b)).then (next a b) :=
  have := transCmp_on cmp f
  inferInstanceAs (Std.TransCmp (compareLex (fun a b => cmp (f a) (f b)) next))

/-! ## Sorted lists -/

section

variable {α : Type} {cmp : α → α → Ordering} [h : Std.TransCmp cmp] {l l' : List α}

theorem pairwise_mergeSort (l : List α) :
    (l.mergeSort fun a b => cmp a b != .gt).Pairwise fun a b => cmp a b ≠ .gt := by
  have hle (a b : α) : (cmp a b != .gt) = (cmp a b).isLE := by cases cmp a b <;> rfl
  have htrans (a b c : α) (hab : cmp a b != .gt) (hbc : cmp b c != .gt) : cmp a c != .gt := by
    rw [hle] at hab hbc ⊢
    exact h.isLE_trans hab hbc
  have htotal (a b : α) : (cmp a b != .gt || cmp b a != .gt) = true := by
    rw [hle, hle, h.eq_swap (a := b)]
    cases cmp a b <;> rfl
  have hsorted := List.pairwise_mergeSort htrans htotal l
  exact hsorted.imp fun hab => by simpa using hab

/-- Two lists in order with the same elements are the same when elements of one rank are. -/
theorem eq_of_sorted_of_perm (hl : l.Pairwise fun a b => cmp a b ≠ .gt)
    (hl' : l'.Pairwise fun a b => cmp a b ≠ .gt) (hperm : l.Perm l')
    (hties : ∀ a ∈ l, ∀ b ∈ l, cmp a b = .eq → a = b) : l = l' := by
  refine hperm.eq_of_pairwise (fun a b ha hb hab hba => ?_) hl hl'
  refine hties a ha b (hperm.mem_iff.mpr hb) ?_
  rw [h.eq_swap] at hba
  cases hcmp : cmp a b <;> simp_all

/-- A sorted list does not depend on the order in which its elements were found. -/
theorem mergeSort_eq_of_perm (hperm : l.Perm l')
    (hties : ∀ a ∈ l, ∀ b ∈ l, cmp a b = .eq → a = b) :
    (l.mergeSort fun a b => cmp a b != .gt) = l'.mergeSort fun a b => cmp a b != .gt := by
  refine eq_of_sorted_of_perm (pairwise_mergeSort l) (pairwise_mergeSort l')
    (((List.mergeSort_perm l _).trans hperm).trans (List.mergeSort_perm l' _).symm) ?_
  simpa only [List.mem_mergeSort] using hties

end

namespace Text

/-- Texts in increasing order, without repetition. -/
def Increasing (l : List Text) : Prop := l.Pairwise fun s t => cmp s t = .lt

theorem Increasing.nodup {l : List Text} (h : Increasing l) : l.Nodup := by
  refine h.imp fun {s t} hst heq => ?_
  have hself : cmp t t = .eq := Std.ReflCmp.compare_self
  rw [heq, hself] at hst
  exact nomatch hst

/-- A set of texts has one list in increasing order. -/
theorem Increasing.eq {l l' : List Text} (h : Increasing l) (h' : Increasing l')
    (hmem : ∀ t, t ∈ l ↔ t ∈ l') : l = l' := by
  have hle {l : List Text} (h : Increasing l) : l.Pairwise fun s t => cmp s t ≠ .gt :=
    h.imp fun hst => by simp [hst]
  exact eq_of_sorted_of_perm (hle h) (hle h')
    ((List.perm_ext_iff_of_nodup h.nodup h'.nodup).mpr hmem)
    fun s _ t _ hst => Std.LawfulEqCmp.eq_of_compare hst

end Text

end CloneScout
