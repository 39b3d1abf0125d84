import CloneScout.Text.Basic
import Mathlib.Data.List.DropRight

/-!
# Joining, splitting and trimming texts

Parts with a separator between them and an end behind them can be told apart again. All it takes is
that each part shows where it ends in front of a separator and in front of the end. Splitting a text
at a byte undoes joining parts that do not hold the byte, and joining undoes splitting. Trimming
takes away what stands around the first and the last byte that is kept.
-/

namespace CloneScout.Text

theorem join_cons (sep t : Text) (ts : List Text) :
    join sep (t :: ts) = t ++ ts.flatMap (sep ++ ·) := by
  induction ts generalizing t with
  | nil => simp [join]
  | cons u ts ih => rw [join, ih, List.flatMap_cons, List.append_assoc, List.append_assoc]

section

variable {α : Type} {write : α → Text}

theorem join_map_cons (sep : Text) (write : α → Text) (a : α) (as : List α) :
    join sep ((a :: as).map write) = write a ++ as.flatMap fun a => sep ++ write a := by
  rw [List.map_cons, join_cons, List.flatMap_map]

/-- A part in front of anything that can follow it is determined by what is written. -/
def Determined (Follows : Text → Prop) (write : α → Text) (a a' : α) : Prop :=
  ∀ r r' : Text, Follows r → Follows r' → write a ++ r = write a' ++ r' → a = a' ∧ r = r'

/-- What a separator and an end have to do with each other: a part may stand in front of either, and
an end is not taken for a separator. -/
structure Delimits (sep : Text) (Stops Follows : Text → Prop) : Prop where
  next : ∀ t, Follows (sep ++ t)
  stop : ∀ r, Stops r → Follows r
  apart : ∀ r, Stops r → ¬ sep <+: r

variable {sep : Text} {Stops Follows : Text → Prop} {as as' : List α} {r r' : Text}

theorem Delimits.follows (h : Delimits sep Stops Follows) (hr : Stops r) (as : List α) :
    Follows (as.flatMap (fun a => sep ++ write a) ++ r) := by
  cases as with
  | nil => exact h.stop r hr
  | cons a as =>
    rw [List.flatMap_cons, List.append_assoc, List.append_assoc]
    exact h.next _

/-- Parts with a separator in front of each. -/
theorem Delimits.separated_inj (h : Delimits sep Stops Follows) (hr : Stops r) (hr' : Stops r')
    (hwrite : ∀ a ∈ as, ∀ a' ∈ as', Determined Follows write a a')
    (heq : as.flatMap (fun a => sep ++ write a) ++ r =
      as'.flatMap (fun a => sep ++ write a) ++ r') : as = as' ∧ r = r' := by
  have hsep (a : α) (as : List α) (r : Text) :
      sep <+: (a :: as).flatMap (fun a => sep ++ write a) ++ r := by
    rw [List.flatMap_cons, List.append_assoc, List.append_assoc]
    exact List.prefix_append _ _
  induction as generalizing as' with
  | nil =>
    cases as' with
    | nil => simpa using heq
    | cons a' as' =>
      have hstarts : sep <+: r := by
        rw [show r = _ from heq]
        exact hsep a' as' r'
      exact absurd hstarts (h.apart r hr)
  | cons a as ih =>
    cases as' with
    | nil =>
      have hstarts : sep <+: r' := by
        rw [show r' = _ from heq.symm]
        exact hsep a as r
      exact absurd hstarts (h.apart r' hr')
    | cons a' as' =>
      simp only [List.flatMap_cons, List.append_assoc] at heq
      obtain ⟨rfl, hrest⟩ := hwrite a List.mem_cons_self a' List.mem_cons_self _ _
        (h.follows hr as) (h.follows hr' as') (List.append_cancel_left heq)
      obtain ⟨rfl, rfl⟩ := ih
        (fun b hb b' hb' => hwrite b (List.mem_cons_of_mem _ hb) b' (List.mem_cons_of_mem _ hb')) hrest
      exact ⟨rfl, rfl⟩

/-- Parts with separators between them and an end behind them. -/
theorem Delimits.join_inj (h : Delimits sep Stops Follows) (hr : Stops r) (hr' : Stops r')
    (hstart : ∀ a ∈ as ++ as', ∀ t, ¬ Stops (write a ++ t))
    (hwrite : ∀ a ∈ as, ∀ a' ∈ as', Determined Follows write a a')
    (heq : join sep (as.map write) ++ r = join sep (as'.map write) ++ r') : as = as' ∧ r = r' := by
  cases as with
  | nil =>
    cases as' with
    | nil => simpa [join] using heq
    | cons a' as' =>
      rw [join_map_cons, List.append_assoc] at heq
      change r = _ at heq
      rw [heq] at hr
      exact absurd hr (hstart a' (by simp) _)
  | cons a as =>
    cases as' with
    | nil =>
      rw [join_map_cons, List.append_assoc] at heq
      change _ = r' at heq
      rw [← heq] at hr'
      exact absurd hr' (hstart a (by simp) _)
    | cons a' as' =>
      simp only [join_map_cons, List.append_assoc] at heq
      obtain ⟨rfl, hrest⟩ := hwrite a List.mem_cons_self a' List.mem_cons_self _ _
        (h.follows hr as) (h.follows hr' as') heq
      obtain ⟨rfl, rfl⟩ := h.separated_inj hr hr'
        (fun b hb b' hb' => hwrite b (List.mem_cons_of_mem _ hb) b' (List.mem_cons_of_mem _ hb')) hrest
      exact ⟨rfl, rfl⟩

end

end CloneScout.Text

namespace CloneScout.Text

/-! ## Splitting -/

section

variable {sep : UInt8} {s t line : Text} {lines : List Text}

theorem splitOn_cons_self (sep : UInt8) (t : Text) : splitOn sep (sep :: t) = [] :: splitOn sep t :=
  if_pos rfl

theorem splitOn_cons_of_ne {b : UInt8} (hb : b ≠ sep) (h : splitOn sep t = line :: lines) :
    splitOn sep (b :: t) = (b :: line) :: lines := by
  rw [splitOn, if_neg hb, h]

theorem exists_splitOn (sep : UInt8) (t : Text) :
    ∃ line lines, splitOn sep t = line :: lines := by
  cases t with
  | nil => exact ⟨_, _, rfl⟩
  | cons b t =>
    rw [splitOn]
    split
    · exact ⟨_, _, rfl⟩
    · split <;> exact ⟨_, _, rfl⟩

/-- What stands in front of the first separator belongs to the first part. -/
theorem splitOn_append_of_notMem (hs : sep ∉ s) (h : splitOn sep t = line :: lines) :
    splitOn sep (s ++ t) = (s ++ line) :: lines := by
  induction s with
  | nil => exact h
  | cons b s ih =>
    rw [List.mem_cons, not_or] at hs
    exact splitOn_cons_of_ne (Ne.symm hs.1) (ih hs.2)

theorem splitOn_of_notMem (hs : sep ∉ s) : splitOn sep s = [s] := by
  have hsplit := splitOn_append_of_notMem hs (t := []) rfl
  simpa using hsplit

theorem splitOn_append_cons (sep : UInt8) (s t : Text) :
    splitOn sep (s ++ sep :: t) = splitOn sep s ++ splitOn sep t := by
  induction s with
  | nil => exact splitOn_cons_self sep t
  | cons b s ih =>
    by_cases hb : b = sep
    · rw [hb, List.cons_append, splitOn_cons_self, splitOn_cons_self, ih, List.cons_append]
    · obtain ⟨line, lines, hs⟩ := exists_splitOn sep s
      rw [hs] at ih
      rw [List.cons_append, splitOn_cons_of_ne hb ih, splitOn_cons_of_ne hb hs]
      rfl

/-- The parts of joined texts are the parts of each. -/
theorem splitOn_join (sep : UInt8) {ts : List Text} (hts : ts ≠ []) :
    splitOn sep (join [sep] ts) = ts.flatMap (splitOn sep) := by
  induction ts with
  | nil => exact absurd rfl hts
  | cons t ts ih =>
    cases ts with
    | nil => simp [join]
    | cons u ts =>
      rw [join, List.append_assoc, List.singleton_append, splitOn_append_cons, ih (by simp)]
      rfl

theorem join_cons_cons (s t u : Text) (ts : List Text) :
    join s (t :: u :: ts) = t ++ s ++ join s (u :: ts) := rfl

theorem join_append_cons (sep s line : Text) (lines : List Text) :
    join sep ((s ++ line) :: lines) = s ++ join sep (line :: lines) := by
  rw [join_cons, join_cons, List.append_assoc]

theorem join_splitOn (sep : UInt8) (t : Text) : join [sep] (splitOn sep t) = t := by
  induction t with
  | nil => rfl
  | cons b t ih =>
    obtain ⟨line, lines, ht⟩ := exists_splitOn sep t
    by_cases hb : b = sep
    · rw [hb, splitOn_cons_self, ht, join_cons_cons, ← ht, ih]
      rfl
    · have hjoin := join_append_cons [sep] [b] line lines
      rw [List.singleton_append] at hjoin
      rw [splitOn_cons_of_ne hb ht, hjoin, ← ht, ih]
      rfl

end

/-! ## Trimming -/

section

variable {drop : UInt8 → Bool} {s t : Text}

theorem trimWith_eq (drop : UInt8 → Bool) (t : Text) :
    trimWith drop t = (t.dropWhile drop).rdropWhile drop := rfl

/-- Bytes in front of the last one that is kept stay. -/
theorem rdropWhile_append {b : UInt8} (hb : drop b = false) (s t : Text) :
    (s ++ b :: t).rdropWhile drop = s ++ b :: t.rdropWhile drop := by
  induction t using List.reverseRecOn with
  | nil => rw [List.rdropWhile_concat_neg _ _ _ (by simp [hb]), List.rdropWhile_nil]
  | append_singleton t c ih =>
    have hassoc : s ++ b :: (t ++ [c]) = (s ++ b :: t) ++ [c] := by simp
    by_cases hc : drop c = true
    · rw [hassoc, List.rdropWhile_concat_pos _ _ _ hc, ih, List.rdropWhile_concat_pos _ _ _ hc]
    · rw [hassoc, List.rdropWhile_concat_neg _ _ _ hc, List.rdropWhile_concat_neg _ _ _ hc, hassoc]

theorem rdropWhile_concat {b : UInt8} (hb : drop b = false) (s : Text) :
    (s ++ [b]).rdropWhile drop = s ++ [b] :=
  rdropWhile_append hb s []

/-- A text that starts with a byte to be kept is trimmed at its end alone. -/
theorem trimWith_cons {b : UInt8} (hb : drop b = false) (t : Text) :
    trimWith drop (b :: t) = (b :: t).rdropWhile drop := by
  rw [trimWith_eq, List.dropWhile_cons_of_neg (by simp [hb])]

theorem trimWith_append (hs : ∀ b ∈ s, drop b = true) (t : Text) :
    trimWith drop (s ++ t) = trimWith drop t := by
  rw [trimWith_eq, trimWith_eq, List.dropWhile_append_of_pos hs]

theorem trimWith_of_forall (hs : ∀ b ∈ s, drop b = true) : trimWith drop s = [] := by
  have htrim := trimWith_append hs []
  rwa [List.append_nil] at htrim

end

end CloneScout.Text
