import CloneScout.Text.Basic

/-!
# Initial segments of texts

`Text.strip?` takes an initial segment off, and `Text.startsWith` tells whether it is one.
-/

namespace CloneScout.Text

theorem strip?_eq_some_iff {start t rest : Text} :
    strip? start t = some rest ↔ t = start ++ rest := by
  induction start generalizing t with
  | nil => simp [strip?]
  | cons a start ih =>
    cases t with
    | nil => simp [strip?]
    | cons b t =>
      rw [strip?]
      by_cases hab : a = b
      · simp [hab, ih]
      · simp [hab, Ne.symm hab]

theorem startsWith_iff {t start : Text} : startsWith t start = true ↔ start <+: t := by
  rw [startsWith, Option.isSome_iff_exists]
  simp only [strip?_eq_some_iff, List.IsPrefix]
  exact exists_congr fun rest => eq_comm

@[simp]
theorem startsWith_append (start rest : Text) : startsWith (start ++ rest) start = true :=
  startsWith_iff.mpr (List.prefix_append start rest)

end CloneScout.Text
