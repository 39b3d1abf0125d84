import CloneScout.Text.Basic

/-!
# Texts in pieces

Writing a deep tree puts texts together level by level. A rope keeps the pieces apart, so that
putting two together takes one step, and is laid out once at the end.
-/

namespace CloneScout

inductive Rope where
  | text (t : Text)
  | append (first second : Rope)

namespace Rope

instance : Append Rope := ⟨append⟩

instance : Coe Text Rope := ⟨text⟩

/-- The text of a rope in front of `tail`. -/
def before : Rope → (tail : Text) → Text
  | text t, tail => t ++ tail
  | append a b, tail => a.before (b.before tail)

def toText (r : Rope) : Text := r.before []

theorem before_eq (r : Rope) (tail : Text) : r.before tail = r.toText ++ tail := by
  induction r generalizing tail with
  | text t => simp [before, toText]
  | append a b iha ihb =>
    rw [before, toText, before, ihb tail, ihb [], iha, iha (b.toText ++ [])]
    simp

@[simp]
theorem toText_text (t : Text) : (text t).toText = t := by simp [toText, before]

@[simp]
theorem toText_append (a b : Rope) : (a ++ b).toText = a.toText ++ b.toText := by
  rw [show a ++ b = append a b from rfl, toText, before, before_eq a, before_eq b]
  simp

/-- Ropes one after the other, with `sep` between them. -/
def join (sep : Text) : List Rope → Rope
  | [] => text []
  | [r] => r
  | r :: s :: rest => r ++ (text sep ++ join sep (s :: rest))

@[simp]
theorem toText_join (sep : Text) (rs : List Rope) :
    (join sep rs).toText = Text.join sep (rs.map toText) := by
  fun_induction join sep rs with
  | case1 => simp [Text.join]
  | case2 r => simp [Text.join]
  | case3 r s rest ih => simp [ih, Text.join]

end Rope

end CloneScout
