import CloneScout.Proofs.Text.Utf8
import CloneScout.Token.Template

/-!
# Code points of templates

The literal texts of a template and the texts of its fields are sequences of UTF-8 forms if the
template is one and every field is closed: a field is cut next to ASCII bytes only.
-/

namespace CloneScout.Template

open Utf8

/-! ## Fields -/

/-- The byte behind the first `n` is ASCII, or there is none. -/
def CutsAt (t : Text) (n : Nat) : Prop := ∀ b ∈ (t.drop n).head?, b < 0x80

theorem cutsAt_zero {b : UInt8} {t : Text} (h : b < 0x80) : CutsAt (b :: t) 0 := by
  intro c hc
  obtain rfl : b = c := by simpa using hc
  exact h

theorem cutsAt_of_head {t : Text} {n : Nat} {b : UInt8} (h : (t.drop n).head? = some b)
    (hb : b < 0x80) : CutsAt t n := by
  intro c hc
  obtain rfl : b = c := by simpa [h] using hc
  exact hb

/-- The expression of a field ends in front of a bracket, a colon, an exclamation mark or an equals
sign. -/
theorem cutsAt_exprLength (skip nest : Nat) (quote : Option Quote) (prev : UInt8) (t : Text) :
    CutsAt t (exprLength skip nest quote prev t).1 := by
  induction t generalizing skip nest quote prev with
  | nil => simp [CutsAt]
  | cons b t ih =>
    cases skip with
    | succ skip => exact ih skip nest quote b
    | zero =>
      cases quote with
      | some q =>
        simp only [exprLength]
        split
        · exact ih _ _ _ _
        · split
          · exact ih _ _ _ _
          · split
            · exact ih _ _ _ _
            · exact ih _ _ _ _
      | none =>
        simp only [exprLength]
        split
        · split
          · exact ih _ _ _ _
          · exact ih _ _ _ _
        · split
          · exact ih _ _ _ _
          · split
            · next hclose =>
              split
              · refine cutsAt_zero ?_
                simp only [Bool.or_eq_true, decide_eq_true_eq] at hclose
                rcases hclose with (rfl | rfl) | rfl <;> decide
              · exact ih _ _ _ _
            · split
              · exact ih _ _ _ _
              · split
                · next hstop =>
                  refine cutsAt_zero ?_
                  simp only [Bool.or_eq_true, Bool.and_eq_true, decide_eq_true_eq] at hstop
                  rcases hstop with ⟨rfl, -⟩ | rfl <;> decide
                · split
                  · next hequals =>
                    simp only [Bool.and_eq_true, decide_eq_true_eq] at hequals
                    rw [hequals.1.1.1.1.1]
                    exact cutsAt_zero (by decide)
                  · exact ih _ _ _ _

theorem cutsAt_formatLength (nest : Nat) (t : Text) : CutsAt t (formatLength nest t) := by
  induction t generalizing nest with
  | nil => simp [CutsAt]
  | cons b t ih =>
    rw [formatLength.eq_def]
    dsimp only
    split
    · exact ih _
    · split
      · next hclose =>
        cases nest with
        | zero => rw [hclose]; exact cutsAt_zero (by decide)
        | succ nest => exact ih _
      · exact ih _

/-- The texts of a field are sequences of forms. -/
structure Field.Lawful (f : Field) : Prop where
  expr : IsEncoded f.expr
  shown : ∀ t ∈ f.shown, IsEncoded t
  format : ∀ t ∈ f.format, IsEncoded t.2

def Segment.Lawful : Segment → Prop
  | .literal t => IsEncoded t
  | .field f => f.Lawful
  | .stray => True

theorem cutsAt_conversion {t : Text} {n : Nat} (h : CutsAt t (n + (conversion (t.drop n)).2)) :
    CutsAt t n := by
  unfold conversion at h
  split at h
  · next b rest heq =>
    split at h
    · next hmark => exact cutsAt_of_head (b := b) (by rw [heq]; rfl) (by rw [hmark]; decide)
    · exact h
  · exact h

theorem encoded_drop_succ {t : Text} {n : Nat} {b : UInt8} (h : IsEncoded t)
    (hn : (t.drop n).head? = some b) (hb : b < 0x80) : IsEncoded (t.drop (n + 1)) := by
  obtain ⟨rest, hrest⟩ := List.head?_eq_some_iff.mp hn
  have hcut := (h.cut (cutsAt_of_head hn hb)).2
  rw [hrest] at hcut
  rw [← List.drop_drop, hrest]
  exact hcut.of_cons hb

/-- A closed field is made of sequences of forms, and one follows it. -/
theorem field_lawful {offset : Nat} {t : Text} (h : IsEncoded t)
    (hclosed : (field offset t).1.closed = true) :
    (field offset t).1.Lawful ∧ IsEncoded (t.drop (field offset t).2) := by
  have hexpr := cutsAt_exprLength 0 0 none 0 t
  unfold field at hclosed ⊢
  dsimp only at hclosed ⊢
  generalize exprLength 0 0 none 0 t = e at hexpr hclosed ⊢
  obtain ⟨n, shows⟩ := e
  dsimp only at hexpr hclosed ⊢
  generalize (if shows = true then n + 1 + ((t.drop (n + 1)).takeWhile Text.isSpace).length else n)
    = shownLength at hclosed ⊢
  have hshown := cutsAt_conversion (t := t) (n := shownLength)
  generalize shownLength + (conversion (t.drop shownLength)).2 = behind at hshown hclosed ⊢
  rw [if_pos hclosed]
  rw [decide_eq_true_eq] at hclosed
  have hnext := encoded_drop_succ h hclosed (by decide)
  -- without a format the field is closed behind its conversion, otherwise behind its format
  by_cases hcolon : (t.drop behind).head? = some (ascii ':')
  · have hbehind := hshown (cutsAt_of_head hcolon (by decide))
    have hrest : IsEncoded ((t.drop behind).drop 1) := by
      rw [List.drop_drop]
      exact encoded_drop_succ h hcolon (by decide)
    refine ⟨⟨(h.cut hexpr).1, ?_, ?_⟩, hnext⟩
    · intro s hs
      split at hs
      · obtain rfl := Option.some.inj hs
        exact (h.cut hbehind).1
      · exact absurd hs (by simp)
    · intro s hs
      rw [if_pos hcolon] at hs
      obtain rfl := Option.some.inj hs
      exact (hrest.cut (cutsAt_formatLength 0 _)).1
  · rw [if_neg hcolon] at hclosed
    have hbehind := hshown (cutsAt_of_head hclosed (by decide))
    refine ⟨⟨(h.cut hexpr).1, ?_, ?_⟩, hnext⟩
    · intro s hs
      split at hs
      · obtain rfl := Option.some.inj hs
        exact (h.cut hbehind).1
      · exact absurd hs (by simp)
    · rw [if_neg hcolon]
      simp

/-! ## Segments -/

/-- Literal text in front of an ASCII byte is a sequence of forms. -/
theorem flush_lawful {lit rest : Text} {b : UInt8} (h : IsEncoded (lit.reverse ++ b :: rest))
    (hb : b < 0x80) : IsEncoded lit.reverse ∧ IsEncoded rest := by
  obtain ⟨hlit, hrest⟩ := h.split (by simpa using isContinuation_of_lt hb)
  exact ⟨hlit, hrest.of_cons hb⟩

theorem mem_flush {lit : Text} {s : Segment} (hlit : IsEncoded lit.reverse) (hs : s ∈ flush lit) :
    s.Lawful := by
  unfold flush at hs
  split at hs
  · exact absurd hs (by simp)
  · obtain rfl := List.mem_singleton.mp hs
    exact hlit

/-- What is read as literal text keeps the text as it was. -/
theorem encoded_take {lit t : Text} (k : Nat) (h : IsEncoded (lit.reverse ++ t)) :
    IsEncoded (((t.take k).reverse ++ lit).reverse ++ t.drop k) := by
  rw [List.reverse_append, List.reverse_reverse, List.append_assoc, List.take_append_drop]
  exact h

/-- The segments of a text are sequences of forms if every field in it is closed. -/
theorem segmentsFrom_lawful {raw : Bool} {n offset : Nat} {lit t : Text} (hn : t.length ≤ n)
    (h : IsEncoded (lit.reverse ++ t))
    (hclosed : ∀ f, .field f ∈ segmentsFrom raw n offset lit t → f.closed = true) :
    ∀ s ∈ segmentsFrom raw n offset lit t, s.Lawful := by
  induction n generalizing offset lit t with
  | zero =>
    rw [List.length_eq_zero_iff.mp (Nat.le_zero.mp hn)] at h ⊢
    rw [List.append_nil] at h
    exact fun s => mem_flush h
  | succ n ih =>
    cases t with
    | nil =>
      rw [List.append_nil] at h
      exact fun s => mem_flush h
    | cons b t =>
      rw [List.length_cons] at hn
      have htake (k : Nat) (add : Text) (hk : 0 < k)
          (hadd : IsEncoded ((add.reverse ++ lit).reverse ++ (b :: t).drop k)) :
          (∀ f, .field f ∈ segmentsFrom raw n (offset + k) (add.reverse ++ lit) ((b :: t).drop k) →
            f.closed = true) →
          ∀ s ∈ segmentsFrom raw n (offset + k) (add.reverse ++ lit) ((b :: t).drop k),
            s.Lawful := by
        refine ih ?_ hadd
        rw [List.length_drop, List.length_cons]
        omega
      revert hclosed
      simp only [segmentsFrom]
      split
      · next hb =>
        subst hb
        obtain ⟨hlit, hrest⟩ := flush_lawful h (by decide)
        split
        · next hdouble =>
          obtain ⟨rest, rfl⟩ := List.head?_eq_some_iff.mp hdouble
          refine htake 2 [closeBrace] (by decide) ?_
          rw [List.reverse_append]
          exact (hlit.append (.ascii (by decide))).append (hrest.of_cons (by decide))
        · intro hclosed s hs
          rcases List.mem_cons.mp hs with rfl | hs
          · trivial
          · exact htake 1 [] (by decide) (hlit.append hrest)
              (fun f hf => hclosed f (List.mem_cons_of_mem _ hf)) s hs
      · split
        · split
          · next k hk =>
            refine htake k _ ?_ (encoded_take k h)
            unfold namedLength? at hk
            split at hk
            · obtain rfl := Option.some.inj hk
              simp only [List.length_cons]
              omega
            · exact absurd hk (by simp)
          · split
            · exact htake 1 [b] (by decide) (encoded_take 1 h)
            · exact htake 2 _ (by decide) (encoded_take 2 h)
        · split
          · exact htake 1 [b] (by decide) (encoded_take 1 h)
          · next hb =>
            obtain rfl := Decidable.of_not_not hb
            obtain ⟨hlit, hrest⟩ := flush_lawful h (by decide)
            split
            · next hdouble =>
              obtain ⟨rest, rfl⟩ := List.head?_eq_some_iff.mp hdouble
              refine htake 2 [openBrace] (by decide) ?_
              rw [List.reverse_append]
              exact (hlit.append (.ascii (by decide))).append (hrest.of_cons (by decide))
            · intro hclosed s hs
              have hfield := field_lawful hrest
                (hclosed _ (List.mem_append_right _ (List.mem_cons_self ..)))
              rcases List.mem_append.mp hs with hs | hs
              · exact mem_flush hlit hs
              · rcases List.mem_cons.mp hs with rfl | hs
                · exact hfield.1
                · refine ih ?_ hfield.2 (fun f hf => hclosed f
                    (List.mem_append_right _ (List.mem_cons_of_mem _ hf))) s hs
                  rw [List.length_drop]
                  omega

theorem segments_lawful {raw : Bool} {t : Text} (h : IsEncoded t)
    (hclosed : ∀ f, .field f ∈ segments raw t → f.closed = true) :
    ∀ s ∈ segments raw t, s.Lawful :=
  segmentsFrom_lawful (Nat.le_refl _) h hclosed

end CloneScout.Template
