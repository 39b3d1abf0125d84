import CloneScout.Proofs.Text.Basic
import CloneScout.Proofs.Text.Utf8

/-!
# Line feeds with a carriage return in front

A text keeps its lines and stays valid when a carriage return is put in front of every line feed.
What starts with a byte other than a line feed still does.
-/

namespace CloneScout.Text

/-- The text with a carriage return in front of every line feed. -/
def crlf (t : Text) : Text := t.flatMap fun b => if b = 10 then [13, 10] else [b]

variable {b : UInt8} {t : Text}

@[simp]
theorem crlf_nil : crlf [] = [] := rfl

@[simp]
theorem crlf_feed (t : Text) : crlf (10 :: t) = 13 :: 10 :: crlf t := rfl

theorem crlf_cons (h : b ≠ 10) (t : Text) : crlf (b :: t) = b :: crlf t := by
  rw [crlf, List.flatMap_cons, if_neg h]
  rfl

theorem crlf_append (s t : Text) : crlf (s ++ t) = crlf s ++ crlf t := List.flatMap_append

theorem crlf_of_not_mem (h : 10 ∉ t) : crlf t = t := by
  induction t with
  | nil => rfl
  | cons b t ih =>
    rw [List.mem_cons, not_or] at h
    rw [crlf_cons (Ne.symm h.1), ih h.2]

/-- The lines stay the same. -/
theorem count_crlf (t : Text) : (crlf t).count 10 = t.count 10 := by
  induction t with
  | nil => rfl
  | cons b t ih =>
    by_cases hb : b = 10
    · subst hb
      rw [crlf_feed, List.count_cons_of_ne (by decide), List.count_cons_self, List.count_cons_self,
        ih]
    · rw [crlf_cons hb, List.count_cons_of_ne hb, List.count_cons_of_ne hb, ih]

theorem length_le_crlf (t : Text) : t.length ≤ (crlf t).length := by
  induction t with
  | nil => exact Nat.le_refl _
  | cons b t ih =>
    by_cases hb : b = 10
    · subst hb
      rw [crlf_feed, List.length_cons, List.length_cons, List.length_cons]
      omega
    · rw [crlf_cons hb, List.length_cons, List.length_cons]
      omega

theorem take_crlf (t : Text) (n : Nat) :
    (crlf t).take (crlf (t.take n)).length = crlf (t.take n) := by
  conv => lhs; arg 2; rw [← List.take_append_drop n t, crlf_append]
  rw [List.take_left]

theorem drop_crlf (t : Text) (n : Nat) :
    (crlf t).drop (crlf (t.take n)).length = crlf (t.drop n) := by
  conv => lhs; arg 2; rw [← List.take_append_drop n t, crlf_append]
  rw [List.drop_left]

/-- The text starts as before with what holds neither of the two bytes. -/
theorem startsWith_crlf {start : Text} (h : 10 ∉ start) (h' : 13 ∉ start) (t : Text) :
    startsWith (crlf t) start = startsWith t start := by
  rw [Bool.eq_iff_iff, startsWith_iff, startsWith_iff]
  induction start generalizing t with
  | nil => exact iff_of_true List.nil_prefix List.nil_prefix
  | cons a start ih =>
    rw [List.mem_cons, not_or] at h h'
    cases t with
    | nil => exact Iff.rfl
    | cons b t =>
      by_cases hb : b = 10
      · -- neither text starts so
        subst hb
        rw [crlf_feed, List.cons_prefix_cons, List.cons_prefix_cons]
        exact iff_of_false (fun hstart => h'.1 hstart.1.symm) fun hstart => h.1 hstart.1.symm
      · rw [crlf_cons hb, List.cons_prefix_cons, List.cons_prefix_cons, ih h.2 h'.2]

theorem firstInvalid_crlf {i : Nat} (h : Utf8.firstInvalid i t = none) (j : Nat) :
    Utf8.firstInvalid j (crlf t) = none := by
  have hcontinues {b : UInt8} (hb : Utf8.isContinuation b = true) : b ≠ 10 := by
    rintro rfl
    exact absurd hb (by decide)
  have hascii {b : UInt8} (hb : b < 0x80) (j : Nat) (t : Text) :
      Utf8.firstInvalid j (b :: t) = Utf8.firstInvalid (j + 1) t := by
    rw [Utf8.firstInvalid.eq_def]
    simp only [hb, if_true]
  -- A line feed is no part of a longer character, so it is met where a character has one byte.
  fun_induction Utf8.firstInvalid i t generalizing j with
  | case1 => rfl
  | case2 i b0 t hb ih =>
    by_cases hfeed : b0 = 10
    · subst hfeed
      rw [crlf_feed, hascii (by decide), hascii (by decide)]
      exact ih h _
    · rw [crlf_cons hfeed, hascii hb]
      exact ih h _
  | case3 i b0 hb hlead b1 t hc ih =>
    have hfeed : b0 ≠ 10 := by rintro rfl; exact hb (by decide)
    rw [crlf_cons hfeed, crlf_cons (hcontinues hc), Utf8.firstInvalid.eq_def]
    simp only [hb, hlead, hc, if_true, if_false]
    exact ih h _
  | case6 i b0 hb hlead hlead' b1 b2 t hc ih =>
    have hfeed : b0 ≠ 10 := by rintro rfl; exact hb (by decide)
    have hforms := hc
    simp only [Bool.and_eq_true] at hforms
    rw [crlf_cons hfeed, crlf_cons (hcontinues hforms.1.1), crlf_cons (hcontinues hforms.1.2),
      Utf8.firstInvalid.eq_def]
    simp only [hb, hlead, hlead', hc, if_true, if_false]
    exact ih h _
  | case9 i b0 hb hlead hlead' hlead'' b1 b2 b3 t hc ih =>
    have hfeed : b0 ≠ 10 := by rintro rfl; exact hb (by decide)
    have hforms := hc
    simp only [Bool.and_eq_true] at hforms
    rw [crlf_cons hfeed, crlf_cons (hcontinues hforms.1.1.1), crlf_cons (hcontinues hforms.1.1.2),
      crlf_cons (hcontinues hforms.1.2), Utf8.firstInvalid.eq_def]
    simp only [hb, hlead, hlead', hlead'', hc, if_true, if_false]
    exact ih h _
  | _ => simp at h

theorem isValid_crlf (h : Utf8.isValid t = true) : Utf8.isValid (crlf t) = true :=
  Option.isNone_iff_eq_none.mpr (firstInvalid_crlf (Option.isNone_iff_eq_none.mp h) 0)

/-- The same unread text; in the second one a carriage return stands in front of every line feed,
or was already read. -/
inductive Returned : Text → Text → Prop where
  | all (t : Text) : Returned t (crlf t)
  | read (t : Text) : Returned (10 :: t) (10 :: crlf t)

namespace Returned

variable {t' : Text}

theorem nil_iff (h : Returned t t') : t' = [] ↔ t = [] := by
  cases h with
  | all =>
    refine ⟨fun hnil => ?_, fun hnil => by rw [hnil, crlf_nil]⟩
    have hle := length_le_crlf t
    rw [hnil] at hle
    exact List.length_eq_zero_iff.mp (Nat.le_zero.mp hle)
  | read => exact iff_of_false (List.cons_ne_nil _ _) (List.cons_ne_nil _ _)

theorem eq_crlf (h : Returned t t') (hfeed : t.head? ≠ some 10) : t' = crlf t := by
  cases h with
  | all => rfl
  | read => exact absurd rfl hfeed

theorem eq_feed (h : Returned (10 :: t) t') (hfeed : t'.head? = some 10) : t' = 10 :: crlf t := by
  generalize hs : 10 :: t = s at h
  cases h with
  | all =>
    rw [← hs, crlf_feed] at hfeed
    exact absurd (Option.some.inj hfeed) (by decide)
  | read =>
    obtain ⟨-, rfl⟩ := List.cons.inj hs
    rfl

/-- What is read up to a line feed at most is the same in both texts, but for a carriage return. -/
theorem dropWhile (h : Returned t t') {p : UInt8 → Bool} (hfeed : p 10 = false) :
    Returned (t.dropWhile p) (t'.dropWhile p) := by
  cases h with
  | read t =>
    rw [List.dropWhile_cons_of_neg (by simp [hfeed]), List.dropWhile_cons_of_neg (by simp [hfeed])]
    exact .read t
  | all =>
    induction t with
    | nil => exact .all []
    | cons b t ih =>
      by_cases hb : b = 10
      · subst hb
        rw [List.dropWhile_cons_of_neg (by simp [hfeed]), crlf_feed]
        -- If the carriage return is skipped, the line feed is next in both texts.
        cases hreturn : p 13 with
        | true =>
          rw [List.dropWhile_cons_of_pos hreturn, List.dropWhile_cons_of_neg (by simp [hfeed])]
          exact .read t
        | false =>
          rw [List.dropWhile_cons_of_neg (by simp [hreturn])]
          exact .all (10 :: t)
      · rw [crlf_cons hb]
        cases hp : p b with
        | true => rw [List.dropWhile_cons_of_pos hp, List.dropWhile_cons_of_pos hp]; exact ih
        | false =>
          rw [List.dropWhile_cons_of_neg (by simp [hp]), List.dropWhile_cons_of_neg (by simp [hp]),
            ← crlf_cons hb]
          exact .all (b :: t)

/-- The line feed is next if the carriage return in front of it was read with the rest. -/
theorem head?_dropWhile (h : Returned t t') {p : UInt8 → Bool} (hfeed : p 10 = false)
    (hreturn : p 13 = true) (hhead : (t.dropWhile p).head? = some 10) :
    (t'.dropWhile p).head? = some 10 := by
  obtain ⟨r, hr⟩ := List.head?_eq_some_iff.mp hhead
  have hdrop := h.dropWhile hfeed
  have hnot := List.head?_dropWhile_not p t'
  rw [hr] at hdrop
  generalize t'.dropWhile p = r' at hdrop hnot ⊢
  generalize hs : 10 :: r = s at hdrop
  cases hdrop with
  | all =>
    rw [← hs, crlf_feed, List.head?_cons] at hnot
    exact absurd (hreturn.symm.trans hnot) (by decide)
  | read => rfl

theorem head?_iff (h : Returned t t') (hfeed : b ≠ 10) (hreturn : b ≠ 13) :
    t'.head? = some b ↔ t.head? = some b := by
  cases h with
  | read => exact Iff.rfl
  | all =>
    rcases t with _ | ⟨c, t⟩
    · exact Iff.rfl
    by_cases hc : c = 10
    · subst hc
      refine iff_of_false (fun hhead => ?_) fun hhead => ?_
      · exact hreturn (Option.some.inj hhead).symm
      · exact hfeed (Option.some.inj hhead).symm
    · rw [crlf_cons hc]
      exact Iff.rfl

theorem head?_feed (h : Returned t t') (hhead : t'.head? = some 10) : t.head? = some 10 := by
  cases h with
  | read => rfl
  | all =>
    rcases t with _ | ⟨c, t⟩
    · exact hhead
    by_cases hc : c = 10
    · rw [hc]
      rfl
    · rw [crlf_cons hc] at hhead
      exact hhead

end Returned

end CloneScout.Text
