import CloneScout.Proofs.Text.Utf8
import CloneScout.Token.Lexer
import Mathlib.Order.Bounds.Basic

/-!
# Valid source texts

A source text is read if and only if it is made of the UTF-8 encodings of Unicode scalar values. Of
any other text only its end is read, and the first byte behind its longest part that is made of such
encodings is reported, once.
-/

namespace CloneScout.Utf8

/-- The text is made of the UTF-8 encodings of Unicode scalar values. -/
def IsScalars (t : Text) : Prop := ∃ cs : List Char, t = cs.flatMap String.utf8EncodeChar

theorem IsScalars.nil : IsScalars [] := ⟨[], rfl⟩

theorem IsScalars.cons {form t : Text} (hform : ∃ c : Char, String.utf8EncodeChar c = form)
    (ht : IsScalars t) : IsScalars (form ++ t) := by
  obtain ⟨c, rfl⟩ := hform
  obtain ⟨cs, rfl⟩ := ht
  exact ⟨c :: cs, List.flatMap_cons.symm⟩

/-! ## The form of a scalar value -/

theorem encode_val (c : Char) : encode c.val.toNat = String.utf8EncodeChar c := by
  have hlt : c.val.toNat < 0x110000 := by
    have hvalid := c.valid
    simp only [UInt32.isValidChar, Nat.isValidChar] at hvalid
    omega
  unfold encode String.utf8EncodeChar
  dsimp only
  -- the standard library cuts the part in each lead byte to its width, which loses nothing
  by_cases h1 : c.val.toNat < 0x80
  · rw [if_pos h1, if_pos (by omega : c.val.toNat ≤ 0x7F)]
  rw [if_neg h1, if_neg (by omega : ¬ c.val.toNat ≤ 0x7F)]
  by_cases h2 : c.val.toNat < 0x800
  · rw [if_pos h2, if_pos (by omega : c.val.toNat ≤ 0x7FF),
      Nat.mod_eq_of_lt (by omega : c.val.toNat / 64 < 32)]
    simp only [Nat.add_comm]
  rw [if_neg h2, if_neg (by omega : ¬ c.val.toNat ≤ 0x7FF)]
  by_cases h3 : c.val.toNat < 0x10000
  · rw [if_pos h3, if_pos (by omega : c.val.toNat ≤ 0xFFFF),
      Nat.mod_eq_of_lt (by omega : c.val.toNat / 4096 < 16)]
    simp only [Nat.add_comm]
  · rw [if_neg h3, if_neg (by omega : ¬ c.val.toNat ≤ 0xFFFF),
      Nat.mod_eq_of_lt (by omega : c.val.toNat / 262144 < 8)]
    simp only [Nat.add_comm]

/-- Surrogates are the forms of three bytes that are ruled out behind the lead byte `0xED`. -/
theorem isForbidden_of_surrogate {cp : Nat} (hlow : 0xD800 ≤ cp) (hhigh : cp < 0xE000) :
    ∃ b1 b2, encode cp = [0xED, b1, b2] ∧ isForbidden 0xED b1 = true := by
  have hlead : 0xE0 + cp / 4096 = 0xED := by omega
  have hsecond : 0xA0 ≤ UInt8.ofNat (0x80 + cp / 64 % 64) := by
    rw [UInt8.le_iff_toNat_le, UInt8.toNat_ofNat_of_lt' (by show _ < 256; omega)]
    show 160 ≤ _
    omega
  refine ⟨UInt8.ofNat (0x80 + cp / 64 % 64), UInt8.ofNat (0x80 + cp % 64), ?_, ?_⟩
  · unfold encode
    rw [if_neg (by omega), if_neg (by omega), if_pos (by omega), hlead]
    rfl
  · generalize UInt8.ofNat (0x80 + cp / 64 % 64) = b1 at hsecond
    simp [isForbidden, hsecond]

/-- A form that is no surrogate's belongs to a scalar value. -/
theorem exists_char_of_encode {form : Text} (h : ∃ cp, cp < 0x110000 ∧ encode cp = form)
    (hallowed : ∀ b1 b2, form = [0xED, b1, b2] → isForbidden 0xED b1 = false) :
    ∃ c : Char, String.utf8EncodeChar c = form := by
  obtain ⟨cp, hlt, rfl⟩ := h
  have hscalar : ¬ (0xD800 ≤ cp ∧ cp < 0xE000) := by
    rintro ⟨hlow, hhigh⟩
    obtain ⟨b1, b2, heq, hforbidden⟩ := isForbidden_of_surrogate hlow hhigh
    have hno := hallowed b1 b2 heq
    rw [hforbidden] at hno
    exact Bool.noConfusion hno
  have hvalid : cp.isValidChar := by
    unfold Nat.isValidChar
    omega
  have hval : (Char.ofNat cp).val.toNat = cp := by
    rw [Char.ofNat, dif_pos hvalid]
    exact UInt32.toNat_ofNatLT
  exact ⟨Char.ofNat cp, by rw [← encode_val, hval]⟩

/-- The byte sequences that validation goes past in one step. -/
inductive IsForm : Text → Prop where
  | one {b0 : UInt8} (h0 : b0 < 0x80) : IsForm [b0]
  | two {b0 b1 : UInt8} (hlow : 0xC2 ≤ b0) (hhigh : b0 ≤ 0xDF) (h1 : isContinuation b1 = true) :
      IsForm [b0, b1]
  | three {b0 b1 b2 : UInt8} (hlow : 0xE0 ≤ b0) (hhigh : b0 ≤ 0xEF)
      (h1 : isContinuation b1 = true) (h2 : isContinuation b2 = true)
      (hallowed : isForbidden b0 b1 = false) : IsForm [b0, b1, b2]
  | four {b0 b1 b2 b3 : UInt8} (hlow : 0xF0 ≤ b0) (hhigh : b0 ≤ 0xF4)
      (h1 : isContinuation b1 = true) (h2 : isContinuation b2 = true)
      (h3 : isContinuation b3 = true) (hallowed : isForbidden b0 b1 = false) :
      IsForm [b0, b1, b2, b3]

theorem IsForm.exists_char {form : Text} (h : IsForm form) :
    ∃ c : Char, String.utf8EncodeChar c = form := by
  cases h with
  | @one b0 h0 =>
    have hlt : b0.toNat < 0x80 := h0
    refine exists_char_of_encode ⟨b0.toNat, by omega, ?_⟩ (by simp)
    rw [encode, if_pos hlt, UInt8.ofNat_toNat]
  | two hlow hhigh h1 => exact exists_char_of_encode (encode_two hlow hhigh h1) (by simp)
  | three hlow hhigh h1 h2 hallowed =>
    refine exists_char_of_encode (encode_three hlow hhigh h1 h2 hallowed) fun c1 c2 heq => ?_
    obtain ⟨rfl, rfl, rfl⟩ := by simpa using heq
    exact hallowed
  | four hlow hhigh h1 h2 h3 hallowed =>
    exact exists_char_of_encode (encode_four hlow hhigh h1 h2 h3 hallowed) (by simp)

theorem le_ofNat {n : Nat} (hn : n < 256) {b : UInt8} : b ≤ UInt8.ofNat n ↔ b.toNat ≤ n := by
  rw [UInt8.le_iff_toNat_le, UInt8.toNat_ofNat_of_lt' hn]

theorem ofNat_le {n : Nat} (hn : n < 256) {b : UInt8} : UInt8.ofNat n ≤ b ↔ n ≤ b.toNat := by
  rw [UInt8.le_iff_toNat_le, UInt8.toNat_ofNat_of_lt' hn]

/-- What is ruled out behind a lead byte, by the numbers of both bytes. -/
theorem isForbidden_eq_false_iff {b0 b1 : UInt8} : isForbidden b0 b1 = false ↔
    (b0.toNat = 0xE0 → 0xA0 ≤ b1.toNat) ∧ (b0.toNat = 0xED → b1.toNat < 0xA0) ∧
      (b0.toNat = 0xF0 → 0x90 ≤ b1.toNat) ∧ (b0.toNat = 0xF4 → b1.toNat ≤ 0x8F) := by
  simp only [isForbidden, Bool.or_eq_false_iff, Bool.and_eq_false_iff, decide_eq_false_iff_not,
    ← UInt8.toNat_inj, UInt8.lt_iff_toNat_lt, UInt8.le_iff_toNat_le, UInt8.reduceToNat]
  omega

theorem isForm_utf8EncodeChar (c : Char) : IsForm (String.utf8EncodeChar c) := by
  have hvalid := c.valid
  simp only [UInt32.isValidChar, Nat.isValidChar] at hvalid
  rw [← encode_val]
  generalize c.val.toNat = n at hvalid
  unfold encode
  by_cases h1 : n < 0x80
  · rw [if_pos h1]
    apply IsForm.one
    rw [UInt8.lt_iff_toNat_lt, UInt8.toNat_ofNat_of_lt' (by show n < 256; omega)]
    exact h1
  rw [if_neg h1]
  by_cases h2 : n < 0x800
  · rw [if_pos h2]
    have hlead : 0xC0 + n / 64 < 256 := by omega
    apply IsForm.two
    · rw [le_ofNat hlead]
      show 0xC2 ≤ _
      omega
    · rw [ofNat_le hlead]
      show _ ≤ 0xDF
      omega
    · exact isContinuation_tail _
  rw [if_neg h2]
  by_cases h3 : n < 0x10000
  · rw [if_pos h3]
    have hlead : 0xE0 + n / 4096 < 256 := by omega
    apply IsForm.three
    · rw [le_ofNat hlead]
      show 0xE0 ≤ _
      omega
    · rw [ofNat_le hlead]
      show _ ≤ 0xEF
      omega
    · exact isContinuation_tail _
    · exact isContinuation_tail _
    · rw [isForbidden_eq_false_iff, UInt8.toNat_ofNat_of_lt' hlead,
        UInt8.toNat_ofNat_of_lt' (by show _ < 256; omega)]
      omega
  · rw [if_neg h3]
    have hlead : 0xF0 + n / 262144 < 256 := by omega
    apply IsForm.four
    · rw [le_ofNat hlead]
      show 0xF0 ≤ _
      omega
    · rw [ofNat_le hlead]
      show _ ≤ 0xF4
      omega
    · exact isContinuation_tail _
    · exact isContinuation_tail _
    · exact isContinuation_tail _
    · rw [isForbidden_eq_false_iff, UInt8.toNat_ofNat_of_lt' hlead,
        UInt8.toNat_ofNat_of_lt' (by show _ < 256; omega)]
      omega

/-! ## Validation -/

/-- The faulty byte does not stand in front of the text. -/
theorem le_of_firstInvalid {i offset : Nat} {t : Text} (h : firstInvalid i t = some offset) :
    i ≤ offset := by
  fun_induction firstInvalid i t with
  | case1 => exact absurd h (by simp)
  | case2 i b0 t hb ih => exact Nat.le_of_succ_le (ih h)
  | case3 i b0 hb hlead b1 t hc ih => exact Nat.le_trans (Nat.le_add_right i 2) (ih h)
  | case6 i b0 hb hlead hlead' b1 b2 t hc ih => exact Nat.le_trans (Nat.le_add_right i 3) (ih h)
  | case9 i b0 hb hlead hlead' hlead'' b1 b2 b3 t hc ih =>
    exact Nat.le_trans (Nat.le_add_right i 4) (ih h)
  | _ => exact Nat.le_of_eq (Option.some.inj h)

theorem not_lt_of_le {a b m : UInt8} (hm : m ≤ a) (ha : a ≤ b) : ¬ b < m := by
  rw [UInt8.le_iff_toNat_le] at hm ha
  rw [UInt8.lt_iff_toNat_lt]
  omega

theorem not_le_of_le {a b m : UInt8} (hm : m < a) (ha : a ≤ b) : ¬ b ≤ m := by
  rw [UInt8.lt_iff_toNat_lt] at hm
  rw [UInt8.le_iff_toNat_le] at ha ⊢
  omega

/-- Validation goes past a form. -/
theorem firstInvalid_form {form : Text} (h : IsForm form) (i : Nat) (t : Text) :
    firstInvalid i (form ++ t) = firstInvalid (i + form.length) t := by
  cases h with
  | @one b0 h0 =>
    show firstInvalid i (b0 :: t) = firstInvalid (i + 1) t
    rw [firstInvalid.eq_def]
    simp only [h0, if_true]
  | @two b0 b1 hlow hhigh h1 =>
    show firstInvalid i (b0 :: b1 :: t) = firstInvalid (i + 2) t
    have hascii : ¬ b0 < 0x80 := not_lt_of_le (by decide) hlow
    rw [firstInvalid.eq_def]
    simp only [hascii, hlow, hhigh, h1, if_true, if_false, decide_true, Bool.and_self]
  | @three b0 b1 b2 hlow hhigh h1 h2 hallowed =>
    show firstInvalid i (b0 :: b1 :: b2 :: t) = firstInvalid (i + 3) t
    have hascii : ¬ b0 < 0x80 := not_lt_of_le (by decide) hlow
    have htwo : ¬ b0 ≤ 0xDF := not_le_of_le (by decide) hlow
    rw [firstInvalid.eq_def]
    simp only [hascii, htwo, hlow, hhigh, h1, h2, hallowed, if_true, if_false, decide_true,
      decide_false, Bool.and_self, Bool.and_false, Bool.not_false, Bool.false_eq_true]
  | @four b0 b1 b2 b3 hlow hhigh h1 h2 h3 hallowed =>
    show firstInvalid i (b0 :: b1 :: b2 :: b3 :: t) = firstInvalid (i + 4) t
    have hascii : ¬ b0 < 0x80 := not_lt_of_le (by decide) hlow
    have htwo : ¬ b0 ≤ 0xDF := not_le_of_le (by decide) hlow
    have hthree : ¬ b0 ≤ 0xEF := not_le_of_le (by decide) hlow
    rw [firstInvalid.eq_def]
    simp only [hascii, htwo, hthree, hlow, hhigh, h1, h2, h3, hallowed, if_true, if_false,
      decide_true, decide_false, Bool.and_self, Bool.and_false, Bool.not_false, Bool.false_eq_true]

theorem firstInvalid_scalars (i : Nat) {s : Text} (hs : IsScalars s) (t : Text) :
    firstInvalid i (s ++ t) = firstInvalid (i + s.length) t := by
  obtain ⟨cs, rfl⟩ := hs
  induction cs generalizing i with
  | nil => rfl
  | cons c cs ih =>
    rw [List.flatMap_cons, List.append_assoc, firstInvalid_form (isForm_utf8EncodeChar c), ih,
      List.length_append, Nat.add_assoc]

/-- What validation has gone past is made of encodings of scalar values. -/
theorem exists_scalars_of_firstInvalid (i : Nat) (t : Text) :
    ∃ s u, t = s ++ u ∧ IsScalars s ∧
      ((firstInvalid i t = none ∧ u = []) ∨ (firstInvalid i t = some (i + s.length) ∧ u ≠ [])) := by
  -- one step: what holds of the text behind a form holds of the form and that text
  have hstep {form t : Text} {i : Nat} (hform : IsForm form)
      (ih : ∃ s u, t = s ++ u ∧ IsScalars s ∧
        ((firstInvalid (i + form.length) t = none ∧ u = []) ∨
          (firstInvalid (i + form.length) t = some (i + form.length + s.length) ∧ u ≠ []))) :
      ∃ s u, form ++ t = s ++ u ∧ IsScalars s ∧
        ((firstInvalid (i + form.length) t = none ∧ u = []) ∨
          (firstInvalid (i + form.length) t = some (i + s.length) ∧ u ≠ [])) := by
    obtain ⟨s, u, rfl, hs, h⟩ := ih
    refine ⟨form ++ s, u, (List.append_assoc form s u).symm, hs.cons hform.exists_char, ?_⟩
    rwa [List.length_append, ← Nat.add_assoc]
  fun_induction firstInvalid i t with
  | case1 => exact ⟨[], [], rfl, .nil, .inl ⟨rfl, rfl⟩⟩
  | case2 i b0 t hb ih => exact hstep (.one hb) ih
  | case3 i b0 hb hlead b1 t hc ih =>
    simp only [Bool.and_eq_true, decide_eq_true_eq] at hlead
    exact hstep (.two hlead.1 hlead.2 hc) ih
  | case6 i b0 hb _ hlead b1 b2 t hc ih =>
    simp only [Bool.and_eq_true, decide_eq_true_eq, Bool.not_eq_true'] at hlead hc
    exact hstep (.three hlead.1 hlead.2 hc.1.1 hc.1.2 hc.2) ih
  | case9 i b0 hb _ _ hlead b1 b2 b3 t hc ih =>
    simp only [Bool.and_eq_true, decide_eq_true_eq, Bool.not_eq_true'] at hlead hc
    exact hstep (.four hlead.1 hlead.2 hc.1.1.1 hc.1.1.2 hc.1.2 hc.2) ih
  | _ => exact ⟨[], _, rfl, .nil, .inr ⟨rfl, List.cons_ne_nil _ _⟩⟩

/-- Validation succeeds on exactly the texts that are made of encodings of scalar values. -/
theorem firstInvalid_eq_none_iff {t : Text} : firstInvalid 0 t = none ↔ IsScalars t := by
  constructor
  · intro h
    obtain ⟨s, u, rfl, hs, ⟨-, rfl⟩ | ⟨hsome, -⟩⟩ := exists_scalars_of_firstInvalid 0 t
    · rwa [List.append_nil]
    · rw [h] at hsome
      exact absurd hsome (by simp)
  · intro h
    have hnone := firstInvalid_scalars 0 h []
    rwa [List.append_nil] at hnone

instance decidableIsScalars (t : Text) : Decidable (IsScalars t) :=
  decidable_of_iff (firstInvalid 0 t = none) firstInvalid_eq_none_iff

/-- When validation fails it names the length of the longest valid part in front. -/
theorem isGreatest_of_firstInvalid {t : Text} {offset : Nat} (h : firstInvalid 0 t = some offset) :
    IsGreatest {n | ∃ s, s <+: t ∧ IsScalars s ∧ s.length = n} offset := by
  constructor
  · obtain ⟨s, u, rfl, hs, ⟨hnone, -⟩ | ⟨hsome, -⟩⟩ := exists_scalars_of_firstInvalid 0 t
    · rw [h] at hnone
      exact absurd hnone (by simp)
    · rw [h, Nat.zero_add] at hsome
      exact ⟨s, List.prefix_append s u, hs, (Option.some.inj hsome).symm⟩
  · rintro n ⟨s, ⟨u, rfl⟩, hs, rfl⟩
    rw [firstInvalid_scalars 0 hs u, Nat.zero_add] at h
    exact le_of_firstInvalid h

end CloneScout.Utf8

namespace CloneScout.Token

open Utf8

/-- A surrogate behind a letter of two bytes. -/
example : ¬ IsScalars [0xC3, 0xA9, 0xED, 0xA0, 0x80] := by decide

end CloneScout.Token
