import CloneScout.Text.Utf8

/-!
# Sequences of UTF-8 forms

A text made of UTF-8 forms falls apart into such texts wherever the next byte is no continuation
byte. So it may be cut in front of any ASCII byte. Every valid text is made of forms, and the code
points of such a text are read back from it.
-/

namespace CloneScout.Utf8

/-! ## Bytes of a form -/

theorem isContinuation_ofNat {n : Nat} (h : n < 256) :
    isContinuation (UInt8.ofNat n) = true ↔ 0x80 ≤ n ∧ n < 0xC0 := by
  revert n
  decide +kernel

theorem isContinuation_iff {b : UInt8} :
    isContinuation b = true ↔ 0x80 ≤ b.toNat ∧ b.toNat < 0xC0 := by
  have hb : UInt8.ofNat b.toNat = b := UInt8.ofNat_toNat
  rw [← isContinuation_ofNat b.toNat_lt, hb]

theorem isContinuation_of_lt {b : UInt8} (h : b < 0x80) : isContinuation b = false := by
  rw [Bool.eq_false_iff]
  intro hb
  have hle := (isContinuation_iff.mp hb).1
  have hlt : b.toNat < 0x80 := h
  omega

theorem isContinuation_tail (n : Nat) : isContinuation (UInt8.ofNat (0x80 + n % 64)) = true := by
  rw [isContinuation_ofNat (by omega)]
  omega

/-- A form starts with a byte that is no continuation byte, and goes on with such bytes. It is a
single byte if and only if the first one is ASCII. -/
theorem encode_eq_cons {cp : Nat} (h : cp < 0x110000) :
    ∃ b tail, encode cp = b :: tail ∧ isContinuation b = false ∧
      (∀ c ∈ tail, isContinuation c = true) ∧ (b < 0x80 → tail = [] ∧ b.toNat = cp) := by
  have hlead (n : Nat) (hlow : 0xC0 ≤ n) (hhigh : n < 0x100) :
      isContinuation (UInt8.ofNat n) = false ∧ ¬ UInt8.ofNat n < 0x80 := by
    refine ⟨?_, ?_⟩
    · rw [Bool.eq_false_iff, Ne, isContinuation_ofNat hhigh]
      omega
    · rw [UInt8.lt_iff_toNat_lt, UInt8.toNat_ofNat_of_lt' hhigh]
      show ¬ n < 128
      omega
  by_cases h1 : cp < 0x80
  · have hcp : (UInt8.ofNat cp).toNat = cp := UInt8.toNat_ofNat_of_lt' (show cp < 256 by omega)
    refine ⟨UInt8.ofNat cp, [], by rw [encode, if_pos h1], isContinuation_of_lt ?_, by simp,
      fun _ => ⟨rfl, hcp⟩⟩
    rw [UInt8.lt_iff_toNat_lt, hcp]
    exact h1
  · by_cases h2 : cp < 0x800
    · obtain ⟨hhead, hlt⟩ := hlead (0xC0 + cp / 64) (by omega) (by omega)
      refine ⟨_, _, by rw [encode, if_neg h1, if_pos h2], hhead, ?_, fun h => absurd h hlt⟩
      simp only [List.mem_cons, List.not_mem_nil, or_false, forall_eq, isContinuation_tail]
    · by_cases h3 : cp < 0x10000
      · obtain ⟨hhead, hlt⟩ := hlead (0xE0 + cp / 4096) (by omega) (by omega)
        refine ⟨_, _, by rw [encode, if_neg h1, if_neg h2, if_pos h3], hhead, ?_,
          fun h => absurd h hlt⟩
        simp only [List.mem_cons, List.not_mem_nil, or_false, forall_eq_or_imp, forall_eq,
          isContinuation_tail, and_self]
      · obtain ⟨hhead, hlt⟩ := hlead (0xF0 + cp / 262144) (by omega) (by omega)
        refine ⟨_, _, by rw [encode, if_neg h1, if_neg h2, if_neg h3], hhead, ?_,
          fun h => absurd h hlt⟩
        simp only [List.mem_cons, List.not_mem_nil, or_false, forall_eq_or_imp, forall_eq,
          isContinuation_tail, and_self]

/-! ## Sequences of forms -/

/-- The text is made of the UTF-8 forms of code points, those of surrogates included. -/
def IsEncoded (t : Text) : Prop :=
  ∃ cps : List Nat, (∀ cp ∈ cps, cp < 0x110000) ∧ t = cps.flatMap encode

namespace IsEncoded

theorem nil : IsEncoded [] := ⟨[], by simp, rfl⟩

theorem encode {cp : Nat} (h : cp < 0x110000) : IsEncoded (Utf8.encode cp) :=
  ⟨[cp], by simpa using h, by simp⟩

theorem append {s t : Text} (hs : IsEncoded s) (ht : IsEncoded t) : IsEncoded (s ++ t) := by
  obtain ⟨cps, hcps, rfl⟩ := hs
  obtain ⟨cps', hcps', rfl⟩ := ht
  refine ⟨cps ++ cps', fun cp hcp => ?_, by rw [List.flatMap_append]⟩
  rcases List.mem_append.mp hcp with hcp | hcp
  · exact hcps cp hcp
  · exact hcps' cp hcp

theorem ascii {b : UInt8} (h : b < 0x80) : IsEncoded [b] := by
  have hlt : b.toNat < 0x80 := h
  have hb : Utf8.encode b.toNat = [b] := by
    rw [Utf8.encode, if_pos hlt, UInt8.ofNat_toNat]
  rw [← hb]
  exact encode (by omega)

theorem cons_ascii {b : UInt8} {t : Text} (h : b < 0x80) (ht : IsEncoded t) :
    IsEncoded (b :: t) :=
  (ascii h).append ht

theorem of_ascii {t : Text} (h : ∀ b ∈ t, b < 0x80) : IsEncoded t := by
  induction t with
  | nil => exact nil
  | cons b t ih =>
    obtain ⟨hb, ht⟩ := List.forall_mem_cons.mp h
    exact cons_ascii hb (ih ht)

/-- A text may be cut where the next byte is no continuation byte. -/
theorem split {s t : Text} (h : IsEncoded (s ++ t))
    (ht : ∀ b ∈ t.head?, isContinuation b = false) : IsEncoded s ∧ IsEncoded t := by
  obtain ⟨cps, hcps, heq⟩ := h
  induction cps generalizing s with
  | nil =>
    obtain ⟨rfl, rfl⟩ := List.append_eq_nil_iff.mp heq
    exact ⟨nil, nil⟩
  | cons cp cps ih =>
    obtain ⟨hcp, hrest⟩ := List.forall_mem_cons.mp hcps
    rw [List.flatMap_cons, List.append_eq_append_iff] at heq
    -- the cut is behind the first form or inside it
    rcases heq with ⟨c, hform, ht'⟩ | ⟨c, rfl, hcut⟩
    · obtain ⟨b, tail, hb, -, hcont, -⟩ := encode_eq_cons hcp
      have hrestEncoded : IsEncoded (cps.flatMap Utf8.encode) := ⟨cps, hrest, rfl⟩
      rcases s with _ | ⟨b', s⟩
      · rw [List.nil_append] at hform
        rw [ht', ← hform]
        exact ⟨nil, (encode hcp).append hrestEncoded⟩
      · rw [hb, List.cons_append] at hform
        rcases c with _ | ⟨c₀, c⟩
        · rw [List.append_nil] at hform
          rw [List.nil_append] at ht'
          rw [← hform, ← hb, ht']
          exact ⟨encode hcp, hrestEncoded⟩
        · have hmem : c₀ ∈ tail := by
            rw [(List.cons.inj hform).2]
            simp
          have hnot : isContinuation c₀ = false := ht c₀ (by rw [ht']; rfl)
          exact absurd (hcont c₀ hmem) (by simp [hnot])
    · obtain ⟨hs, ht⟩ := ih hrest hcut.symm
      exact ⟨(encode hcp).append hs, ht⟩

/-- An ASCII byte may be taken off. -/
theorem of_cons {b : UInt8} {t : Text} (h : IsEncoded (b :: t)) (hb : b < 0x80) : IsEncoded t := by
  obtain ⟨cps, hcps, heq⟩ := h
  cases cps with
  | nil => exact absurd heq (by simp)
  | cons cp cps =>
    obtain ⟨hcp, hrest⟩ := List.forall_mem_cons.mp hcps
    obtain ⟨b', tail, hform, -, -, hascii⟩ := encode_eq_cons hcp
    rw [List.flatMap_cons, hform, List.cons_append] at heq
    obtain ⟨rfl, ht⟩ := List.cons.inj heq
    rw [(hascii hb).1, List.nil_append] at ht
    exact ⟨cps, hrest, ht⟩

/-- ASCII bytes in front may be taken off. -/
theorem of_append {s t : Text} (h : IsEncoded (s ++ t)) (hs : ∀ b ∈ s, b < 0x80) :
    IsEncoded t := by
  induction s with
  | nil => exact h
  | cons b s ih =>
    obtain ⟨hb, hs⟩ := List.forall_mem_cons.mp hs
    exact ih (h.of_cons hb) hs

theorem drop {t : Text} (h : IsEncoded t) {n : Nat} (hn : ∀ b ∈ t.take n, b < 0x80) :
    IsEncoded (t.drop n) := by
  rw [← List.take_append_drop n t] at h
  exact h.of_append hn

/-- A text may be cut in front of an ASCII byte or at its end. -/
theorem cut {t : Text} (h : IsEncoded t) {n : Nat} (hn : ∀ b ∈ (t.drop n).head?, b < 0x80) :
    IsEncoded (t.take n) ∧ IsEncoded (t.drop n) := by
  rw [← List.take_append_drop n t] at h
  exact h.split fun b hb => isContinuation_of_lt (hn b hb)

end IsEncoded

/-! ## Valid texts -/

theorem encode_two {b0 b1 : UInt8} (h0 : 0xC2 ≤ b0) (h0' : b0 ≤ 0xDF)
    (h1 : isContinuation b1 = true) :
    ∃ cp, cp < 0x110000 ∧ encode cp = [b0, b1] := by
  have hlow : 0xC2 ≤ b0.toNat := h0
  have hhigh : b0.toNat ≤ 0xDF := h0'
  have hcont := isContinuation_iff.mp h1
  refine ⟨(b0.toNat - 0xC0) * 64 + (b1.toNat - 0x80), by omega, ?_⟩
  have hb0 : 0xC0 + ((b0.toNat - 0xC0) * 64 + (b1.toNat - 0x80)) / 64 = b0.toNat := by omega
  have hb1 : 0x80 + ((b0.toNat - 0xC0) * 64 + (b1.toNat - 0x80)) % 64 = b1.toNat := by omega
  rw [encode, if_neg (by omega), if_pos (by omega), hb0, hb1, UInt8.ofNat_toNat, UInt8.ofNat_toNat]

theorem encode_three {b0 b1 b2 : UInt8} (h0 : 0xE0 ≤ b0) (h0' : b0 ≤ 0xEF)
    (h1 : isContinuation b1 = true) (h2 : isContinuation b2 = true)
    (h : isForbidden b0 b1 = false) :
    ∃ cp, cp < 0x110000 ∧ encode cp = [b0, b1, b2] := by
  have hlow : 0xE0 ≤ b0.toNat := h0
  have hhigh : b0.toNat ≤ 0xEF := h0'
  have hcont1 := isContinuation_iff.mp h1
  have hcont2 := isContinuation_iff.mp h2
  have hlong : b0.toNat = 0xE0 → 0xA0 ≤ b1.toNat := by
    intro hb0
    have hb0 : b0 = 0xE0 := UInt8.toNat_inj.mp hb0
    have hb1 : 0xA0 ≤ b1 := by simpa [isForbidden, hb0] using h
    exact hb1
  generalize hcp : (b0.toNat - 0xE0) * 4096 + (b1.toNat - 0x80) * 64 + (b2.toNat - 0x80) = cp
  refine ⟨cp, by omega, ?_⟩
  have hb0 : 0xE0 + cp / 4096 = b0.toNat := by omega
  have hb1 : 0x80 + cp / 64 % 64 = b1.toNat := by omega
  have hb2 : 0x80 + cp % 64 = b2.toNat := by omega
  rw [encode, if_neg (by omega), if_neg (by omega), if_pos (by omega), hb0, hb1, hb2,
    UInt8.ofNat_toNat, UInt8.ofNat_toNat, UInt8.ofNat_toNat]

theorem encode_four {b0 b1 b2 b3 : UInt8} (h0 : 0xF0 ≤ b0) (h0' : b0 ≤ 0xF4)
    (h1 : isContinuation b1 = true) (h2 : isContinuation b2 = true)
    (h3 : isContinuation b3 = true) (h : isForbidden b0 b1 = false) :
    ∃ cp, cp < 0x110000 ∧ encode cp = [b0, b1, b2, b3] := by
  have hlow : 0xF0 ≤ b0.toNat := h0
  have hhigh : b0.toNat ≤ 0xF4 := h0'
  have hcont1 := isContinuation_iff.mp h1
  have hcont2 := isContinuation_iff.mp h2
  have hcont3 := isContinuation_iff.mp h3
  have hlong : b0.toNat = 0xF0 → 0x90 ≤ b1.toNat := by
    intro hb0
    have hb0 : b0 = 0xF0 := UInt8.toNat_inj.mp hb0
    have hb1 : 0x90 ≤ b1 := by simpa [isForbidden, hb0] using h
    exact hb1
  have hlast : b0.toNat = 0xF4 → b1.toNat ≤ 0x8F := by
    intro hb0
    have hb0 : b0 = 0xF4 := UInt8.toNat_inj.mp hb0
    have hb1 : b1 ≤ 0x8F := by simpa [isForbidden, hb0] using h
    exact hb1
  generalize hcp : (b0.toNat - 0xF0) * 262144 + (b1.toNat - 0x80) * 4096 +
    (b2.toNat - 0x80) * 64 + (b3.toNat - 0x80) = cp
  refine ⟨cp, by omega, ?_⟩
  have hb0 : 0xF0 + cp / 262144 = b0.toNat := by omega
  have hb1 : 0x80 + cp / 4096 % 64 = b1.toNat := by omega
  have hb2 : 0x80 + cp / 64 % 64 = b2.toNat := by omega
  have hb3 : 0x80 + cp % 64 = b3.toNat := by omega
  rw [encode, if_neg (by omega), if_neg (by omega), if_neg (by omega), hb0, hb1, hb2, hb3,
    UInt8.ofNat_toNat, UInt8.ofNat_toNat, UInt8.ofNat_toNat, UInt8.ofNat_toNat]

theorem IsEncoded.of_form {form t : Text} (h : ∃ cp, cp < 0x110000 ∧ Utf8.encode cp = form)
    (ht : IsEncoded t) : IsEncoded (form ++ t) := by
  obtain ⟨cp, hcp, rfl⟩ := h
  exact (IsEncoded.encode hcp).append ht

theorem IsEncoded.of_firstInvalid {i : Nat} {t : Text} (h : firstInvalid i t = none) :
    IsEncoded t := by
  fun_induction firstInvalid i t with
  | case1 => exact .nil
  | case2 i b0 t hb0 ih => exact .cons_ascii hb0 (ih h)
  | case3 i b0 hb0 hlead b1 t hb1 ih =>
    simp only [Bool.and_eq_true, decide_eq_true_eq] at hlead
    exact .of_form (encode_two hlead.1 hlead.2 hb1) (ih h)
  | case6 i b0 hb0 _ hlead b1 b2 t hb ih =>
    simp only [Bool.and_eq_true, decide_eq_true_eq, Bool.not_eq_true'] at hlead hb
    exact .of_form (encode_three hlead.1 hlead.2 hb.1.1 hb.1.2 hb.2) (ih h)
  | case9 i b0 hb0 _ _ hlead b1 b2 b3 t hb ih =>
    simp only [Bool.and_eq_true, decide_eq_true_eq, Bool.not_eq_true'] at hlead hb
    exact .of_form (encode_four hlead.1 hlead.2 hb.1.1.1 hb.1.1.2 hb.1.2 hb.2) (ih h)
  | _ => exact absurd h (by simp)

/-! ## Valid texts -/

/-- Valid texts make a valid text together. -/
theorem firstInvalid_append {i : Nat} {s : Text} (h : firstInvalid i s = none) {t : Text}
    (ht : ∀ j, firstInvalid j t = none) (j : Nat) : firstInvalid j (s ++ t) = none := by
  fun_induction firstInvalid i s generalizing j with
  | case1 => exact ht j
  | case2 i b0 s hb ih =>
    unfold firstInvalid
    simp only [List.cons_append, hb, if_true]
    exact ih h _
  | case3 i b0 hb hlead b1 s hc ih =>
    unfold firstInvalid
    simp only [List.cons_append, hb, hlead, hc, if_true, if_false]
    exact ih h _
  | case6 i b0 hb hlead hlead' b1 b2 s hc ih =>
    unfold firstInvalid
    simp only [List.cons_append, hb, hlead, hlead', hc, if_true, if_false]
    exact ih h _
  | case9 i b0 hb hlead hlead' hlead'' b1 b2 b3 s hc ih =>
    unfold firstInvalid
    simp only [List.cons_append, hb, hlead, hlead', hlead'', hc, if_true, if_false]
    exact ih h _
  | _ => simp at h

theorem firstInvalid_of_isValid {t : Text} (h : isValid t = true) (i : Nat) :
    firstInvalid i t = none := by
  have hnone := firstInvalid_append (Option.isNone_iff_eq_none.mp h) (t := []) (fun _ => rfl) i
  rwa [List.append_nil] at hnone

theorem isValid_append {s t : Text} (hs : isValid s = true) (ht : isValid t = true) :
    isValid (s ++ t) = true :=
  Option.isNone_iff_eq_none.mpr
    (firstInvalid_append (Option.isNone_iff_eq_none.mp hs) (firstInvalid_of_isValid ht) 0)

theorem isValid_of_ascii {t : Text} (h : ∀ b ∈ t, b < 0x80) : isValid t = true := by
  induction t with
  | nil => rfl
  | cons b t ih =>
    have hfirst : isValid [b] = true := by
      simp [isValid, firstInvalid, h b List.mem_cons_self]
    exact isValid_append hfirst (ih fun c hc => h c (List.mem_cons_of_mem _ hc))

/-! ## Reading forms -/

theorem lead_two {n : Nat} (h : n < 32) :
    ¬ UInt8.ofNat (0xC0 + n) < 0x80 ∧ UInt8.ofNat (0xC0 + n) &&& 0xE0 = 0xC0 := by
  revert n
  decide

theorem lead_three {n : Nat} (h : n < 16) :
    ¬ UInt8.ofNat (0xE0 + n) < 0x80 ∧ UInt8.ofNat (0xE0 + n) &&& 0xE0 ≠ 0xC0 ∧
      UInt8.ofNat (0xE0 + n) &&& 0xF0 = 0xE0 := by
  revert n
  decide

theorem lead_four {n : Nat} (h : n < 8) :
    ¬ UInt8.ofNat (0xF0 + n) < 0x80 ∧ UInt8.ofNat (0xF0 + n) &&& 0xE0 ≠ 0xC0 ∧
      UInt8.ofNat (0xF0 + n) &&& 0xF0 ≠ 0xE0 ∧ UInt8.ofNat (0xF0 + n) &&& 0xF8 = 0xF0 := by
  revert n
  decide

theorem payload_tail (n : Nat) : payload (UInt8.ofNat (0x80 + n % 64)) = n % 64 := by
  rw [payload, UInt8.toNat_ofNat_of_lt' (show 0x80 + n % 64 < 256 by omega)]
  omega

/-- The form of a code point is read back, whatever stands behind it. -/
theorem form?_encode {cp : Nat} (h : cp < 0x110000) (t : Text) :
    ∃ b tail, encode cp = b :: tail ∧ form? b (tail ++ t) = some (cp, tail.length) := by
  by_cases h1 : cp < 0x80
  · have hcp : (UInt8.ofNat cp).toNat = cp := UInt8.toNat_ofNat_of_lt' (show cp < 256 by omega)
    refine ⟨UInt8.ofNat cp, [], by rw [encode, if_pos h1], ?_⟩
    unfold form?
    rw [if_pos (by rw [UInt8.lt_iff_toNat_lt, hcp]; exact h1), hcp]
    rfl
  · by_cases h2 : cp < 0x800
    · obtain ⟨hascii, hmask⟩ := lead_two (n := cp / 64) (by omega)
      refine ⟨_, _, by rw [encode, if_neg h1, if_pos h2], ?_⟩
      unfold form?
      rw [if_neg hascii, if_pos hmask]
      simp only [List.cons_append, isContinuation_tail, payload_tail, if_true, List.length_cons,
        List.length_nil, Option.some.injEq, Prod.mk.injEq, and_true]
      rw [UInt8.toNat_ofNat_of_lt' (show 0xC0 + cp / 64 < 256 by omega)]
      omega
    · by_cases h3 : cp < 0x10000
      · obtain ⟨hascii, htwo, hmask⟩ := lead_three (n := cp / 4096) (by omega)
        refine ⟨_, _, by rw [encode, if_neg h1, if_neg h2, if_pos h3], ?_⟩
        unfold form?
        rw [if_neg hascii, if_neg htwo, if_pos hmask]
        simp only [List.cons_append, isContinuation_tail, payload_tail, Bool.and_self, if_true,
          List.length_cons, List.length_nil, Option.some.injEq, Prod.mk.injEq, and_true]
        rw [UInt8.toNat_ofNat_of_lt' (show 0xE0 + cp / 4096 < 256 by omega)]
        omega
      · obtain ⟨hascii, htwo, hthree, hmask⟩ := lead_four (n := cp / 262144) (by omega)
        refine ⟨_, _, by rw [encode, if_neg h1, if_neg h2, if_neg h3], ?_⟩
        unfold form?
        rw [if_neg hascii, if_neg htwo, if_neg hthree, if_pos hmask]
        simp only [List.cons_append, isContinuation_tail, payload_tail, Bool.and_self, if_true,
          List.length_cons, List.length_nil, Option.some.injEq, Prod.mk.injEq, and_true]
        rw [UInt8.toNat_ofNat_of_lt' (show 0xF0 + cp / 262144 < 256 by omega)]
        omega

theorem decodeFrom_append (m : UInt8 → Nat) (s t : Text) :
    decodeFrom m s.length (s ++ t) = decodeFrom m 0 t := by
  induction s with
  | nil => rfl
  | cons b s ih => rw [List.cons_append, List.length_cons, decodeFrom, ih]

/-- Code points are read back from their forms. -/
theorem decodeWith_flatMap_encode (m : UInt8 → Nat) {cps : List Nat}
    (h : ∀ cp ∈ cps, cp < 0x110000) : decodeWith m (cps.flatMap encode) = cps := by
  induction cps with
  | nil => rfl
  | cons cp cps ih =>
    obtain ⟨hcp, hrest⟩ := List.forall_mem_cons.mp h
    obtain ⟨b, tail, hform, hread⟩ := form?_encode hcp (cps.flatMap encode)
    rw [List.flatMap_cons, hform, List.cons_append, decodeWith, decodeFrom, hread]
    show cp :: decodeFrom m tail.length (tail ++ cps.flatMap encode) = cp :: cps
    rw [decodeFrom_append, ← decodeWith, ih hrest]

end CloneScout.Utf8
