import CloneScout.Proofs.Text.Basic
import CloneScout.Proofs.Text.Utf8
import CloneScout.Token.StringLiteral
import Mathlib.Algebra.Group.Nat.Defs

/-!
# Code points of string literals

The body of a literal between its quotes is cut out exactly. The text that its escapes stand for is
a sequence of UTF-8 forms if the body is one.
-/

namespace CloneScout.StringLiteral

open Utf8

/-! ## The body -/

/-- The letters in front of the quotes are found again. -/
theorem takeWhile_letters {letters rest : Text} {q : UInt8}
    (hletters : ∀ b ∈ letters, isQuote b = false) (hq : isQuote q = true) :
    (letters ++ q :: rest).takeWhile (fun b => !isQuote b) = letters := by
  rw [List.takeWhile_append_of_pos (by simpa using hletters)]
  simp [hq]

/-- No literal is a template and a byte string at once if its letters do not say so. -/
theorem bytes_parts {letters rest : Text} {q : UInt8}
    (hletters : ∀ b ∈ letters, isQuote b = false) (hq : isQuote q = true)
    (h : (letters.map Text.toLower).contains (ascii 'f') = true →
      (letters.map Text.toLower).contains (ascii 'b') = false) :
    (parts (letters ++ q :: rest)).formatted = true →
      (parts (letters ++ q :: rest)).bytes = false := by
  simp only [parts, takeWhile_letters hletters hq]
  exact h

/-- The body of a literal in single quotes. Its opening quote is not the first of three. -/
theorem body_parts_single {letters body : Text} {q : UInt8}
    (hletters : ∀ b ∈ letters, isQuote b = false) (hq : isQuote q = true)
    (h : Text.startsWith (q :: (body ++ [q])) [q, q, q] = false) :
    (parts (letters ++ q :: (body ++ [q]))).body = body := by
  simp only [parts, takeWhile_letters hletters hq, List.length_map, List.drop_left,
    List.headD_cons, h, Bool.and_false]
  simp

/-- The body of a literal in triple quotes. -/
theorem body_parts_triple {letters body : Text} {q : UInt8}
    (hletters : ∀ b ∈ letters, isQuote b = false) (hq : isQuote q = true) :
    (parts (letters ++ q :: q :: q :: (body ++ [q, q, q]))).body = body := by
  have hstart : Text.startsWith (q :: q :: q :: (body ++ [q, q, q])) [q, q, q] = true :=
    Text.startsWith_append [q, q, q] _
  have hlen : 6 ≤ (q :: q :: q :: (body ++ [q, q, q])).length := by
    simp only [List.length_cons, List.length_append]
    omega
  simp only [parts, takeWhile_letters hletters hq, List.length_map, List.drop_left,
    List.headD_cons, hstart, hlen, decide_true, Bool.and_self, if_true]
  simp

/-! ## Escapes -/

theorem hexValue_eq_some {b : UInt8} {d : Nat} (h : Text.hexValue b = some d) :
    b < 0x80 ∧ d < 16 := by
  have hall : ∀ n < 256, ∀ d ∈ Text.hexValue (UInt8.ofNat n), n < 0x80 ∧ d < 16 := by
    decide +kernel
  have hb := hall b.toNat b.toNat_lt d (by rw [UInt8.ofNat_toNat]; exact h)
  exact ⟨hb.1, hb.2⟩

theorem simpleEscape?_eq_some {b : UInt8} {out : Text} (h : simpleEscape? b = some out) :
    b < 0x80 ∧ ∀ c ∈ out, c < 0x80 := by
  have hall : ∀ n < 256, ∀ out ∈ simpleEscape? (UInt8.ofNat n), n < 0x80 ∧ ∀ c ∈ out, c < 0x80 := by
    decide +kernel
  have hb := hall b.toNat b.toNat_lt out (by rw [UInt8.ofNat_toNat]; exact h)
  exact ⟨hb.1, hb.2⟩

theorem isOctal_iff {b : UInt8} : isOctal b = true ↔ 48 ≤ b.toNat ∧ b.toNat ≤ 55 := by
  rw [isOctal, Bool.and_eq_true, decide_eq_true_eq, decide_eq_true_eq]
  exact Iff.rfl

/-- Hexadecimal digits are ASCII and have the value that their number allows. -/
theorem foldlM_hexValue {digits : Text} {v₀ v : Nat}
    (h : digits.foldlM (fun v b => (Text.hexValue b).map fun d => v * 16 + d) v₀ = some v) :
    (∀ b ∈ digits, b < 0x80) ∧ v < (v₀ + 1) * 16 ^ digits.length := by
  induction digits generalizing v₀ with
  | nil =>
    simp only [List.foldlM_nil, Option.pure_def, Option.some.injEq] at h
    subst h
    simp
  | cons b digits ih =>
    rw [List.foldlM_cons] at h
    obtain ⟨v₁, hb, hrest⟩ := Option.bind_eq_some_iff.mp h
    obtain ⟨d, hd, rfl⟩ := Option.map_eq_some_iff.mp hb
    obtain ⟨hascii, hlt⟩ := hexValue_eq_some hd
    obtain ⟨hall, hv⟩ := ih hrest
    refine ⟨List.forall_mem_cons.mpr ⟨hascii, hall⟩, ?_⟩
    calc v < (v₀ * 16 + d + 1) * 16 ^ digits.length := hv
      _ ≤ ((v₀ + 1) * 16) * 16 ^ digits.length := Nat.mul_le_mul_right _ (by omega)
      _ = (v₀ + 1) * 16 ^ (b :: digits).length := by
        rw [List.length_cons, Nat.pow_succ, Nat.mul_assoc, Nat.mul_comm 16]

theorem hexPrefix?_eq_some {n v : Nat} {t : Text} (h : hexPrefix? n t = some v) :
    (∀ b ∈ t.take n, b < 0x80) ∧ v < 16 ^ n := by
  unfold hexPrefix? at h
  dsimp only at h
  split at h
  · next hlen =>
    obtain ⟨hall, hv⟩ := foldlM_hexValue h
    refine ⟨hall, ?_⟩
    rw [hlen] at hv
    simpa using hv
  · exact absurd h (by simp)

theorem hexEscape?_eq_some {mark : UInt8} {t : Text} {v n : Nat}
    (h : hexEscape? false mark t = some (v, n)) :
    mark < 0x80 ∧ (∀ b ∈ t.take n, b < 0x80) ∧ v < 0x110000 := by
  unfold hexEscape? at h
  split at h
  · next hmark =>
    obtain ⟨v', hv, hpair⟩ := Option.map_eq_some_iff.mp h
    obtain ⟨rfl, rfl⟩ := Prod.mk.inj hpair
    obtain ⟨hall, hlt⟩ := hexPrefix?_eq_some hv
    exact ⟨by rw [hmark]; decide, hall, by omega⟩
  · rw [if_neg (by simp)] at h
    split at h
    · next hmark =>
      obtain ⟨v', hv, hpair⟩ := Option.map_eq_some_iff.mp h
      obtain ⟨rfl, rfl⟩ := Prod.mk.inj hpair
      obtain ⟨hall, hlt⟩ := hexPrefix?_eq_some hv
      exact ⟨by rw [hmark]; decide, hall, by omega⟩
    · split at h
      · next hmark =>
        obtain ⟨v', hv, hbound⟩ := Option.bind_eq_some_iff.mp h
        split at hbound
        · next hle =>
          obtain ⟨rfl, rfl⟩ := Prod.mk.inj (Option.some.inj hbound)
          obtain ⟨hall, -⟩ := hexPrefix?_eq_some hv
          exact ⟨by rw [hmark]; decide, hall, by omega⟩
        · exact absurd hbound (by simp)
      · exact absurd h (by simp)

theorem octalValue_lt {digits : Text} (h : ∀ b ∈ digits, isOctal b = true) :
    octalValue digits < 8 ^ digits.length := by
  have hfold (v₀ : Nat) : digits.foldl (fun v b => v * 8 + (b.toNat - 48)) v₀ <
      (v₀ + 1) * 8 ^ digits.length := by
    induction digits generalizing v₀ with
    | nil => simp
    | cons b digits ih =>
      obtain ⟨hb, hrest⟩ := List.forall_mem_cons.mp h
      have hb := isOctal_iff.mp hb
      calc (b :: digits).foldl (fun v b => v * 8 + (b.toNat - 48)) v₀
          < (v₀ * 8 + (b.toNat - 48) + 1) * 8 ^ digits.length := ih hrest _
        _ ≤ ((v₀ + 1) * 8) * 8 ^ digits.length := Nat.mul_le_mul_right _ (by omega)
        _ = (v₀ + 1) * 8 ^ (b :: digits).length := by
          rw [List.length_cons, Nat.pow_succ, Nat.mul_assoc, Nat.mul_comm 8]
  rw [octalValue]
  simpa using hfold 0

/-- What an escape in a text stands for, and what follows it, are sequences of forms; an unknown
escape is the backslash with the byte behind it. -/
theorem escape_encoded {b : UInt8} {t : Text} (h : IsEncoded (b :: t)) :
    b ≠ ascii '\\' ∧ escape false b t = ([ascii '\\', b], 1) ∨
      IsEncoded (escape false b t).1 ∧ IsEncoded ((b :: t).drop (escape false b t).2) ∧
        0 < (escape false b t).2 := by
  unfold escape
  split
  · next out hout =>
    obtain ⟨hb, hall⟩ := simpleEscape?_eq_some hout
    exact .inr ⟨.of_ascii hall, h.of_cons hb, Nat.one_pos⟩
  · next hnone =>
    have hslash : b ≠ ascii '\\' := by
      rintro rfl
      exact absurd hnone (by decide)
    split
    · next hoctal =>
      have hall := List.all_takeWhile (p := isOctal) (l := (b :: t).take 3)
      rw [List.all_eq_true] at hall
      have hlen : (((b :: t).take 3).takeWhile isOctal).length ≤ 3 :=
        Nat.le_trans (List.takeWhile_prefix _).length_le (List.length_take_le _ _)
      have hlt := octalValue_lt hall
      have hbound : 8 ^ (((b :: t).take 3).takeWhile isOctal).length ≤ 8 ^ 3 :=
        Nat.pow_le_pow_right (by decide) hlen
      refine .inr ⟨.encode (by omega), h.drop ?_, ?_⟩
      · intro c hc
        have hstarts := ((List.takeWhile_prefix isOctal (l := (b :: t).take 3)).trans
          (List.take_prefix 3 (b :: t)))
        rw [← List.prefix_iff_eq_take.mp hstarts] at hc
        have hc := isOctal_iff.mp (hall c hc)
        show c.toNat < 0x80
        omega
      · simp [hoctal]
    · split
      · next v n hhex =>
        obtain ⟨hb, hall, hv⟩ := hexEscape?_eq_some hhex
        exact .inr ⟨.encode hv, (h.of_cons hb).drop hall, Nat.succ_pos _⟩
      · exact .inl ⟨hslash, rfl⟩

theorem unescapeFrom_eq_drop (isBytes : Bool) (skip : Nat) (t : Text) :
    unescapeFrom isBytes skip t = unescapeFrom isBytes 0 (t.drop skip) := by
  induction t generalizing skip with
  | nil => cases skip <;> rfl
  | cons b t ih =>
    cases skip with
    | zero => rfl
    | succ skip => exact ih skip

theorem unescapeFrom_append_plain (isBytes : Bool) {s : Text} (h : ∀ b ∈ s, b ≠ ascii '\\')
    (t : Text) : unescapeFrom isBytes 0 (s ++ t) = s ++ unescapeFrom isBytes 0 t := by
  induction s with
  | nil => rfl
  | cons b s ih =>
    obtain ⟨hb, hs⟩ := List.forall_mem_cons.mp h
    rw [List.cons_append, List.cons_append, ← ih hs]
    rcases s ++ t with _ | ⟨next, more⟩
    · rfl
    · rw [unescapeFrom, if_neg hb]

/-- Escapes of a text stand for code points. -/
theorem unescape_encoded {t : Text} (h : IsEncoded t) : IsEncoded (unescape false t) := by
  unfold unescape
  -- by induction on the length, form by form and escape by escape
  induction hn : t.length using Nat.strongRecOn generalizing t with
  | ind n ih =>
    obtain ⟨cps, hcps, rfl⟩ := h
    rcases cps with _ | ⟨cp, cps⟩
    · exact .nil
    · obtain ⟨hcp, hrest⟩ := List.forall_mem_cons.mp hcps
      have hrestEncoded : IsEncoded (cps.flatMap Utf8.encode) := ⟨cps, hrest, rfl⟩
      obtain ⟨b, tail, hform, -, hcont, hascii⟩ := encode_eq_cons hcp
      rw [List.flatMap_cons] at hn ⊢
      rw [List.length_append] at hn
      by_cases hslash : b = ascii '\\'
      · obtain ⟨rfl, -⟩ := hascii (by rw [hslash]; decide)
        rw [hform, hslash, List.singleton_append]
        rcases hmore : cps.flatMap Utf8.encode with _ | ⟨next, more⟩
        · exact .ascii (by decide)
        · rw [hmore] at hrestEncoded hn
          rw [hform] at hn
          simp only [List.length_cons, List.length_nil] at hn
          rw [unescapeFrom, if_pos rfl]
          rcases escape_encoded hrestEncoded with ⟨hnext, heq⟩ | ⟨hout, hdrop, hpos⟩
          · rw [heq]
            show IsEncoded (ascii '\\' :: ([next] ++ unescapeFrom false 0 more))
            rw [← unescapeFrom_append_plain false (by simpa using hnext)]
            exact .cons_ascii (by decide)
              (ih (next :: more).length (by simp only [List.length_cons]; omega) hrestEncoded rfl)
          · show IsEncoded ((escape false next more).1 ++
              unescapeFrom false (escape false next more).2 (next :: more))
            rw [unescapeFrom_eq_drop]
            refine hout.append (ih _ ?_ hdrop rfl)
            rw [List.length_drop, List.length_cons]
            omega
      · have hplain : ∀ c ∈ Utf8.encode cp, c ≠ ascii '\\' := by
          rw [hform]
          refine List.forall_mem_cons.mpr ⟨hslash, ?_⟩
          rintro c hc rfl
          exact absurd (hcont _ hc) (by decide)
        rw [unescapeFrom_append_plain false hplain]
        have hpos : 0 < (Utf8.encode cp).length := by rw [hform]; exact Nat.succ_pos _
        exact (IsEncoded.encode hcp).append (ih _ (by omega) hrestEncoded rfl)

end CloneScout.StringLiteral
