import CloneScout.Number.Limbs
import CloneScout.Number.Radix
import CloneScout.Proofs.Number.Numeral
import CloneScout.Proofs.Token.Scanning
import Mathlib.Data.Nat.Digits.Lemmas

/-!
# Digit strings and limbs

A digit string in a base is made of digits below the base and underscores, with at least one digit.
It denotes the number with these digits, the highest first. Exactly the digit strings are read, and
each as the number that it denotes.

Limbs below 10 ^ 9 are the digits of a number in that base. Multiplying by a base up to 10 ^ 9 and
adding a digit keeps them below it, and no carry overflows. The limbs without zeros at the high end
are those of one number, and written one after the other they are its decimal numeral.
-/

namespace CloneScout.Radix

/-! ## Digits -/

/-- The byte is a digit of the given value, in lower or upper case. -/
def IsDigit (d : Nat) (b : UInt8) : Prop :=
  (utf8 "0123456789abcdef")[d]? = some b ∨ (utf8 "0123456789ABCDEF")[d]? = some b

instance (d : Nat) (b : UInt8) : Decidable (IsDigit d b) := inferInstanceAs (Decidable (_ ∨ _))

theorem hexValue_eq_some_iff {b : UInt8} {d : Nat} : Text.hexValue b = some d ↔ IsDigit d b := by
  have hbyte : ∀ b : UInt8, ∀ d < 16, Text.hexValue b = some d ↔ IsDigit d b :=
    Token.forall_byte (by decide +kernel)
  have hvalue : ∀ b : UInt8, ∀ e ∈ Text.hexValue b, e < 16 := Token.forall_byte (by decide +kernel)
  by_cases hd : d < 16
  · exact hbyte b d hd
  · constructor
    · intro h
      exact absurd (hvalue b d h) hd
    · have hnone (t : Text) (ht : t.length = 16) : t[d]? = none :=
        List.getElem?_eq_none (by omega)
      rintro (h | h)
      · rw [hnone _ (by decide)] at h
        nomatch h
      · rw [hnone _ (by decide)] at h
        nomatch h

theorem hexValue_underscore : Text.hexValue (ascii '_') = none := by decide

/-! ## Digit strings -/

/-- Digits below the base and underscores, with at least one digit. -/
structure IsNumeral (base : Nat) (t : Text) : Prop where
  bytes : ∀ b ∈ t, b = ascii '_' ∨ ∃ d < base, IsDigit d b
  digit : ∃ b ∈ t, b ≠ ascii '_'

/-- The values of the digits of a text, the highest first. -/
def digitsOf (t : Text) : List Nat := t.filterMap Text.hexValue

/-- The number that a digit string denotes. -/
def valueOf (base : Nat) (t : Text) : Nat := Nat.ofDigits base (digitsOf t).reverse

/-- Digits are read one after the other: the number so far goes up by one place. -/
def horner (base acc : Nat) (ds : List Nat) : Nat := ds.foldl (fun n d => n * base + d) acc

theorem horner_eq_ofDigits (base acc : Nat) (ds : List Nat) :
    horner base acc ds = acc * base ^ ds.length + Nat.ofDigits base ds.reverse := by
  induction ds generalizing acc with
  | nil => simp [horner]
  | cons d ds ih =>
    show horner base (acc * base + d) ds = _
    rw [ih, List.reverse_cons, Nat.ofDigits_append, Nat.ofDigits_singleton, List.length_reverse,
      List.length_cons, Nat.pow_succ]
    ring

theorem horner_zero (base : Nat) (t : Text) : horner base 0 (digitsOf t) = valueOf base t := by
  rw [horner_eq_ofDigits, Nat.zero_mul, Nat.zero_add, valueOf]

/-! ## Reading -/

theorem digitsOf_cons_underscore (t : Text) : digitsOf (ascii '_' :: t) = digitsOf t := by
  rw [digitsOf, List.filterMap_cons_none hexValue_underscore, digitsOf]

theorem digitsOf_cons {b : UInt8} {d : Nat} (h : Text.hexValue b = some d) (t : Text) :
    digitsOf (b :: t) = d :: digitsOf t := by
  rw [digitsOf, List.filterMap_cons_some h, digitsOf]

variable {base : Nat}

/-- All bytes are digits below the base or underscores. -/
def AllDigits (base : Nat) (t : Text) : Prop :=
  ∀ b ∈ t, b = ascii '_' ∨ ∃ d < base, Text.hexValue b = some d

theorem isNumeral_iff {t : Text} :
    IsNumeral base t ↔ AllDigits base t ∧ digitsOf t ≠ [] := by
  have hall : (∀ b ∈ t, b = ascii '_' ∨ ∃ d < base, IsDigit d b) ↔ AllDigits base t := by
    simp only [AllDigits, hexValue_eq_some_iff]
  have hdigit (h : AllDigits base t) : (∃ b ∈ t, b ≠ ascii '_') ↔ digitsOf t ≠ [] := by
    constructor
    · rintro ⟨b, hb, hne⟩ hnil
      obtain ⟨d, -, hd⟩ := (h b hb).resolve_left hne
      exact absurd (List.filterMap_eq_nil_iff.mp hnil b hb) (by rw [hd]; exact Option.some_ne_none d)
    · intro hne
      obtain ⟨d, ds, hds⟩ := List.exists_cons_of_ne_nil hne
      have hmem : d ∈ digitsOf t := by rw [hds]; exact List.mem_cons_self
      obtain ⟨b, hb, hd⟩ := List.mem_filterMap.mp hmem
      refine ⟨b, hb, ?_⟩
      rintro rfl
      rw [hexValue_underscore] at hd
      nomatch hd
  constructor
  · intro h
    have hbytes := hall.mp h.bytes
    exact ⟨hbytes, (hdigit hbytes).mp h.digit⟩
  · rintro ⟨hbytes, hne⟩
    exact ⟨hall.mpr hbytes, (hdigit hbytes).mpr hne⟩

instance (base : Nat) (t : Text) : Decidable (IsNumeral base t) :=
  decidable_of_iff
    ((∀ b ∈ t, b = ascii '_' ∨ (Text.hexValue b).any (· < base)) ∧ digitsOf t ≠ []) <| by
    rw [isNumeral_iff]
    simp only [AllDigits, Option.any_eq_true, decide_eq_true_eq, and_comm]

/-- Reading goes by the digits alone, and stops at any other byte. -/
theorem readDigits_eq (acc : Nat) (any : Bool) (t : Text) :
    (AllDigits base t → readDigits base acc any t =
      if any = true ∨ digitsOf t ≠ [] then some (horner base acc (digitsOf t)) else none) ∧
    (¬ AllDigits base t → readDigits base acc any t = none) := by
  induction t generalizing acc any with
  | nil =>
    refine ⟨fun _ => ?_, fun h => absurd (List.forall_mem_nil _) h⟩
    cases any <;> rfl
  | cons b t ih =>
    have hcons : AllDigits base (b :: t) ↔
        (b = ascii '_' ∨ ∃ d < base, Text.hexValue b = some d) ∧ AllDigits base t :=
      List.forall_mem_cons
    rw [readDigits, hcons]
    by_cases hmark : b = ascii '_'
    · rw [if_pos hmark, hmark, digitsOf_cons_underscore]
      simp only [true_or, true_and]
      exact ih acc any
    · rw [if_neg hmark]
      cases hd : Text.hexValue b with
      | none => simp [hmark]
      | some d =>
        rw [digitsOf_cons hd]
        by_cases hlt : d < base
        · simpa [hmark, hlt, horner] using ih (acc * base + d) true
        · simp [hmark, hlt]

/-- Exactly the digit strings are read, as the numbers that they denote. -/
theorem parse?_eq (base : Nat) (t : Text) :
    parse? base t = if IsNumeral base t then some (valueOf base t) else none := by
  obtain ⟨hread, hfail⟩ := @readDigits_eq base 0 false t
  rw [parse?]
  by_cases hall : AllDigits base t
  · rw [hread hall, horner_zero]
    simp [isNumeral_iff, hall]
  · rw [hfail hall, if_neg fun h => hall (isNumeral_iff.mp h).1]

/-! ## Literals -/

/-- The letters behind a leading zero that select a base. -/
def marks : List (UInt8 × Nat) :=
  [(ascii 'x', 16), (ascii 'X', 16), (ascii 'o', 8), (ascii 'O', 8), (ascii 'b', 2), (ascii 'B', 2)]

/-- The number that an integer literal stands for. -/
inductive Denotes : Text → Nat → Prop where
  | decimal {t : Text} (h : IsNumeral 10 t) : Denotes t (valueOf 10 t)
  | based {mark : UInt8} {base : Nat} {t : Text} (hmark : (mark, base) ∈ marks)
      (h : IsNumeral base t) : Denotes (ascii '0' :: mark :: t) (valueOf base t)

theorem baseOfMark?_eq_some_iff {mark : UInt8} {base : Nat} :
    baseOfMark? mark = some base ↔ (mark, base) ∈ marks := by
  have hall : ∀ mark : UInt8, (∀ base ∈ baseOfMark? mark, (mark, base) ∈ marks) ∧
      ∀ e ∈ marks, e.1 = mark → baseOfMark? mark = some e.2 := Token.forall_byte (by decide +kernel)
  exact ⟨(hall mark).1 base, fun h => (hall mark).2 _ h rfl⟩

/-- The mark of a base is no decimal digit. -/
theorem not_isNumeral_of_mark {mark : UInt8} {base : Nat} {t : Text} (hmark : (mark, base) ∈ marks) :
    ¬ IsNumeral 10 (ascii '0' :: mark :: t) := by
  have hall : ∀ e ∈ marks, e.1 ≠ ascii '_' ∧ ∀ d ∈ Text.hexValue e.1, ¬ d < 10 := by decide
  intro h
  rcases h.bytes mark (by simp) with hunder | ⟨d, hd, hdigit⟩
  · exact (hall _ hmark).1 hunder
  · exact (hall _ hmark).2 d (hexValue_eq_some_iff.mpr hdigit) hd

theorem IsNumeral.exists_cons {t : Text} (h : IsNumeral base t) : ∃ b r, t = b :: r := by
  obtain ⟨b, hb, -⟩ := h.digit
  exact List.exists_cons_of_ne_nil (List.ne_nil_of_mem hb)

/-- The literal is read as the number that it denotes. -/
theorem Denotes.parseLiteral? {t : Text} {n : Nat} (h : Denotes t n) : parseLiteral? t = some n := by
  cases h with
  | decimal h =>
    have hparse : parse? 10 t = some (valueOf 10 t) := by rw [parse?_eq, if_pos h]
    unfold Radix.parseLiteral?
    split
    · next zero mark digit rest =>
      split
      · next base hbase =>
        rw [if_neg ?_]
        · exact hparse
        · rintro rfl
          exact not_isNumeral_of_mark (baseOfMark?_eq_some_iff.mp hbase) h
      · exact hparse
    · exact hparse
  | @based mark base t hmark h =>
    obtain ⟨b, r, rfl⟩ := h.exists_cons
    rw [Radix.parseLiteral?, baseOfMark?_eq_some_iff.mpr hmark]
    dsimp only
    rw [if_pos rfl, parse?_eq, if_pos h]

/-- A literal denotes one number. -/
theorem Denotes.unique {t : Text} {m n : Nat} (hm : Denotes t m) (hn : Denotes t n) : m = n :=
  Option.some.inj (hm.parseLiteral?.symm.trans hn.parseLiteral?)

end CloneScout.Radix

namespace CloneScout

/-! ## Numerals in pieces -/

namespace Text

/-- The decimal numeral of a number, as Lean writes it. -/
theorem ofNat_eq_utf8 (n : Nat) : ofNat n = utf8 (toString n) := by
  have hchar (c : Char) (hc : c.isDigit = true) : String.utf8EncodeChar c = [ascii c] := by
    have hle : c.val.toNat ≤ 127 := by
      simp only [Char.isDigit, ge_iff_le, Bool.and_eq_true, decide_eq_true_eq] at hc
      have hval : c.val.toNat ≤ 57 := UInt32.le_iff_toNat_le.mp hc.2
      omega
    rw [String.utf8EncodeChar]
    simp only [if_pos hle]
    rfl
  have hbytes : utf8 (toString n) = (Nat.toDigits 10 n).flatMap String.utf8EncodeChar := by
    show utf8 (String.ofList (Nat.toDigits 10 n)) = _
    simp [utf8, List.utf8Encode]
  have hdigits : ∀ c ∈ Nat.toDigits 10 n, c.isDigit = true :=
    fun c hc => Nat.isDigit_of_mem_toDigits (by decide) (by decide) hc
  rw [hbytes, ofNat, List.flatMap_congr fun c hc => hchar c (hdigits c hc)]
  exact List.map_eq_flatMap

/-- The last `width` digits of a number, with zeros in front. -/
def fixed (width n : Nat) : Text :=
  List.replicate (width - (ofNat n).length) (ascii '0') ++ ofNat n

theorem fixed_one {n : Nat} (h : n < 10) : fixed 1 n = [UInt8.ofNat (48 + n)] := by
  rw [fixed, ofNat_eq, if_pos h]
  rfl

theorem fixed_succ {width : Nat} (hwidth : 0 < width) (n : Nat) :
    fixed (width + 1) n = fixed width (n / 10) ++ [UInt8.ofNat (48 + n % 10)] := by
  by_cases h : n < 10
  · have hzeros : fixed width 0 = List.replicate width (ascii '0') := by
      show List.replicate (width - 1) (ascii '0') ++ [ascii '0'] = _
      rw [← List.replicate_succ', Nat.sub_add_cancel hwidth]
    rw [Nat.div_eq_of_lt h, Nat.mod_eq_of_lt h, hzeros, fixed, ofNat_eq, if_pos h]
    rfl
  · have hlength : (ofNat n).length = (ofNat (n / 10)).length + 1 := by
      rw [ofNat_eq n, if_neg h, List.length_append, List.length_singleton]
    rw [fixed, hlength, Nat.add_sub_add_right, ofNat_eq n, if_neg h, fixed, List.append_assoc]

/-- A numeral continues with digits of fixed width when the number goes up by as many places. -/
theorem ofNat_shift {m width n : Nat} (hm : m ≠ 0) (hwidth : 0 < width) (hn : n < 10 ^ width) :
    ofNat (m * 10 ^ width + n) = ofNat m ++ fixed width n := by
  induction width, hwidth using Nat.le_induction generalizing n with
  | base =>
    have hn : n < 10 := by simpa using hn
    rw [ofNat_eq, if_neg (by omega), fixed_one hn]
    have hdiv : (m * 10 ^ 1 + n) / 10 = m := by omega
    have hmod : (m * 10 ^ 1 + n) % 10 = n := by omega
    rw [hdiv, hmod]
  | succ width hwidth ih =>
    rw [Nat.pow_succ] at hn
    have hshift : m * 10 ^ (width + 1) + n = 10 * (m * 10 ^ width) + n := by
      rw [Nat.pow_succ]
      ring
    have hlarge : 0 < m * 10 ^ width := Nat.mul_pos (Nat.pos_of_ne_zero hm) (Nat.pow_pos (by decide))
    have hdiv : (m * 10 ^ (width + 1) + n) / 10 = m * 10 ^ width + n / 10 := by omega
    have hmod : (m * 10 ^ (width + 1) + n) % 10 = n % 10 := by omega
    rw [ofNat_eq, if_neg (by omega), hdiv, hmod, ih (by omega), fixed_succ (by omega),
      List.append_assoc]

end Text

namespace Limbs

/-! ## Values -/

/-- One more than the largest limb. -/
def limit : Nat := 1000000000

/-- The limbs as numbers. -/
def places (ls : Limbs) : List Nat := ls.map UInt32.toNat

def value (ls : Limbs) : Nat := Nat.ofDigits limit ls.places

def Bounded (ls : Limbs) : Prop := ∀ l ∈ ls, l.toNat < limit

/-- The limbs are the places of the number, without zeros at the high end. -/
def Represents (ls : Limbs) (n : Nat) : Prop := ls.places = limit.digits n

theorem value_cons (l : UInt32) (ls : Limbs) : value (l :: ls) = l.toNat + limit * value ls := by
  rw [value, places, List.map_cons, Nat.ofDigits_cons, value, places]

theorem value_append_zero (ls : Limbs) : value (ls ++ [0]) = value ls := by
  rw [value, places, List.map_append, Nat.ofDigits_append]
  simp [value, places]

/-! ## Arithmetic -/

/-- No carry overflows, and none is lost. -/
theorem mulAdd_bounded {factor : UInt32} {carry : UInt64} {ls : Limbs}
    (hfactor : factor.toNat ≤ limit) (hcarry : carry.toNat < limit) (h : ls.Bounded) :
    (mulAdd factor carry ls).Bounded ∧
      (mulAdd factor carry ls).value = ls.value * factor.toNat + carry.toNat := by
  induction ls generalizing carry with
  | nil =>
    rw [mulAdd]
    split
    · next hzero =>
      rw [hzero]
      exact ⟨fun _ hl => absurd hl List.not_mem_nil, by simp [value, places]⟩
    · have hcut : carry.toUInt32.toNat = carry.toNat := by
        rw [UInt64.toNat_toUInt32]
        exact Nat.mod_eq_of_lt (Nat.lt_trans hcarry (by decide))
      refine ⟨fun l hl => ?_, by simp [value, places, hcut]⟩
      rw [List.mem_singleton.mp hl, hcut]
      exact hcarry
  | cons l ls ih =>
    obtain ⟨hl, hls⟩ := List.forall_mem_cons.mp h
    have hproduct : l.toNat * factor.toNat ≤ (limit - 1) * limit :=
      Nat.mul_le_mul (by omega) hfactor
    have hlimit : (limit - 1) * limit + limit = 1000000000000000000 := by decide
    have hx : (l.toUInt64 * factor.toUInt64 + carry).toNat =
        l.toNat * factor.toNat + carry.toNat := by
      rw [UInt64.toNat_add, UInt64.toNat_mul, UInt32.toNat_toUInt64, UInt32.toNat_toUInt64]
      omega
    generalize hwhole : l.toUInt64 * factor.toUInt64 + carry = x at hx
    have hbase : limbBase.toNat = limit := by decide
    have hplace : (x % limbBase).toUInt32.toNat = x.toNat % limit := by
      rw [UInt64.toNat_toUInt32, UInt64.toNat_mod, hbase]
      exact Nat.mod_eq_of_lt (Nat.lt_trans (Nat.mod_lt _ (by decide)) (by decide))
    have hnext : (x / limbBase).toNat = x.toNat / limit := by rw [UInt64.toNat_div, hbase]
    have hsmall : (x / limbBase).toNat < limit := by
      rw [hnext, Nat.div_lt_iff_lt_mul (by decide)]
      have hsquare : limit * limit = 1000000000000000000 := by decide
      omega
    obtain ⟨hbounded, hvalue⟩ := ih hsmall hls
    rw [mulAdd, hwhole]
    constructor
    · refine List.forall_mem_cons.mpr ⟨?_, hbounded⟩
      rw [hplace]
      exact Nat.mod_lt _ (by decide)
    · rw [value_cons, hplace, hvalue, hnext, value_cons]
      have hparts := Nat.mod_add_div x.toNat limit
      calc x.toNat % limit + limit * (value ls * factor.toNat + x.toNat / limit)
          = (x.toNat % limit + limit * (x.toNat / limit)) + limit * (value ls * factor.toNat) := by
            ring
        _ = l.toNat * factor.toNat + carry.toNat + limit * (value ls * factor.toNat) := by
            rw [hparts, hx]
        _ = (l.toNat + limit * value ls) * factor.toNat + carry.toNat := by ring

theorem trim_represents {ls : Limbs} (h : ls.Bounded) : (trim ls).Represents ls.value := by
  induction ls using List.reverseRecOn with
  | nil => rfl
  | append_singleton ls l ih =>
    have hls : Bounded ls := fun x hx => h x (List.mem_append_left _ hx)
    by_cases hzero : l = 0
    · have htrim : trim (ls ++ [l]) = trim ls := by simp [trim, hzero]
      rw [htrim, hzero, value_append_zero]
      exact ih hls
    · have htrim : trim (ls ++ [l]) = ls ++ [l] := by simp [trim, hzero]
      rw [htrim, Represents, value, Nat.digits_ofDigits _ (by decide)]
      · intro d hd
        obtain ⟨x, hx, rfl⟩ := List.mem_map.mp hd
        exact h x hx
      · intro _ hlast
        simp only [places, List.map_append, List.map_cons, List.map_nil] at hlast
        rw [List.getLast_concat] at hlast
        exact hzero (UInt32.toNat_inj.mp hlast)

/-! ## Reading -/

/-- Limbs are read along with the number itself. -/
theorem readDigits_represents {base : UInt32} (hbase : base.toNat ≤ limit) {acc : Limbs}
    (hacc : acc.Bounded) (any : Bool) (t : Text) :
    Option.Rel Represents (readDigits base acc any t)
      (Radix.readDigits base.toNat acc.value any t) := by
  induction t generalizing acc any with
  | nil =>
    rw [readDigits, Radix.readDigits]
    split
    · exact .some (trim_represents hacc)
    · exact .none
  | cons b t ih =>
    rw [readDigits, Radix.readDigits]
    split
    · exact ih hacc any
    · cases Text.hexValue b with
      | none => exact .none
      | some d =>
        dsimp only
        split
        · next hlt =>
          have hd : (UInt64.ofNat d).toNat = d :=
            UInt64.toNat_ofNat_of_lt' (Nat.lt_trans (Nat.lt_of_lt_of_le hlt hbase) (by decide))
          obtain ⟨hbounded, hvalue⟩ := @mulAdd_bounded _ (UInt64.ofNat d) _ hbase
            (by rw [hd]; exact Nat.lt_of_lt_of_le hlt hbase) hacc
          rw [hd] at hvalue
          rw [← hvalue]
          exact ih hbounded true
        · exact .none

theorem parse?_represents {base : UInt32} (hbase : base.toNat ≤ limit) (t : Text) :
    Option.Rel Represents (parse? base t) (Radix.parse? base.toNat t) :=
  readDigits_represents hbase (fun _ hl => absurd hl List.not_mem_nil) false t

theorem parseLiteral?_represents (t : Text) :
    Option.Rel Represents (parseLiteral? t) (Radix.parseLiteral? t) := by
  have hdecimal := @parse?_represents 10 (by decide) t
  unfold parseLiteral?
  split
  · next zero mark digit rest =>
    rw [Radix.parseLiteral?]
    cases hbase : Radix.baseOfMark? mark with
    | none => exact hdecimal
    | some base =>
      have hsmall : base ≤ 16 := by
        have hall : ∀ e ∈ Radix.marks, e.2 ≤ 16 := by decide
        exact hall _ (Radix.baseOfMark?_eq_some_iff.mp hbase)
      have hword : (UInt32.ofNat base).toNat = base :=
        UInt32.toNat_ofNat_of_lt' (Nat.lt_of_le_of_lt hsmall (by decide))
      dsimp only
      split
      · have hparse := @parse?_represents (UInt32.ofNat base)
          (by rw [hword]; exact Nat.le_trans hsmall (by decide)) (digit :: rest)
        rw [hword] at hparse
        exact hparse
      · exact hdecimal
  · next hshort =>
    rw [Radix.parseLiteral?]
    · exact hdecimal
    · exact hshort

/-! ## Writing -/

theorem isZero_iff {ls : Limbs} {n : Nat} (h : ls.Represents n) : ls.isZero = true ↔ n = 0 := by
  rw [isZero, List.isEmpty_iff, ← Nat.digits_eq_nil_iff_eq_zero (b := limit), ← h, places,
    List.map_eq_nil_iff]

/-- A limb behind a numeral that is not zero. -/
theorem ofNat_append_padded {n : Nat} (hn : n ≠ 0) {l : UInt32} (hl : l.toNat < limit) :
    Text.ofNat n ++ padded l = Text.ofNat (n * limit + l.toNat) :=
  (@Text.ofNat_shift n 9 l.toNat hn (by decide) hl).symm

theorem ofNat_append_flatMap_padded {n : Nat} (hn : n ≠ 0) {ls : Limbs} (h : ls.Bounded) :
    Text.ofNat n ++ ls.flatMap padded = Text.ofNat (Radix.horner limit n ls.places) := by
  induction ls generalizing n with
  | nil => rw [List.flatMap_nil, List.append_nil]; rfl
  | cons l ls ih =>
    obtain ⟨hl, hls⟩ := List.forall_mem_cons.mp h
    have hnext : n * limit + l.toNat ≠ 0 := by
      have hpos : 0 < n * limit := Nat.mul_pos (Nat.pos_of_ne_zero hn) (by decide)
      omega
    rw [List.flatMap_cons, ← List.append_assoc, ofNat_append_padded hn hl, ih hnext hls]
    rfl

theorem toText_eq {ls : Limbs} {n : Nat} (h : ls.Represents n) : ls.toText = Text.ofNat n := by
  have hbounded : ls.Bounded := by
    intro l hl
    refine Nat.digits_lt_base (b := limit) (m := n) (by decide) ?_
    rw [← h]
    exact List.mem_map_of_mem hl
  have hvalue : n = Nat.ofDigits limit ls.places := by rw [h, Nat.ofDigits_digits]
  cases hls : ls.reverse with
  | nil =>
    obtain rfl := List.reverse_eq_nil_iff.mp hls
    obtain rfl : n = 0 := hvalue
    rw [Text.ofNat_eq_utf8]
    rfl
  | cons top below =>
    obtain rfl : ls = below.reverse ++ [top] := by rw [← List.reverse_cons, ← hls, List.reverse_reverse]
    -- the highest limb is the last digit, which is not zero
    have htop : top.toNat ≠ 0 := by
      have hplaces : limit.digits n = places below.reverse ++ [top.toNat] := by
        rw [← h, places, List.map_append]
        rfl
      intro hzero
      refine Nat.getLast_digit_ne_zero limit (m := n) ?_ ?_
      · rintro rfl
        rw [Nat.digits_zero] at hplaces
        exact absurd hplaces (by simp)
      · simp only [hplaces]
        rw [List.getLast_concat, hzero]
    have hbelow : Bounded below := fun l hl =>
      hbounded l (List.mem_append_left _ (List.mem_reverse.mpr hl))
    have hsum : Nat.ofDigits limit (places (below.reverse ++ [top])) =
        Radix.horner limit top.toNat (places below) := by
      rw [Radix.horner_eq_ofDigits, places, List.map_append, Nat.ofDigits_append]
      simp only [places, List.map_reverse, List.length_reverse, List.length_map, List.map_cons,
        List.map_nil, Nat.ofDigits_singleton]
      ring
    rw [toText, hls, hvalue, hsum]
    exact ofNat_append_flatMap_padded htop hbelow

end Limbs

end CloneScout
