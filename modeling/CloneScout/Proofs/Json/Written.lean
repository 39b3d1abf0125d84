import Mathlib.Data.List.DropRight
import Mathlib.Data.List.Forall2
import CloneScout.Text.JsonString
import CloneScout.Proofs.Json.Reader
import CloneScout.Proofs.Number.Numeral
import CloneScout.Proofs.Text.Quoted

/-!
# Reading what was written

Escaped strings and numerals read back as what they were written from, in front of anything that may
follow a value. Values with commas between them make up arrays, keys with values make up objects, and
blanks may stand around all of them.
-/

namespace CloneScout.Json

/-! ## Blanks -/

def Blank (t : Text) : Prop := ∀ b ∈ t, isBlank b = true

instance (t : Text) : Decidable (Blank t) := Text.decidableForallMem t _

theorem skip_append {w : Text} (h : Blank w) (t : Text) : skip (w ++ t) = skip t :=
  List.dropWhile_append_of_pos h

theorem skip_cons {b : UInt8} (h : isBlank b = false) (t : Text) : skip (b :: t) = b :: t :=
  List.dropWhile_cons_of_neg (by simp [h])

theorem skip_skip (t : Text) : skip (skip t) = skip t := List.dropWhile_idempotent _ _

theorem value_skip (n : Nat) (t : Text) : value n (skip t) = value n t := by
  cases n with
  | zero => rfl
  | succ n => rw [value, value, skip_skip]

theorem member_skip (read : Text → Option (Json × Text)) (t : Text) :
    member read (skip t) = member read t := by
  rw [member, member, skip_skip]

/-! ## Strings -/

section

variable {b c : UInt8} {r : Text}

theorem pieces_quote (r : Text) : pieces (ascii '"' :: r) = some ([], r) := by
  rw [pieces.eq_def]
  exact if_pos rfl

theorem pieces_self (hquote : b ≠ ascii '"') (hslash : b ≠ ascii '\\') (hlow : ¬ b < 0x20) :
    pieces (b :: r) = (pieces r).map fun p => (.byte b :: p.1, p.2) := by
  rw [pieces.eq_def]
  simp only [if_neg hquote, if_neg hslash, if_neg hlow]

theorem pieces_escape (hunit : c ≠ ascii 'u') (h : unescape? c = some b) :
    pieces (ascii '\\' :: c :: r) = (pieces r).map fun p => (.byte b :: p.1, p.2) := by
  have hne : ascii '\\' ≠ ascii '"' := by decide
  rw [pieces.eq_def]
  simp only [if_neg hne, if_pos, if_neg hunit, h]

theorem pieces_unit {h₁ h₂ h₃ h₄ : UInt8} {u : Nat} (h : unit? h₁ h₂ h₃ h₄ = some u) :
    pieces (ascii '\\' :: ascii 'u' :: h₁ :: h₂ :: h₃ :: h₄ :: r) =
      (pieces r).map fun p => (.unit u :: p.1, p.2) := by
  have hne : ascii '\\' ≠ ascii '"' := by decide
  rw [pieces.eq_def]
  simp only [if_neg hne, if_pos, h]

end

theorem unit?_hex {n : Nat} (h : n < 0x10000) :
    ∃ h₁ h₂ h₃ h₄, Text.hex 4 n = [h₁, h₂, h₃, h₄] ∧ unit? h₁ h₂ h₃ h₄ = some n := by
  refine ⟨_, _, _, _, rfl, ?_⟩
  simp only [unit?, Text.hexValue_hexDigit, Option.some.injEq, Nat.pow_eq, Nat.reducePow]
  omega

theorem assemble_unit {u : Nat} (h : u < 0x20) (ps : List Piece) :
    assemble (.unit u :: ps) = UInt8.ofNat u :: assemble ps := by
  have hhigh : isHighSurrogate u = false := by
    simp only [isHighSurrogate, Bool.and_eq_false_imp, decide_eq_true_eq]
    omega
  have hencode : Utf8.encode u = [UInt8.ofNat u] := by rw [Utf8.encode, if_pos (by omega)]
  rcases ps with _ | ⟨_ | v, ps⟩ <;> rw [assemble.eq_def] <;> simp [hencode, hhigh]

/-- An escaped byte is one part of a string, and this part stands for the byte. -/
theorem pieces_byte (b : UInt8) : ∃ p : Piece,
    (∀ r, pieces (JsonString.byte b ++ r) = (pieces r).map fun q => (p :: q.1, q.2)) ∧
      ∀ ps, assemble (p :: ps) = b :: assemble ps := by
  have hshort {b c : UInt8} (hunit : c ≠ ascii 'u') (h : unescape? c = some b) : ∃ p : Piece,
      (∀ r, pieces ([ascii '\\', c] ++ r) = (pieces r).map fun q => (p :: q.1, q.2)) ∧
        ∀ ps, assemble (p :: ps) = b :: assemble ps :=
    ⟨.byte b, fun _ => pieces_escape hunit h, fun _ => rfl⟩
  fun_cases JsonString.byte b with
  | case1 h => exact h ▸ hshort (c := ascii '"') (by decide) (by decide)
  | case2 _ h => exact h ▸ hshort (c := ascii '\\') (by decide) (by decide)
  | case3 _ _ h => exact h ▸ hshort (c := ascii 'n') (by decide) (by decide)
  | case4 _ _ _ h => exact h ▸ hshort (c := ascii 'r') (by decide) (by decide)
  | case5 _ _ _ _ h => exact h ▸ hshort (c := ascii 't') (by decide) (by decide)
  | case6 _ _ _ _ _ h => exact h ▸ hshort (c := ascii 'b') (by decide) (by decide)
  | case7 _ _ _ _ _ _ h => exact h ▸ hshort (c := ascii 'f') (by decide) (by decide)
  | case8 _ _ _ _ _ _ _ h =>
    have hlt : b.toNat < 0x20 := h
    obtain ⟨h₁, h₂, h₃, h₄, hhex, hunit⟩ := unit?_hex (n := b.toNat) (by omega)
    refine ⟨.unit b.toNat, fun r => ?_, fun ps => ?_⟩
    · rw [hhex]
      exact pieces_unit hunit
    · rw [assemble_unit hlt, UInt8.ofNat_toNat]
  | case9 hquote hslash _ _ _ _ _ h =>
    exact ⟨.byte b, fun _ => pieces_self hquote hslash h, fun _ => rfl⟩

/-- What stands between the quotes reads back as the text it was escaped from. -/
theorem stringBody_escape (t r : Text) :
    stringBody (JsonString.escape t ++ ascii '"' :: r) = some (t, r) := by
  have hpieces : ∃ ps, pieces (JsonString.escape t ++ ascii '"' :: r) = some (ps, r) ∧
      assemble ps = t := by
    induction t with
    | nil => exact ⟨[], pieces_quote r, rfl⟩
    | cons b t ih =>
      obtain ⟨ps, hps, ht⟩ := ih
      obtain ⟨p, hread, hp⟩ := pieces_byte b
      refine ⟨p :: ps, ?_, by rw [hp, ht]⟩
      unfold JsonString.escape at hps ⊢
      rw [List.flatMap_cons, List.append_assoc, hread, hps]
      rfl
  obtain ⟨ps, hps, ht⟩ := hpieces
  rw [stringBody, hps, Option.map_some, ht]

/-! ## Numbers -/

/-- What may stand behind a value: nothing, a blank, a comma or a closing bracket. -/
def Ends (r : Text) : Prop :=
  ∀ b ∈ r.head?, isBlank b = true ∨ b = ascii ',' ∨ b = ascii ']' ∨ b = ascii '\x7d'

/-- No such byte goes on with a number. -/
theorem Ends.not_mem {r : Text} (h : Ends r) :
    ∀ b ∈ r.head?, Text.isDigit b = false ∧ b ≠ ascii '.' ∧ b ≠ ascii 'e' ∧ b ≠ ascii 'E' := by
  intro b hb
  have hblank (hb : isBlank b = true) : b = 32 ∨ b = 9 ∨ b = 10 ∨ b = 13 := by
    simpa [isBlank, or_assoc] using hb
  rcases h b hb with h | rfl | rfl | rfl
  · rcases hblank h with rfl | rfl | rfl | rfl <;> decide
  all_goals decide

theorem digits_append {ds r : Text} (hne : ds ≠ []) (hds : ∀ b ∈ ds, Text.isDigit b = true)
    (hr : ∀ b ∈ r.head?, Text.isDigit b = false) : digits (ds ++ r) = some (ds, r) := by
  have htake : r.takeWhile Text.isDigit = [] := by
    cases r with
    | nil => rfl
    | cons b r => exact List.takeWhile_cons_of_neg (by simp [hr b rfl])
  have hdrop : r.dropWhile Text.isDigit = r := by
    cases r with
    | nil => rfl
    | cons b r => exact List.dropWhile_cons_of_neg (by simp [hr b rfl])
  rw [digits, List.takeWhile_append_of_pos hds, List.dropWhile_append_of_pos hds, htake, hdrop,
    List.append_nil]
  simp [hne]

theorem whole_ofNat (n : Nat) {r : Text} (h : Ends r) :
    whole (Text.ofNat n ++ r) = some (Text.ofNat n, r) := by
  have hshort (hzero : (Text.ofNat n).head? = some (ascii '0')) : (Text.ofNat n).length = 1 := by
    rw [Text.head?_ofNat hzero]
    decide
  rw [whole, digits_append (Text.ofNat_ne_nil n) (fun _ => Text.isDigit_of_mem_ofNat)
    fun b hb => (h.not_mem b hb).1, Option.filter_some]
  refine if_pos ?_
  by_cases hzero : (Text.ofNat n).head? = some (ascii '0')
  · simp [hshort hzero]
  · simp [hzero]

theorem fraction_eq {r : Text} (h : Ends r) : fraction r = some ([], r) := by
  cases r with
  | nil => rfl
  | cons b r => exact if_neg (h.not_mem b rfl).2.1

theorem exponent_eq {r : Text} (h : Ends r) : exponent r = some (0, r) := by
  cases r with
  | nil => rfl
  | cons b r =>
    obtain ⟨-, -, hlower, hupper⟩ := h.not_mem b rfl
    rw [exponent.eq_def]
    exact if_neg (by simp [hlower, hupper])

theorem numeral_ofNat (n : Nat) {r : Text} (h : Ends r) :
    numeral (Text.ofNat n ++ r) = some (.nat n, r) := by
  have hunsigned : unsigned (Text.ofNat n ++ r) = some ((n, 0), r) := by
    rw [unsigned, whole_ofNat n h, Option.bind_some, fraction_eq h, Option.bind_some,
      exponent_eq h, Option.map_some, List.append_nil, Text.natOfDigits_ofNat]
    rfl
  obtain ⟨b, ds, hcons⟩ := List.exists_cons_of_ne_nil (Text.ofNat_ne_nil n)
  have hdigit : Text.isDigit b = true := Text.isDigit_of_mem_ofNat (n := n) (by simp [hcons])
  have hminus : b ≠ ascii '-' := by
    rintro rfl
    exact absurd hdigit (by decide)
  rw [hcons, List.cons_append] at hunsigned ⊢
  rw [numeral, if_neg hminus, hunsigned]
  rfl

/-! ## Items -/

section

variable {α : Type}

/-- A reader that follows nesting up to depth `n` reads the text as the item when the text is not
longer than `n`, whatever may stand behind it. It may leave blanks at the end of the text unread. -/
def Reads (item : Nat → Text → Option (α × Text)) (a : α) (t : Text) : Prop :=
  ∀ n, t.length ≤ n → ∀ r, Ends r → ∃ r', item n (t ++ r) = some (a, r') ∧ skip r' = skip r

/-- Blanks in front of an item do not matter, and a closing bracket is not an item. -/
structure Skips (item : Nat → Text → Option (α × Text)) (close : UInt8) : Prop where
  skip_eq : ∀ n t, item n (skip t) = item n t
  close_eq : ∀ n r, item n (close :: r) = none

/-- Items with a comma between each two. -/
inductive Listed (R : α → Text → Prop) : List α → Text → Prop
  | single {a : α} {t : Text} : R a t → Listed R [a] t
  | cons {a : α} {as : List α} {t u : Text} :
    R a t → Listed R as u → Listed R (a :: as) (t ++ ascii ',' :: u)

/-- What stands between two brackets. -/
def Body (R : α → Text → Prop) (as : List α) (t : Text) : Prop :=
  Listed R as t ∨ as = [] ∧ Blank t

variable {item : Nat → Text → Option (α × Text)} {close : UInt8} {a : α} {as : List α}
  {t w r : Text}

theorem Ends.blanks (hw : Blank w) (h : Ends r) : Ends (w ++ r) := by
  cases w with
  | nil => exact h
  | cons b w =>
    rintro _ ⟨⟩
    exact .inl (hw b (by simp))

theorem Reads.after (hskips : Skips item close) (hw : Blank w) (h : Reads item a t) :
    Reads item a (w ++ t) := by
  intro n hn r hr
  rw [List.length_append] at hn
  rw [List.append_assoc, ← hskips.skip_eq, skip_append hw, hskips.skip_eq]
  exact h n (by omega) r hr

theorem Reads.before (hw : Blank w) (h : Reads item a t) : Reads item a (t ++ w) := by
  intro n hn r hr
  rw [List.length_append] at hn
  obtain ⟨r', hread, hr'⟩ := h n (by omega) (w ++ r) (hr.blanks hw)
  exact ⟨r', by rw [List.append_assoc, hread], by rw [hr', skip_append hw]⟩

theorem Listed.after (hskips : Skips item close) (hw : Blank w) (h : Listed (Reads item) as t) :
    Listed (Reads item) as (w ++ t) := by
  cases h with
  | single ha => exact .single (ha.after hskips hw)
  | cons ha h =>
    rw [← List.append_assoc]
    exact .cons (ha.after hskips hw) h

theorem Listed.before (hw : Blank w) (h : Listed (Reads item) as t) :
    Listed (Reads item) as (t ++ w) := by
  induction h with
  | single ha => exact .single (ha.before hw)
  | cons ha _ ih =>
    rw [List.append_assoc, List.cons_append]
    exact .cons ha ih

theorem Body.after (hskips : Skips item close) (hw : Blank w) (h : Body (Reads item) as t) :
    Body (Reads item) as (w ++ t) := by
  rcases h with h | ⟨has, ht⟩
  · exact .inl (h.after hskips hw)
  · exact .inr ⟨has, List.forall_mem_append.mpr ⟨hw, ht⟩⟩

theorem Body.before (hw : Blank w) (h : Body (Reads item) as t) :
    Body (Reads item) as (t ++ w) := by
  rcases h with h | ⟨has, ht⟩
  · exact .inl (h.before hw)
  · exact .inr ⟨has, List.forall_mem_append.mpr ⟨ht, hw⟩⟩

/-- Texts of items, joined by commas with blanks behind them, stand for the items. -/
theorem Body.join (hskips : Skips item close) (hw : Blank w) {ts : List Text}
    (h : List.Forall₂ (Reads item) as ts) :
    Body (Reads item) as (Text.join (ascii ',' :: w) ts) := by
  have hlisted : as ≠ [] → Listed (Reads item) as (Text.join (ascii ',' :: w) ts) := by
    induction h with
    | nil => exact fun hne => absurd rfl hne
    | cons ha hrest ih =>
      intro _
      cases hrest with
      | nil => exact .single ha
      | cons hb hrest =>
        rw [Text.join, List.append_assoc, List.cons_append]
        exact .cons ha ((ih (List.cons_ne_nil _ _)).after hskips hw)
  cases h with
  | nil => exact .inr ⟨rfl, by simp [Text.join, Blank]⟩
  | cons => exact .inl (hlisted (List.cons_ne_nil _ _))

theorem Listed.length_le {R : α → Text → Prop} (h : Listed R as t) : as.length ≤ t.length + 1 := by
  induction h with
  | single => simp
  | cons _ _ ih =>
    simp only [List.length_cons, List.length_append]
    omega

theorem items_eq (h : Listed (Reads item) as t) (hclose : close = ascii ']' ∨ close = ascii '\x7d')
    {n m : Nat} (hn : t.length ≤ n) (hm : as.length ≤ m) (r : Text) :
    items (item n) close m (t ++ close :: r) = some (as, r) := by
  have hblank : isBlank close = false := by rcases hclose with rfl | rfl <;> decide
  have hcomma : close ≠ ascii ',' := by rcases hclose with rfl | rfl <;> decide
  induction h generalizing m with
  | single ha =>
    obtain ⟨m, rfl⟩ : ∃ k, m = k + 1 := Nat.exists_eq_add_of_le' hm
    have hends : Ends (close :: r) := by
      rintro _ ⟨⟩
      exact .inr (.inr hclose)
    obtain ⟨r', hread, hr'⟩ := ha n hn (close :: r) hends
    rw [skip_cons hblank] at hr'
    simp only [items, hread, hr', if_neg hcomma, if_pos]
  | @cons a as t u ha _ ih =>
    obtain ⟨m, rfl⟩ : ∃ k, m = k + 1 := Nat.exists_eq_add_of_le' (Nat.le_trans (by simp) hm)
    simp only [List.length_append, List.length_cons] at hn hm
    have hends : Ends (ascii ',' :: (u ++ close :: r)) := by
      rintro _ ⟨⟩
      exact .inr (.inl rfl)
    obtain ⟨r', hread, hr'⟩ := ha n (by omega) _ hends
    rw [skip_cons (by decide)] at hr'
    rw [List.append_assoc, List.cons_append]
    have hrest := ih (m := m) (by omega) (by omega)
    simp only [items, hread, hr', if_pos, hrest, Option.map_some]

theorem enclosed_eq (h : Body (Reads item) as t) (hskips : Skips item close)
    (hclose : close = ascii ']' ∨ close = ascii '\x7d') {n : Nat} (hn : t.length ≤ n) (r : Text) :
    enclosed (item n) close (t ++ close :: r) = some (as, r) := by
  have hblank : isBlank close = false := by rcases hclose with rfl | rfl <;> decide
  rcases h with h | ⟨rfl, hw⟩
  · have hitems := items_eq h hclose hn (m := (t ++ close :: r).length)
      (Nat.le_trans h.length_le (by simp)) r
    cases hskip : skip (t ++ close :: r) with
    | nil =>
      have : isBlank close = true := by
        unfold skip at hskip
        rw [List.dropWhile_eq_nil_iff] at hskip
        exact hskip close (by simp)
      simp [hblank] at this
    | cons b u =>
      rw [enclosed, hskip]
      dsimp only
      rw [if_neg, hitems]
      rintro rfl
      -- the list would have to start with the closing bracket
      have hnone : item n (t ++ b :: r) = none := by
        rw [← hskips.skip_eq, hskip, hskips.close_eq]
      have hlen : (t ++ b :: r).length = (t ++ r).length + 1 := by simp [Nat.add_assoc]
      rw [hlen, items, hnone] at hitems
      cases hitems
  · rw [enclosed, skip_append hw, skip_cons hblank]
    exact if_pos rfl

end

/-! ## Values -/

theorem skips_value : Skips value (ascii ']') where
  skip_eq := value_skip
  close_eq n r := by
    cases n with
    | zero => rfl
    | succ n =>
      rw [value, skip_cons (by decide)]
      rfl

/-- The readers of members. -/
def memberValue (n : Nat) : Text → Option ((Text × Json) × Text) := member (value n)

theorem skips_memberValue : Skips memberValue (ascii '\x7d') where
  skip_eq n := member_skip (value n)
  close_eq n r := by
    rw [memberValue, member, skip_cons (by decide)]
    rfl

section

variable {v : Json} {t : Text}

theorem ofText?_eq (h : Reads value v t) : ofText? t = some v := by
  obtain ⟨r', hread, hr'⟩ := h t.length (Nat.le_refl _) [] (by simp [Ends])
  rw [List.append_nil] at hread
  rw [ofText?, hread]
  simp only [hr']
  rfl

/-- What is written otherwise is read by the same grammar, or is no JSON text. -/
example : ofText? (utf8 " \x7b\"\\u00e9\" : [-1.50, true]\x7d\n") =
      some (.object [(utf8 "é", .array [.number (-150) (-2), .bool true])]) ∧
    ofText? (utf8 "[1,]") = none ∧ ofText? (utf8 "01") = none :=
  ⟨rfl, rfl, rfl⟩

theorem quote_append (t r : Text) :
    JsonString.quote t ++ r = ascii '"' :: (JsonString.escape t ++ ascii '"' :: r) := by
  simp [JsonString.quote]

theorem reads_string (t : Text) : Reads value (.string t) (JsonString.quote t) := by
  intro n hn r _
  obtain ⟨n, rfl⟩ : ∃ k, n = k + 1 :=
    Nat.exists_eq_add_of_le' (Nat.le_trans (by simp [JsonString.quote]) hn)
  refine ⟨r, ?_, rfl⟩
  rw [quote_append, value, skip_cons (by decide)]
  simp only [if_pos, stringBody_escape, Option.map_some]

theorem reads_nat (m : Nat) : Reads value (.nat m) (Text.ofNat m) := by
  obtain ⟨b, ds, hcons⟩ := List.exists_cons_of_ne_nil (Text.ofNat_ne_nil m)
  have hdigit : Text.isDigit b = true := Text.isDigit_of_mem_ofNat (n := m) (by simp [hcons])
  have hne {c : UInt8} (hc : Text.isDigit c = false) : b ≠ c := by
    rintro rfl
    simp [hc] at hdigit
  have hblank : isBlank b = false := by
    have : ∀ c : UInt8, isBlank c = true → Text.isDigit c = false := by
      intro c hc
      simp only [isBlank, Bool.or_eq_true, decide_eq_true_eq] at hc
      rcases hc with ((rfl | rfl) | rfl) | rfl <;> decide
    by_contra h
    simp [this b (by simpa using h)] at hdigit
  intro n hn r hr
  have hnum := numeral_ofNat m hr
  rw [hcons] at hn hnum ⊢
  obtain ⟨n, rfl⟩ : ∃ k, n = k + 1 := Nat.exists_eq_add_of_le' (Nat.le_trans (by simp) hn)
  refine ⟨r, ?_, rfl⟩
  rw [List.cons_append] at hnum ⊢
  rw [value, skip_cons hblank]
  simp only [if_neg (hne (c := ascii '"') (by decide)), if_neg (hne (c := ascii '[') (by decide)),
    if_neg (hne (c := ascii '\x7b') (by decide)), hdigit, Bool.or_true, if_pos, hnum]

theorem reads_array {vs : List Json} (h : Body (Reads value) vs t) :
    Reads value (.array vs) (ascii '[' :: t ++ [ascii ']']) := by
  intro n hn r _
  simp only [List.length_append, List.length_cons] at hn
  obtain ⟨n, rfl⟩ : ∃ k, n = k + 1 := Nat.exists_eq_add_of_le' (Nat.le_trans (by simp) hn)
  refine ⟨r, ?_, rfl⟩
  rw [List.append_assoc, List.cons_append, List.singleton_append, value, skip_cons (by decide)]
  have hne : ascii '[' ≠ ascii '"' := by decide
  simp only [if_neg hne, if_pos, enclosed_eq h skips_value (.inl rfl) (show t.length ≤ n by omega),
    Option.map_some]

theorem reads_object {ms : List (Text × Json)} (h : Body (Reads memberValue) ms t) :
    Reads value (.object ms) (ascii '\x7b' :: t ++ [ascii '\x7d']) := by
  intro n hn r _
  simp only [List.length_append, List.length_cons] at hn
  obtain ⟨n, rfl⟩ : ∃ k, n = k + 1 := Nat.exists_eq_add_of_le' (Nat.le_trans (by simp) hn)
  refine ⟨r, ?_, rfl⟩
  have hread := enclosed_eq h skips_memberValue (.inr rfl) (show t.length ≤ n by omega) r
  rw [memberValue] at hread
  rw [List.append_assoc, List.cons_append, List.singleton_append, value, skip_cons (by decide)]
  have hquote : ascii '\x7b' ≠ ascii '"' := by decide
  have hbracket : ascii '\x7b' ≠ ascii '[' := by decide
  simp only [if_neg hquote, if_neg hbracket, if_pos, hread, Option.map_some]

theorem reads_member (key : Text) (h : Reads value v t) :
    Reads memberValue (key, v) (JsonString.quote key ++ ascii ':' :: t) := by
  intro n hn r hr
  simp only [List.length_append, List.length_cons] at hn
  obtain ⟨r', hread, hr'⟩ := h n (by omega) r hr
  refine ⟨r', ?_, hr'⟩
  rw [List.append_assoc, List.cons_append, memberValue, member, quote_append, skip_cons (by decide)]
  simp only [if_pos, stringBody_escape]
  rw [skip_cons (by decide)]
  simp only [if_pos, hread, Option.map_some]

end

end CloneScout.Json
