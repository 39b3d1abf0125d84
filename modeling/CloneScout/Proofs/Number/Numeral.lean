import CloneScout.Number.Radix
import CloneScout.Number.Shortest
import CloneScout.Token.Number

/-!
# Numerals

The decimal numeral of a number is a run of digits that reads back as the number. The text of a
floating-point number is no such run, and the text of an imaginary number has a mark of its own, so
the three kinds of numbers are told apart by their texts. As a literal the numeral denotes the
number, and it ends where a blank or the end of the text follows.
-/

namespace CloneScout

namespace Text

/-! ## Whole numbers -/

theorem ofNat_eq (n : Nat) :
    ofNat n = if n < 10 then [UInt8.ofNat (48 + n)]
      else ofNat (n / 10) ++ [UInt8.ofNat (48 + n % 10)] := by
  have hdigit : ∀ d < 10, ascii d.digitChar = UInt8.ofNat (48 + d) := by decide
  unfold ofNat
  rw [Nat.toDigits_eq_if (by decide)]
  split
  next h => rw [List.map_singleton, hdigit n h]
  next => rw [List.map_append, List.map_singleton, hdigit _ (Nat.mod_lt n (by decide))]

theorem isDigit_ofNat {d : Nat} (h : d < 10) : isDigit (UInt8.ofNat (48 + d)) = true := by
  revert d
  decide

theorem ofNat_ne_nil (n : Nat) : ofNat n ≠ [] := by
  rw [ofNat_eq]
  split <;> simp

theorem isDigit_of_mem_ofNat {n : Nat} {b : UInt8} (h : b ∈ ofNat n) : isDigit b = true := by
  induction n using Nat.strongRecOn with
  | ind n ih =>
    rw [ofNat_eq] at h
    split at h
    next hlt =>
      obtain rfl := List.mem_singleton.mp h
      exact isDigit_ofNat hlt
    next hge =>
      rcases List.mem_append.mp h with h | h
      · exact ih (n / 10) (by omega) h
      · obtain rfl := List.mem_singleton.mp h
        exact isDigit_ofNat (Nat.mod_lt n (by decide))

/-- A number of several digits does not start with a zero. -/
theorem head?_ofNat {n : Nat} (h : (ofNat n).head? = some (ascii '0')) : n = 0 := by
  induction n using Nat.strongRecOn with
  | ind n ih =>
    rw [ofNat_eq] at h
    split at h
    next hlt =>
      have hzero : ∀ d < 10, some (UInt8.ofNat (48 + d)) = some (ascii '0') → d = 0 := by decide
      exact hzero n hlt h
    next hge =>
      obtain ⟨b, tail, hcons⟩ := List.exists_cons_of_ne_nil (ofNat_ne_nil (n / 10))
      rw [hcons, List.cons_append, List.head?_cons, ← List.head?_cons (l := tail), ← hcons] at h
      have := ih (n / 10) (by omega) h
      omega

theorem natOfDigits_append (acc : Nat) (s t : Text) :
    natOfDigits acc (s ++ t) = natOfDigits (natOfDigits acc s) t := by
  induction s generalizing acc with
  | nil => rfl
  | cons b s ih => exact ih _

theorem natOfDigits_singleton (acc : Nat) (b : UInt8) :
    natOfDigits acc [b] = acc * 10 + (b.toNat - 48) := rfl

theorem natOfDigits_ofNat (n : Nat) : natOfDigits 0 (ofNat n) = n := by
  have hvalue : ∀ d < 10, (UInt8.ofNat (48 + d)).toNat - 48 = d := by decide
  induction n using Nat.strongRecOn with
  | ind n ih =>
    rw [ofNat_eq]
    split
    next hlt =>
      rw [natOfDigits_singleton, hvalue n hlt]
      omega
    next hge =>
      rw [natOfDigits_append, ih (n / 10) (by omega), natOfDigits_singleton,
        hvalue _ (Nat.mod_lt n (by decide))]
      omega

theorem ofNat_injective {m n : Nat} (h : ofNat m = ofNat n) : m = n := by
  rw [← natOfDigits_ofNat m, h, natOfDigits_ofNat]

end Text

/-! ## Floating-point numbers -/

namespace Shortest

/-- The bytes of floating-point numbers, infinities and nans. -/
def isMark (b : UInt8) : Bool := Text.isDigit b || (utf8 ".+-einfa").contains b

/-- The text is made of such bytes and is no run of digits. -/
def IsFloat (t : Text) : Prop := (∀ b ∈ t, isMark b = true) ∧ ∃ b ∈ t, Text.isDigit b = false

theorem isMark_of_isDigit {b : UInt8} (h : Text.isDigit b = true) : isMark b = true := by
  rw [isMark, h, Bool.true_or]

theorem isDigit_digits {m : Nat} {q : Int} {b : UInt8} (h : b ∈ (digits m q).1) :
    Text.isDigit b = true := by
  rw [digits, List.mem_reverse] at h
  exact Text.isDigit_of_mem_ofNat (List.mem_reverse.mp ((List.dropWhile_sublist _).subset h))

theorem isDigit_of_mem_replicate {n : Nat} {b : UInt8} (h : b ∈ List.replicate n (ascii '0')) :
    Text.isDigit b = true := by
  obtain rfl := List.eq_of_mem_replicate h
  decide

/-- Digits around a point or an exponent mark. -/
theorem IsFloat.of_parts {s t mark : Text} (hs : ∀ b ∈ s, isMark b = true)
    (ht : ∀ b ∈ t, isMark b = true) (hmark : IsFloat mark) : IsFloat (s ++ mark ++ t) := by
  obtain ⟨hall, b, hb, hno⟩ := hmark
  refine ⟨fun c hc => ?_, b, by simp [hb], hno⟩
  simp only [List.mem_append] at hc
  rcases hc with (hc | hc) | hc
  · exact hs c hc
  · exact hall c hc
  · exact ht c hc

theorem isFloat_positive {ds : Text} (h : ∀ b ∈ ds, Text.isDigit b = true) (exponent : Int) :
    IsFloat (positive ds exponent) := by
  have hds (b : UInt8) (hb : b ∈ ds) : isMark b = true := isMark_of_isDigit (h b hb)
  have htake (n : Nat) (b : UInt8) (hb : b ∈ ds.take n) : isMark b = true :=
    hds b (List.mem_of_mem_take hb)
  have hdrop (n : Nat) (b : UInt8) (hb : b ∈ ds.drop n) : isMark b = true :=
    hds b (List.mem_of_mem_drop hb)
  have hzeros (n : Nat) (b : UInt8) (hb : b ∈ List.replicate n (ascii '0')) : isMark b = true :=
    isMark_of_isDigit (isDigit_of_mem_replicate hb)
  have hpoint : IsFloat (utf8 ".") := by unfold IsFloat; decide
  unfold positive
  split
  · split
    · dsimp only
      split
      · rw [← List.append_nil (_ ++ utf8 ".0")]
        refine IsFloat.of_parts (fun b hb => ?_) (by simp) (by unfold IsFloat; decide)
        exact (List.mem_append.mp hb).elim (hds b) (hzeros _ b)
      · exact .of_parts (htake _) (hdrop _) hpoint
    · rw [← List.nil_append (utf8 "0."), List.append_assoc]
      refine IsFloat.of_parts (by simp) (fun b hb => ?_) (by unfold IsFloat; decide)
      exact (List.mem_append.mp hb).elim (hzeros _ b) (hds b)
  · dsimp only
    rw [List.append_assoc]
    refine IsFloat.of_parts (fun b hb => ?_) (fun b hb => ?_) ?_
    · split at hb
      · exact hds b hb
      · simp only [List.mem_append] at hb
        rcases hb with (hb | hb) | hb
        · exact htake _ b hb
        · exact hpoint.1 b hb
        · exact hdrop _ b hb
    · refine (List.mem_append.mp hb).elim (fun hb => ?_)
        fun hb => isMark_of_isDigit (Text.isDigit_of_mem_ofNat hb)
      split at hb
      · have hzero : ∀ b ∈ utf8 "0", isMark b = true := by decide
        exact hzero b hb
      · exact absurd hb (by simp)
    · split <;> (unfold IsFloat; decide)

theorem isFloat_text (v : Binary64) : IsFloat (text v) := by
  cases v with
  | nan => unfold IsFloat; decide
  | infinite negative => cases negative <;> (unfold IsFloat; decide)
  | finite negative m q =>
    have hsign (b : UInt8) (hb : b ∈ if negative then utf8 "-" else []) : isMark b = true := by
      cases negative
      · exact absurd hb (by simp)
      · revert b; decide
    rw [text]
    dsimp only
    split
    · rw [← List.append_nil (_ ++ utf8 "0.0")]
      exact .of_parts hsign (by simp) (by unfold IsFloat; decide)
    · rw [← List.append_nil (_ ++ positive _ _)]
      exact .of_parts hsign (by simp) (isFloat_positive (fun b => isDigit_digits) _)

/-- The text of an imaginary number is its mark behind bytes of floating-point numbers. -/
theorem imaginary_eq (v : Binary64) :
    ∃ t, imaginary v = t ++ utf8 "j" ∧ ∀ b ∈ t, isMark b = true := by
  have hall := (isFloat_text v).1
  unfold imaginary
  dsimp only
  split
  · exact ⟨_, rfl, fun b hb => hall b (List.mem_of_mem_take hb)⟩
  · exact ⟨_, rfl, hall⟩

end Shortest

end CloneScout

namespace CloneScout

namespace Radix

/-- Digits are no marks: they neither separate digits nor select a base. -/
theorem digit_facts {b : UInt8} (h : Text.isDigit b = true) :
    b ≠ ascii '_' ∧ Text.hexValue b = some (b.toNat - 48) ∧ b.toNat - 48 < 10 ∧
      baseOfMark? b = none := by
  have hall : ∀ n < 256, Text.isDigit (UInt8.ofNat n) = true →
      UInt8.ofNat n ≠ ascii '_' ∧
        Text.hexValue (UInt8.ofNat n) = some ((UInt8.ofNat n).toNat - 48) ∧
        (UInt8.ofNat n).toNat - 48 < 10 ∧ baseOfMark? (UInt8.ofNat n) = none := by decide +kernel
  have hb := hall b.toNat b.toNat_lt
  rw [UInt8.ofNat_toNat] at hb
  exact hb h

theorem readDigits_of_isDigit {t : Text} (ht : ∀ b ∈ t, Text.isDigit b = true) {acc : Nat}
    {any : Bool} (hany : any = true ∨ t ≠ []) :
    readDigits 10 acc any t = some (Text.natOfDigits acc t) := by
  induction t generalizing acc any with
  | nil =>
    have hsome : any = true := hany.resolve_right (by simp)
    rw [readDigits, if_pos hsome]
    rfl
  | cons b t ih =>
    obtain ⟨hmark, hvalue, hlt, -⟩ := digit_facts (ht b List.mem_cons_self)
    rw [readDigits, if_neg hmark, hvalue]
    simp only [if_pos hlt]
    rw [ih (fun c hc => ht c (List.mem_cons_of_mem b hc)) (.inl rfl)]
    rfl

theorem parseLiteral?_ofNat (n : Nat) : parseLiteral? (Text.ofNat n) = some n := by
  have hdigits : ∀ b ∈ Text.ofNat n, Text.isDigit b = true := fun _ => Text.isDigit_of_mem_ofNat
  have hparse : parse? 10 (Text.ofNat n) = some n := by
    rw [parse?, readDigits_of_isDigit hdigits (.inr (Text.ofNat_ne_nil n)), Text.natOfDigits_ofNat]
  unfold parseLiteral?
  split
  next zero mark digit rest heq =>
    have hmark := (digit_facts (hdigits mark (by rw [heq]; simp))).2.2.2
    rw [hmark]
    exact hparse
  next => exact hparse

end Radix

namespace Token.Number

/-- The text is at its end or goes on with a blank. -/
def Stops (t : Text) : Prop := ∀ b ∈ t.head?, b = ascii ' '

theorem run_of_isDigit {s t : Text} (hs : ∀ b ∈ s, Text.isDigit b = true) (ht : Stops t)
    (after : Bool) : run Text.isDigit after (s ++ t) = ⟨s, s.length, after && s.isEmpty⟩ := by
  have hblank : ascii ' ' ≠ ascii '_' ∧ Text.isDigit (ascii ' ') = false := by decide
  induction s generalizing after with
  | nil =>
    cases t with
    | nil => simp [run]
    | cons b t =>
      obtain rfl : b = ascii ' ' := ht b rfl
      simp [run, hblank.1, hblank.2]
  | cons b s ih =>
    have hb := hs b List.mem_cons_self
    have hmark := (Radix.digit_facts hb).1
    rw [List.cons_append, run, if_neg hmark, if_pos hb,
      ih (fun c hc => hs c (List.mem_cons_of_mem b hc)) false]
    simp

theorem digits_of_isDigit {s t : Text} (hs : ∀ b ∈ s, Text.isDigit b = true) (hne : s ≠ [])
    (ht : Stops t) : digits Text.isDigit (s ++ t) = ⟨s, s.length, false⟩ := by
  have hempty : s.isEmpty = false := by simpa using hne
  simp [digits, run_of_isDigit hs ht, hempty]

/-- Behind the digits nothing belongs to the number. -/
theorem decimal_of_isDigit {s t : Text} (hs : ∀ b ∈ s, Text.isDigit b = true) (hne : s ≠ [])
    (hzero : leadingZero s = false) (ht : Stops t) :
    decimal (s ++ t) = ⟨s.length, .intLit, false⟩ := by
  have hblank : ascii ' ' ≠ ascii '.' ∧ Text.toLower (ascii ' ') ≠ ascii 'e' ∧
      Text.toLower (ascii ' ') ≠ ascii 'j' := by decide
  have hfraction : fraction? s.length t = none := by
    cases t with
    | nil => rfl
    | cons b t =>
      obtain rfl : b = ascii ' ' := ht b rfl
      simp [fraction?, hblank.1]
  have hexponent : exponent? t = none := by
    cases t with
    | nil => rfl
    | cons b t =>
      obtain rfl : b = ascii ' ' := ht b rfl
      simp [exponent?, hblank.2.1]
  have himaginary : (t.head?.any fun b => Text.toLower b = ascii 'j') = false := by
    cases t with
    | nil => rfl
    | cons b t =>
      obtain rfl : b = ascii ' ' := ht b rfl
      simp [hblank.2.2]
  simp only [decimal, digits_of_isDigit hs hne ht, List.drop_left, hfraction, Option.elim_none,
    List.drop_zero, List.length_nil, hexponent, himaginary, Option.isSome_none, Option.any_none, hzero]
  simp

theorem leadingZero_ofNat (n : Nat) : leadingZero (Text.ofNat n) = false := by
  rw [Bool.eq_false_iff]
  intro h
  simp only [leadingZero, Bool.and_eq_true, decide_eq_true_eq] at h
  obtain ⟨⟨hlength, hhead⟩, -⟩ := h
  have hn := Text.head?_ofNat hhead
  rw [hn] at hlength
  exact absurd hlength (by decide)

theorem scan_ofNat (n : Nat) {t : Text} (ht : Stops t) :
    scan (Text.ofNat n ++ t) = ⟨(Text.ofNat n).length, .intLit, false⟩ := by
  have hdigits : ∀ b ∈ Text.ofNat n, Text.isDigit b = true := fun _ => Text.isDigit_of_mem_ofNat
  have hdecimal := decimal_of_isDigit hdigits (Text.ofNat_ne_nil n) (leadingZero_ofNat n) ht
  have hmarks : ∀ k < 256, Text.isDigit (UInt8.ofNat k) = true ∨ UInt8.ofNat k = ascii ' ' →
      digitsOfMark? (UInt8.ofNat k) = none := by decide +kernel
  have hbare : bare (Text.ofNat n ++ t) = ⟨(Text.ofNat n).length, .intLit, false⟩ := by
    unfold bare
    split
    next zero mark rest heq =>
      -- the second byte is a digit of the number or the blank behind it
      have hmark : Text.isDigit mark = true ∨ mark = ascii ' ' := by
        obtain ⟨b, s, hs⟩ := List.exists_cons_of_ne_nil (Text.ofNat_ne_nil n)
        rw [hs, List.cons_append] at heq
        obtain ⟨-, htail⟩ := List.cons.inj heq
        cases s with
        | nil => exact .inr (ht mark (by rw [show t = mark :: rest from htail]; rfl))
        | cons c s =>
          refine .inl (hdigits mark ?_)
          rw [hs, (List.cons.inj htail).1]
          simp
      have hnone := hmarks mark.toNat mark.toNat_lt
      rw [UInt8.ofNat_toNat] at hnone
      rw [hnone hmark]
      exact hdecimal
    next => exact hdecimal
  have hglued : t.takeWhile isIdentPart = [] := by
    cases t with
    | nil => rfl
    | cons b t =>
      obtain rfl : b = ascii ' ' := ht b rfl
      exact List.takeWhile_cons_of_neg (by decide)
  simp [scan, hbare, hglued]

end Token.Number

end CloneScout
