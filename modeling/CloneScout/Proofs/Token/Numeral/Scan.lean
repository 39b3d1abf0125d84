import CloneScout.Proofs.Token.Moves
import CloneScout.Proofs.Token.Numeral
import CloneScout.Proofs.Token.Scanning

/-!
# Scanning a numeric literal

Digits, a fraction and a power are found whole in front of any text. What is found may be longer
than the part, when digits go on behind it; if it is the part, nothing is wrong with it. So the scan
of a text reaches at least over every literal in front of the text. If it ends with the literal, it
is of the literal's kind and nothing is wrong with it.
-/

namespace CloneScout.Token

namespace Numeral

open Number

variable {isDigit : UInt8 → Bool}

/-! ## Runs of digits -/

/-- The text does not go on with a digit or an underscore. -/
def EndsDigits (isDigit : UInt8 → Bool) (t : Text) : Prop :=
  ∀ b ∈ t.head?, b ≠ ascii '_' ∧ isDigit b = false

theorem run_false_of_endsDigits {t : Text} (h : EndsDigits isDigit t) : run isDigit false t = ⟨[], 0, false⟩ := by
  cases t with
  | nil => rfl
  | cons b t =>
    obtain ⟨hunder, hdigit⟩ := h b rfl
    rw [run, if_neg hunder, if_neg (by rw [hdigit]; decide)]

/-- A run that adds nothing to the digits in front of it is well-formed. -/
theorem bad_run_false {t : Text} (h : (run isDigit false t).text = []) :
    (run isDigit false t).bad = false := by
  cases t with
  | nil => rfl
  | cons b t =>
    unfold run at h ⊢
    split at h
    · exact absurd h (List.cons_ne_nil _ _)
    · split at h
      · exact absurd h (List.cons_ne_nil _ _)
      · simp_all

/-- Digits are read to their end and go on with what follows. -/
theorem run_append (hunder : isDigit (ascii '_') = false) {s : Text} (hs : Digits isDigit s)
    (after : Bool) (t : Text) :
    ∃ n, 0 < n ∧ run isDigit after (s ++ t) =
      ⟨s ++ (run isDigit false t).text, n, (run isDigit false t).bad⟩ := by
  have hne {b : UInt8} (hb : isDigit b = true) : b ≠ ascii '_' := by
    rintro rfl
    rw [hunder] at hb
    exact Bool.noConfusion hb
  induction hs generalizing after with
  | @single b hb =>
    refine ⟨(run isDigit false t).digits + 1, Nat.succ_pos _, ?_⟩
    rw [List.singleton_append, run, if_neg (hne hb), if_pos hb]
    rfl
  | @digit b s hb hs ih =>
    obtain ⟨n, -, hrun⟩ := ih false
    refine ⟨n + 1, Nat.succ_pos _, ?_⟩
    rw [List.cons_append, run, if_neg (hne hb), if_pos hb, hrun]
    rfl
  | @underscore b s hb hs ih =>
    obtain ⟨n, -, hrun⟩ := ih true
    refine ⟨n + 1, Nat.succ_pos _, ?_⟩
    rw [List.cons_append, run, if_neg (hne hb), if_pos hb, List.cons_append, run, if_pos rfl, hrun]
    rfl

theorem digits_append (hunder : isDigit (ascii '_') = false) {s : Text} (hs : Digits isDigit s)
    (t : Text) :
    ∃ n, 0 < n ∧ digits isDigit (s ++ t) =
      ⟨s ++ (run isDigit false t).text, n, (run isDigit false t).bad⟩ := by
  obtain ⟨n, hn, hrun⟩ := run_append hunder hs true t
  refine ⟨n, hn, ?_⟩
  obtain ⟨b, r, rfl, -⟩ := hs.head
  rw [digits, hrun]
  rfl

/-- A run that is not bad is made of digits, together with a digit in front of it unless it starts
the literal. -/
theorem digits_of_run (t : Text) :
    ((run isDigit true t).bad = false → Digits isDigit (run isDigit true t).text) ∧
      ((run isDigit false t).bad = false → ∀ b, isDigit b = true →
        Digits isDigit (b :: (run isDigit false t).text)) := by
  induction t with
  | nil => exact ⟨fun h => Bool.noConfusion h, fun _ b hb => .single hb⟩
  | cons c t ih =>
    by_cases hunder : c = ascii '_'
    · simp only [run, if_pos hunder]
      refine ⟨fun h => Bool.noConfusion h, fun h b hb => ?_⟩
      rw [hunder]
      exact .underscore hb (ih.1 h)
    · by_cases hc : isDigit c = true
      · simp only [run, if_neg hunder, if_pos hc]
        exact ⟨fun h => ih.2 h c hc, fun h b hb => .digit hb (ih.2 h c hc)⟩
      · simp only [run, if_neg hunder, if_neg hc]
        exact ⟨fun h => Bool.noConfusion h, fun _ b hb => .single hb⟩

theorem digits_of_digits {t : Text} (h : (digits isDigit t).bad = false) :
    Maybe (Digits isDigit) (digits isDigit t).text := by
  by_cases hempty : (run isDigit true t).text.isEmpty
  · rw [digits, if_pos hempty]
    exact .inl rfl
  · rw [digits, if_neg hempty] at h ⊢
    exact .inr ((digits_of_run t).1 h)

theorem mem_run {after : Bool} {t : Text} {b : UInt8} (h : b ∈ (run isDigit after t).text) :
    b = ascii '_' ∨ isDigit b = true := by
  induction t generalizing after with
  | nil => exact absurd h List.not_mem_nil
  | cons c t ih =>
    unfold run at h
    split at h
    next hc =>
      rcases List.mem_cons.mp h with rfl | h
      · exact .inl hc
      · exact ih h
    next =>
      split at h
      next hc =>
        rcases List.mem_cons.mp h with rfl | h
        · exact .inr hc
        · exact ih h
      next => exact absurd h List.not_mem_nil

theorem mem_digits {t : Text} {b : UInt8} (h : b ∈ (digits isDigit t).text) :
    b = ascii '_' ∨ isDigit b = true := by
  unfold digits at h
  dsimp only at h
  split at h
  · exact absurd h List.not_mem_nil
  · exact mem_run h

theorem digits_of_endsDigits {t : Text} (h : EndsDigits isDigit t) : digits isDigit t = ⟨[], 0, false⟩ := by
  cases t with
  | nil => rfl
  | cons b t =>
    obtain ⟨hunder, hdigit⟩ := h b rfl
    have hrun : run isDigit true (b :: t) = ⟨[], 0, true⟩ := by
      rw [run, if_neg hunder, if_neg (by rw [hdigit]; decide)]
    rw [digits, hrun]
    rfl

/-! ## Parts found in a text -/

/-- The run found is the part of a literal or longer; if it is the part, it is well-formed. It is
the part when the text `stops` behind it. -/
structure Finds (part : Text) (stops : Prop) (found : Run) : Prop where
  front : part <+: found.text
  good : found.text.length = part.length → found.bad = false
  exact : stops → found.text = part

theorem Finds.mono {part : Text} {stops stops' : Prop} {found : Run} (h : Finds part stops found)
    (himp : stops' → stops) : Finds part stops' found :=
  ⟨h.front, h.good, fun hstops => h.exact (himp hstops)⟩

/-- A part is found with what the run of digits behind it adds. -/
theorem finds_run (part : Text) {t : Text} {n : Nat} :
    Finds part (EndsDigits isDigit t) ⟨part ++ (run isDigit false t).text, n, (run isDigit false t).bad⟩ := by
  refine ⟨List.prefix_append _ _, fun hlength => bad_run_false ?_, fun hstops => ?_⟩
  · rw [List.length_append] at hlength
    exact List.eq_nil_of_length_eq_zero (by omega)
  · rw [run_false_of_endsDigits hstops]
    exact List.append_nil part

theorem finds_digits {whole t : Text} (h : Maybe Decimal whole)
    (hstops : whole = [] → EndsDigits Text.isDigit t) :
    Finds whole (EndsDigits Text.isDigit t) (digits Text.isDigit (whole ++ t)) ∧
      (whole ≠ [] → 0 < (digits Text.isDigit (whole ++ t)).digits) := by
  rcases h with rfl | h
  · rw [List.nil_append, digits_of_endsDigits (hstops rfl)]
    exact ⟨⟨List.prefix_rfl, fun _ => rfl, fun _ => rfl⟩, fun hne => absurd rfl hne⟩
  · obtain ⟨n, hn, heq⟩ := digits_append (by decide) h t
    rw [heq]
    exact ⟨finds_run _, fun _ => hn⟩

/-- What is found where a part is missing. -/
def noRun : Run := ⟨[], 0, false⟩

theorem text_fraction?_ne_nil {n : Nat} {t : Text} {f : Run} (h : fraction? n t = some f) :
    f.text ≠ [] := by
  unfold fraction? at h
  split at h
  · dsimp only at h
    split at h
    · obtain rfl := Option.some.inj h
      exact List.cons_ne_nil _ _
    · exact absurd h (by simp)
  · exact absurd h (by simp)

/-- A point that digits stand next to starts a fraction. -/
theorem fraction?_point {n : Nat} {t : Text} (h : 0 < n ∨ t.head?.any Text.isDigit = true) :
    fraction? n (ascii '.' :: t) =
      if t.head?.any Text.isDigit then
        some { digits Text.isDigit t with text := ascii '.' :: (digits Text.isDigit t).text }
      else some ⟨[ascii '.'], 0, false⟩ := by
  have hcond : (ascii '.' = ascii '.' && !(n = 0 && !t.head?.any Text.isDigit)) = true := by
    rcases h with hn | hany
    · simp [Nat.ne_of_gt hn]
    · simp [hany]
  rw [fraction?]
  dsimp only
  rw [if_pos hcond]
  split <;> rfl

theorem finds_fraction {point t : Text} {n : Nat} (h : Maybe IsFraction point)
    (hn : 0 < n ∨ ∃ t, Decimal t ∧ point = ascii '.' :: t) :
    Finds point (EndsDigits Text.isDigit t ∧ t.head? ≠ some (ascii '.'))
      ((fraction? n (point ++ t)).getD noRun) := by
  rcases h with rfl | h
  · refine ⟨List.nil_prefix, fun hlength => ?_, fun hstops => ?_⟩
    · cases hf : fraction? n ([] ++ t) with
      | none => rfl
      | some f =>
        rw [hf] at hlength
        exact absurd (List.eq_nil_of_length_eq_zero hlength) (text_fraction?_ne_nil hf)
    · cases t with
      | nil => rfl
      | cons b t =>
        have hpoint : ¬ b = ascii '.' := fun hb => hstops.2 (by rw [hb]; rfl)
        simp [fraction?, hpoint, noRun]
  cases h with
  | alone =>
    have hpos : 0 < n := by
      refine hn.resolve_right ?_
      rintro ⟨t, ht, heq⟩
      exact ht.ne_nil (List.cons.inj heq).2.symm
    rw [List.singleton_append, fraction?_point (.inl hpos)]
    split
    · next hany =>
      -- digits behind the point make the fraction longer
      obtain ⟨b, hb, hdigit⟩ := (Option.any_eq_true _ _).mp hany
      obtain ⟨r, rfl⟩ := List.head?_eq_some_iff.mp hb
      have hone : Digits Text.isDigit [b] := .single hdigit
      obtain ⟨m, -, heq⟩ := digits_append (by decide) hone r
      rw [List.singleton_append] at heq
      rw [heq]
      refine ⟨⟨_, rfl⟩, fun hlength => absurd hlength (by simp), fun hstops => ?_⟩
      have hno := (hstops.1 b rfl).2
      rw [hdigit] at hno
      exact Bool.noConfusion hno
    · exact ⟨List.prefix_rfl, fun _ => rfl, fun _ => rfl⟩
  | @digits s hs =>
    obtain ⟨b, r, rfl, hdigit⟩ := hs.head
    rw [List.cons_append, fraction?_point (.inr (show ((b :: r) ++ t).head?.any Text.isDigit = true from hdigit)),
      if_pos (show ((b :: r) ++ t).head?.any Text.isDigit = true from hdigit)]
    obtain ⟨m, -, heq⟩ := digits_append (by decide) hs t
    rw [heq]
    exact (finds_run (ascii '.' :: b :: r)).mono And.left

theorem text_exponent?_ne_nil {t : Text} {e : Run} (h : exponent? t = some e) : e.text ≠ [] := by
  unfold exponent? at h
  split at h
  · split at h
    · split at h
      · split at h
        · obtain rfl := Option.some.inj h
          exact List.cons_ne_nil _ _
        · split at h
          · obtain rfl := Option.some.inj h
            exact List.cons_ne_nil _ _
          · exact absurd h (by simp)
      · exact absurd h (by simp)
    · exact absurd h (by simp)
  · exact absurd h (by simp)

theorem toLower_eq_e (b : UInt8) :
    Text.toLower b = ascii 'e' ↔ b = ascii 'e' ∨ b = ascii 'E' := by
  revert b
  exact forall_byte (by decide +kernel)

theorem toLower_eq_j (b : UInt8) :
    Text.toLower b = ascii 'j' ↔ b = ascii 'j' ∨ b = ascii 'J' := by
  revert b
  exact forall_byte (by decide +kernel)

theorem finds_exponent {power t : Text} (h : Maybe IsExponent power) :
    Finds power (EndsDigits Text.isDigit t ∧ ∀ b ∈ t.head?, Text.toLower b ≠ ascii 'e')
      ((exponent? (power ++ t)).getD noRun) := by
  rcases h with rfl | h
  · refine ⟨List.nil_prefix, fun hlength => ?_, fun hstops => ?_⟩
    · cases he : exponent? ([] ++ t) with
      | none => rfl
      | some e =>
        rw [he] at hlength
        exact absurd (List.eq_nil_of_length_eq_zero hlength) (text_exponent?_ne_nil he)
    · cases t with
      | nil => rfl
      | cons b t =>
        have hmark := hstops.2 b rfl
        simp [exponent?, hmark, noRun]
  cases h with
  | @intro mark sign s hmark hsign hs =>
    have hlower := (toLower_eq_e mark).mpr hmark
    obtain ⟨b, r, rfl, hdigit⟩ := hs.head
    obtain ⟨m, -, heq⟩ := digits_append (by decide) hs t
    rw [List.cons_append] at heq
    -- a sign is no digit, so it is stepped over
    rcases hsign with rfl | rfl | rfl
    · have hfound : exponent? (mark :: ([] ++ b :: r) ++ t) =
          some { digits Text.isDigit (b :: (r ++ t)) with
            text := mark :: (digits Text.isDigit (b :: (r ++ t))).text } := by
        simp [exponent?, hlower, hdigit]
      rw [hfound, heq]
      exact (finds_run (mark :: b :: r)).mono And.left
    · have hsign : Text.isDigit (ascii '+') = false := by decide
      have hfound : exponent? (mark :: ([ascii '+'] ++ b :: r) ++ t) =
          some { digits Text.isDigit (b :: (r ++ t)) with
            text := mark :: ascii '+' :: (digits Text.isDigit (b :: (r ++ t))).text } := by
        simp [exponent?, hlower, hdigit, hsign]
      rw [hfound, heq]
      exact (finds_run (mark :: ascii '+' :: b :: r)).mono And.left
    · have hsign : Text.isDigit (ascii '-') = false := by decide
      have hfound : exponent? (mark :: ([ascii '-'] ++ b :: r) ++ t) =
          some { digits Text.isDigit (b :: (r ++ t)) with
            text := mark :: ascii '-' :: (digits Text.isDigit (b :: (r ++ t))).text } := by
        simp [exponent?, hlower, hdigit, hsign]
      rw [hfound, heq]
      exact (finds_run (mark :: ascii '-' :: b :: r)).mono And.left

end Numeral

end CloneScout.Token

namespace CloneScout.Token.Numeral

open Number

/-! ## The scan of a literal and of longer texts -/

/-- The scan that the parts found make. -/
def join (whole : Run) (fraction exponent : Option Run) (imaginary : Bool) : Scan :=
  let kind : Kind :=
    if imaginary then .imagLit
    else if fraction.isSome || exponent.isSome then .floatLit
    else .intLit
  { length :=
      whole.text.length + (fraction.getD noRun).text.length + (exponent.getD noRun).text.length +
        (if imaginary then 1 else 0)
    kind
    bad :=
      whole.bad || (fraction.getD noRun).bad || (exponent.getD noRun).bad ||
        (kind = .intLit && leadingZero whole.text) }

/-- The text goes on with the mark of an imaginary number. -/
def isImaginary (t : Text) : Bool := t.head?.any fun b => Text.toLower b = ascii 'j'

theorem decimal_eq_join {t : Text} {w : Run} {f e : Option Run} {t₂ t₃ : Text}
    (hw : digits Text.isDigit t = w) (hf : fraction? w.digits (t.drop w.text.length) = f)
    (h₂ : (t.drop w.text.length).drop (f.getD noRun).text.length = t₂)
    (he : exponent? t₂ = e) (h₃ : t₂.drop (e.getD noRun).text.length = t₃) :
    decimal t = join w f e (isImaginary t₃) := by
  have helim (o : Option Run) : o.elim [] Run.text = (o.getD noRun).text := by cases o <;> rfl
  have hany (o : Option Run) : o.any Run.bad = (o.getD noRun).bad := by cases o <;> rfl
  subst hw hf h₂ he h₃
  simp only [decimal, helim, hany]
  rfl

/-- The scan reaches at least over `n` bytes, and if it ends there it is well-formed and of the
kind. -/
structure Covers (k : Kind) (n : Nat) (scan : Scan) : Prop where
  le : n ≤ scan.length
  good : scan.length = n → scan.kind = k ∧ scan.bad = false

theorem leadingZero_of_isWhole {t : Text} (h : IsWhole t) : leadingZero t = false := by
  cases h with
  | nonzero hfirst ht => simp [leadingZero, hfirst]
  | zeros ht =>
    have hall : (t.any fun b => b ≠ ascii '0' && b ≠ ascii '_') = false := by
      rw [List.any_eq_false]
      intro b hb
      rcases ht.mem hb with rfl | hzero
      · decide
      · rw [of_decide_eq_true hzero]
        decide
    rw [leadingZero, hall, Bool.and_false]

/-- The parts of a literal, each found whole or longer, cover the literal. -/
theorem covers_join {k : Kind} {whole point power mark : Text} (h : Parts k whole point power mark)
    {w : Run} {f e : Option Run} {imaginary : Bool} {p₁ p₂ p₃ : Prop} (hw : Finds whole p₁ w)
    (hf : Finds point p₂ (f.getD noRun)) (hfnil : ∀ r, f = some r → r.text ≠ [])
    (he : Finds power p₃ (e.getD noRun)) (henil : ∀ r, e = some r → r.text ≠ [])
    (hi : mark ≠ [] → imaginary = true) :
    Covers k (whole ++ point ++ power ++ mark).length (join w f e imaginary) := by
  have hmark : mark.length ≤ if imaginary then 1 else 0 := by
    rcases h.ofMark with rfl | rfl | rfl
    · exact Nat.zero_le _
    · rw [hi (List.cons_ne_nil _ _)]
      exact Nat.le_refl 1
    · rw [hi (List.cons_ne_nil _ _)]
      exact Nat.le_refl 1
  have hwle := hw.front.length_le
  have hfle := hf.front.length_le
  have hele := he.front.length_le
  have hsome {o : Option Run} {part : Text} (hnil : ∀ r, o = some r → r.text ≠ [])
      (hlength : (o.getD noRun).text.length = part.length) : o.isSome = decide (part ≠ []) := by
    cases o with
    | none =>
      have : part = [] := List.eq_nil_of_length_eq_zero hlength.symm
      simp [this]
    | some r =>
      have : part ≠ [] := by
        rintro rfl
        exact hnil r rfl (List.eq_nil_of_length_eq_zero hlength)
      simp [this]
  constructor
  · simp only [List.length_append]
    show _ ≤ w.text.length + (f.getD noRun).text.length + (e.getD noRun).text.length + _
    omega
  · intro hlength
    simp only [List.length_append] at hlength
    have hsum : w.text.length + (f.getD noRun).text.length + (e.getD noRun).text.length +
        (if imaginary then 1 else 0) =
        whole.length + point.length + power.length + mark.length := hlength
    -- none of the parts found is longer than its part, or the sum would be
    have hweq : w.text.length = whole.length := by omega
    have hfeq : (f.getD noRun).text.length = point.length := by omega
    have heeq : (e.getD noRun).text.length = power.length := by omega
    have hkind : (join w f e imaginary).kind = k := by
      rw [h.kind]
      cases imaginary with
      | true =>
        have hne : mark ≠ [] := by
          rintro rfl
          simp at hsum
          omega
        rw [if_pos hne]
        rfl
      | false =>
        have hnil : ¬ mark ≠ [] := fun hne => Bool.noConfusion (hi hne)
        rw [if_neg hnil]
        show (if (f.isSome || e.isSome) = true then _ else _) = _
        rw [hsome hfnil hfeq, hsome henil heeq]
        simp
    refine ⟨hkind, ?_⟩
    show (w.bad || (f.getD noRun).bad || (e.getD noRun).bad ||
      ((join w f e imaginary).kind = .intLit && leadingZero w.text)) = false
    rw [hw.good hweq, hf.good hfeq, he.good heeq, hkind, ← hw.front.eq_of_length hweq.symm]
    by_cases hint : k = .intLit
    · rw [leadingZero_of_isWhole (h.integer hint)]
      simp
    · simp [hint]

/-- No part of a literal but the first starts with a digit. -/
theorem ends_of_parts {k : Kind} {whole point power mark : Text}
    (h : Parts k whole point power mark) (t : Text) :
    (point ++ power ++ mark ≠ [] → EndsDigits Text.isDigit (point ++ power ++ mark ++ t)) ∧
      (power ++ mark ≠ [] → EndsDigits Text.isDigit (power ++ mark ++ t) ∧
        (power ++ mark ++ t).head? ≠ some (ascii '.')) ∧
      (mark ≠ [] → EndsDigits Text.isDigit (mark ++ t) ∧
        (∀ b ∈ (mark ++ t).head?, Text.toLower b ≠ ascii 'e') ∧ isImaginary (mark ++ t) = true) := by
  have hcons {b : UInt8} (hb : b ≠ ascii '_' ∧ Text.isDigit b = false) (r : Text) :
      EndsDigits Text.isDigit (b :: r) := fun c hc => Option.some.inj hc ▸ hb
  have hmark (hne : mark ≠ []) : EndsDigits Text.isDigit (mark ++ t) ∧
      (mark ++ t).head? ≠ some (ascii '.') ∧
      (∀ b ∈ (mark ++ t).head?, Text.toLower b ≠ ascii 'e') ∧ isImaginary (mark ++ t) = true := by
    rcases h.ofMark.resolve_left hne with rfl | rfl
    · exact ⟨hcons (by decide) t, by simp; decide, fun c hc => Option.some.inj hc ▸ by decide, rfl⟩
    · exact ⟨hcons (by decide) t, by simp; decide, fun c hc => Option.some.inj hc ▸ by decide, rfl⟩
  have hpower (hne : power ++ mark ≠ []) : EndsDigits Text.isDigit (power ++ mark ++ t) ∧
      (power ++ mark ++ t).head? ≠ some (ascii '.') := by
    rcases h.ofPower with rfl | hpower
    · obtain ⟨hends, hpoint, -⟩ := hmark hne
      exact ⟨hends, hpoint⟩
    · cases hpower with
      | intro hletter _ _ =>
        rcases hletter with rfl | rfl
        · exact ⟨hcons (by decide) _, by simp; decide⟩
        · exact ⟨hcons (by decide) _, by simp; decide⟩
  refine ⟨fun hne => ?_, hpower, fun hne => ?_⟩
  · rcases h.ofPoint with rfl | hpoint
    · exact (hpower hne).1
    · cases hpoint with
      | alone => exact hcons (by decide) _
      | digits _ => exact hcons (by decide) _
  · obtain ⟨hends, -, hletter, himaginary⟩ := hmark hne
    exact ⟨hends, hletter, himaginary⟩

/-- A part that is missing is found in front of any text. -/
theorem finds_nil {o : Option Run} (h : ∀ r, o = some r → r.text ≠ []) :
    Finds [] False (o.getD noRun) := by
  refine ⟨List.nil_prefix, fun hlength => ?_, False.elim⟩
  cases o with
  | none => rfl
  | some r => exact absurd (List.eq_nil_of_length_eq_zero hlength) (h r rfl)

/-- A literal is covered in front of any text. -/
theorem covers_decimal {k : Kind} {whole point power mark : Text}
    (h : Parts k whole point power mark) (t : Text) :
    Covers k (whole ++ point ++ power ++ mark).length
      (decimal (whole ++ (point ++ power ++ mark ++ t))) := by
  obtain ⟨hends₁, hends₂, hends₃⟩ := ends_of_parts h t
  have hfirst : whole = [] → point ++ power ++ mark ≠ [] := by
    intro hnil hempty
    obtain ⟨s, -, rfl⟩ := h.digits hnil
    exact absurd hempty (by simp)
  obtain ⟨hw, hpos⟩ := finds_digits (t := point ++ power ++ mark ++ t) h.ofWhole
    fun hnil => hends₁ (hfirst hnil)
  generalize hdigits : digits Text.isDigit (whole ++ (point ++ power ++ mark ++ t)) = w at hw hpos
  -- a part is found exactly as long as another part stands behind it
  by_cases hrest₁ : point ++ power ++ mark = []
  · rw [decimal_eq_join hdigits rfl rfl rfl rfl]
    simp only [List.append_eq_nil_iff] at hrest₁
    obtain ⟨⟨rfl, rfl⟩, rfl⟩ := hrest₁
    exact covers_join h hw (finds_nil fun _ => text_fraction?_ne_nil)
      (fun _ => text_fraction?_ne_nil) (finds_nil fun _ => text_exponent?_ne_nil)
      (fun _ => text_exponent?_ne_nil) fun hne => absurd rfl hne
  have hdrop₁ : (whole ++ (point ++ power ++ mark ++ t)).drop w.text.length =
      point ++ (power ++ mark ++ t) := by
    rw [hw.exact (hends₁ hrest₁), List.drop_left, List.append_assoc point, List.append_assoc point]
  have hf := finds_fraction (n := w.digits) (t := power ++ mark ++ t) h.ofPoint (by
    by_cases hnil : whole = []
    · exact .inr (h.digits hnil)
    · exact .inl (hpos hnil))
  generalize hfraction : fraction? w.digits (point ++ (power ++ mark ++ t)) = f at hf
  have hfnil (r : Run) (hr : f = some r) : r.text ≠ [] := text_fraction?_ne_nil (hfraction.trans hr)
  by_cases hrest₂ : power ++ mark = []
  · rw [decimal_eq_join (f := f) hdigits (by rw [hdrop₁]; exact hfraction) rfl rfl rfl]
    simp only [List.append_eq_nil_iff] at hrest₂
    obtain ⟨rfl, rfl⟩ := hrest₂
    exact covers_join h hw hf hfnil (finds_nil fun _ => text_exponent?_ne_nil)
      (fun _ => text_exponent?_ne_nil) fun hne => absurd rfl hne
  have hdrop₂ : ((whole ++ (point ++ power ++ mark ++ t)).drop w.text.length).drop
      (f.getD noRun).text.length = power ++ (mark ++ t) := by
    rw [hdrop₁, hf.exact (hends₂ hrest₂), List.drop_left, List.append_assoc power]
  have he := finds_exponent (t := mark ++ t) h.ofPower
  generalize hexponent : exponent? (power ++ (mark ++ t)) = e at he
  have henil (r : Run) (hr : e = some r) : r.text ≠ [] := text_exponent?_ne_nil (hexponent.trans hr)
  rw [decimal_eq_join (f := f) hdigits (by rw [hdrop₁]; exact hfraction) hdrop₂ hexponent rfl]
  refine covers_join h hw hf hfnil he henil fun hne => ?_
  obtain ⟨hends, hletter, himaginary⟩ := hends₃ hne
  rw [he.exact ⟨hends, hletter⟩, List.drop_left]
  exact himaginary

/-! ## Literals with the mark of a base -/

theorem toLower_eq_x (b : UInt8) :
    Text.toLower b = ascii 'x' ↔ b = ascii 'x' ∨ b = ascii 'X' := by
  revert b
  exact forall_byte (by decide +kernel)

theorem toLower_eq_o (b : UInt8) :
    Text.toLower b = ascii 'o' ↔ b = ascii 'o' ∨ b = ascii 'O' := by
  revert b
  exact forall_byte (by decide +kernel)

theorem toLower_eq_b (b : UInt8) :
    Text.toLower b = ascii 'b' ↔ b = ascii 'b' ∨ b = ascii 'B' := by
  revert b
  exact forall_byte (by decide +kernel)

theorem digitsOfMark?_eq_some_iff {mark : UInt8} {isDigit : UInt8 → Bool} :
    digitsOfMark? mark = some isDigit ↔ (mark, isDigit) ∈ bases := by
  unfold digitsOfMark? bases
  simp only [toLower_eq_x, toLower_eq_o, toLower_eq_b, List.mem_cons, Prod.mk.injEq,
    List.not_mem_nil, or_false]
  constructor
  · intro h
    split at h
    · next hmark =>
      obtain rfl := Option.some.inj h
      rcases hmark with rfl | rfl <;> simp
    split at h
    · next hmark =>
      obtain rfl := Option.some.inj h
      rcases hmark with rfl | rfl <;> simp
    split at h
    · next hmark =>
      obtain rfl := Option.some.inj h
      rcases hmark with rfl | rfl <;> simp
    · nomatch h
  · rintro (⟨rfl, rfl⟩ | ⟨rfl, rfl⟩ | ⟨rfl, rfl⟩ | ⟨rfl, rfl⟩ | ⟨rfl, rfl⟩ | ⟨rfl, rfl⟩) <;> rfl

/-- The underscore is no digit in any base. -/
theorem underscore_of_bases {mark : UInt8} {isDigit : UInt8 → Bool}
    (h : (mark, isDigit) ∈ bases) : isDigit (ascii '_') = false := by
  simp only [bases, List.mem_cons, Prod.mk.injEq, List.not_mem_nil, or_false] at h
  rcases h with ⟨-, rfl⟩ | ⟨-, rfl⟩ | ⟨-, rfl⟩ | ⟨-, rfl⟩ | ⟨-, rfl⟩ | ⟨-, rfl⟩ <;> decide

theorem bare_based {mark : UInt8} {isDigit : UInt8 → Bool} (h : (mark, isDigit) ∈ bases)
    (t : Text) : bare (ascii '0' :: mark :: t) = based isDigit t := by
  rw [bare, digitsOfMark?_eq_some_iff.mpr h]
  dsimp only
  rw [if_pos rfl]

/-- Digits of a base cover themselves in front of any text. -/
theorem covers_basedRun {isDigit : UInt8 → Bool} {n start : Nat} (hn : 0 < n) (s t : Text) :
    Covers .intLit (2 + start + s.length) ⟨2 + start + (s ++ (run isDigit false t).text).length,
      .intLit, (run isDigit false t).bad || decide (n = 0)⟩ := by
  refine ⟨by simp, fun hlength => ⟨rfl, ?_⟩⟩
  have hnil : (run isDigit false t).text = [] := by
    apply List.eq_nil_of_length_eq_zero
    simp only [List.length_append] at hlength
    omega
  simp [bad_run_false hnil, Nat.ne_of_gt hn]

theorem covers_based {q : Text} (h : IsBased q) (t : Text) :
    Covers .intLit q.length (bare (q ++ t)) := by
  cases h with
  | @plain mark isDigit s hmark hs =>
    have hunder := underscore_of_bases hmark
    obtain ⟨n, hn, heq⟩ := digits_append hunder hs t
    obtain ⟨b, r, rfl, hdigit⟩ := hs.head
    have hb : ¬ b = ascii '_' := by
      rintro rfl
      rw [hunder] at hdigit
      exact Bool.noConfusion hdigit
    have hbased : bare (ascii '0' :: mark :: (b :: r) ++ t) =
        ⟨2 + 0 + ((b :: r) ++ (run isDigit false t).text).length, .intLit,
          (run isDigit false t).bad || decide (n = 0)⟩ := by
      rw [List.cons_append, List.cons_append, bare_based hmark, based]
      simp only [List.cons_append, List.head?_cons, Option.some.injEq, if_neg hb, List.drop_zero]
      rw [← List.cons_append, heq]
      rfl
    have hlength : (ascii '0' :: mark :: b :: r).length = 2 + 0 + (b :: r).length := by
      simp only [List.length_cons]
      omega
    rw [hbased, hlength]
    exact covers_basedRun hn (b :: r) t
  | @underscore mark isDigit s hmark hs =>
    have hunder := underscore_of_bases hmark
    obtain ⟨n, hn, heq⟩ := digits_append hunder hs t
    have hbased : bare (ascii '0' :: mark :: ascii '_' :: s ++ t) =
        ⟨2 + 1 + (s ++ (run isDigit false t).text).length, .intLit,
          (run isDigit false t).bad || decide (n = 0)⟩ := by
      rw [List.cons_append, List.cons_append, bare_based hmark, based]
      simp only [List.cons_append, List.head?_cons, if_true, List.drop_succ_cons, List.drop_zero,
        heq]
    have hlength : (ascii '0' :: mark :: ascii '_' :: s).length = 2 + 1 + s.length := by
      simp only [List.length_cons]
      omega
    rw [hbased, hlength]
    exact covers_basedRun hn s t

/-! ## No literal is longer than what is scanned -/

/-- The bytes of a literal without the mark of a base: none of them is such a mark. -/
theorem Parts.mem {k : Kind} {whole point power mark : Text} (h : Parts k whole point power mark)
    {b : UInt8} (hb : b ∈ whole ++ point ++ power ++ mark) : digitsOfMark? b = none := by
  have hdigits {t : Text} (ht : Decimal t) (hmem : b ∈ t) : digitsOfMark? b = none := by
    have hall : ∀ c : UInt8, c = ascii '_' ∨ Text.isDigit c = true →
        (digitsOfMark? c).isNone = true := forall_byte (by decide +kernel)
    exact Option.isNone_iff_eq_none.mp (hall b (ht.mem hmem))
  simp only [List.mem_append] at hb
  rcases hb with ((hb | hb) | hb) | hb
  · rcases h.ofWhole with rfl | hwhole
    · exact absurd hb List.not_mem_nil
    · exact hdigits hwhole hb
  · rcases h.ofPoint with rfl | hpoint
    · exact absurd hb List.not_mem_nil
    · cases hpoint with
      | alone =>
        obtain rfl := List.mem_singleton.mp hb
        rfl
      | digits hs =>
        rcases List.mem_cons.mp hb with rfl | hb
        · rfl
        · exact hdigits hs hb
  · rcases h.ofPower with rfl | hpower
    · exact absurd hb List.not_mem_nil
    · cases hpower with
      | intro hletter hsign hs =>
        rcases List.mem_cons.mp hb with rfl | hb
        · rcases hletter with rfl | rfl <;> rfl
        rcases List.mem_append.mp hb with hb | hb
        · rcases hsign with rfl | rfl | rfl
          · exact absurd hb List.not_mem_nil
          · obtain rfl := List.mem_singleton.mp hb
            rfl
          · obtain rfl := List.mem_singleton.mp hb
            rfl
        · exact hdigits hs hb
  · rcases h.ofMark with rfl | rfl | rfl
    · exact absurd hb List.not_mem_nil
    · obtain rfl := List.mem_singleton.mp hb
      rfl
    · obtain rfl := List.mem_singleton.mp hb
      rfl

/-- A literal is covered by the scan of any text that starts with it. -/
theorem covers_bare {k : Kind} {q : Text} (h : IsLiteral k q) (t : Text) :
    Covers k q.length (bare (q ++ t)) := by
  rcases h.parts with ⟨rfl, hbased⟩ | ⟨whole, point, power, mark, rfl, hparts⟩
  · exact covers_based hbased t
  have hdecimal := covers_decimal hparts t
  simp only [← List.append_assoc] at hdecimal
  generalize hq : whole ++ point ++ power ++ mark = q at hdecimal
  unfold bare
  split
  · next zero letter rest heq =>
    split
    · next isDigit hletter =>
      split
      · next hzero =>
        -- the mark of a base is behind the literal, which is a single zero
        have hlength : q.length ≤ 1 := by
          by_contra hlong
          obtain ⟨a, b, r, rfl⟩ : ∃ a b r, q = a :: b :: r := by
            match q, hlong with
            | [], hlong => exact absurd (Nat.zero_le 1) hlong
            | [a], hlong => exact absurd (Nat.le_refl 1) hlong
            | a :: b :: r, _ => exact ⟨a, b, r, rfl⟩
          have hb : b = letter := (List.cons.inj (List.cons.inj heq).2).1
          have hnone := hparts.mem (b := letter) (by rw [hq, ← hb]; simp)
          rw [hnone] at hletter
          nomatch hletter
        refine ⟨?_, fun hequal => ?_⟩
        · show q.length ≤ 2 + _ + _
          omega
        · have hlong : 2 ≤ (based isDigit rest).length := by
            show 2 ≤ 2 + _ + _
            omega
          omega
      · exact hdecimal
    · exact hdecimal
  · exact hdecimal

end CloneScout.Token.Numeral
