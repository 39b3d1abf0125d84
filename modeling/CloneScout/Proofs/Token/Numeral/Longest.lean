import CloneScout.Proofs.Token.Numeral.Scan
import Mathlib.Data.Nat.Find

/-!
# The longest literal

What is scanned falls apart into the parts found, and when nothing is wrong with any of them, they
are the parts of a literal. Where the longest literal in front of a text ends inside of what is
scanned, an identifier would go on. So a number is cut as the longest literal, unless an identifier
goes on right behind it: then a faulty token is cut and reported, once.
-/

namespace CloneScout.Token.Numeral

open Number

/-! ## A scan that finds nothing wrong is a literal -/

/-- A digit, or a point and a digit, stand in front of the text. -/
def StartsNumber (t : Text) : Prop :=
  (∃ b r, t = b :: r ∧ Text.isDigit b = true) ∨
    ∃ b r, t = ascii '.' :: b :: r ∧ Text.isDigit b = true

theorem isFraction_of_fraction? {n : Nat} {t : Text} {f : Run} (h : fraction? n t = some f)
    (hbad : f.bad = false) :
    IsFraction f.text ∧ (n = 0 → ∃ s, Decimal s ∧ f.text = ascii '.' :: s) := by
  unfold fraction? at h
  split at h
  · next b rest =>
    dsimp only at h
    split at h
    · next hcond =>
      simp only [Bool.and_eq_true, decide_eq_true_eq, Bool.not_eq_true', Bool.and_eq_false_iff,
        decide_eq_false_iff_not, Bool.not_eq_false'] at hcond
      obtain ⟨rfl, hmore⟩ := hcond
      obtain rfl := Option.some.inj h
      by_cases hany : rest.head?.any Text.isDigit = true
      · rw [if_pos hany] at hbad ⊢
        have hne : (digits Text.isDigit rest).text ≠ [] := by
          obtain ⟨c, hc, hdigit⟩ := (Option.any_eq_true _ _).mp hany
          obtain ⟨r, rfl⟩ := List.head?_eq_some_iff.mp hc
          obtain ⟨m, -, heq⟩ := digits_append (by decide) (.single hdigit) r
          rw [List.singleton_append] at heq
          rw [heq]
          exact List.cons_ne_nil _ _
        have hdigits := (digits_of_digits hbad).resolve_left hne
        exact ⟨.digits hdigits, fun _ => ⟨_, hdigits, rfl⟩⟩
      · rw [if_neg hany]
        exact ⟨.alone, fun hzero => absurd hzero (hmore.resolve_right hany)⟩
    · nomatch h
  · nomatch h

theorem isExponent_of_exponent? {t : Text} {e : Run} (h : exponent? t = some e)
    (hbad : e.bad = false) : IsExponent e.text := by
  have hdigits {b : UInt8} {r : Text} (hdigit : Text.isDigit b = true)
      (hgood : (digits Text.isDigit (b :: r)).bad = false) :
      Decimal (digits Text.isDigit (b :: r)).text := by
    refine (digits_of_digits hgood).resolve_left ?_
    obtain ⟨m, -, heq⟩ := digits_append (by decide) (.single hdigit) r
    rw [List.singleton_append] at heq
    rw [heq]
    exact List.cons_ne_nil _ _
  unfold exponent? at h
  split at h
  · next mark rest =>
    split at h
    · next hlower =>
      have hmark := (toLower_eq_e mark).mp hlower
      split at h
      · next b more =>
        split at h
        · next hdigit =>
          obtain rfl := Option.some.inj h
          exact @IsExponent.intro mark [] _ hmark (.inl rfl) (hdigits hdigit hbad)
        · split at h
          · next hsign =>
            simp only [Bool.and_eq_true, Bool.or_eq_true, decide_eq_true_eq] at hsign
            obtain ⟨hsign, hany⟩ := hsign
            obtain ⟨c, hc, hdigit⟩ := (Option.any_eq_true _ _).mp hany
            obtain ⟨r, rfl⟩ := List.head?_eq_some_iff.mp hc
            obtain rfl := Option.some.inj h
            have hs := hdigits hdigit hbad
            rcases hsign with rfl | rfl
            · exact @IsExponent.intro mark [ascii '+'] _ hmark (.inr (.inl rfl)) hs
            · exact @IsExponent.intro mark [ascii '-'] _ hmark (.inr (.inr rfl)) hs
          · nomatch h
      · nomatch h
    · nomatch h
  · nomatch h

theorem isWhole_of_leadingZero {t : Text} (ht : Decimal t) (h : leadingZero t = false) :
    IsWhole t := by
  by_cases hfirst : t.head? = some (ascii '0')
  · refine .zeros (ht.of_mem fun b hb hdigit => ?_)
    by_cases hlong : 1 < t.length
    · simp only [leadingZero, hlong, hfirst, decide_true, Bool.true_and, List.any_eq_false,
        Bool.and_eq_true, decide_eq_true_eq, not_and, Classical.not_not] at h
      have hunder : b ≠ ascii '_' := by
        rintro rfl
        exact absurd hdigit (by decide)
      by_contra hzero
      exact hunder (h b hb fun heq => hzero (decide_eq_true heq))
    · -- a single byte is the zero itself
      obtain ⟨r, rfl⟩ := List.head?_eq_some_iff.mp hfirst
      obtain rfl : r = [] := List.eq_nil_of_length_eq_zero (by rw [List.length_cons] at hlong; omega)
      exact decide_eq_true (List.mem_singleton.mp hb)
  · exact .nonzero hfirst ht

/-- What a scan finds in a text, part by part. -/
structure Found (t : Text) (w : Run) (f e : Option Run) (mark rest : Text) : Prop where
  whole : digits Text.isDigit t = w
  fraction : fraction? w.digits
    ((f.getD noRun).text ++ ((e.getD noRun).text ++ (mark ++ rest))) = f
  exponent : exponent? ((e.getD noRun).text ++ (mark ++ rest)) = e
  letter : mark = [] ∨ mark = [ascii 'j'] ∨ mark = [ascii 'J']
  text : t = w.text ++ ((f.getD noRun).text ++ ((e.getD noRun).text ++ (mark ++ rest)))
  scan : decimal t = join w f e (decide (mark ≠ []))

theorem exists_found (t : Text) : ∃ w f e mark rest, Found t w f e mark rest := by
  have hfront (o : Option Run) {u : Text} (h : o.elim [] Run.text <+: u) :
      ∃ v, u = (o.getD noRun).text ++ v ∧ u.drop (o.getD noRun).text.length = v := by
    have helim : o.elim [] Run.text = (o.getD noRun).text := by cases o <;> rfl
    rw [helim] at h
    obtain ⟨v, rfl⟩ := h
    exact ⟨v, rfl, List.drop_left⟩
  generalize hw : digits Text.isDigit t = w
  obtain ⟨t₁, ht₁⟩ : w.text <+: t := hw ▸ prefix_text_digits Text.isDigit t
  have hdrop₁ : t.drop w.text.length = t₁ := by rw [← ht₁, List.drop_left]
  generalize hf : fraction? w.digits t₁ = f
  obtain ⟨t₂, ht₂, hdrop₂⟩ := hfront f (hf ▸ prefix_text_fraction? w.digits t₁)
  generalize he : exponent? t₂ = e
  obtain ⟨t₃, ht₃, hdrop₃⟩ := hfront e (he ▸ prefix_text_exponent? t₂)
  have hscan : decimal t = join w f e (isImaginary t₃) :=
    decimal_eq_join hw (by rw [hdrop₁, hf]) (by rw [hdrop₁]; exact hdrop₂) he hdrop₃
  by_cases himaginary : isImaginary t₃ = true
  · obtain ⟨b, hb, hlower⟩ := (Option.any_eq_true _ _).mp himaginary
    obtain ⟨rest, rfl⟩ := List.head?_eq_some_iff.mp hb
    refine ⟨w, f, e, [b], rest, hw, ?_, ?_, ?_, ?_, ?_⟩
    · rw [List.singleton_append, ← ht₃, ← ht₂, hf]
    · rw [List.singleton_append, ← ht₃, he]
    · rcases (toLower_eq_j b).mp (of_decide_eq_true hlower) with rfl | rfl
      · exact .inr (.inl rfl)
      · exact .inr (.inr rfl)
    · rw [List.singleton_append, ← ht₃, ← ht₂, ht₁]
    · rw [hscan, himaginary]
      rfl
  · refine ⟨w, f, e, [], t₃, hw, ?_, ?_, .inl rfl, ?_, ?_⟩
    · rw [List.nil_append, ← ht₃, ← ht₂, hf]
    · rw [List.nil_append, ← ht₃, he]
    · rw [List.nil_append, ← ht₃, ← ht₂, ht₁]
    · rw [hscan, Bool.not_eq_true _ |>.mp himaginary]
      rfl

/-- The bytes that a scan finds are as many as it counts. -/
theorem Found.take {t : Text} {w : Run} {f e : Option Run} {mark rest : Text}
    (h : Found t w f e mark rest) : t.take (decimal t).length =
      w.text ++ (f.getD noRun).text ++ (e.getD noRun).text ++ mark := by
  have hlength : (decimal t).length =
      (w.text ++ (f.getD noRun).text ++ (e.getD noRun).text ++ mark).length := by
    rw [h.scan]
    simp only [List.length_append]
    show _ + _ + _ + (if decide (mark ≠ []) then 1 else 0) = _
    rcases h.letter with rfl | rfl | rfl <;> rfl
  rw [hlength]
  conv_lhs => rw [h.text]
  simp only [← List.append_assoc]
  rw [List.take_left]

theorem isSome_iff {o : Option Run} (h : ∀ r, o = some r → r.text ≠ []) :
    o.isSome = true ↔ (o.getD noRun).text ≠ [] := by
  cases o with
  | none => simp [noRun]
  | some r => simp [h r rfl]

/-- What a scan finds with nothing wrong are the parts of a literal. -/
theorem Found.parts {t : Text} {w : Run} {f e : Option Run} {mark rest : Text}
    (h : Found t w f e mark rest) (hstart : StartsNumber t) (hbad : (decimal t).bad = false) :
    Parts (decimal t).kind w.text (f.getD noRun).text (e.getD noRun).text mark := by
  rw [h.scan] at hbad ⊢
  have hgood : (w.bad || (f.getD noRun).bad || (e.getD noRun).bad ||
      ((join w f e (decide (mark ≠ []))).kind = .intLit && leadingZero w.text)) = false := hbad
  simp only [Bool.or_eq_false_iff, Bool.and_eq_false_iff, decide_eq_false_iff_not] at hgood
  obtain ⟨⟨⟨hw, hf⟩, he⟩, hzero⟩ := hgood
  have hwhole : Maybe Decimal w.text := by
    rw [← h.whole] at hw ⊢
    exact digits_of_digits hw
  have hdigits : w.text = [] → ∃ s, Decimal s ∧ (f.getD noRun).text = ascii '.' :: s := by
    intro hnil
    rcases hstart with ⟨b, r, rfl, hdigit⟩ | ⟨b, r, rfl, hdigit⟩
    · obtain ⟨m, -, heq⟩ := digits_append (by decide) (.single hdigit) r
      rw [List.singleton_append, h.whole] at heq
      rw [heq] at hnil
      exact absurd hnil (List.cons_ne_nil _ _)
    · have hnone : w = ⟨[], 0, false⟩ := by
        rw [← h.whole]
        exact digits_of_endsDigits fun c hc => Option.some.inj hc ▸ by decide
      have hfraction := h.fraction
      have htext := h.text
      rw [hnil, List.nil_append] at htext
      have hsome := fraction?_point (n := 0) (t := b :: r) (.inr hdigit)
      rw [if_pos (show (b :: r).head?.any Text.isDigit = true from hdigit)] at hsome
      rw [← htext, hnone, hsome] at hfraction
      rw [← hfraction] at hf ⊢
      exact (isFraction_of_fraction? hsome hf).2 rfl
  have hfnil (r : Run) (hr : f = some r) : r.text ≠ [] := text_fraction?_ne_nil (h.fraction.trans hr)
  have henil (r : Run) (hr : e = some r) : r.text ≠ [] := text_exponent?_ne_nil (h.exponent.trans hr)
  refine ⟨hwhole, ?_, ?_, h.letter, hdigits, ?_, fun hint => ?_⟩
  · cases hcase : f with
    | none => exact .inl rfl
    | some r =>
      rw [hcase] at hf
      exact .inr (isFraction_of_fraction? (h.fraction.trans hcase) hf).1
  · cases hcase : e with
    | none => exact .inl rfl
    | some r =>
      rw [hcase] at he
      exact .inr (isExponent_of_exponent? (h.exponent.trans hcase) he)
  · show (if decide (mark ≠ []) = true then _ else if (f.isSome || e.isSome) = true then _ else _) = _
    simp only [decide_eq_true_eq, Bool.or_eq_true, isSome_iff hfnil, isSome_iff henil]
  · have hne : w.text ≠ [] := by
      intro hnil
      obtain ⟨s, -, hs⟩ := hdigits hnil
      have hsome : f.isSome = true := (isSome_iff hfnil).mpr (by rw [hs]; exact List.cons_ne_nil _ _)
      have hkind : (if decide (mark ≠ []) = true then Kind.imagLit
          else if (f.isSome || e.isSome) = true then .floatLit else .intLit) = .intLit := hint
      rw [hsome, Bool.true_or, if_pos rfl] at hkind
      split at hkind <;> nomatch hkind
    exact isWhole_of_leadingZero (hwhole.resolve_left hne) (hzero.resolve_left fun hno => hno hint)

theorem isLiteral_of_decimal {t : Text} (hstart : StartsNumber t) (hbad : (decimal t).bad = false) :
    IsLiteral (decimal t).kind (t.take (decimal t).length) := by
  obtain ⟨w, f, e, mark, rest, h⟩ := exists_found t
  rw [h.take]
  exact (h.parts hstart hbad).isLiteral

theorem isBased_of_based {mark : UInt8} {isDigit : UInt8 → Bool} (hmark : (mark, isDigit) ∈ bases)
    {t : Text} (hbad : (based isDigit t).bad = false) :
    IsBased ((ascii '0' :: mark :: t).take (based isDigit t).length) := by
  have hdigits {s : Text} (h : ((digits isDigit s).bad || decide ((digits isDigit s).digits = 0)) =
      false) : Digits isDigit (digits isDigit s).text ∧
        s.take (digits isDigit s).text.length = (digits isDigit s).text := by
    simp only [Bool.or_eq_false_iff, decide_eq_false_iff_not] at h
    have hne : (digits isDigit s).text ≠ [] := by
      intro hnil
      have hempty : (run isDigit true s).text.isEmpty = true := by
        unfold digits at hnil
        dsimp only at hnil
        split at hnil
        · assumption
        · rw [hnil]
          rfl
      have hzero : (digits isDigit s).digits = 0 := by rw [digits, if_pos hempty]
      exact h.2 hzero
    refine ⟨(digits_of_digits h.1).resolve_left hne, ?_⟩
    exact (List.prefix_iff_eq_take.mp (prefix_text_digits isDigit s)).symm
  by_cases hunder : t.head? = some (ascii '_')
  · obtain ⟨r, rfl⟩ := List.head?_eq_some_iff.mp hunder
    obtain ⟨hr, htake⟩ := hdigits (s := r) hbad
    have hlength : (based isDigit (ascii '_' :: r)).length = (digits isDigit r).text.length + 3 := by
      show 2 + 1 + (digits isDigit r).text.length = _
      omega
    rw [hlength, List.take_succ_cons, List.take_succ_cons, List.take_succ_cons, htake]
    exact .underscore hmark hr
  · have hbased : based isDigit t = ⟨2 + 0 + (digits isDigit t).text.length, .intLit,
        (digits isDigit t).bad || decide ((digits isDigit t).digits = 0)⟩ := by
      unfold based
      simp only [if_neg hunder, List.drop_zero]
    rw [hbased] at hbad ⊢
    obtain ⟨ht, htake⟩ := hdigits hbad
    have hlength : 2 + 0 + (digits isDigit t).text.length = (digits isDigit t).text.length + 2 := by
      omega
    rw [hlength, List.take_succ_cons, List.take_succ_cons, htake]
    exact .plain hmark ht

/-- The two ways of a scan: behind the mark of a base, or without one. -/
theorem bare_cases (t : Text) :
    (∃ mark isDigit r, t = ascii '0' :: mark :: r ∧ (mark, isDigit) ∈ bases ∧
      bare t = based isDigit r) ∨
    ((∀ mark isDigit r, t = ascii '0' :: mark :: r → (mark, isDigit) ∉ bases) ∧
      bare t = decimal t) := by
  by_cases h : ∃ mark isDigit r, t = ascii '0' :: mark :: r ∧ (mark, isDigit) ∈ bases
  · obtain ⟨mark, isDigit, r, rfl, hmark⟩ := h
    exact .inl ⟨mark, isDigit, r, rfl, hmark, bare_based hmark r⟩
  · refine .inr ⟨fun mark isDigit r ht hmark => h ⟨mark, isDigit, r, ht, hmark⟩, ?_⟩
    unfold bare
    split
    · next zero mark rest =>
      split
      · next isDigit hmark =>
        split
        · next hzero =>
          rw [hzero] at h
          exact absurd ⟨mark, isDigit, rest, rfl, digitsOfMark?_eq_some_iff.mp hmark⟩ h
        · rfl
      · rfl
    · rfl

/-- A scan that finds nothing wrong is a literal. -/
theorem isLiteral_of_bare {t : Text} (hstart : StartsNumber t) (hbad : (bare t).bad = false) :
    IsLiteral (bare t).kind (t.take (bare t).length) := by
  rcases bare_cases t with ⟨mark, isDigit, r, rfl, hmark, heq⟩ | ⟨-, heq⟩
  · rw [heq] at hbad ⊢
    exact .based (isBased_of_based hmark hbad)
  · rw [heq] at hbad ⊢
    exact isLiteral_of_decimal hstart hbad

end CloneScout.Token.Numeral

namespace CloneScout.Token

namespace Numeral

open Number

/-! ## The byte behind a literal -/

theorem isIdentPart_of_digit {isDigit : UInt8 → Bool}
    (h : isDigit = Text.isDigit ∨ ∃ mark, (mark, isDigit) ∈ bases) {b : UInt8}
    (hb : b = ascii '_' ∨ isDigit b = true) : isIdentPart b = true := by
  have hdecimal : ∀ c : UInt8, c = ascii '_' ∨ Text.isDigit c = true → isIdentPart c = true :=
    forall_byte (by decide +kernel)
  have hhex : ∀ c : UInt8, c = ascii '_' ∨ isHex c = true → isIdentPart c = true :=
    forall_byte (by decide +kernel)
  have hoctal : ∀ c : UInt8, c = ascii '_' ∨ isOctal c = true → isIdentPart c = true :=
    forall_byte (by decide +kernel)
  have hbinary : ∀ c : UInt8, c = ascii '_' ∨ isBinary c = true → isIdentPart c = true :=
    forall_byte (by decide +kernel)
  rcases h with rfl | ⟨mark, hmark⟩
  · exact hdecimal b hb
  · simp only [bases, List.mem_cons, Prod.mk.injEq, List.not_mem_nil, or_false] at hmark
    rcases hmark with ⟨-, rfl⟩ | ⟨-, rfl⟩ | ⟨-, rfl⟩ | ⟨-, rfl⟩ | ⟨-, rfl⟩ | ⟨-, rfl⟩
    · exact hhex b hb
    · exact hhex b hb
    · exact hoctal b hb
    · exact hoctal b hb
    · exact hbinary b hb
    · exact hbinary b hb

theorem mark_of_bases {mark : UInt8} {isDigit : UInt8 → Bool} (h : (mark, isDigit) ∈ bases) :
    isIdentPart mark = true ∧ mark ≠ ascii '_' ∧ Text.isDigit mark = false := by
  simp only [bases, List.mem_cons, Prod.mk.injEq, List.not_mem_nil, or_false] at h
  rcases h with ⟨rfl, -⟩ | ⟨rfl, -⟩ | ⟨rfl, -⟩ | ⟨rfl, -⟩ | ⟨rfl, -⟩ | ⟨rfl, -⟩ <;> decide

/-- All bytes of what is scanned behind the mark of a base may stand in an identifier. -/
theorem isIdentPart_of_based {mark : UInt8} {isDigit : UInt8 → Bool} {t : Text}
    (hmark : (mark, isDigit) ∈ bases) {b : UInt8}
    (hb : b ∈ (ascii '0' :: mark :: t).take (based isDigit t).length) : isIdentPart b = true := by
  have hdigits {s : Text} (hmem : b ∈ s.take (digits isDigit s).text.length) :
      isIdentPart b = true := by
    rw [← List.prefix_iff_eq_take.mp (prefix_text_digits isDigit s)] at hmem
    exact isIdentPart_of_digit (.inr ⟨mark, hmark⟩) (mem_digits hmem)
  have hlength : (based isDigit t).length =
      ((if t.head? = some (ascii '_') then 1 else 0) +
        (digits isDigit (t.drop (if t.head? = some (ascii '_') then 1 else 0))).text.length) + 2 := by
    show 2 + _ + _ = _
    omega
  rw [hlength, List.take_succ_cons, List.take_succ_cons] at hb
  rcases List.mem_cons.mp hb with rfl | hb
  · decide
  rcases List.mem_cons.mp hb with rfl | hb
  · exact (mark_of_bases hmark).1
  by_cases hunder : t.head? = some (ascii '_')
  · obtain ⟨r, rfl⟩ := List.head?_eq_some_iff.mp hunder
    rw [if_pos hunder, List.drop_one, List.tail_cons, Nat.add_comm, List.take_succ_cons] at hb
    rcases List.mem_cons.mp hb with rfl | hb
    · decide
    · exact hdigits hb
  · rw [if_neg hunder, Nat.zero_add, List.drop_zero] at hb
    exact hdigits hb

theorem split_behind {p r u v : Text} {c : UInt8} (h : p ++ c :: r = u ++ v) (hc : c ∉ u) :
    ∃ a, p = u ++ a ∧ v = a ++ c :: r := by
  rcases List.append_eq_append_iff.mp h with ⟨a, hu, hv⟩ | ⟨a, hp, hv⟩
  · cases a with
    | nil => exact ⟨[], by rw [hu, List.append_nil, List.append_nil], hv.symm⟩
    | cons d a =>
      obtain ⟨rfl, -⟩ := List.cons.inj hv
      rw [hu] at hc
      exact absurd (List.mem_append_right p List.mem_cons_self) hc
  · exact ⟨a, hp, hv⟩

theorem text_fraction?_eq {n : Nat} {t : Text} {f : Run} (h : fraction? n t = some f) :
    ∃ s, f.text = ascii '.' :: s ∧ ∀ b ∈ s, b = ascii '_' ∨ Text.isDigit b = true := by
  unfold fraction? at h
  split at h
  · next b rest =>
    dsimp only at h
    split at h
    · next hcond =>
      simp only [Bool.and_eq_true, decide_eq_true_eq] at hcond
      obtain rfl := Option.some.inj h
      refine ⟨_, by rw [hcond.1], fun c hc => ?_⟩
      split at hc
      · exact mem_digits hc
      · exact absurd hc List.not_mem_nil
    · nomatch h
  · nomatch h

theorem text_exponent?_eq {t : Text} {e : Run} (h : exponent? t = some e) :
    ∃ mark sign s, e.text = mark :: (sign ++ s) ∧ (mark = ascii 'e' ∨ mark = ascii 'E') ∧
      (sign = [] ∨ sign = [ascii '+'] ∨ sign = [ascii '-']) ∧
      ∀ b ∈ s, b = ascii '_' ∨ Text.isDigit b = true := by
  unfold exponent? at h
  split at h
  · next mark rest =>
    split at h
    · next hlower =>
      have hmark := (toLower_eq_e mark).mp hlower
      split at h
      · next b more =>
        split at h
        · obtain rfl := Option.some.inj h
          exact ⟨mark, [], _, rfl, hmark, .inl rfl, fun c hc => mem_digits hc⟩
        · split at h
          · next hsign =>
            simp only [Bool.and_eq_true, Bool.or_eq_true, decide_eq_true_eq] at hsign
            obtain rfl := Option.some.inj h
            rcases hsign.1 with rfl | rfl
            · exact ⟨mark, [ascii '+'], _, rfl, hmark, .inr (.inl rfl), fun c hc => mem_digits hc⟩
            · exact ⟨mark, [ascii '-'], _, rfl, hmark, .inr (.inr rfl), fun c hc => mem_digits hc⟩
          · nomatch h
      · nomatch h
    · nomatch h
  · nomatch h

/-- A literal of digits and underscores is a run of decimal digits. -/
theorem decimal_of_isLiteral {k : Kind} {p : Text} (h : IsLiteral k p)
    (hall : ∀ b ∈ p, b = ascii '_' ∨ Text.isDigit b = true) : Decimal p := by
  have hno {b : UInt8} (hb : b ∈ p) (hmark : b ≠ ascii '_' ∧ Text.isDigit b = false) : False := by
    rcases hall b hb with heq | hdigit
    · exact hmark.1 heq
    · rw [hmark.2] at hdigit
      exact Bool.noConfusion hdigit
  rcases h.parts with ⟨-, hbased⟩ | ⟨whole, point, power, mark, rfl, hparts⟩
  · cases hbased with
    | plain hmark _ => exact absurd (mark_of_bases hmark).2 (hno (by simp))
    | underscore hmark _ => exact absurd (mark_of_bases hmark).2 (hno (by simp))
  · have hpoint : point = [] := by
      rcases hparts.ofPoint with hnil | hpoint
      · exact hnil
      · cases hpoint with
        | alone => exact absurd (by decide) (hno (b := ascii '.') (by simp))
        | digits _ => exact absurd (by decide) (hno (b := ascii '.') (by simp))
    have hpower : power = [] := by
      rcases hparts.ofPower with hnil | hpower
      · exact hnil
      · cases hpower with
        | @intro letter sign s hletter _ _ =>
          refine absurd ?_ (hno (b := letter) (by simp))
          rcases hletter with rfl | rfl <;> decide
    have hmark : mark = [] := by
      rcases hparts.ofMark with hnil | rfl | rfl
      · exact hnil
      · exact absurd (by decide) (hno (b := ascii 'j') (by simp))
      · exact absurd (by decide) (hno (b := ascii 'J') (by simp))
    subst hpoint hpower hmark
    have hwhole : whole ≠ [] := by
      intro hnil
      obtain ⟨s, -, heq⟩ := hparts.digits hnil
      nomatch heq
    simp only [List.append_nil]
    exact hparts.ofWhole.resolve_left hwhole

/-- No literal without the mark of a base ends with the mark of an exponent. -/
theorem not_parts_of_last {k : Kind} {whole point power mark p : Text} {letter : UInt8}
    (h : Parts k whole point power mark) (hletter : letter = ascii 'e' ∨ letter = ascii 'E')
    (heq : whole ++ point ++ power ++ mark = p ++ [letter]) : False := by
  have hlast : (whole ++ point ++ power ++ mark).getLast? = some letter := by
    rw [heq, List.getLast?_concat]
  have hdigits {s t : Text} (ht : Decimal t) (hst : (s ++ t).getLast? = some letter) : False := by
    obtain ⟨b, hb, hdigit⟩ := ht.last
    rw [List.getLast?_append, hb] at hst
    obtain rfl := Option.some.inj hst
    rcases hletter with rfl | rfl <;> exact absurd hdigit (by decide)
  rcases h.ofMark with rfl | rfl | rfl
  · rw [List.append_nil] at hlast
    rcases h.ofPower with rfl | hpower
    · rw [List.append_nil] at hlast
      rcases h.ofPoint with rfl | hpoint
      · obtain hnil | hwhole := h.ofWhole
        · rw [hnil] at hlast
          nomatch hlast
        · rw [List.append_nil] at hlast
          exact hdigits (s := []) hwhole hlast
      · cases hpoint with
        | alone =>
          rw [List.getLast?_concat] at hlast
          rcases hletter with rfl | rfl <;> exact absurd hlast (by decide)
        | digits hs =>
          rw [List.append_cons] at hlast
          exact hdigits hs hlast
    · cases hpower with
      | intro _ _ hs =>
        rw [← List.cons_append, ← List.append_assoc] at hlast
        exact hdigits hs hlast
  · rw [List.getLast?_concat] at hlast
    rcases hletter with rfl | rfl <;> exact absurd hlast (by decide)
  · rw [List.getLast?_concat] at hlast
    rcases hletter with rfl | rfl <;> exact absurd hlast (by decide)

/-- The literal is the longest in front of the text. -/
structure IsLongest (t : Text) (k : Kind) (p : Text) : Prop where
  literal : IsLiteral k p
  front : p <+: t
  longest : ∀ k' q, IsLiteral k' q → q <+: t → q.length ≤ p.length

/-- Where the longest literal ends inside of what is scanned, an identifier would go on. -/
theorem IsLongest.next {t : Text} {k : Kind} {p : Text} (h : IsLongest t k p)
    (hlt : p.length < (bare t).length) (hle : (bare t).length ≤ t.length) :
    (t.drop p.length).head?.any isIdentPart = true := by
  obtain ⟨u, rfl⟩ := h.front
  obtain ⟨c, r, rfl⟩ : ∃ c r, u = c :: r := by
    apply List.exists_cons_of_ne_nil
    rintro rfl
    simp only [List.append_nil] at hle hlt
    omega
  rw [List.drop_left]
  by_contra hident
  have hc : ¬ isIdentPart c = true := hident
  have hdigit : c = ascii '_' ∨ Text.isDigit c = true → False :=
    fun hb => hc (isIdentPart_of_digit (.inl rfl) hb)
  obtain ⟨n, hn⟩ : ∃ n, (bare (p ++ c :: r)).length = p.length + (n + 1) :=
    ⟨(bare (p ++ c :: r)).length - p.length - 1, by omega⟩
  have htake : (p ++ c :: r).take (bare (p ++ c :: r)).length = p ++ c :: r.take n := by
    rw [hn, List.take_length_add_append, List.take_succ_cons]
  rcases bare_cases (p ++ c :: r) with ⟨mark, isDigit, s, heq, hmark, hbased⟩ | ⟨hnot, hdecimal⟩
  · -- behind the mark of a base all bytes may stand in an identifier
    refine hc (isIdentPart_of_based hmark (t := s) ?_)
    rw [← heq, ← hbased, htake]
    simp
  obtain ⟨w, f, e, mark, rest, hfound⟩ := exists_found (p ++ c :: r)
  have htext := hfound.take
  rw [← hdecimal, htake, List.append_assoc, List.append_assoc] at htext
  -- the byte is no digit and no letter, so it is the point or the sign of an exponent
  obtain ⟨a, hp, hrest⟩ := split_behind htext fun hmem => by
    rw [← hfound.whole] at hmem
    exact hdigit (mem_digits hmem)
  obtain ⟨a, hp, hrest⟩ : ∃ a, p = w.text ++ (f.getD noRun).text ++ a ∧
      (e.getD noRun).text ++ mark = a ++ c :: r.take n := by
    cases hf : f with
    | none =>
      rw [hf] at hrest
      exact ⟨a, by rw [hp]; simp [noRun], hrest⟩
    | some g =>
      obtain ⟨s, hs, hall⟩ := text_fraction?_eq (hfound.fraction.trans hf)
      rw [hf, Option.getD_some, hs] at hrest
      rw [Option.getD_some, hs]
      cases a with
      | nil =>
        -- the literal is a whole number with a point behind it: the point makes it longer
        have hpoint : ascii '.' = c := (List.cons.inj hrest).1
        rw [List.append_nil] at hp
        have hwhole : Decimal p := by
          refine decimal_of_isLiteral h.literal fun b hb => ?_
          rw [hp, ← hfound.whole] at hb
          exact mem_digits hb
        have hlonger := h.longest .floatLit (p ++ [ascii '.']) (.float (.pointed (.behind hwhole)))
          ⟨r, by rw [← hpoint, List.append_assoc, List.singleton_append]⟩
        rw [List.length_append] at hlonger
        exact absurd hlonger (Nat.not_succ_le_self _)
      | cons d a =>
        simp only [List.cons_append, List.cons.injEq] at hrest
        obtain ⟨rfl, hrest⟩ := hrest
        obtain ⟨a', rfl, hbehind⟩ := split_behind hrest.symm fun hmem => hdigit (hall c hmem)
        exact ⟨a', by rw [hp]; simp, hbehind⟩
  have hmarked : c ∉ mark := by
    rcases hfound.letter with rfl | rfl | rfl
    · exact List.not_mem_nil
    · intro hmem
      obtain rfl := List.mem_singleton.mp hmem
      exact hc (by decide)
    · intro hmem
      obtain rfl := List.mem_singleton.mp hmem
      exact hc (by decide)
  cases he : e with
  | none =>
    rw [he] at hrest
    exact hmarked (by rw [show mark = a ++ c :: r.take n from hrest]; simp)
  | some g =>
    obtain ⟨letter, sign, s, hs, hletter, hsign, hall⟩ :=
      text_exponent?_eq (hfound.exponent.trans he)
    rw [he, Option.getD_some, hs] at hrest
    cases a with
    | nil =>
      obtain ⟨rfl, -⟩ := List.cons.inj hrest
      rcases hletter with rfl | rfl <;> exact hc (by decide)
    | cons d a =>
      simp only [List.cons_append, List.cons.injEq] at hrest
      obtain ⟨rfl, hrest⟩ := hrest
      cases a with
      | nil =>
        -- the literal would end with the mark of the exponent
        rcases h.literal.parts with ⟨-, hbased⟩ | ⟨whole, point, power, letter', heq, hparts⟩
        · cases hbased with
          | plain hmark _ => exact hnot _ _ _ rfl hmark
          | underscore hmark _ => exact hnot _ _ _ rfl hmark
        · exact not_parts_of_last hparts hletter (heq.symm.trans hp)
      | cons d' a =>
        have hmem : c ∈ s ++ mark := by
          rcases hsign with rfl | rfl | rfl
          · rw [List.nil_append] at hrest
            rw [hrest]
            simp
          · simp only [List.cons_append, List.nil_append, List.cons.injEq] at hrest
            rw [hrest.2]
            simp
          · simp only [List.cons_append, List.nil_append, List.cons.injEq] at hrest
            rw [hrest.2]
            simp
        rcases List.mem_append.mp hmem with hmem | hmem
        · exact hdigit (hall c hmem)
        · exact hmarked hmem

/-! ## The token of a number -/

theorem length_bare_le (t : Text) : (bare t).length ≤ t.length := by
  have hscan := length_scan_le t
  have hle : (bare t).length ≤ (scan t).length := Nat.le_add_right _ _
  omega

/-- Two longest literals in front of a text are the same. -/
theorem IsLongest.unique {t : Text} {k k' : Kind} {p p' : Text} (h : IsLongest t k p)
    (h' : IsLongest t k' p') : k' = k ∧ p' = p := by
  have hlength : p'.length = p.length :=
    Nat.le_antisymm (h.longest k' p' h'.literal h'.front) (h'.longest k p h.literal h.front)
  obtain rfl : p' = p :=
    (List.prefix_of_prefix_length_le h'.front h.front (Nat.le_of_eq hlength)).eq_of_length hlength
  -- a scan of the literal alone is of its kind
  have hkind {k : Kind} (hliteral : IsLiteral k p') : (bare p').kind = k := by
    have hcovers := covers_bare hliteral []
    rw [List.append_nil] at hcovers
    exact (hcovers.good (Nat.le_antisymm (length_bare_le p') hcovers.le)).1
  exact ⟨(hkind h'.literal).symm.trans (hkind h.literal), rfl⟩

theorem exists_isLongest {t : Text} (hstart : StartsNumber t) : ∃ k p, IsLongest t k p := by
  classical
  have hsome : ∃ k q, IsLiteral k q ∧ q <+: t := by
    rcases hstart with ⟨b, r, rfl, hdigit⟩ | ⟨b, r, rfl, hdigit⟩
    · refine ⟨.intLit, [b], .whole ?_, ⟨r, rfl⟩⟩
      by_cases hzero : b = ascii '0'
      · exact .zeros (.single (decide_eq_true hzero))
      · exact .nonzero (fun hb => hzero (Option.some.inj hb)) (.single hdigit)
    · exact ⟨.floatLit, [ascii '.', b], .float (.pointed (.before (.single hdigit))), ⟨r, rfl⟩⟩
  obtain ⟨k, q, hq, hfront⟩ := hsome
  let P (n : Nat) : Prop := ∃ k q, IsLiteral k q ∧ q <+: t ∧ q.length = n
  have hP : P (Nat.findGreatest P t.length) :=
    Nat.findGreatest_spec hfront.length_le ⟨k, q, hq, hfront, rfl⟩
  obtain ⟨k, p, hp, hpt, hlength⟩ := hP
  refine ⟨k, p, hp, hpt, fun k' q' hq' hfront' => ?_⟩
  rw [hlength]
  exact Nat.le_findGreatest hfront'.length_le ⟨k', q', hq', hfront', rfl⟩

/-- A scan is well-formed if and only if no identifier goes on behind the longest literal, and then
it is that literal. -/
theorem IsLongest.scan {t : Text} {k : Kind} {p : Text} (h : IsLongest t k p)
    (hstart : StartsNumber t) :
    if (t.drop p.length).head?.any isIdentPart then (Number.scan t).bad = true
    else Number.scan t = ⟨p.length, k, false⟩ := by
  obtain ⟨u, hu⟩ := h.front
  have hcovers := covers_bare h.literal u
  rw [hu] at hcovers
  have hglued (s : Text) : (s.takeWhile isIdentPart).isEmpty = !s.head?.any isIdentPart := by
    cases s with
    | nil => rfl
    | cons b s => by_cases hb : isIdentPart b = true <;> simp [hb]
  have hbad : (Number.scan t).bad =
      ((bare t).bad || (t.drop (bare t).length).head?.any isIdentPart) := by
    show ((bare t).bad || !((t.drop (bare t).length).takeWhile isIdentPart).isEmpty) = _
    rw [hglued, Bool.not_not]
  by_cases hgood : (bare t).bad = false
  · have hlength : (bare t).length = p.length := by
      have hliteral := isLiteral_of_bare hstart hgood
      have hle := h.longest _ _ hliteral (List.take_prefix _ t)
      rw [List.length_take, Nat.min_eq_left (length_bare_le t)] at hle
      exact Nat.le_antisymm hle hcovers.le
    rw [hgood, Bool.false_or, hlength] at hbad
    split
    · next hident => rw [hbad, hident]
    · next hident =>
      have hempty : (t.drop p.length).takeWhile isIdentPart = [] := by
        rw [← List.isEmpty_iff, hglued, Bool.not_eq_true _ |>.mp hident]
        rfl
      have hkind := (hcovers.good hlength).1
      show Scan.mk ((bare t).length + ((t.drop (bare t).length).takeWhile isIdentPart).length)
        (bare t).kind (Number.scan t).bad = _
      rw [hbad, hlength, hempty, hkind, Bool.not_eq_true _ |>.mp hident]
      rfl
  · have hlt : p.length < (bare t).length := by
      refine Nat.lt_of_le_of_ne hcovers.le fun heq => ?_
      exact hgood (hcovers.good heq.symm).2
    rw [if_pos (h.next hlt (length_bare_le t)), hbad, Bool.not_eq_false _ |>.mp hgood, Bool.true_or]

end Numeral

/-- A digit, or a point and a digit, make a number the next item. -/
theorem item_of_startsNumber {s : Lexer} {b : UInt8} {t : Text} (hrest : s.rest = b :: t)
    (hstart : Text.isDigit b = true ∨ b = ascii '.' ∧ t.head?.any Text.isDigit = true) :
    s.item b = s.number := by
  have hall : ∀ b : UInt8, Text.isDigit b = true ∨ b = ascii '.' → Lexer.isBlank b = false ∧
      b ≠ ascii '#' ∧ b ≠ ascii '\\' ∧ b ≠ 10 := forall_byte (by decide +kernel)
  obtain ⟨hblank, hhash, hback, hfeed⟩ := hall b (hstart.imp_right And.left)
  have hnext : (Text.isDigit b || (b = ascii '.' && (s.rest.drop 1).head?.any Text.isDigit)) = true := by
    rw [hrest]
    rcases hstart with hdigit | ⟨rfl, hmore⟩
    · rw [hdigit, Bool.true_or]
    · simpa using Or.inr hmore
  simp only [Lexer.item, hblank, hhash, hback, hfeed, hnext, Bool.false_eq_true, if_false, if_true]

open Numeral in
/-- Where a number starts there is one longest literal in front of the text. It is the token, unless
an identifier would go on right behind it: then the token is faulty, and one fault is reported. -/
theorem item_numeral (s : Lexer) {b : UInt8} {t : Text} (hrest : s.rest = b :: t)
    (hstart : Text.isDigit b = true ∨ b = ascii '.' ∧ t.head?.any Text.isDigit = true) :
    ∃ k p, (∀ k' p', IsLongest s.rest k' p' ↔ k' = k ∧ p' = p) ∧
      if (s.rest.drop p.length).head?.any isIdentPart then
        ∃ token fault, (s.item b).tokens = s.tokens.push token ∧ token.kind = .error ∧
          (s.item b).diags = s.diags.push fault ∧ fault.code = .invalidNumber
      else
        ∃ token, (s.item b).tokens = s.tokens.push token ∧ token.kind = k ∧ token.lexeme = p ∧
          token.span = ⟨s.pos, s.pos + p.length⟩ ∧ (s.item b).diags = s.diags := by
  have hstarts : StartsNumber s.rest := by
    rcases hstart with hdigit | ⟨rfl, hmore⟩
    · exact .inl ⟨b, t, hrest, hdigit⟩
    · obtain ⟨c, hc, hdigit⟩ := (Option.any_eq_true _ _).mp hmore
      obtain ⟨r, rfl⟩ := List.head?_eq_some_iff.mp hc
      exact .inr ⟨c, r, hrest, hdigit⟩
  have hitem : s.item b = s.number := item_of_startsNumber hrest hstart
  obtain ⟨k, p, hlongest⟩ := exists_isLongest hstarts
  refine ⟨k, p, fun k' p' => ⟨hlongest.unique, ?_⟩, ?_⟩
  · rintro ⟨rfl, rfl⟩
    exact hlongest
  have hscan := hlongest.scan hstarts
  rw [hitem]
  unfold Lexer.number
  split
  · next hident =>
    rw [if_pos hident] at hscan
    dsimp only
    rw [if_pos hscan]
    exact ⟨_, _, rfl, rfl, rfl, rfl⟩
  · next hident =>
    rw [if_neg hident] at hscan
    dsimp only
    rw [hscan, if_neg Bool.false_ne_true]
    exact ⟨_, rfl, rfl, (List.prefix_iff_eq_take.mp hlongest.front).symm, rfl, rfl⟩

/-- A text behind the start of a line, at an imaginary number with a leading zero. -/
def numeralSample : Lexer :=
  { rest := utf8 "0_7.5e-1j)", pos := 4, line := 2, atLineStart := false, embedded := false }

open Numeral in
theorem item_numeral_imaginary :
    numeralSample.rest = ascii '0' :: utf8 "_7.5e-1j)" ∧ Text.isDigit (ascii '0') = true ∧
      ∃ k p, (∀ k' p', IsLongest numeralSample.rest k' p' ↔ k' = k ∧ p' = p) ∧
        if (numeralSample.rest.drop p.length).head?.any isIdentPart then
          ∃ token fault, (numeralSample.item (ascii '0')).tokens = numeralSample.tokens.push token ∧
            token.kind = .error ∧
            (numeralSample.item (ascii '0')).diags = numeralSample.diags.push fault ∧
            fault.code = .invalidNumber
        else
          ∃ token, (numeralSample.item (ascii '0')).tokens = numeralSample.tokens.push token ∧
            token.kind = k ∧ token.lexeme = p ∧
            token.span = ⟨numeralSample.pos, numeralSample.pos + p.length⟩ ∧
            (numeralSample.item (ascii '0')).diags = numeralSample.diags :=
  ⟨by decide, by decide, item_numeral numeralSample (t := utf8 "_7.5e-1j)") (by decide) (.inl (by decide))⟩

end CloneScout.Token
