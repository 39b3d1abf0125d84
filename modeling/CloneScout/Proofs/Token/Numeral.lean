import CloneScout.Token.Number

/-!
# The grammar of numeric literals

Integers in four bases, floating-point numbers with a point or an exponent, and imaginary numbers.
Underscores stand singly between digits and behind the mark of a base. A literal without such a mark
falls apart into digits, a fraction, a power and an imaginary mark, each of which may be missing.
-/

namespace CloneScout.Token.Numeral

open Number (isHex isOctal isBinary)

/-! ## Literals -/

/-- Digits with single underscores between them. -/
inductive Digits (isDigit : UInt8 → Bool) : Text → Prop where
  | single {b : UInt8} (hb : isDigit b = true) : Digits isDigit [b]
  | digit {b : UInt8} {t : Text} (hb : isDigit b = true) (ht : Digits isDigit t) :
      Digits isDigit (b :: t)
  | underscore {b : UInt8} {t : Text} (hb : isDigit b = true) (ht : Digits isDigit t) :
      Digits isDigit (b :: ascii '_' :: t)

abbrev Decimal (t : Text) : Prop := Digits Text.isDigit t

/-- The marks of the bases, with their digits. -/
def bases : List (UInt8 × (UInt8 → Bool)) :=
  [(ascii 'x', isHex), (ascii 'X', isHex), (ascii 'o', isOctal), (ascii 'O', isOctal),
    (ascii 'b', isBinary), (ascii 'B', isBinary)]

/-- A zero, the mark of a base, and its digits, with or without an underscore in front. -/
inductive IsBased : Text → Prop where
  | plain {mark : UInt8} {isDigit : UInt8 → Bool} {t : Text} (hmark : (mark, isDigit) ∈ bases)
      (ht : Digits isDigit t) : IsBased (ascii '0' :: mark :: t)
  | underscore {mark : UInt8} {isDigit : UInt8 → Bool} {t : Text} (hmark : (mark, isDigit) ∈ bases)
      (ht : Digits isDigit t) : IsBased (ascii '0' :: mark :: ascii '_' :: t)

/-- Decimal digits without a leading zero, or zeros only. -/
inductive IsWhole : Text → Prop where
  | nonzero {t : Text} (hfirst : t.head? ≠ some (ascii '0')) (ht : Decimal t) : IsWhole t
  | zeros {t : Text} (ht : Digits (· = ascii '0') t) : IsWhole t

/-- The mark of an exponent, a sign or none, and digits. -/
inductive IsExponent : Text → Prop where
  | intro {mark : UInt8} {sign t : Text} (hmark : mark = ascii 'e' ∨ mark = ascii 'E')
      (hsign : sign = [] ∨ sign = [ascii '+'] ∨ sign = [ascii '-']) (ht : Decimal t) :
      IsExponent (mark :: (sign ++ t))

/-- A point with digits on at least one side. -/
inductive IsPointed : Text → Prop where
  | before {t : Text} (ht : Decimal t) : IsPointed (ascii '.' :: t)
  | between {s t : Text} (hs : Decimal s) (ht : Decimal t) : IsPointed (s ++ ascii '.' :: t)
  | behind {s : Text} (hs : Decimal s) : IsPointed (s ++ [ascii '.'])

/-- A number with a point, with an exponent, or with both. -/
inductive IsFloat : Text → Prop where
  | pointed {s : Text} (hs : IsPointed s) : IsFloat s
  | power {s e : Text} (hs : Decimal s) (he : IsExponent e) : IsFloat (s ++ e)
  | pointedPower {s e : Text} (hs : IsPointed s) (he : IsExponent e) : IsFloat (s ++ e)

/-- The numeric literals of each kind. -/
inductive IsLiteral : Kind → Text → Prop where
  | based {t : Text} (h : IsBased t) : IsLiteral .intLit t
  | whole {t : Text} (h : IsWhole t) : IsLiteral .intLit t
  | float {t : Text} (h : IsFloat t) : IsLiteral .floatLit t
  | imaginary {t : Text} {mark : UInt8} (h : IsFloat t ∨ Decimal t)
      (hmark : mark = ascii 'j' ∨ mark = ascii 'J') : IsLiteral .imagLit (t ++ [mark])

/-! ## Digits -/

theorem Digits.ne_nil {isDigit : UInt8 → Bool} {t : Text} (h : Digits isDigit t) : t ≠ [] := by
  cases h <;> exact List.cons_ne_nil _ _

theorem Digits.head {isDigit : UInt8 → Bool} {t : Text} (h : Digits isDigit t) :
    ∃ b r, t = b :: r ∧ isDigit b = true := by
  cases h with
  | single hb => exact ⟨_, _, rfl, hb⟩
  | digit hb _ => exact ⟨_, _, rfl, hb⟩
  | underscore hb _ => exact ⟨_, _, rfl, hb⟩

theorem Digits.last {isDigit : UInt8 → Bool} {t : Text} (h : Digits isDigit t) :
    ∃ b, t.getLast? = some b ∧ isDigit b = true := by
  induction h with
  | single hb => exact ⟨_, rfl, hb⟩
  | digit hb ht ih =>
    obtain ⟨b, hlast, hdigit⟩ := ih
    exact ⟨b, by rw [List.getLast?_cons, hlast]; rfl, hdigit⟩
  | underscore hb ht ih =>
    obtain ⟨b, hlast, hdigit⟩ := ih
    exact ⟨b, by rw [List.getLast?_cons, List.getLast?_cons, hlast]; rfl, hdigit⟩

theorem Digits.mem {isDigit : UInt8 → Bool} {t : Text} (h : Digits isDigit t) {b : UInt8}
    (hb : b ∈ t) : b = ascii '_' ∨ isDigit b = true := by
  induction h with
  | single h => exact .inr (List.mem_singleton.mp hb ▸ h)
  | digit h ht ih =>
    rcases List.mem_cons.mp hb with rfl | hb
    · exact .inr h
    · exact ih hb
  | underscore h ht ih =>
    rcases List.mem_cons.mp hb with rfl | hb
    · exact .inr h
    rcases List.mem_cons.mp hb with rfl | hb
    · exact .inl rfl
    · exact ih hb

theorem Digits.mono {p q : UInt8 → Bool} (hpq : ∀ b, p b = true → q b = true) {t : Text}
    (h : Digits p t) : Digits q t := by
  induction h with
  | single hb => exact .single (hpq _ hb)
  | digit hb _ ih => exact .digit (hpq _ hb) ih
  | underscore hb _ ih => exact .underscore (hpq _ hb) ih

/-- Fewer digits are left when all bytes are of the smaller class. -/
theorem Digits.of_mem {p q : UInt8 → Bool} {t : Text} (h : Digits p t)
    (hq : ∀ b ∈ t, p b = true → q b = true) : Digits q t := by
  induction h with
  | single hb => exact .single (hq _ List.mem_cons_self hb)
  | digit hb _ ih =>
    exact .digit (hq _ List.mem_cons_self hb) (ih fun b hmem => hq b (List.mem_cons_of_mem _ hmem))
  | underscore hb _ ih =>
    exact .underscore (hq _ List.mem_cons_self hb)
      (ih fun b hmem => hq b (List.mem_cons_of_mem _ (List.mem_cons_of_mem _ hmem)))

theorem isWhole_decimal {t : Text} (h : IsWhole t) : Decimal t := by
  cases h with
  | nonzero _ ht => exact ht
  | zeros ht =>
    have hzero : ∀ b, decide (b = ascii '0') = true → Text.isDigit b = true := by
      intro b hb
      rw [of_decide_eq_true hb]
      decide
    exact ht.mono hzero

/-! ## Parts -/

/-- A point, alone or in front of digits. -/
inductive IsFraction : Text → Prop where
  | alone : IsFraction [ascii '.']
  | digits {t : Text} (ht : Decimal t) : IsFraction (ascii '.' :: t)

/-- Nothing, or a text of the given form. -/
def Maybe (P : Text → Prop) (t : Text) : Prop := t = [] ∨ P t

/-- The parts of a literal without the mark of a base. -/
structure Parts (k : Kind) (whole point power mark : Text) : Prop where
  ofWhole : Maybe Decimal whole
  ofPoint : Maybe IsFraction point
  ofPower : Maybe IsExponent power
  ofMark : Maybe (fun t => t = [ascii 'j'] ∨ t = [ascii 'J']) mark
  /-- A number without digits in front of the point has some behind it. -/
  digits : whole = [] → ∃ t, Decimal t ∧ point = ascii '.' :: t
  kind : k = if mark ≠ [] then .imagLit else if point ≠ [] ∨ power ≠ [] then .floatLit else .intLit
  integer : k = .intLit → IsWhole whole

theorem IsPointed.parts {t : Text} (h : IsPointed t) :
    ∃ whole point, t = whole ++ point ∧ point ≠ [] ∧ Maybe Decimal whole ∧ IsFraction point ∧
      (whole = [] → ∃ t, Decimal t ∧ point = ascii '.' :: t) := by
  cases h with
  | @before t ht =>
    exact ⟨[], ascii '.' :: t, rfl, List.cons_ne_nil _ _, .inl rfl, .digits ht,
      fun _ => ⟨t, ht, rfl⟩⟩
  | @between s t hs ht =>
    exact ⟨s, ascii '.' :: t, rfl, List.cons_ne_nil _ _, .inr hs, .digits ht,
      fun hnil => absurd hnil hs.ne_nil⟩
  | @behind s hs =>
    exact ⟨s, [ascii '.'], rfl, List.cons_ne_nil _ _, .inr hs, .alone,
      fun hnil => absurd hnil hs.ne_nil⟩

theorem IsExponent.ne_nil {t : Text} (h : IsExponent t) : t ≠ [] := by
  cases h
  exact List.cons_ne_nil _ _

theorem IsFloat.parts {t : Text} (h : IsFloat t) :
    ∃ whole point power, t = whole ++ point ++ power ∧ (point ≠ [] ∨ power ≠ []) ∧
      Maybe Decimal whole ∧ Maybe IsFraction point ∧ Maybe IsExponent power ∧
      (whole = [] → ∃ t, Decimal t ∧ point = ascii '.' :: t) := by
  cases h with
  | pointed hs =>
    obtain ⟨whole, point, rfl, hne, hwhole, hpoint, hdigits⟩ := hs.parts
    exact ⟨whole, point, [], by rw [List.append_nil], .inl hne, hwhole, .inr hpoint, .inl rfl,
      hdigits⟩
  | @power s e hs he =>
    exact ⟨s, [], e, by rw [List.append_nil], .inr he.ne_nil, .inr hs, .inl rfl, .inr he,
      fun hnil => absurd hnil hs.ne_nil⟩
  | @pointedPower s e hs he =>
    obtain ⟨whole, point, rfl, hne, hwhole, hpoint, hdigits⟩ := hs.parts
    exact ⟨whole, point, e, rfl, .inl hne, hwhole, .inr hpoint, .inr he, hdigits⟩

/-- A literal has the mark of a base, or it falls apart into its parts. -/
theorem IsLiteral.parts {k : Kind} {t : Text} (h : IsLiteral k t) :
    (k = .intLit ∧ IsBased t) ∨
      ∃ whole point power mark, t = whole ++ point ++ power ++ mark ∧
        Parts k whole point power mark := by
  cases h with
  | based h => exact .inl ⟨rfl, h⟩
  | whole h =>
    have hdecimal := isWhole_decimal h
    exact .inr ⟨t, [], [], [], by simp only [List.append_nil], .inr hdecimal, .inl rfl, .inl rfl,
      .inl rfl, fun hnil => absurd hnil hdecimal.ne_nil, rfl, fun _ => h⟩
  | float h =>
    obtain ⟨whole, point, power, rfl, hne, hwhole, hpoint, hpower, hdigits⟩ := h.parts
    refine .inr ⟨whole, point, power, [], by rw [List.append_nil], hwhole, hpoint, hpower, .inl rfl,
      hdigits, ?_, fun hint => absurd hint (by decide)⟩
    rw [if_neg (fun hnil => hnil rfl), if_pos hne]
  | @imaginary t mark h hmark =>
    have hkind {point power : Text} : Kind.imagLit = if [mark] ≠ [] then .imagLit
        else if point ≠ [] ∨ power ≠ [] then .floatLit else .intLit := by
      rw [if_pos (List.cons_ne_nil _ _)]
    have hmark' : Maybe (fun t => t = [ascii 'j'] ∨ t = [ascii 'J']) [mark] := by
      rcases hmark with rfl | rfl
      · exact .inr (.inl rfl)
      · exact .inr (.inr rfl)
    rcases h with h | h
    · obtain ⟨whole, point, power, rfl, -, hwhole, hpoint, hpower, hdigits⟩ := h.parts
      exact .inr ⟨whole, point, power, [mark], rfl, hwhole, hpoint, hpower, hmark', hdigits, hkind,
        fun hint => absurd hint (by decide)⟩
    · exact .inr ⟨t, [], [], [mark], by simp only [List.append_nil], .inr h, .inl rfl, .inl rfl,
        hmark', fun hnil => absurd hnil h.ne_nil, hkind, fun hint => absurd hint (by decide)⟩

theorem Parts.isFloat {k : Kind} {whole point power mark : Text} (h : Parts k whole point power mark)
    (hne : point ≠ [] ∨ power ≠ []) : IsFloat (whole ++ point ++ power) := by
  have hpointed (hpoint : point ≠ []) : IsPointed (whole ++ point) := by
    by_cases hwhole : whole = []
    · obtain ⟨t, ht, rfl⟩ := h.digits hwhole
      rw [hwhole]
      exact .before ht
    · have hdecimal := h.ofWhole.resolve_left hwhole
      cases h.ofPoint.resolve_left hpoint with
      | alone => exact .behind hdecimal
      | digits ht => exact .between hdecimal ht
  by_cases hpoint : point = []
  · have hwhole : whole ≠ [] := by
      intro hnil
      obtain ⟨t, -, heq⟩ := h.digits hnil
      rw [hpoint] at heq
      exact absurd heq (by simp)
    have hpower := h.ofPower.resolve_left (hne.resolve_left fun hno => hno hpoint)
    rw [hpoint, List.append_nil]
    exact .power (h.ofWhole.resolve_left hwhole) hpower
  · rcases h.ofPower with rfl | hpower
    · rw [List.append_nil]
      exact .pointed (hpointed hpoint)
    · exact .pointedPower (hpointed hpoint) hpower

/-- The parts of a literal make the literal. -/
theorem Parts.isLiteral {k : Kind} {whole point power mark : Text}
    (h : Parts k whole point power mark) : IsLiteral k (whole ++ point ++ power ++ mark) := by
  have hkind := h.kind
  by_cases hne : point ≠ [] ∨ power ≠ []
  · rcases h.ofMark with rfl | rfl | rfl
    · rw [if_neg (fun hno => hno rfl), if_pos hne] at hkind
      rw [hkind, List.append_nil]
      exact .float (h.isFloat hne)
    · rw [if_pos (List.cons_ne_nil _ _)] at hkind
      rw [hkind]
      exact .imaginary (.inl (h.isFloat hne)) (.inl rfl)
    · rw [if_pos (List.cons_ne_nil _ _)] at hkind
      rw [hkind]
      exact .imaginary (.inl (h.isFloat hne)) (.inr rfl)
  · obtain ⟨hpoint, hpower⟩ := not_or.mp hne
    obtain rfl := Classical.not_not.mp hpoint
    obtain rfl := Classical.not_not.mp hpower
    have hwhole : whole ≠ [] := by
      intro hnil
      obtain ⟨t, -, heq⟩ := h.digits hnil
      exact absurd heq (by simp)
    simp only [List.append_nil]
    rcases h.ofMark with rfl | rfl | rfl
    · rw [if_neg (fun hno => hno rfl), if_neg hne] at hkind
      rw [hkind, List.append_nil]
      exact .whole (h.integer hkind)
    · rw [if_pos (List.cons_ne_nil _ _)] at hkind
      rw [hkind]
      exact .imaginary (.inr (h.ofWhole.resolve_left hwhole)) (.inl rfl)
    · rw [if_pos (List.cons_ne_nil _ _)] at hkind
      rw [hkind]
      exact .imaginary (.inr (h.ofWhole.resolve_left hwhole)) (.inr rfl)

end CloneScout.Token.Numeral
