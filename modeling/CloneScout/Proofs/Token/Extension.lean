import CloneScout.Proofs.Token.Indents
import Mathlib.Data.List.Find

/-!
# Text behind whole lines

What the lexer makes of whole lines does not depend on the text behind them, unless it is still
inside a string or a continued line at their end: everything else stops at the last line feed. So a
text of whole lines is read in the same way with more text behind it.
-/

namespace CloneScout

namespace Text

/-- The text is empty or ends in a line feed. -/
def WholeLines (t : Text) : Prop := ∀ b ∈ t.getLast?, b = 10

instance (t : Text) : Decidable t.WholeLines :=
  inferInstanceAs (Decidable (∀ b ∈ t.getLast?, b = 10))

theorem WholeLines.of_suffix {s t : Text} (h : t.WholeLines) (hsuffix : s <:+ t) :
    s.WholeLines := by
  obtain ⟨r, rfl⟩ := hsuffix
  intro b hb
  refine h b ?_
  rw [Option.mem_def, List.getLast?_append, Option.mem_def.mp hb]
  rfl

theorem WholeLines.drop {t : Text} (h : t.WholeLines) (n : Nat) : WholeLines (t.drop n) :=
  h.of_suffix (List.drop_suffix n t)

theorem WholeLines.tail {b : UInt8} {t : Text} (h : WholeLines (b :: t)) : t.WholeLines :=
  h.of_suffix (List.suffix_cons b t)

theorem WholeLines.mem {t : Text} (h : t.WholeLines) (hne : t ≠ []) : 10 ∈ t := by
  obtain ⟨b, hb⟩ : ∃ b, t.getLast? = some b := Option.isSome_iff_exists.mp (by simpa using hne)
  exact h b hb ▸ List.mem_of_getLast? hb

/-- Bytes in front of which something else than a line feed stands are not the last ones. -/
theorem WholeLines.mem_tail {b : UInt8} {t : Text} (h : WholeLines (b :: t)) (hb : b ≠ 10) :
    10 ∈ t := by
  rcases List.mem_cons.mp (h.mem (List.cons_ne_nil b t)) with h10 | hmem
  · exact absurd h10.symm hb
  · exact hmem

theorem takeWhile_append_of_mem {p : UInt8 → Bool} {b : UInt8} (hb : p b = false) {t : Text}
    (h : b ∈ t) (c : Text) : (t ++ c).takeWhile p = t.takeWhile p := by
  induction t with
  | nil => exact absurd h List.not_mem_nil
  | cons a t ih =>
    rw [List.cons_append]
    cases ha : p a with
    | false =>
      rw [List.takeWhile_cons_of_neg (by simp [ha]), List.takeWhile_cons_of_neg (by simp [ha])]
    | true =>
      have hmem : b ∈ t := (List.mem_cons.mp h).resolve_left fun heq => by simp [← heq, hb] at ha
      rw [List.takeWhile_cons_of_pos ha, List.takeWhile_cons_of_pos ha, ih hmem]

theorem head?_append_of_mem {b : UInt8} {t : Text} (h : b ∈ t) (c : Text) :
    (t ++ c).head? = t.head? := by
  cases t with
  | nil => exact absurd h List.not_mem_nil
  | cons => rfl

/-- A start that does not reach to a byte of the text does not reach behind the text. -/
theorem startsWith_append_of_mem {b : UInt8} {t start : Text} (h : b ∈ t) (hb : b ∉ start)
    (c : Text) : startsWith (t ++ c) start = startsWith t start := by
  rw [Bool.eq_iff_iff, startsWith_iff, startsWith_iff]
  constructor
  · intro hprefix
    rcases List.prefix_or_prefix_of_prefix hprefix (List.prefix_append t c) with hshort | hlong
    · exact hshort
    · exact absurd (hlong.subset h) hb
  · exact fun hprefix => hprefix.trans (List.prefix_append t c)

end Text

open Text (WholeLines takeWhile_append_of_mem head?_append_of_mem startsWith_append_of_mem)

namespace Token

/-! ## Numbers -/

namespace Number

variable {isDigit : UInt8 → Bool}

theorem run_append (hdigit : isDigit 10 = false) (afterUnderscore : Bool) {t : Text} (h : 10 ∈ t)
    (c : Text) : run isDigit afterUnderscore (t ++ c) = run isDigit afterUnderscore t := by
  fun_induction run isDigit afterUnderscore t with
  | case1 => exact absurd h List.not_mem_nil
  | case2 afterUnderscore t r ih =>
    have hmem : 10 ∈ t := (List.mem_cons.mp h).resolve_left (by decide)
    rw [List.cons_append, run, if_pos rfl, ih hmem]
  | case3 afterUnderscore b t hb hdigit' r ih =>
    have hmem : 10 ∈ t := (List.mem_cons.mp h).resolve_left fun heq => by
      simp [← heq, hdigit] at hdigit'
    rw [List.cons_append, run, if_neg hb, if_pos hdigit', ih hmem]
  | case4 afterUnderscore b t hb hdigit' => rw [List.cons_append, run, if_neg hb, if_neg hdigit']

theorem digits_append (hdigit : isDigit 10 = false) {t : Text} (h : 10 ∈ t) (c : Text) :
    digits isDigit (t ++ c) = digits isDigit t := by
  rw [digits, digits, run_append hdigit true h]

theorem fraction?_append (n : Nat) {t : Text} (h : 10 ∈ t) (c : Text) :
    fraction? n (t ++ c) = fraction? n t := by
  cases t with
  | nil => exact absurd h List.not_mem_nil
  | cons b t =>
    rw [List.cons_append, fraction?, fraction?]
    by_cases hb : b = ascii '.'
    · have hmem : 10 ∈ t := (List.mem_cons.mp h).resolve_left fun heq => by
        rw [← heq] at hb
        exact absurd hb (by decide)
      rw [head?_append_of_mem hmem, digits_append (by decide) hmem]
    · simp [hb]

theorem exponent?_append {t : Text} (h : 10 ∈ t) (c : Text) :
    exponent? (t ++ c) = exponent? t := by
  cases t with
  | nil => exact absurd h List.not_mem_nil
  | cons mark t =>
    simp only [List.cons_append, exponent?]
    by_cases hmark : Text.toLower mark = ascii 'e'
    · have hmem : 10 ∈ t := (List.mem_cons.mp h).resolve_left fun heq => by
        rw [← heq] at hmark
        exact absurd hmark (by decide)
      cases t with
      | nil => exact absurd hmem List.not_mem_nil
      | cons b t =>
        simp only [if_pos hmark, List.cons_append]
        rw [← List.cons_append, digits_append (by decide) hmem]
        split
        · rfl
        · by_cases hsign : (b = ascii '+' || b = ascii '-') = true
          · have hmore : 10 ∈ t := (List.mem_cons.mp hmem).resolve_left fun heq => by
              rw [← heq] at hsign
              exact absurd hsign (by decide)
            rw [head?_append_of_mem hmore, digits_append (by decide) hmore]
          · rw [Bool.not_eq_true] at hsign
            simp only [hsign, Bool.false_and, Bool.false_eq_true, if_false]
    · simp only [if_neg hmark]

theorem drop_append {t : Text} {n : Nat} (h : n < t.length) (c : Text) :
    (t ++ c).drop n = t.drop n ++ c :=
  List.drop_append_of_le_length (Nat.le_of_lt h)

theorem mem_drop {t : Text} {n : Nat} (h : t.WholeLines) (hlt : n < t.length) : 10 ∈ t.drop n :=
  (h.drop n).mem fun hnil => by
    have := List.drop_eq_nil_iff.mp hnil
    omega

/-- A literal that does not take the last line feed is read in the same way with a text behind. -/
theorem decimal_append {t : Text} (h : t.WholeLines) (hlt : (decimal t).length < t.length)
    (c : Text) : decimal (t ++ c) = decimal t := by
  unfold decimal at hlt ⊢
  dsimp only at hlt ⊢
  have hne : t ≠ [] := fun hnil => by simp [hnil] at hlt
  rw [digits_append (by decide) (h.mem hne)]
  generalize digits Text.isDigit t = whole at hlt ⊢
  have hwhole : whole.text.length < t.length := by omega
  rw [drop_append hwhole]
  have hlines₁ := h.drop whole.text.length
  have hmem₁ := mem_drop h hwhole
  have hlength₁ : (t.drop whole.text.length).length = t.length - whole.text.length :=
    List.length_drop
  generalize t.drop whole.text.length = t₁ at hlt hlines₁ hmem₁ hlength₁ ⊢
  rw [fraction?_append _ hmem₁]
  generalize fraction? whole.digits t₁ = fraction at hlt ⊢
  have hpoint : (fraction.elim [] Run.text).length < t₁.length := by omega
  rw [drop_append hpoint]
  have hlines₂ := hlines₁.drop (fraction.elim [] Run.text).length
  have hmem₂ := mem_drop hlines₁ hpoint
  have hlength₂ : (t₁.drop (fraction.elim [] Run.text).length).length =
      t₁.length - (fraction.elim [] Run.text).length := List.length_drop
  generalize t₁.drop (fraction.elim [] Run.text).length = t₂ at hlt hlines₂ hmem₂ hlength₂ ⊢
  rw [exponent?_append hmem₂]
  generalize exponent? t₂ = exponent at hlt ⊢
  have hpower : (exponent.elim [] Run.text).length < t₂.length := by omega
  rw [drop_append hpower, head?_append_of_mem (mem_drop hlines₂ hpower)]

theorem based_append (hdigit : isDigit 10 = false) {t : Text} (h : 10 ∈ t) (c : Text) :
    based isDigit (t ++ c) = based isDigit t := by
  unfold based
  dsimp only
  rw [head?_append_of_mem h]
  split
  · next hmark =>
    obtain ⟨r, rfl⟩ := List.head?_eq_some_iff.mp hmark
    have hmem : 10 ∈ r := (List.mem_cons.mp h).resolve_left (by decide)
    rw [List.cons_append, List.drop_one, List.drop_one, List.tail_cons, List.tail_cons,
      digits_append hdigit hmem]
  · rw [List.drop_zero, List.drop_zero, digits_append hdigit h]

/-- Neither a base mark nor the digits behind it are line feeds. -/
theorem ne_of_digitsOfMark? {mark : UInt8} (h : digitsOfMark? mark = some isDigit) :
    mark ≠ 10 ∧ isDigit 10 = false := by
  refine ⟨?_, ?_⟩
  · rintro rfl
    have hnone : digitsOfMark? 10 = none := rfl
    rw [hnone] at h
    nomatch h
  · unfold digitsOfMark? at h
    dsimp only at h
    split at h
    · obtain rfl := Option.some.inj h
      decide
    split at h
    · obtain rfl := Option.some.inj h
      decide
    split at h
    · obtain rfl := Option.some.inj h
      decide
    · nomatch h

theorem bare_append {t : Text} (h : t.WholeLines) (hlt : (bare t).length < t.length) (c : Text) :
    bare (t ++ c) = bare t := by
  have hdecimal (hbare : bare t = decimal t) : decimal (t ++ c) = bare t := by
    rw [hbare] at hlt ⊢
    exact decimal_append h hlt c
  match t, h, hlt, hdecimal with
  | [], _, hlt, _ => exact absurd hlt (Nat.not_lt_zero _)
  | [b], h, _, hdecimal =>
    obtain rfl : b = 10 := h b rfl
    have hzero : (10 : UInt8) ≠ ascii '0' := by decide
    rw [← hdecimal rfl]
    cases c with
    | nil => rfl
    | cons m c =>
      simp only [List.singleton_append, bare, if_neg hzero]
      split <;> rfl
  | zero :: mark :: rest, h, hlt, hdecimal =>
    simp only [List.cons_append, bare] at hdecimal ⊢
    cases hmark : digitsOfMark? mark with
    | none =>
      simp only [hmark] at hdecimal
      exact hdecimal trivial
    | some isDigit =>
      simp only [hmark] at hdecimal
      obtain ⟨hne, hdigit⟩ := ne_of_digitsOfMark? hmark
      by_cases hzero : zero = ascii '0'
      · simp only [if_pos hzero]
        exact based_append hdigit (h.tail.mem_tail hne) c
      · simp only [if_neg hzero] at hdecimal ⊢
        exact hdecimal trivial

theorem scan_append {t : Text} (h : t.WholeLines) (hlt : (scan t).length < t.length) (c : Text) :
    scan (t ++ c) = scan t := by
  have hle : (bare t).length ≤ (scan t).length := Nat.le_add_right _ _
  have hbare : (bare t).length < t.length := by omega
  unfold scan
  dsimp only
  rw [bare_append h hbare, drop_append hbare,
    takeWhile_append_of_mem (by decide) (mem_drop h hbare)]

end Number

namespace Lexer

/-! ## Strings -/

theorem stringBody_cons {b : UInt8} (hb : b ≠ ascii '\\') (quote : UInt8) (triple : Bool)
    (read : Nat) (t : Text) :
    stringBody quote triple read (b :: t) =
      if b = 10 && !triple then (read, false)
      else if b ≠ quote then stringBody quote triple (read + 1) t
      else if !triple then (read + 1, true)
      else if Text.startsWith t [quote, quote] then (read + 3, true)
      else stringBody quote triple (read + 1) t := by
  cases t <;> simp only [stringBody, if_neg hb]

/-- A string that ends before the text does is read in the same way with a text behind. -/
theorem stringBody_append {quote : UInt8} (hquote : quote ≠ 10) (triple : Bool) (read : Nat)
    {t : Text} (h : t.WholeLines) (hlt : (stringBody quote triple read t).1 < read + t.length)
    (c : Text) : stringBody quote triple read (t ++ c) = stringBody quote triple read t := by
  fun_induction stringBody quote triple read t with
  | case1 => simp at hlt
  | case2 => simp at hlt
  | case3 read b t ih =>
    simp only [List.cons_append]
    rw [stringBody, if_pos rfl]
    exact ih h.tail.tail (by simp only [List.length_cons] at hlt; omega)
  | case4 read b t hb hend => rw [List.cons_append, stringBody_cons hb, if_pos hend]
  | case5 read b t hb hend hne ih =>
    rw [List.cons_append, stringBody_cons hb, if_neg hend, if_pos hne]
    exact ih h.tail (by simp only [List.length_cons] at hlt; omega)
  | case6 read b t hb hend hsame hsingle =>
    rw [List.cons_append, stringBody_cons hb, if_neg hend, if_neg hsame, if_pos hsingle]
  | case7 read b t hb hend hsame hsingle hclose =>
    have hstart := Text.startsWith_iff.mpr ((Text.startsWith_iff.mp hclose).trans
      (List.prefix_append t c))
    rw [List.cons_append, stringBody_cons hb, if_neg hend, if_neg hsame, if_neg hsingle,
      if_pos hstart]
  | case8 read b t hb hend hsame hsingle hclose ih =>
    have hmem : 10 ∈ t := h.mem_tail fun h10 => hquote ((Decidable.of_not_not hsame).symm.trans h10)
    have hquotes : (10 : UInt8) ∉ [quote, quote] := by simpa using Ne.symm hquote
    have hstart := startsWith_append_of_mem hmem hquotes c
    rw [List.cons_append, stringBody_cons hb, if_neg hend, if_neg hsame, if_neg hsingle, hstart,
      if_neg hclose]
    exact ih h.tail (by simp only [List.length_cons] at hlt; omega)

/-! ## Steps with more text behind -/

/-- The lexer with more text behind the unread one. -/
def extend (c : Text) (s : Lexer) : Lexer := { s with rest := s.rest ++ c }

variable {s : Lexer}

@[simp]
theorem rest_extend (c : Text) : (extend c s).rest = s.rest ++ c := rfl

@[simp]
theorem pos_extend (c : Text) : (extend c s).pos = s.pos := rfl

@[simp]
theorem indents_extend (c : Text) : (extend c s).indents = s.indents := rfl

@[simp]
theorem brackets_extend (c : Text) : (extend c s).brackets = s.brackets := rfl

@[simp]
theorem atLineStart_extend (c : Text) : (extend c s).atLineStart = s.atLineStart := rfl

theorem advance_extend {n : Nat} (h : n ≤ s.rest.length) (c : Text) :
    (extend c s).advance n = extend c (s.advance n) := by
  simp only [extend, advance, List.drop_append_of_le_length h, List.take_append_of_le_length h]

theorem tokenOf_extend {n : Nat} (h : n ≤ s.rest.length) (c : Text) (kind : Kind) :
    (extend c s).tokenOf kind n = s.tokenOf kind n := by
  simp only [extend, tokenOf, List.take_append_of_le_length h]

theorem take_extend {n : Nat} (h : n ≤ s.rest.length) (c : Text) (kind : Kind) :
    (extend c s).take kind n = extend c (s.take kind n) := by
  have hpush : (extend c s).push ((extend c s).tokenOf kind n) =
      extend c (s.push (s.tokenOf kind n)) := by
    rw [tokenOf_extend h]
    rfl
  rw [Lexer.take, hpush, advance_extend (s := s.push _) h]
  rfl

theorem track_extend (t : Token) (c : Text) : track t (extend c s) = extend c (track t s) := by
  simp only [track, brackets_extend]
  cases t.kind.isOpening with
  | true => rfl
  | false =>
    cases t.kind.opening? with
    | none => rfl
    | some opening =>
      cases s.brackets with
      | nil => rfl
      | cons top below =>
        by_cases hkind : top.kind = opening
        · simp only [if_pos hkind]
          rfl
        · simp only [if_neg hkind]
          rfl

theorem continuation?_cons_cons {d e : UInt8} (h : ¬ d = 10) (h' : ¬ (d = 13 ∧ e = 10)) (b : UInt8)
    (t : Text) : continuation? (b :: d :: e :: t) = none := by
  unfold continuation?
  split
  · next heq =>
    obtain ⟨-, hrest⟩ := List.cons.inj heq
    exact absurd (List.cons.inj hrest).1 h
  · next heq =>
    obtain ⟨-, hrest⟩ := List.cons.inj heq
    obtain ⟨hd, hrest⟩ := List.cons.inj hrest
    exact absurd ⟨hd, (List.cons.inj hrest).1⟩ h'
  · rfl

theorem continuation?_lineFeed (t : Text) : continuation? (10 :: t) = none := by
  have hbackslash : (10 : UInt8) ≠ ascii '\\' := by decide
  unfold continuation?
  split
  · next heq =>
    obtain ⟨rfl, -⟩ := List.cons.inj heq
    exact if_neg hbackslash
  · next heq =>
    obtain ⟨rfl, -⟩ := List.cons.inj heq
    exact if_neg hbackslash
  · rfl

/-- Whole lines hold the line end behind a backslash, if there is one. -/
theorem continuation?_append {t : Text} (h : t.WholeLines) (hne : t ≠ []) (c : Text) :
    continuation? (t ++ c) = continuation? t := by
  rcases t with _ | ⟨b, _ | ⟨d, _ | ⟨e, t⟩⟩⟩
  · exact absurd rfl hne
  · obtain rfl : b = 10 := h b rfl
    exact (continuation?_lineFeed c).trans (continuation?_lineFeed []).symm
  · obtain rfl : d = 10 := h d rfl
    rfl
  · by_cases hd : d = 10
    · subst hd
      rfl
    · by_cases hreturn : d = 13 ∧ e = 10
      · obtain ⟨rfl, rfl⟩ := hreturn
        rfl
      · exact (continuation?_cons_cons hd hreturn b (t ++ c)).trans
          (continuation?_cons_cons hd hreturn b t).symm

theorem closeIndents_extend (col : Nat) (indents : List Nat) (c : Text) :
    closeIndents col indents (extend c s) =
      ((closeIndents col indents s).1, extend c (closeIndents col indents s).2) := by
  induction indents generalizing s with
  | nil => rfl
  | cons top below ih =>
    rw [closeIndents, closeIndents]
    split
    · exact ih (s := s.push (s.emptyToken .dedent))
    · rfl

theorem indentTo_extend (col : Nat) (c : Text) :
    indentTo col (extend c s) = extend c (indentTo col s) := by
  simp only [indentTo, indents_extend, closeIndents_extend]
  by_cases hopen : s.indents.headD 0 < col
  · simp only [if_pos hopen]
    rfl
  · simp only [if_neg hopen]
    by_cases hcol : (closeIndents col s.indents s).1.headD 0 = col
    · simp only [if_pos hcol]
      rfl
    · simp only [if_neg hcol]
      rfl

theorem lineFeed_extend {t : Text} (h : s.rest = 10 :: t) (c : Text) :
    (extend c s).lineFeed = extend c s.lineFeed := by
  have hle : 1 ≤ s.rest.length := by rw [h]; exact Nat.succ_pos _
  have hembedded : (extend c s).embedded = s.embedded := rfl
  have htokens : (extend c s).lineHasTokens = s.lineHasTokens := rfl
  simp only [lineFeed, advance_extend hle, brackets_extend, hembedded, htokens]
  cases s.brackets.isEmpty && !s.embedded with
  | false => rfl
  | true => cases s.lineHasTokens <;> rfl

theorem lt_of_drop {t : Text} {n : Nat} (h : t.drop n ≠ []) : n < t.length := by
  by_contra hle
  exact h (List.drop_eq_nil_iff.mpr (Nat.not_lt.mp hle))

theorem number_extend (hlines : s.rest.WholeLines) (h : s.number.rest ≠ []) (c : Text) :
    (extend c s).number = extend c s.number := by
  have hlt : (Number.scan s.rest).length < s.rest.length := by
    unfold number at h
    dsimp only at h
    split at h
    · exact lt_of_drop h
    · exact lt_of_drop h
  have hle := Nat.le_of_lt hlt
  simp only [number, rest_extend, Number.scan_append hlines hlt, List.take_append_of_le_length hle]
  split
  · exact take_extend (s := s.report _ _ _) hle c _
  · exact take_extend hle c _

theorem string_extend {letters : Nat} {quote : UInt8} {t : Text} (hlines : s.rest.WholeLines)
    (hdrop : s.rest.drop letters = quote :: t) (hquote : quote ≠ 10)
    (h : (s.string letters).rest ≠ []) (c : Text) :
    (extend c s).string letters = extend c (s.string letters) := by
  have hletters : letters ≤ s.rest.length := by
    have := congrArg List.length hdrop
    simp only [List.length_drop, List.length_cons] at this
    omega
  have hmem : 10 ∈ quote :: t := hdrop ▸ (hlines.drop letters).mem (by simp [hdrop])
  have hquotes : (10 : UInt8) ∉ [quote, quote, quote] := by simpa using Ne.symm hquote
  have htriple : Text.startsWith (quote :: (t ++ c)) [quote, quote, quote] =
      Text.startsWith (quote :: t) [quote, quote, quote] := startsWith_append_of_mem hmem hquotes c
  have hsplit : (s.rest ++ c).drop letters = quote :: (t ++ c) := by
    rw [List.drop_append_of_le_length hletters, hdrop]
    rfl
  unfold string at h ⊢
  simp only [rest_extend, hsplit, hdrop, htriple, List.headD_cons] at h ⊢
  have hwidth : (if Text.startsWith (quote :: t) [quote, quote, quote] then 3 else 1) ≤
      (quote :: t).length := by
    split
    · next hstart => exact (Text.startsWith_iff.mp hstart).length_le
    · exact Nat.succ_pos _
  generalize Text.startsWith (quote :: t) [quote, quote, quote] = triple at h hwidth ⊢
  generalize (if triple then 3 else 1) = width at h hwidth ⊢
  have htake : (quote :: (t ++ c)).take width = (quote :: t).take width := by
    rw [← List.cons_append]
    exact List.take_append_of_le_length hwidth
  have hopener : ((quote :: t).take width).length = width := List.length_take_of_le hwidth
  have hbody : (quote :: (t ++ c)).drop width = (quote :: t).drop width ++ c := by
    rw [← List.cons_append]
    exact List.drop_append_of_le_length hwidth
  simp only [htake, hopener, hbody] at h ⊢
  have hwhole : WholeLines ((quote :: t).drop width) := (hdrop ▸ hlines.drop letters).drop width
  have hlt : letters + width + (stringBody quote triple 0 ((quote :: t).drop width)).1 <
      s.rest.length := by
    split at h
    · exact lt_of_drop h
    · exact lt_of_drop h
  have hends : (stringBody quote triple 0 ((quote :: t).drop width)).1 <
      0 + ((quote :: t).drop width).length := by
    have := congrArg List.length hdrop
    simp only [List.length_drop] at this ⊢
    omega
  have hfound := stringBody_append hquote triple 0 hwhole hends c
  simp only [hfound]
  split
  · exact take_extend (Nat.le_of_lt hlt) c _
  · exact take_extend (s := s.report _ _ _) (Nat.le_of_lt hlt) c _

theorem mem_drop_takeWhile {p : UInt8 → Bool} {b : UInt8} (hb : p b = false) {t : Text}
    (h : b ∈ t) : b ∈ t.drop (t.takeWhile p).length := by
  have hsplit := List.takeWhile_append_dropWhile (p := p) (l := t)
  rw [← hsplit, List.mem_append] at h
  have hdrop : t.drop (t.takeWhile p).length = t.dropWhile p := by
    conv => lhs; arg 2; rw [← hsplit]
    rw [List.drop_left]
  rw [hdrop]
  refine h.resolve_left fun hmem => ?_
  rw [List.mem_takeWhile_imp hmem] at hb
  nomatch hb

theorem word_extend {b : UInt8} {t : Text} (hlines : s.rest.WholeLines)
    (hrest : s.rest = b :: t) (h : s.word.rest ≠ []) (c : Text) :
    (extend c s).word = extend c s.word := by
  have hmem : 10 ∈ s.rest := hlines.mem (by simp [hrest])
  have hle : (s.rest.takeWhile isIdentPart).length ≤ s.rest.length :=
    (List.takeWhile_sublist _).length_le
  have hbehind := mem_drop_takeWhile (p := isIdentPart) (by decide) hmem
  unfold word at h ⊢
  simp only [rest_extend, takeWhile_append_of_mem (p := isIdentPart) (by decide) hmem,
    List.drop_append_of_le_length hle, head?_append_of_mem hbehind] at h ⊢
  split
  · next hquoted =>
    rw [if_pos hquoted] at h
    rw [Bool.and_eq_true] at hquoted
    obtain ⟨q, hq, hquote⟩ := (Option.any_eq_true _ _).mp hquoted.1
    obtain ⟨u, hu⟩ := List.head?_eq_some_iff.mp hq
    refine string_extend hlines hu ?_ h c
    rintro rfl
    exact absurd hquote (by decide)
  · exact take_extend hle c _

/-- No sign holds a line feed. -/
theorem lineFeed_not_mem_sign : ∀ e ∈ Kind.signTable, 10 ∉ e.1 := by decide +kernel

theorem sign_extend {b : UInt8} {t : Text} (hlines : s.rest.WholeLines) (hrest : s.rest = b :: t)
    (hb : b ≠ 10) (c : Text) : (extend c s).sign = extend c s.sign := by
  have hmem : 10 ∈ s.rest := hlines.mem (by simp [hrest])
  have hsign : Kind.sign? (s.rest ++ c) = Kind.sign? s.rest := by
    unfold Kind.sign?
    refine List.find?_congr fun e he => ?_
    exact startsWith_append_of_mem hmem (lineFeed_not_mem_sign e he) c
  have htail : 10 ∈ t := WholeLines.mem_tail (hrest ▸ hlines) hb
  unfold sign
  simp only [rest_extend, hsign]
  cases hfound : Kind.sign? s.rest with
  | none =>
    have hcontinues : ((s.rest ++ c).drop 1).takeWhile Utf8.isContinuation =
        (s.rest.drop 1).takeWhile Utf8.isContinuation := by
      rw [hrest]
      exact takeWhile_append_of_mem (by decide) htail c
    have hle : 1 + ((s.rest.drop 1).takeWhile Utf8.isContinuation).length ≤ s.rest.length := by
      have := (List.takeWhile_sublist Utf8.isContinuation (l := t)).length_le
      rw [hrest]
      simp only [List.drop_one, List.tail_cons, List.length_cons]
      omega
    simp only [hcontinues, tokenOf_extend hle, take_extend hle, track_extend]
  | some found =>
    have hle := (sign?_kind hfound).1.length_le
    simp only [tokenOf_extend hle, take_extend hle, track_extend]

/-- An item that leaves some of the whole lines unread, or ends one, is read in the same way with a
text behind them. -/
theorem item_extend {b : UInt8} {t : Text} (hlines : s.rest.WholeLines) (hrest : s.rest = b :: t)
    (h : b ≠ 10 → (s.item b).rest ≠ []) (c : Text) :
    (extend c s).item b = extend c (s.item b) := by
  by_cases hfeed : b = 10
  · subst hfeed
    exact lineFeed_extend hrest c
  specialize h hfeed
  have hone : 1 ≤ s.rest.length := by rw [hrest]; exact Nat.succ_pos _
  have hnext : ((s.rest ++ c).drop 1).head? = (s.rest.drop 1).head? := by
    rw [hrest]
    exact head?_append_of_mem (WholeLines.mem_tail (hrest ▸ hlines) hfeed) c
  have hne : s.rest ≠ [] := by simp [hrest]
  have hline : toLineEnd (s.rest ++ c) = toLineEnd s.rest := by
    rw [toLineEnd, toLineEnd, takeWhile_append_of_mem (by decide) (hlines.mem hne)]
  unfold item at h ⊢
  simp only [rest_extend, hnext, hline, continuation?_append hlines hne, if_neg hfeed] at h ⊢
  split
  · exact advance_extend hone c
  next hblank =>
  rw [if_neg hblank] at h
  split
  · exact advance_extend (List.takeWhile_sublist _).length_le c
  next hmark =>
  rw [if_neg hmark] at h
  split
  · cases hcontinues : continuation? s.rest with
    | none => exact advance_extend (s := s.report _ _ _) hone c
    | some n =>
      obtain ⟨u, r, hu, rfl, -⟩ := gap_continuation hcontinues
      exact advance_extend (by rw [hu]; simp) c
  next hbackslash =>
  rw [if_neg hbackslash] at h
  split
  · next hnumber =>
    rw [if_pos hnumber] at h
    exact number_extend hlines h c
  next hnumber =>
  rw [if_neg hnumber] at h
  split
  · next hstart =>
    rw [if_pos hstart] at h
    exact word_extend hlines hrest h c
  next hstart =>
  rw [if_neg hstart] at h
  split
  · next hquote =>
    rw [if_pos hquote] at h
    have hdrop : s.rest.drop 0 = b :: t := hrest
    exact string_extend hlines hdrop hfeed h c
  · exact sign_extend hlines hrest hfeed c

theorem column_append {t : Text} (h : 10 ∈ t) (col : Nat) (c : Text) :
    column col (t ++ c) = column col t := by
  induction t generalizing col with
  | nil => exact absurd h List.not_mem_nil
  | cons b t ih =>
    rw [List.cons_append]
    by_cases hfeed : b = 10
    · subst hfeed
      rfl
    · have hmem : 10 ∈ t := (List.mem_cons.mp h).resolve_left (Ne.symm hfeed)
      simp only [column, ih hmem]

/-- The start of a line with more text behind the whole lines. -/
def LineStart.extend (c : Text) : LineStart → LineStart
  | .skipped s => .skipped (Lexer.extend c s)
  | .content s => .content (Lexer.extend c s)

/-- The lexer behind the comment that is next, if there is one. -/
def skipComment (s : Lexer) : Lexer :=
  if s.rest.head? = some (ascii '#') then s.advance (toLineEnd s.rest) else s

theorem lineStart_eq (s : Lexer) : s.lineStart =
    let s₁ := s.advance (s.rest.takeWhile isBlank).length
    let s₂ := s₁.skipComment
    if s₁.rest.isEmpty then .skipped s₁
    else if s₂.rest.head? = some 10 then .skipped (s₂.advance 1)
    else
      match continuation? s₂.rest with
      | some n => .skipped (s₂.advance n)
      | none => .content (indentTo (column 0 s.rest) { s₂ with atLineStart := false }) :=
  rfl

theorem skipComment_extend (h : 10 ∈ s.rest) (c : Text) :
    (extend c s).skipComment = extend c s.skipComment := by
  have hend : toLineEnd (s.rest ++ c) = toLineEnd s.rest := by
    rw [toLineEnd, toLineEnd, takeWhile_append_of_mem (by decide) h]
  rw [skipComment, skipComment, rest_extend, head?_append_of_mem h, hend]
  split
  · exact advance_extend (List.takeWhile_sublist _).length_le c
  · rfl

/-- A comment does not take the end of its line. -/
theorem mem_skipComment (h : 10 ∈ s.rest) : 10 ∈ s.skipComment.rest := by
  unfold skipComment
  split
  · exact mem_drop_takeWhile (by decide) h
  · exact h

theorem wholeLines_skipComment (h : s.rest.WholeLines) : s.skipComment.rest.WholeLines := by
  unfold skipComment
  split
  · exact h.drop _
  · exact h

theorem lineStart_extend (hlines : s.rest.WholeLines) (hne : s.rest ≠ []) (c : Text) :
    (extend c s).lineStart = s.lineStart.extend c := by
  have hmem := hlines.mem hne
  have hblanks : (s.rest.takeWhile isBlank).length ≤ s.rest.length :=
    (List.takeWhile_sublist _).length_le
  rw [lineStart_eq, lineStart_eq]
  simp only [rest_extend, column_append hmem, advance_extend hblanks,
    takeWhile_append_of_mem (p := isBlank) (by decide) hmem]
  have hlines₁ : (s.advance (s.rest.takeWhile isBlank).length).rest.WholeLines := hlines.drop _
  have hmem₁ : 10 ∈ (s.advance (s.rest.takeWhile isBlank).length).rest :=
    mem_drop_takeWhile (by decide) hmem
  generalize s.advance (s.rest.takeWhile isBlank).length = s₁ at hlines₁ hmem₁ ⊢
  have hmore : (s₁.rest ++ c).isEmpty = false ∧ s₁.rest.isEmpty = false := by
    cases hs₁ : s₁.rest with
    | nil => exact absurd (hs₁ ▸ hmem₁) List.not_mem_nil
    | cons => exact ⟨rfl, rfl⟩
  have hlines₂ := wholeLines_skipComment hlines₁
  have hmem₂ := mem_skipComment hmem₁
  simp only [skipComment_extend hmem₁, hmore.1, hmore.2, Bool.false_eq_true, if_false]
  generalize s₁.skipComment = s₂ at hlines₂ hmem₂ ⊢
  have hone : 1 ≤ s₂.rest.length := List.length_pos_of_mem hmem₂
  simp only [rest_extend, head?_append_of_mem hmem₂,
    continuation?_append hlines₂ (List.ne_nil_of_mem hmem₂)]
  split
  · rw [advance_extend hone]
    rfl
  · cases hcontinues : continuation? s₂.rest with
    | none =>
      have hindents := indentTo_extend (s := { s₂ with atLineStart := false }) (column 0 s.rest) c
      exact congrArg LineStart.content hindents
    | some n =>
      obtain ⟨u, r, hu, rfl, -⟩ := gap_continuation hcontinues
      exact congrArg LineStart.skipped (advance_extend (by rw [hu]; simp) c)

theorem readItem_extend (hlines : s.rest.WholeLines) (hne : s.rest ≠ [])
    (h : s.readItem.1.rest ≠ [] ∨ s.readItem.1.atLineStart = true) (hstart : s.atLineStart = false)
    (c : Text) : (extend c s).readItem = (extend c s.readItem.1, true) := by
  obtain ⟨b, t, hrest⟩ := List.exists_cons_of_ne_nil hne
  have hread : s.readItem = (s.item b, true) := by simp [readItem, hrest]
  have hread' : (extend c s).readItem = ((extend c s).item b, true) := by
    simp [readItem, hrest]
  rw [hread] at h ⊢
  rw [hread', item_extend hlines hrest (fun hfeed => ?_) c]
  refine h.resolve_right fun hline => ?_
  have hsame : (s.item b).atLineStart = s.atLineStart := by
    by_cases hstarts : Starts b
    · obtain ⟨-, -, -, hsame⟩ := puts_item (s := s) hstarts
      exact hsame
    · exact (item_stays hstarts hfeed).2
  rw [hsame, hstart] at hline
  exact Bool.false_ne_true hline

/-- A step within whole lines is the same with more text behind them, unless it reads up to their
end without ending a line. -/
theorem step_extend (hlines : s.rest.WholeLines) (hne : s.rest ≠ [])
    (hrests : s.atLineStart = true → s.brackets = [])
    (h : s.step.1.rest ≠ [] ∨ s.step.1.atLineStart = true) {c : Text} (hc : c ≠ []) :
    (extend c s).step = (extend c s.step.1, true) := by
  have hstep := step_eq s
  have hstep' := step_eq (extend c s)
  cases hline : s.atLineStart with
  | false =>
    simp only [atLineStart_extend, hline, Bool.false_and, Bool.false_eq_true, if_false]
      at hstep hstep'
    rw [hstep] at h ⊢
    rw [hstep']
    exact readItem_extend hlines hne h hline c
  | true =>
    simp only [atLineStart_extend, brackets_extend, hline, hrests hline, List.isEmpty_nil,
      Bool.and_self, if_true, lineStart_extend hlines hne] at hstep hstep'
    cases hstart : s.lineStart with
    | skipped s' =>
      simp only [hstart] at hstep hstep'
      rw [hstep, hstep']
      simp [LineStart.extend, hc]
    | content s' =>
      have hsuffix : s'.rest <:+ s.rest := by
        have hmoves := (moves_lineStart s).1
        rw [hstart] at hmoves
        exact suffix_of_moves hmoves
      have hcontent : s'.rest ≠ [] ∧ s'.atLineStart = false := by
        have hleads := lineLeads s
        rw [hstart] at hleads
        cases hleads with
        | comment col _ _ hnofeed _ => exact absurd (hlines.mem hne) hnofeed
        | content col _ hfalse hrest _ =>
          obtain ⟨hsame, hsame'⟩ := indentTo_stays col ‹Lexer›
          exact ⟨by rw [hsame, hrest]; simp, hsame'.trans hfalse⟩
      simp only [hstart] at hstep hstep'
      rw [hstep] at h ⊢
      rw [hstep']
      exact readItem_extend (hlines.of_suffix hsuffix) hcontent.1 h hcontent.2 c

end Lexer

end Token
end CloneScout
