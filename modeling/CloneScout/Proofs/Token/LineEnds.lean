import CloneScout.Proofs.Text.Returns
import CloneScout.Proofs.Token.Extension

/-!
# Texts of tokens with carriage returns

Only a string reaches behind the end of a line. So every other token, and where a line is continued,
stays the same when a carriage return is put in front of every line feed. A string stays a string,
unless it is in single quotes and goes on behind a line feed: a backslash in front of a carriage
return takes only that byte with it, and the line feed ends the string.
-/

namespace CloneScout

open Text (crlf Returned crlf_cons crlf_of_not_mem)

namespace Token

/-! ## Line ends -/

/-- The text is empty or starts with a line feed or a carriage return. -/
def AtLineEnd (r : Text) : Prop := ∀ b ∈ r.head?, b = 10 ∨ b = 13

section

variable {r : Text} (hr : AtLineEnd r) {p : UInt8 → Bool}

include hr

theorem AtLineEnd.eq_false (hfeed : p 10 = false) (hreturn : p 13 = false) :
    r.head?.any p = false := by
  cases r with
  | nil => rfl
  | cons b r =>
    rcases hr b rfl with rfl | rfl
    · exact hfeed
    · exact hreturn

theorem AtLineEnd.takeWhile (hfeed : p 10 = false) (hreturn : p 13 = false) (t : Text) :
    (t ++ r).takeWhile p = t.takeWhile p := by
  have hnone : r.takeWhile p = [] := by
    have hhead := hr.eq_false hfeed hreturn
    cases r with
    | nil => rfl
    | cons b r => exact List.takeWhile_cons_of_neg (by simpa using hhead)
  rw [List.takeWhile_append]
  split
  · next hall =>
    rw [hnone, List.append_nil]
    exact ((List.takeWhile_sublist p).eq_of_length hall).symm
  · rfl

theorem AtLineEnd.head? (hfeed : p 10 = false) (hreturn : p 13 = false) (t : Text) :
    (t ++ r).head?.any p = t.head?.any p := by
  cases t with
  | nil => exact hr.eq_false hfeed hreturn
  | cons b t => rfl

end

namespace Number

variable {r : Text} {isDigit : UInt8 → Bool}

/-! ### Numbers in front of a line end -/

theorem run_lineEnd (hr : AtLineEnd r) (hfeed : isDigit 10 = false) (hreturn : isDigit 13 = false)
    (afterUnderscore : Bool) (t : Text) :
    run isDigit afterUnderscore (t ++ r) = run isDigit afterUnderscore t := by
  fun_induction run isDigit afterUnderscore t with
  | case1 afterUnderscore =>
    cases r with
    | nil => rfl
    | cons b r =>
      have hb : b ≠ ascii '_' ∧ isDigit b = false := by
        rcases hr b rfl with rfl | rfl
        · exact ⟨by decide, hfeed⟩
        · exact ⟨by decide, hreturn⟩
      rw [List.nil_append, run, if_neg hb.1, if_neg (by simp [hb.2])]
  | case2 afterUnderscore t r ih => rw [List.cons_append, run, if_pos rfl, ih]
  | case3 afterUnderscore b t hb hdigit r ih =>
    rw [List.cons_append, run, if_neg hb, if_pos hdigit, ih]
  | case4 afterUnderscore b t hb hdigit => rw [List.cons_append, run, if_neg hb, if_neg hdigit]

theorem digits_lineEnd (hr : AtLineEnd r) (hfeed : isDigit 10 = false) (hreturn : isDigit 13 = false)
    (t : Text) : digits isDigit (t ++ r) = digits isDigit t := by
  rw [digits, digits, run_lineEnd hr hfeed hreturn]

theorem fraction?_lineEnd (hr : AtLineEnd r) (n : Nat) (t : Text) :
    fraction? n (t ++ r) = fraction? n t := by
  cases t with
  | nil =>
    cases r with
    | nil => rfl
    | cons b r =>
      have hb : b ≠ ascii '.' := by rcases hr b rfl with rfl | rfl <;> decide
      simp [fraction?, hb]
  | cons b t =>
    rw [List.cons_append, fraction?, fraction?, hr.head? (by decide) (by decide),
      digits_lineEnd hr (by decide) (by decide)]

theorem exponent?_lineEnd (hr : AtLineEnd r) (t : Text) : exponent? (t ++ r) = exponent? t := by
  have hletter {b : UInt8} (hb : b = 10 ∨ b = 13) : Text.toLower b ≠ ascii 'e' := by
    rcases hb with rfl | rfl <;> decide
  rcases t with _ | ⟨mark, _ | ⟨b, t⟩⟩
  · cases r with
    | nil => rfl
    | cons b r => simp [exponent?, hletter (hr b rfl)]
  · cases r with
    | nil => rfl
    | cons b r =>
      have hb : Text.isDigit b = false ∧ b ≠ ascii '+' ∧ b ≠ ascii '-' := by
        rcases hr b rfl with rfl | rfl <;> decide
      simp [exponent?, hb]
  · simp only [List.cons_append, exponent?]
    rw [← List.cons_append, digits_lineEnd hr (by decide) (by decide),
      hr.head? (by decide) (by decide), digits_lineEnd hr (by decide) (by decide)]

theorem decimal_lineEnd (hr : AtLineEnd r) (t : Text) : decimal (t ++ r) = decimal t := by
  unfold decimal
  dsimp only
  -- Each part ends within `t`, so the next one is read with the line end still behind its text.
  rw [digits_lineEnd hr (by decide) (by decide)]
  have hwhole := (prefix_text_digits Text.isDigit t).length_le
  generalize digits Text.isDigit t = whole at hwhole ⊢
  rw [List.drop_append_of_le_length hwhole]
  generalize t.drop whole.text.length = t₁
  rw [fraction?_lineEnd hr]
  have hpoint := (prefix_text_fraction? whole.digits t₁).length_le
  generalize fraction? whole.digits t₁ = fraction at hpoint ⊢
  rw [List.drop_append_of_le_length hpoint]
  generalize t₁.drop (fraction.elim [] Run.text).length = t₂
  rw [exponent?_lineEnd hr]
  have hpower := (prefix_text_exponent? t₂).length_le
  generalize exponent? t₂ = exponent at hpower ⊢
  rw [List.drop_append_of_le_length hpower, hr.head? (by decide) (by decide)]

theorem based_lineEnd (hr : AtLineEnd r) (hfeed : isDigit 10 = false) (hreturn : isDigit 13 = false)
    (t : Text) : based isDigit (t ++ r) = based isDigit t := by
  have hdigits := digits_lineEnd hr hfeed hreturn
  have hmark : ((t ++ r).head? = some (ascii '_')) = (t.head? = some (ascii '_')) := by
    cases t with
    | nil =>
      cases r with
      | nil => rfl
      | cons b r =>
        have hb : b ≠ ascii '_' := by rcases hr b rfl with rfl | rfl <;> decide
        simp [hb]
    | cons b t => rfl
  unfold based
  dsimp only
  simp only [hmark]
  split
  · next hunderscore =>
    obtain ⟨u, rfl⟩ := List.head?_eq_some_iff.mp hunderscore
    rw [List.cons_append, List.drop_one, List.drop_one, List.tail_cons, List.tail_cons, hdigits]
  · rw [List.drop_zero, List.drop_zero, hdigits]

/-- A base mark asks for digits of three kinds. -/
theorem digitsOfMark?_cases {mark : UInt8} (h : digitsOfMark? mark = some isDigit) :
    isDigit = isHex ∨ isDigit = isOctal ∨ isDigit = isBinary := by
  unfold digitsOfMark? at h
  dsimp only at h
  split at h
  · exact .inl (Option.some.inj h).symm
  split at h
  · exact .inr (.inl (Option.some.inj h).symm)
  split at h
  · exact .inr (.inr (Option.some.inj h).symm)
  · cases h

theorem bare_lineEnd (hr : AtLineEnd r) (t : Text) : bare (t ++ r) = bare t := by
  have hdecimal := decimal_lineEnd hr
  rcases t with _ | ⟨zero, _ | ⟨mark, t⟩⟩
  · rcases r with _ | ⟨b, _ | ⟨m, r⟩⟩
    · rfl
    · exact hdecimal []
    · have hb : b ≠ ascii '0' := by rcases hr b rfl with rfl | rfl <;> decide
      simp only [List.nil_append, bare, if_neg hb] at hdecimal ⊢
      split
      · exact hdecimal []
      · exact hdecimal []
  · rcases r with _ | ⟨b, r⟩
    · rfl
    · have hb : digitsOfMark? b = none := by exact (hr b rfl).elim (· ▸ rfl) (· ▸ rfl)
      simp only [List.cons_append, List.nil_append, bare, hb]
      exact hdecimal [zero]
  · simp only [List.cons_append, bare]
    have hwhole := hdecimal (zero :: mark :: t)
    rw [List.cons_append, List.cons_append] at hwhole
    cases hmark : digitsOfMark? mark with
    | none => exact hwhole
    | some isDigit =>
      have hdigit : isDigit 10 = false ∧ isDigit 13 = false := by
        rcases digitsOfMark?_cases hmark with rfl | rfl | rfl <;> decide
      simp only [hwhole, based_lineEnd hr hdigit.1 hdigit.2]

theorem length_bare_le (t : Text) : (bare t).length ≤ t.length :=
  (Nat.le_add_right _ _).trans (length_scan_le t)

/-- A number is the same with a line end behind the text. -/
theorem scan_lineEnd (hr : AtLineEnd r) (t : Text) : scan (t ++ r) = scan t := by
  unfold scan
  dsimp only
  rw [bare_lineEnd hr, List.drop_append_of_le_length (length_bare_le t),
    hr.takeWhile (by decide) (by decide)]

end Number

/-! ## The line of a text -/

theorem take_length_takeWhile (p : UInt8 → Bool) (t : Text) :
    t.take (t.takeWhile p).length = t.takeWhile p := by
  conv => lhs; arg 2; rw [← List.takeWhile_append_dropWhile (p := p) (l := t)]
  rw [List.take_left]

theorem drop_length_takeWhile (p : UInt8 → Bool) (t : Text) :
    t.drop (t.takeWhile p).length = t.dropWhile p := by
  conv => lhs; arg 2; rw [← List.takeWhile_append_dropWhile (p := p) (l := t)]
  rw [List.drop_left]

/-- A text up to its first line end. -/
theorem exists_line (t : Text) : ∃ u r, t = u ++ r ∧ crlf t = u ++ crlf r ∧ 10 ∉ u ∧
    AtLineEnd r ∧ AtLineEnd (crlf r) := by
  refine ⟨t.takeWhile (· ≠ 10), t.dropWhile (· ≠ 10), List.takeWhile_append_dropWhile.symm,
    ?_, ?_, ?_⟩
  · conv => lhs; rw [← List.takeWhile_append_dropWhile (p := (· ≠ 10)) (l := t), Text.crlf_append]
    rw [crlf_of_not_mem fun hmem => by simpa using List.mem_takeWhile_imp hmem]
  · exact fun hmem => by simpa using List.mem_takeWhile_imp hmem
  · have hnot := List.head?_dropWhile_not (· ≠ (10 : UInt8)) t
    cases hr : t.dropWhile (· ≠ 10) with
    | nil => exact ⟨fun b hb => absurd hb (by simp), fun b hb => absurd hb (by simp)⟩
    | cons b r =>
      rw [hr, List.head?_cons] at hnot
      obtain rfl : b = 10 := by simpa using hnot
      exact ⟨fun b hb => .inl (Option.some.inj hb).symm, fun b hb => .inr (Option.some.inj hb).symm⟩

theorem takeWhile_crlf {p : UInt8 → Bool} (hfeed : p 10 = false) (hreturn : p 13 = false)
    (t : Text) : (crlf t).takeWhile p = t.takeWhile p := by
  obtain ⟨u, r, rfl, hcrlf, -, hr, hr'⟩ := exists_line t
  rw [hcrlf, hr.takeWhile hfeed hreturn, hr'.takeWhile hfeed hreturn]

theorem head?_crlf {p : UInt8 → Bool} (hfeed : p 10 = false) (hreturn : p 13 = false) (t : Text) :
    (crlf t).head?.any p = t.head?.any p := by
  obtain ⟨u, r, rfl, hcrlf, -, hr, hr'⟩ := exists_line t
  rw [hcrlf, hr.head? hfeed hreturn, hr'.head? hfeed hreturn]

theorem scan_crlf (t : Text) : Number.scan (crlf t) = Number.scan t := by
  obtain ⟨u, r, rfl, hcrlf, -, hr, hr'⟩ := exists_line t
  rw [hcrlf, Number.scan_lineEnd hr, Number.scan_lineEnd hr']

/-- A number does not reach behind its line. -/
theorem not_mem_scan (t : Text) : 10 ∉ t.take (Number.scan t).length := by
  obtain ⟨u, r, rfl, -, hu, hr, -⟩ := exists_line t
  rw [Number.scan_lineEnd hr, List.take_append_of_le_length (Number.length_scan_le u)]
  exact fun hmem => hu (List.mem_of_mem_take hmem)

namespace Lexer

/-! ## Strings -/

/-- The first `k` bytes of a text close a string. With carriage returns in the text they still do,
unless the string is in single quotes and goes on behind a line feed: then it is not closed. -/
structure Body (quote : UInt8) (triple : Bool) (read : Nat) (t : Text) (k : Nat) : Prop where
  closed (h : triple = true ∨ 10 ∉ t.take k) :
    stringBody quote triple read (crlf t) = (read + (crlf (t.take k)).length, true)
  broken (h : triple = false) (hfeed : 10 ∈ t.take k) :
    (stringBody quote triple read (crlf t)).2 = false

/-- Bytes in front that the string takes. -/
theorem Body.behind {quote : UInt8} {triple : Bool} {read k : Nat} {u t : Text}
    (hu : triple = true ∨ 10 ∉ u)
    (htakes : stringBody quote triple read (crlf (u ++ t)) =
      stringBody quote triple (read + (crlf u).length) (crlf t))
    (h : Body quote triple (read + (crlf u).length) t k) :
    Body quote triple read (u ++ t) (u.length + k) := by
  have htake : (u ++ t).take (u.length + k) = u ++ t.take k := List.take_length_add_append k
  refine ⟨fun hone => ?_, fun hsingle hfeed => ?_⟩
  · rw [htakes, h.closed (hone.imp_right fun hnot hmem => hnot ?_), htake, Text.crlf_append,
      List.length_append, Nat.add_assoc]
    rw [htake]
    exact List.mem_append_right u hmem
  · rw [htake, List.mem_append] at hfeed
    have hnot : 10 ∉ u := hu.resolve_left (by simp [hsingle])
    rw [htakes, h.broken hsingle (hfeed.resolve_left hnot)]

/-- A string that is closed reaches as far with carriage returns in it. In single quotes it must not
go on behind a line feed: the backslash in front takes only the carriage return with it, and the
line feed ends the string. -/
theorem body_of_stringBody {quote : UInt8} (hquote : isQuote quote = true) {triple : Bool}
    {read n : Nat} {t : Text} (h : stringBody quote triple read t = (n, true)) (read' : Nat) :
    ∃ k, n = read + k ∧ k ≤ t.length ∧ Body quote triple read' t k := by
  have hfeed : (10 : UInt8) ≠ quote := by rintro rfl; exact absurd hquote (by decide)
  have hreturn : (13 : UInt8) ≠ quote := by rintro rfl; exact absurd hquote (by decide)
  have hslash : (10 : UInt8) ≠ ascii '\\' ∧ (13 : UInt8) ≠ ascii '\\' := by decide
  have hnot {b : UInt8} (hb : b ≠ 10) : 10 ∉ [b] := fun hmem => hb (List.mem_singleton.mp hmem).symm
  have htakes (read : Nat) (c : UInt8) (t : Text) :
      stringBody quote triple read (ascii '\\' :: c :: t) = stringBody quote triple (read + 2) t := by
    rw [stringBody, if_pos rfl]
  -- Only a backslash takes the next byte unseen, so only there the two texts may part.
  fun_induction stringBody quote triple read t generalizing read' with
  | case1 => exact absurd (congrArg Prod.snd h) Bool.false_ne_true
  | case2 => exact absurd (congrArg Prod.snd h) Bool.false_ne_true
  | case3 read c t ih =>
    obtain ⟨k, rfl, hk, hbody⟩ := ih h (read' + (crlf [ascii '\\', c]).length)
    refine ⟨2 + k, by omega, by simp only [List.length_cons]; omega, ?_⟩
    by_cases hc : c = 10
    · subst hc
      have hcrlf : crlf (ascii '\\' :: 10 :: t) = ascii '\\' :: 13 :: 10 :: crlf t := rfl
      cases triple with
      | false =>
        -- the line feed behind the carriage return ends the string
        have htake : (ascii '\\' :: 10 :: t).take (2 + k) = ascii '\\' :: 10 :: t.take k := by
          rw [Nat.add_comm]
          rfl
        refine ⟨fun hone => ?_, fun _ _ => ?_⟩
        · rw [htake] at hone
          simp at hone
        · rw [hcrlf, htakes, stringBody_cons hslash.1]
          rfl
      | true =>
        refine .behind (u := [ascii '\\', 10]) (.inl rfl) ?_ hbody
        show stringBody quote true read' (crlf (ascii '\\' :: 10 :: t)) = _
        rw [hcrlf, htakes, stringBody_cons hslash.1, if_neg (by decide), if_pos hfeed]
        rfl
    · have hu : 10 ∉ [ascii '\\', c] := by simpa using ⟨hslash.1, Ne.symm hc⟩
      refine .behind (u := [ascii '\\', c]) (.inr hu) ?_ hbody
      show stringBody quote triple read' (crlf (ascii '\\' :: c :: t)) = _
      rw [crlf_cons (Ne.symm hslash.1), crlf_cons hc, htakes, crlf_of_not_mem hu]
      rfl
  | case4 => exact absurd (congrArg Prod.snd h) Bool.false_ne_true
  | case5 read b t hb hend hne ih =>
    obtain ⟨k, rfl, hk, hbody⟩ := ih h (read' + (crlf [b]).length)
    refine ⟨1 + k, by omega, by simp only [List.length_cons]; omega, ?_⟩
    by_cases hc : b = 10
    · subst hc
      have htriple : triple = true := by simpa using hend
      refine .behind (u := [10]) (.inl htriple) ?_ hbody
      subst htriple
      show stringBody quote true read' (13 :: 10 :: crlf t) = _
      rw [stringBody_cons hslash.2, if_neg (by decide), if_pos hreturn, stringBody_cons hslash.1,
        if_neg (by decide), if_pos hfeed]
      rfl
    · refine .behind (u := [b]) (.inr (hnot hc)) ?_ hbody
      show stringBody quote triple read' (crlf (b :: t)) = _
      rw [crlf_cons hc, stringBody_cons hb, if_neg hend, if_pos hne, crlf_of_not_mem (hnot hc)]
      rfl
  | case6 read b t hb hend hsame hsingle =>
    obtain rfl := Decidable.of_not_not hsame
    have htake : (b :: t).take 1 = [b] := rfl
    refine ⟨1, (congrArg Prod.fst h).symm, by simp, fun _ => ?_, fun _ hmem => ?_⟩
    · rw [crlf_cons (Ne.symm hfeed), stringBody_cons hb, if_neg hend, if_neg hsame, if_pos hsingle,
        htake, crlf_of_not_mem (hnot (Ne.symm hfeed))]
      rfl
    · exact absurd (htake ▸ hmem) (hnot (Ne.symm hfeed))
  | case7 read b t hb hend hsame hsingle hclose =>
    obtain rfl := Decidable.of_not_not hsame
    obtain ⟨r, rfl⟩ := Text.startsWith_iff.mp hclose
    have hquotes : 10 ∉ [b, b, b] := by simpa using hfeed
    have htake : (b :: ([b, b] ++ r)).take 3 = [b, b, b] := rfl
    refine ⟨3, (congrArg Prod.fst h).symm, by simp, fun _ => ?_, fun hone => ?_⟩
    · have hclose' : Text.startsWith (crlf ([b, b] ++ r)) [b, b] = true := by
        rw [Text.startsWith_crlf (by simpa using hfeed) (by simpa using hreturn)]
        exact hclose
      rw [crlf_cons (Ne.symm hfeed), stringBody_cons hb, if_neg hend, if_neg hsame, if_neg hsingle,
        if_pos hclose', htake, crlf_of_not_mem hquotes]
      rfl
    · exact absurd (by rw [hone]; rfl) hsingle
  | case8 read b t hb hend hsame hsingle hclose ih =>
    obtain rfl := Decidable.of_not_not hsame
    obtain ⟨k, rfl, hk, hbody⟩ := ih h (read' + (crlf [b]).length)
    refine ⟨1 + k, by omega, by simp only [List.length_cons]; omega, ?_⟩
    refine .behind (u := [b]) (.inr (hnot (Ne.symm hfeed))) ?_ hbody
    have hopen : Text.startsWith (crlf t) [b, b] = false := by
      rw [Text.startsWith_crlf (by simpa using hfeed) (by simpa using hreturn)]
      exact Bool.not_eq_true _ ▸ hclose
    show stringBody b triple read' (crlf (b :: t)) = _
    rw [crlf_cons (Ne.symm hfeed), stringBody_cons hb, if_neg hend, if_neg hsame, if_neg hsingle,
      if_neg (by simp [hopen]), crlf_of_not_mem (hnot (Ne.symm hfeed))]
    rfl

/-! ## Line ends behind a backslash -/

theorem continuation?_of_head? {t : Text} (h : t.head? ≠ some (ascii '\\')) :
    continuation? t = none := by
  unfold continuation?
  split
  · exact if_neg fun hb => h (by rw [hb]; rfl)
  · exact if_neg fun hb => h (by rw [hb]; rfl)
  · rfl

theorem continuation?_of_ne {b c : UInt8} {t : Text} (hfeed : c ≠ 10) (hreturn : c ≠ 13) :
    continuation? (b :: c :: t) = none := by
  unfold continuation?
  split
  · next heq => exact absurd (List.cons.inj (List.cons.inj heq).2).1 hfeed
  · next heq => exact absurd (List.cons.inj (List.cons.inj heq).2).1 hreturn
  · rfl

/-- A line is continued in both texts or in neither. -/
theorem continuation?_cases {t t' : Text} (h : Returned t t') (hplain : 13 ∉ t) :
    continuation? t = none ∧ continuation? t' = none ∨
      ∃ r, t = ascii '\\' :: 10 :: r ∧ t' = ascii '\\' :: 13 :: 10 :: crlf r := by
  have hslash : (10 : UInt8) ≠ ascii '\\' ∧ (13 : UInt8) ≠ ascii '\\' := by decide
  have hfeed (r : Text) : continuation? (10 :: r) = none :=
    continuation?_of_head? fun hhead => hslash.1 (Option.some.inj hhead)
  cases h with
  | read r => exact .inl ⟨hfeed r, hfeed (crlf r)⟩
  | all =>
    rcases t with _ | ⟨b, t⟩
    · exact .inl ⟨rfl, rfl⟩
    by_cases hb : b = 10
    · subst hb
      exact .inl ⟨hfeed t, continuation?_of_head? fun hhead => hslash.2 (Option.some.inj hhead)⟩
    rw [crlf_cons hb]
    by_cases hbackslash : b = ascii '\\'
    · rcases t with _ | ⟨c, r⟩
      · exact .inl ⟨rfl, rfl⟩
      by_cases hc : c = 10
      · exact .inr ⟨r, by rw [hbackslash, hc], by rw [hbackslash, hc]; rfl⟩
      · have hreturn : c ≠ 13 := fun heq => hplain (by simp [heq])
        rw [crlf_cons hc]
        exact .inl ⟨continuation?_of_ne hc hreturn, continuation?_of_ne hc hreturn⟩
    · have hhead (r : Text) : continuation? (b :: r) = none :=
        continuation?_of_head? fun hhead => hbackslash (Option.some.inj hhead)
      exact .inl ⟨hhead t, hhead (crlf t)⟩

theorem column_returned (col : Nat) {t t' : Text} (h : Returned t t') :
    column col t' = column col t := by
  cases h with
  | read => rfl
  | all =>
    induction t generalizing col with
    | nil => rfl
    | cons b t ih =>
      by_cases hb : b = 10
      · subst hb
        rfl
      · rw [crlf_cons hb, column, column]
        simp only [ih]

end Lexer

end Token

end CloneScout
