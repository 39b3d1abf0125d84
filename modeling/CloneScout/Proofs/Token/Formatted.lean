import CloneScout.Proofs.Token.Phrase
import CloneScout.Token.Template

/-!
# Literal text of templates

A brace of the text of a formatted literal is written twice. A text with its braces doubled is read
as literal text, and nothing else, unless it names a character: the braces of `\N{…}` are not
doubled. The quoted form of a text never names a character.
-/

namespace CloneScout

namespace Template

def isBrace (b : UInt8) : Bool := b = openBrace || b = closeBrace

/-- A text with each of its braces written twice. -/
def doubled (t : Text) : Text := t.flatMap fun b => if isBrace b then [b, b] else [b]

/-- Some escape in the text starts the name of a character. -/
def hasNamed : Text → Bool
  | [] => false
  | b :: t =>
    if b = ascii '\\' then
      match t with
      | [] => false
      | c :: u => (c = ascii 'N' && u.head? = some openBrace) || hasNamed u
    else hasNamed t

/-! ## Doubled braces -/

theorem doubled_cons (b : UInt8) (t : Text) :
    doubled (b :: t) = b :: ((if isBrace b then [b] else []) ++ doubled t) := by
  rw [doubled, List.flatMap_cons]
  cases isBrace b <;> rfl

theorem doubled_cons_of_not {b : UInt8} (h : isBrace b = false) (t : Text) :
    doubled (b :: t) = b :: doubled t := by
  rw [doubled_cons, h]
  rfl

theorem doubled_append (t u : Text) : doubled (t ++ u) = doubled t ++ doubled u :=
  List.flatMap_append

theorem head?_doubled (t : Text) : (doubled t).head? = t.head? := by
  cases t with
  | nil => rfl
  | cons b t => rw [doubled_cons, List.head?_cons, List.head?_cons]

theorem doubled_of_braceless {t : Text} (h : ∀ b ∈ t, isBrace b = false) : doubled t = t := by
  induction t with
  | nil => rfl
  | cons b t ih =>
    obtain ⟨hb, ht⟩ := List.forall_mem_cons.mp h
    rw [doubled_cons_of_not hb, ih ht]

theorem hasNamed_cons_of_ne {b : UInt8} (h : b ≠ ascii '\\') (t : Text) :
    hasNamed (b :: t) = hasNamed t := by
  rw [hasNamed.eq_def]
  exact if_neg h

theorem hasNamed_escape (c : UInt8) (u : Text) : hasNamed (ascii '\\' :: c :: u) =
    ((c = ascii 'N' && u.head? = some openBrace) || hasNamed u) := by
  rw [hasNamed.eq_def]
  exact if_pos rfl

theorem hasNamed_append_plain {t : Text} (h : ∀ b ∈ t, b ≠ ascii '\\') (u : Text) :
    hasNamed (t ++ u) = hasNamed u := by
  induction t with
  | nil => rfl
  | cons b t ih =>
    obtain ⟨hb, ht⟩ := List.forall_mem_cons.mp h
    rw [List.cons_append, hasNamed_cons_of_ne hb, ih ht]

theorem hasNamed_of_braceless {t : Text} (h : ∀ b ∈ t, isBrace b = false) :
    hasNamed t = false := by
  fun_induction hasNamed t with
  | case1 => rfl
  | case2 => rfl
  | case3 c u ih =>
    obtain ⟨-, hu⟩ := List.forall_mem_cons.mp (List.forall_mem_cons.mp h).2
    have hhead : u.head? ≠ some openBrace := by
      intro hopen
      obtain ⟨v, rfl⟩ := List.head?_eq_some_iff.mp hopen
      exact absurd (hu openBrace List.mem_cons_self) (by decide)
    simp [hhead, ih hu]
  | case4 b t hb ih => exact ih fun c hc => h c (List.mem_cons_of_mem _ hc)

/-! ## Segments -/

theorem namedLength?_doubled {c : UInt8} {u : Text}
    (h : (c = ascii 'N' && u.head? = some openBrace) = false) :
    namedLength? (ascii '\\' :: doubled (c :: u)) = none := by
  refine if_neg fun hstart => ?_
  obtain ⟨v, hv⟩ := Text.startsWith_iff.mp hstart
  have hrest := (List.cons.inj hv).2
  obtain rfl : c = ascii 'N' := by
    have hhead := congrArg List.head? hrest
    rw [head?_doubled] at hhead
    exact (Option.some.inj hhead).symm
  rw [doubled_cons_of_not (by decide)] at hrest
  have hhead := congrArg List.head? (List.cons.inj hrest).2
  rw [head?_doubled] at hhead
  rw [← hhead] at h
  exact Bool.noConfusion h

/-- Doubled text is read as literal text. -/
theorem segmentsFrom_doubled {raw : Bool} {n offset : Nat} {lit t : Text}
    (hn : (doubled t).length ≤ n) (h : raw = true ∨ hasNamed t = false) :
    segmentsFrom raw n offset lit (doubled t) = flush (t.reverse ++ lit) := by
  induction n generalizing offset lit t with
  | zero =>
    cases t with
    | nil => rfl
    | cons b t => simp [doubled_cons] at hn
  | succ n ih =>
    cases t with
    | nil => rfl
    | cons b t =>
      have hrest (hslash : b ≠ ascii '\\') : raw = true ∨ hasNamed t = false :=
        h.imp id (hasNamed_cons_of_ne hslash t ▸ ·)
      by_cases hbrace : isBrace b = true
      · -- two braces are taken at once
        rw [doubled_cons, hbrace] at hn ⊢
        simp only [if_true, List.singleton_append, List.length_cons] at hn ⊢
        have hnext : segmentsFrom raw n (offset + 2) (b :: lit) (doubled t) =
            flush (t.reverse ++ b :: lit) :=
          ih (by omega) (hrest (by rintro rfl; exact absurd hbrace (by decide)))
        rw [List.reverse_cons, List.append_assoc, List.singleton_append, ← hnext]
        have hb : b = openBrace ∨ b = closeBrace := by simpa [isBrace] using hbrace
        have hopen : openBrace ≠ closeBrace ∧ openBrace ≠ ascii '\\' := by decide
        rcases hb with rfl | rfl <;> simp [segmentsFrom, hopen]
      · have hbrace : isBrace b = false := Bool.not_eq_true _ ▸ hbrace
        have hb : b ≠ openBrace ∧ b ≠ closeBrace := by simpa [isBrace] using hbrace
        rw [doubled_cons_of_not hbrace] at hn ⊢
        rw [List.length_cons] at hn
        have hone (ht : raw = true ∨ hasNamed t = false) :
            segmentsFrom raw n (offset + 1) (b :: lit) (doubled t) =
              flush ((b :: t).reverse ++ lit) := by
          rw [ih (by omega) ht, List.reverse_cons, List.append_assoc, List.singleton_append]
        by_cases hslash : b = ascii '\\'
        · subst hslash
          cases t with
          | nil => simpa [segmentsFrom, hb, doubled] using hone (.inr rfl)
          | cons c u =>
            cases raw with
            | true => simpa [segmentsFrom, hb] using hone (.inl rfl)
            | false =>
              have h := h.resolve_left Bool.false_ne_true
              rw [hasNamed_escape, Bool.or_eq_false_iff] at h
              have hnamed := namedLength?_doubled h.1
              by_cases hc : isBrace c = true
              · have hhead := head?_doubled (c :: u)
                have hempty : (doubled (c :: u)).isEmpty = false := by rw [doubled_cons]; rfl
                have hor : c = openBrace ∨ c = closeBrace := by simpa [isBrace] using hc
                have hnext : c ≠ ascii '\\' := by rintro rfl; exact absurd hc (by decide)
                simpa [segmentsFrom, hb, hnamed, hhead, hempty, hor] using
                  hone (.inr ((hasNamed_cons_of_ne hnext u).trans h.2))
              · -- the backslash takes the next byte with it
                have hc : isBrace c = false := Bool.not_eq_true _ ▸ hc
                have hnor : c ≠ openBrace ∧ c ≠ closeBrace := by simpa [isBrace] using hc
                rw [doubled_cons_of_not hc] at hn hnamed ⊢
                rw [List.length_cons] at hn
                have hnext : segmentsFrom false n (offset + 2) (c :: ascii '\\' :: lit) (doubled u) =
                    flush (u.reverse ++ c :: ascii '\\' :: lit) :=
                  ih (by omega) (.inr h.2)
                simpa [segmentsFrom, hb, hnamed, hnor] using hnext
        · simpa [segmentsFrom, hb, hslash] using hone (hrest hslash)

theorem segments_doubled {raw : Bool} {t : Text} (h : raw = true ∨ hasNamed t = false) :
    segments raw (doubled t) = if t.isEmpty then [] else [.literal t] := by
  rw [segments, segmentsFrom_doubled (Nat.le_refl _) h, List.append_nil, flush, List.isEmpty_reverse,
    List.reverse_reverse]

end Template

/-! ## Quoted texts -/

namespace Quoted

open StringLiteral Template

variable {quote : UInt8}

theorem not_isBrace_hex (width n : Nat) : ∀ b ∈ Text.hex width n, isBrace b = false := by
  have hall : ∀ d < 16, isBrace (Text.hexDigit d) = false := by decide
  have hdigit (m : Nat) : isBrace (Text.hexDigit m) = false := by
    have hmod : Text.hexDigit m = Text.hexDigit (m % 16) := by simp [Text.hexDigit]
    rw [hmod]
    exact hall _ (Nat.mod_lt _ (by decide))
  induction width with
  | zero => exact List.forall_mem_nil _
  | succ width ih => exact List.forall_mem_cons.mpr ⟨hdigit _, ih⟩

/-- An escape that has nothing to do with braces and names no character. -/
def IsEscape (quote : UInt8) (t : Text) : Prop :=
  ∃ mark digits, t = ascii '\\' :: mark :: digits ∧ mark ≠ ascii 'N' ∧ isBrace mark = false ∧
    ∀ b ∈ digits, isBrace b = false ∧ IsPlain quote b

theorem isEscape_hex (hq : IsQuote quote) {mark : UInt8}
    (hmark : mark ≠ ascii 'N' ∧ isBrace mark = false) (width n : Nat) :
    IsEscape quote (ascii '\\' :: mark :: Text.hex width n) :=
  ⟨mark, _, rfl, hmark.1, hmark.2,
    fun b hb => ⟨not_isBrace_hex width n b hb, isPlain_hex hq width n b hb⟩⟩

theorem isEscape_numberEscape (hq : IsQuote quote) (cp : Nat) :
    IsEscape quote (numberEscape cp) := by
  have hx : utf8 "\\x" = [ascii '\\', ascii 'x'] := by decide
  have hu : utf8 "\\u" = [ascii '\\', ascii 'u'] := by decide
  have hU : utf8 "\\U" = [ascii '\\', ascii 'U'] := by decide
  unfold numberEscape
  split
  · rw [hx]
    exact isEscape_hex hq (by decide) 2 cp
  · split
    · rw [hu]
      exact isEscape_hex hq (by decide) 4 cp
    · rw [hU]
      exact isEscape_hex hq (by decide) 8 cp

theorem isEscape_layoutEscape {cp : Nat} {t : Text} (h : layoutEscape? cp = some t) :
    IsEscape quote t := by
  have hmem : t ∈ [utf8 "\\t", utf8 "\\n", utf8 "\\r"] := by
    unfold layoutEscape? at h
    grind
  have hall : ∀ t ∈ [utf8 "\\t", utf8 "\\n", utf8 "\\r"],
      t = [ascii '\\', t.tail.headD 0] ∧ t.tail.headD 0 ≠ ascii 'N' ∧
        isBrace (t.tail.headD 0) = false := by decide
  obtain ⟨hform, hmark, hbrace⟩ := hall t hmem
  exact ⟨_, [], hform, hmark, hbrace, List.forall_mem_nil _⟩

/-- A code point is written as an escape or as it is. -/
theorem codePoint_shape (hq : IsQuote quote) {cp : Nat} (h : cp < 0x110000) :
    IsEscape quote (codePoint quote cp) ∨ ∀ b ∈ codePoint quote cp, IsPlain quote b := by
  unfold codePoint
  split
  next hself =>
    simp only [Bool.or_eq_true, decide_eq_true_eq] at hself
    have hmark : ∀ b ∈ [ascii '\'', ascii '"', ascii '\\'], b ≠ ascii 'N' ∧ isBrace b = false := by
      decide
    have hmem : UInt8.ofNat cp ∈ [ascii '\'', ascii '"', ascii '\\'] := by
      rcases hself with rfl | rfl
      · rw [UInt8.ofNat_toNat]
        rcases hq with rfl | rfl <;> decide
      · decide
    exact .inl ⟨_, [], rfl, (hmark _ hmem).1, (hmark _ hmem).2, List.forall_mem_nil _⟩
  next hself =>
    simp only [Bool.or_eq_true, decide_eq_true_eq, not_or] at hself
    split
    next t ht => exact .inl (isEscape_layoutEscape ht)
    next hlayout =>
      split
      · refine .inr (isPlain_encode hq h hself ?_)
        rintro rfl
        exact absurd hlayout (by decide)
      · exact .inl (isEscape_numberEscape hq cp)

theorem hasNamed_codePoint (hq : IsQuote quote) {cp : Nat} (h : cp < 0x110000) (t : Text) :
    hasNamed (codePoint quote cp ++ t) = hasNamed t := by
  rcases codePoint_shape hq h with ⟨mark, digits, hform, hmark, -, hdigits⟩ | hplain
  · rw [hform, List.cons_append, List.cons_append, hasNamed_escape, decide_eq_false hmark,
      Bool.false_and, Bool.false_or, hasNamed_append_plain fun b hb => (hdigits b hb).2.1]
  · exact hasNamed_append_plain (fun b hb => (hplain b hb).1) t

/-- The search for the closing quote goes past a code point whose braces are doubled. -/
theorem passes_doubled (hq : IsQuote quote) {cp : Nat} (h : cp < 0x110000) :
    Passes quote (doubled (codePoint quote cp)) := by
  rcases codePoint_shape hq h with ⟨mark, digits, hform, -, hmark, hdigits⟩ | hplain
  · rw [hform, doubled_of_braceless]
    · exact passes_escaped fun b hb => (hdigits b hb).2
    · exact List.forall_mem_cons.mpr ⟨by decide, List.forall_mem_cons.mpr
        ⟨hmark, fun b hb => (hdigits b hb).1⟩⟩
  · refine passes_plain fun b hb => ?_
    obtain ⟨c, hc, hb⟩ := List.mem_flatMap.mp hb
    have hsame : b = c := by
      split at hb <;> simpa using hb
    exact hsame ▸ hplain c hc

/-- A text is quoted as a body that names no character. With its braces doubled and behind an `f`
it is one string token. -/
theorem exists_formatted {t : Text} (h : Utf8.IsEncoded t) :
    ∃ body, text t = quoteFor t :: (body ++ [quoteFor t]) ∧ unescape false body = t ∧
      hasNamed body = false ∧
      (⟨[ascii 'f'], quoteFor t, false, doubled body⟩ : Written).IsToken [] := by
  obtain ⟨cps, hcps, ht⟩ := h
  have hq := isQuote_quoteFor t
  have hspells : ∀ cp ∈ cps, Spells false (quoteFor t) (codePoint (quoteFor t) cp)
      (Utf8.encode cp) := fun cp hcp => spells_codePoint hq (hcps cp hcp)
  have hdoubled : doubled (cps.flatMap (codePoint (quoteFor t))) =
      cps.flatMap fun cp => doubled (codePoint (quoteFor t) cp) := List.flatMap_assoc
  refine ⟨cps.flatMap (codePoint (quoteFor t)), text_eq hcps ht,
    by rw [unescape_flatMap hspells, ← ht], ?_,
    .inr (show Token.Lexer.isStringPrefix [ascii 'f'] = true by decide), hq, ?_, ?_⟩
  · clear ht hspells hdoubled
    induction cps with
    | nil => rfl
    | cons cp cps ih =>
      obtain ⟨hcp, hcps⟩ := List.forall_mem_cons.mp hcps
      rw [List.flatMap_cons, hasNamed_codePoint hq hcp, ih hcps]
  · have hclosed := stringBody_flatMap hq (fun cp hcp => passes_doubled hq (hcps cp hcp)) 0 []
    rw [← hdoubled, Nat.zero_add] at hclosed
    exact hclosed
  · refine startsWith_of_single (fun b hb => ?_) (by simp)
    rw [head?_doubled] at hb
    exact head_codePoints hq hcps b hb

end Quoted

end CloneScout
