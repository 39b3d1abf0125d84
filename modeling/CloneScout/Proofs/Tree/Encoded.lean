import CloneScout.Proofs.Tree.Readable

/-!
# Texts of documents are sequences of code points

A literal holds the UTF-8 forms of printable code points and ASCII escapes, and everything else in a
document is ASCII. So the text of a readable document, with or without the names of its fields, is
itself a text that can stand in quotes.
-/

namespace CloneScout

namespace Utf8.IsEncoded

theorem flatMap {α : Type} {f : α → Text} {as : List α} (h : ∀ a ∈ as, IsEncoded (f a)) :
    IsEncoded (as.flatMap f) := by
  induction as with
  | nil => exact nil
  | cons a as ih =>
    obtain ⟨ha, has⟩ := List.forall_mem_cons.mp h
    rw [List.flatMap_cons]
    exact ha.append (ih has)

theorem join {sep : Text} (hsep : IsEncoded sep) {ts : List Text} (h : ∀ t ∈ ts, IsEncoded t) :
    IsEncoded (Text.join sep ts) := by
  cases ts with
  | nil => exact nil
  | cons t ts =>
    obtain ⟨ht, hts⟩ := List.forall_mem_cons.mp h
    rw [Text.join_cons]
    exact ht.append (flatMap fun u hu => hsep.append (hts u hu))

end Utf8.IsEncoded

open Utf8 (IsEncoded)

/-! ## Words and escapes -/

theorem Text.IsBare.isEncoded {t : Text} (h : t.IsBare) : IsEncoded t := by
  have hword : ∀ n < 256, isWordByte (UInt8.ofNat n) = true → UInt8.ofNat n < 0x80 := by
    decide +kernel
  refine .of_ascii fun b hb => ?_
  have hb := h.2 b hb
  rw [← @UInt8.ofNat_toNat b] at hb ⊢
  exact hword b.toNat b.toNat_lt hb

theorem Text.isEncoded_hex (width n : Nat) : IsEncoded (Text.hex width n) := by
  have hdigit (n : Nat) : hexDigit n < 0x80 := by
    have hall : ∀ d < 16, (if d < 10 then UInt8.ofNat (48 + d) else UInt8.ofNat (87 + d)) < 0x80 := by
      decide
    exact hall (n % 16) (Nat.mod_lt n (by decide))
  induction width with
  | zero => exact .nil
  | succ width ih => exact .cons_ascii (hdigit _) ih

namespace Quoted

theorem isEncoded_quote {q : UInt8} (hq : IsQuote q) : IsEncoded [q] := by
  rcases hq with rfl | rfl <;> exact .ascii (by decide)

theorem isEncoded_numberEscape (cp : Nat) : IsEncoded (numberEscape cp) := by
  unfold numberEscape
  split
  · exact .append (.of_ascii (by decide)) (Text.isEncoded_hex _ _)
  · split
    · exact .append (.of_ascii (by decide)) (Text.isEncoded_hex _ _)
    · exact .append (.of_ascii (by decide)) (Text.isEncoded_hex _ _)

theorem isEncoded_layoutEscape? {cp : Nat} {t : Text} (h : layoutEscape? cp = some t) :
    IsEncoded t := by
  have hall : ∀ t ∈ [utf8 "\\t", utf8 "\\n", utf8 "\\r"], ∀ b ∈ t, b < 0x80 := by decide
  refine .of_ascii (hall t ?_)
  unfold layoutEscape? at h
  split at h
  · simp [← Option.some.inj h]
  · split at h
    · simp [← Option.some.inj h]
    · split at h
      · simp [← Option.some.inj h]
      · exact nomatch h

theorem isEncoded_codePoint {q : UInt8} (hq : IsQuote q) {cp : Nat} (h : cp < 0x110000) :
    IsEncoded (codePoint q cp) := by
  unfold codePoint
  split
  next hself =>
    simp only [Bool.or_eq_true, decide_eq_true_eq] at hself
    refine .cons_ascii (by decide) (.ascii ?_)
    rcases hself with rfl | rfl
    · rw [UInt8.ofNat_toNat]
      rcases hq with rfl | rfl <;> decide
    · decide
  next =>
    split
    next t ht => exact isEncoded_layoutEscape? ht
    next =>
      split
      · exact .encode h
      · exact isEncoded_numberEscape cp

theorem isEncoded_text {t : Text} (h : IsEncoded t) : IsEncoded (text t) := by
  obtain ⟨cps, hcps, hflat⟩ := h
  have hq := isQuote_quoteFor t
  rw [text_eq hcps hflat]
  exact (isEncoded_quote hq).append
    ((IsEncoded.flatMap fun cp hcp => isEncoded_codePoint hq (hcps cp hcp)).append
      (isEncoded_quote hq))

theorem isEncoded_byte {q : UInt8} (hq : IsQuote q) (b : UInt8) : IsEncoded (byte q b) := by
  unfold byte
  split
  next hself =>
    simp only [Bool.or_eq_true, decide_eq_true_eq] at hself
    refine .cons_ascii (by decide) ?_
    rcases hself with rfl | rfl
    · exact isEncoded_quote hq
    · exact .ascii (by decide)
  next =>
    split
    next t ht => exact isEncoded_layoutEscape? ht
    next =>
      split
      · exact .append (.of_ascii (by decide)) (Text.isEncoded_hex _ _)
      next hplain =>
        simp only [Bool.or_eq_true, decide_eq_true_eq, not_or, UInt8.not_le] at hplain
        exact .ascii (UInt8.lt_trans hplain.2 (by decide))

theorem isEncoded_bytes (t : Text) : IsEncoded (bytes t) := by
  have hq := isQuote_quoteFor t
  rw [bytes_eq]
  exact .cons_ascii (by decide) ((isEncoded_quote hq).append
    ((IsEncoded.flatMap fun b _ => isEncoded_byte hq b).append (isEncoded_quote hq)))

end Quoted

/-! ## Documents -/

namespace Document

variable {gaps : Bool}

mutual

theorem isEncoded_rope (named : Bool) :
    ∀ {d : Document}, d.Readable gaps → IsEncoded (rope named d).toText
  | .atom t, h => by
    rw [rope, Rope.toText_text]
    exact Text.IsBare.isEncoded h
  | .quoted t, h => by
    rw [rope, Rope.toText_text]
    exact Quoted.isEncoded_text h
  | .bytes t, _ => by
    rw [rope, Rope.toText_text]
    exact Quoted.isEncoded_bytes t
  | .list items, h => by
    simp only [rope, Rope.toText_append, Rope.toText_text, Rope.toText_join]
    refine (IsEncoded.append (.of_ascii (by decide)) (.join (.of_ascii (by decide)) ?_)).append
      (.of_ascii (by decide))
    exact isEncoded_ropes named h
  | .node kind fs, h => by
    simp only [rope, Rope.toText_append, Rope.toText_text, Rope.toText_join]
    refine (IsEncoded.append (h.1.isEncoded.append (.of_ascii (by decide)))
      (.join (.of_ascii (by decide)) ?_)).append (.of_ascii (by decide))
    exact isEncoded_fieldRopes named named h.2.2

theorem isEncoded_ropes (named : Bool) : ∀ {items : List Document}, AllReadable gaps items →
    ∀ t ∈ (ropes named items).map Rope.toText, IsEncoded t
  | [], _ => by simp [ropes]
  | d :: items, h => by
    rw [ropes, List.map_cons, List.forall_mem_cons]
    exact ⟨isEncoded_rope named h.1, isEncoded_ropes named h.2⟩

theorem isEncoded_fieldRopes (named shown : Bool) : ∀ {fs : List (String × Option Document)},
    FieldsReadable gaps fs → ∀ t ∈ (fieldRopes named shown fs).map Rope.toText, IsEncoded t
  | [], _ => by simp [fieldRopes]
  | (_, none) :: fs, h => by
    rw [fieldRopes]
    exact isEncoded_fieldRopes named true h.2
  | (label, some v) :: fs, h => by
    rw [fieldRopes, List.map_cons, List.forall_mem_cons]
    refine ⟨?_, isEncoded_fieldRopes named shown h.2.2⟩
    have hvalue := isEncoded_rope named h.2.1
    split
    · simp only [Rope.toText_append, Rope.toText_text]
      exact (h.1.isEncoded.append (.of_ascii (by decide))).append hvalue
    · exact hvalue

end

theorem isEncoded_toText (named : Bool) {d : Document} (h : d.Readable gaps) :
    IsEncoded (d.toText named) :=
  isEncoded_rope named h

end Document

end CloneScout
