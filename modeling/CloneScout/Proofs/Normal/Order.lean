import CloneScout.Proofs.Tree.Faithful
import CloneScout.Proofs.Tree.Stable

/-!
# The order of operands

Operands of a commutative operator stand in the order of their texts. An operation whose operands
change places, at any depth, is written before what it was.
-/

namespace CloneScout

namespace Text

/-! ## The order of texts -/

theorem cmp_self (t : Text) : cmp t t = .eq := by
  induction t with
  | nil => rfl
  | cons b t ih => rw [cmp, if_neg (UInt8.lt_irrefl b), if_neg (UInt8.lt_irrefl b), ih]

theorem cmp_cons_eq_lt {a b : UInt8} {s t : Text} :
    cmp (a :: s) (b :: t) = .lt ↔ a < b ∨ a = b ∧ cmp s t = .lt := by
  rw [cmp]
  by_cases hab : a < b
  · simp [hab]
  · by_cases hba : b < a
    · have hne : a ≠ b := fun h => UInt8.lt_irrefl a (h ▸ hba)
      simp [hab, hba, hne]
    · have heq : a = b := UInt8.le_antisymm (UInt8.not_lt.mp hba) (UInt8.not_lt.mp hab)
      simp [heq, UInt8.lt_irrefl]

theorem cmp_trans {s t u : Text} (hst : cmp s t = .lt) (htu : cmp t u = .lt) : cmp s u = .lt := by
  induction s generalizing t u with
  | nil => cases u <;> cases t <;> simp_all [cmp]
  | cons a s ih =>
    obtain _ | ⟨b, t⟩ := t
    · simp [cmp] at hst
    · obtain _ | ⟨c, u⟩ := u
      · simp [cmp] at htu
      · rw [cmp_cons_eq_lt] at hst htu ⊢
        rcases hst with hab | ⟨rfl, hst⟩
        · rcases htu with hbc | ⟨rfl, htu⟩
          · exact .inl (UInt8.lt_trans hab hbc)
          · exact .inl hab
        · rcases htu with hbc | ⟨rfl, htu⟩
          · exact .inl hbc
          · exact .inr ⟨rfl, ih hst htu⟩

theorem cmp_append_left (s t u : Text) : cmp (s ++ t) (s ++ u) = cmp t u := by
  induction s with
  | nil => rfl
  | cons b s ih =>
    rw [List.cons_append, List.cons_append, cmp, if_neg (UInt8.lt_irrefl b),
      if_neg (UInt8.lt_irrefl b), ih]

/-- Two texts that part before the first ends stay in order, whatever follows them. -/
theorem cmp_append_of_not_isPrefix {s t : Text} (h : cmp s t = .lt) (hpart : ¬ s <+: t)
    (u v : Text) : cmp (s ++ u) (t ++ v) = .lt := by
  induction s generalizing t with
  | nil => exact absurd (List.nil_prefix) hpart
  | cons a s ih =>
    obtain _ | ⟨b, t⟩ := t
    · simp [cmp] at h
    · rw [List.cons_append, List.cons_append, cmp_cons_eq_lt]
      rcases cmp_cons_eq_lt.mp h with hab | ⟨rfl, hst⟩
      · exact .inl hab
      · refine .inr ⟨rfl, ih hst fun hst => hpart ?_⟩
        rwa [List.prefix_cons_inj]

end Text

namespace Normal

open Text (pruned emptyKeywords)

/-! ## The texts of numeric expressions -/

/-- Numeric expressions are numbers, and operations on numeric expressions. -/
@[elab_as_elim]
theorem isNumeric_induction {op : BinaryOp} {motive : (e : Expr) → isNumeric op e = true → Prop}
    (number : ∀ x c (h : isNumber op c = true), motive (.constant x c) h)
    (operation : ∀ x left right (hl : isNumeric op left = true) (hr : isNumeric op right = true),
      motive left hl → motive right hr →
      motive (.binary x left op right) (by simp [isNumeric, hl, hr]))
    (e : Expr) (h : isNumeric op e = true) : motive e h := by
  cases e with
  | constant x c => exact number x c h
  | binary x left op' right =>
    have hparts := h
    simp only [isNumeric, Bool.and_eq_true, decide_eq_true_eq] at hparts
    obtain ⟨⟨rfl, hl⟩, hr⟩ := hparts
    exact operation x left right hl hr (isNumeric_induction number operation left hl)
      (isNumeric_induction number operation right hr)
  | _ => simp [isNumeric] at h

/-- The text of an expression with all its fields. -/
def fullText (e : Expr) : Text := (Dump.expr e).toText true

theorem fullText_binary (x : Extent) (left : Expr) (op : BinaryOp) (right : Expr) :
    fullText (.binary x left op right) =
      utf8 "BinOp(left=" ++ (fullText left ++ (utf8 ", " ++ (utf8 "op=" ++ utf8 op.label ++ utf8 "()" ++
        (utf8 ", " ++ (utf8 "right=" ++ (fullText right ++ utf8 ")")))))) := by
  have hstart : utf8 "BinOp(left=" = utf8 "BinOp" ++ utf8 "(" ++ utf8 "left" ++ utf8 "=" := by decide
  have hop : utf8 "op=" = utf8 "op" ++ utf8 "=" := by decide
  have hright : utf8 "right=" = utf8 "right" ++ utf8 "=" := by decide
  have hend : utf8 "()" = utf8 "(" ++ utf8 ")" := by decide
  rw [fullText, Dump.expr, Document.toText_node, hstart, hop, hright, hend]
  simp [Document.present, Document.fieldText, Text.join, Document.bare, Document.toText_node,
    fullText]

/-- A number is written as a word. -/
theorem fullText_constant {op : BinaryOp} (x : Extent) {c : Constant} (h : isNumber op c = true) :
    ∃ word : Text, word.IsBare ∧ fullText (.constant x c) = utf8 "Constant(value=" ++ (word ++ utf8 ")") := by
  have hstart : utf8 "Constant(value=" = utf8 "Constant" ++ utf8 "(" ++ utf8 "value" ++ utf8 "=" := by
    decide
  have hatom {word : Text} (hbare : word.IsBare) (hc : Dump.constant c = .atom word)
      (hmark : Dump.mark c = none) : word.IsBare ∧
        fullText (.constant x c) = utf8 "Constant(value=" ++ (word ++ utf8 ")") := by
    refine ⟨hbare, ?_⟩
    rw [fullText, Dump.expr, Document.toText_node, hstart, hc, hmark]
    simp [Document.present, Document.fieldText, Text.join, Document.toText_atom]
  cases c with
  | int n => exact ⟨_, hatom (Text.isBare_ofNat n) rfl rfl⟩
  | float digits => exact ⟨_, hatom (Shortest.isBare_text _) rfl rfl⟩
  | imaginary digits => exact ⟨_, hatom (Shortest.isBare_imaginary _) rfl rfl⟩
  | _ => simp [isNumber] at h

/-- A field of another name than `keywords` is kept. -/
theorem pruned_separator {s : Text} (hs : s ≠ []) (hkey : s.head? ≠ some (ascii 'k')) (t : Text) :
    pruned (utf8 ", " ++ (s ++ t)) = utf8 ", " ++ pruned (s ++ t) := by
  obtain ⟨b, s, rfl⟩ := List.exists_cons_of_ne_nil hs
  have hcomma : ¬ emptyKeywords <+: utf8 ", " ++ (b :: s ++ t) := by
    rw [show emptyKeywords = utf8 ", " ++ (ascii 'k' :: utf8 "eywords=[]") by decide,
      List.prefix_append_right_inj, List.cons_append, List.cons_prefix_cons]
    exact fun h => hkey (congrArg some h.1.symm)
  have hblank : ascii ',' ∉ utf8 " " := by decide
  rw [show utf8 ", " = ascii ',' :: utf8 " " by decide, List.cons_append] at hcomma ⊢
  rw [Text.pruned_cons_of_not_prefix hcomma, Text.pruned_append_of_not_mem hblank]
  rfl

/-- The text of a numeric expression does not hold the bytes of an empty list of keywords. -/
theorem pruned_fullText {op : BinaryOp} {e : Expr} (h : isNumeric op e = true) (t : Text) :
    pruned (fullText e ++ t) = fullText e ++ pruned t := by
  induction e, h using isNumeric_induction generalizing t with
  | number x c hc =>
    obtain ⟨word, hword, htext⟩ := fullText_constant x hc
    have hcomma : ascii ',' ∉ fullText (.constant x c) := by
      have hbare : ascii ',' ∉ word := fun hm => absurd (hword.2 _ hm) (by decide)
      have hstart : ascii ',' ∉ utf8 "Constant(value=" := by decide
      have hend : ascii ',' ∉ utf8 ")" := by decide
      rw [htext, List.mem_append, List.mem_append]
      simp only [hbare, hstart, hend, or_self, not_false_eq_true]
    exact Text.pruned_append_of_not_mem hcomma t
  | operation x left right hl hr ihl ihr =>
    have hstart : ascii ',' ∉ utf8 "BinOp(left=" := by decide
    have hop : ascii ',' ∉ utf8 "op=" ++ utf8 op.label ++ utf8 "()" := by cases op <;> decide
    have hright : ascii ',' ∉ utf8 "right=" := by decide
    have hend : ascii ',' ∉ utf8 ")" := by decide
    have hsep := pruned_separator (s := utf8 "op=" ++ utf8 op.label ++ utf8 "()")
      (by cases op <;> decide) (by cases op <;> decide)
    rw [fullText_binary]
    simp only [List.append_assoc _ _ t]
    rw [Text.pruned_append_of_not_mem hstart, ihl, hsep, Text.pruned_append_of_not_mem hop,
      pruned_separator (by decide) (by decide), Text.pruned_append_of_not_mem hright, ihr,
      Text.pruned_append_of_not_mem hend]
    simp only [List.append_assoc]

theorem stableExpr_eq {op : BinaryOp} {e : Expr} (h : isNumeric op e = true) :
    Dump.stableExpr e = fullText e := by
  have hpruned := pruned_fullText h []
  rwa [List.append_nil, Text.pruned_nil, List.append_nil] at hpruned

theorem start_ne_start (s t : Text) : utf8 "Constant(value=" ++ s ≠ utf8 "BinOp(left=" ++ t := by
  intro h
  have hheads : some (ascii 'C') = some (ascii 'B') := congrArg List.head? h
  exact absurd hheads (by decide)

/-- No text of a numeric expression is the beginning of another one. -/
theorem fullText_append_inj {op : BinaryOp} {a b : Expr} (ha : isNumeric op a = true)
    (hb : isNumeric op b = true) {s t : Text} (h : fullText a ++ s = fullText b ++ t) :
    fullText a = fullText b ∧ s = t := by
  induction a, ha using isNumeric_induction generalizing b s t with
  | number x c hc =>
    obtain ⟨word, hword, htext⟩ := fullText_constant x hc
    cases b, hb using isNumeric_induction with
    | number x' c' hc' =>
      obtain ⟨word', hword', htext'⟩ := fullText_constant x' hc'
      have hbreaks (u : Text) : Text.Breaks (utf8 ")" ++ u) := Text.breaks_cons (by decide)
      simp only [htext, htext', List.append_assoc, List.append_cancel_left_eq] at h ⊢
      obtain ⟨rfl, hrest⟩ := Text.word_append_inj hword.2 hword'.2 (hbreaks s) (hbreaks t) h
      exact ⟨rfl, List.append_cancel_left hrest⟩
    | operation x' left right =>
      rw [htext, fullText_binary, List.append_assoc, List.append_assoc] at h
      exact absurd h (start_ne_start _ _)
  | operation x left right hl hr ihl ihr =>
    cases b, hb using isNumeric_induction with
    | number x' c' hc' =>
      obtain ⟨word', -, htext'⟩ := fullText_constant x' hc'
      rw [htext', fullText_binary, List.append_assoc, List.append_assoc] at h
      exact absurd h.symm (start_ne_start _ _)
    | operation x' left' right' hl' hr' =>
      simp only [fullText_binary, List.append_assoc, List.append_cancel_left_eq] at h ⊢
      obtain ⟨hleft, hrest⟩ := ihl hl' h
      simp only [List.append_cancel_left_eq] at hrest
      obtain ⟨hright, hrest⟩ := ihr hr' hrest
      exact ⟨by rw [hleft, hright], List.append_cancel_left hrest⟩

/-- Numeric expressions are compared by their texts. -/
theorem cmp_of_writtenBefore {op : BinaryOp} {a b : Expr} (ha : isNumeric op a = true)
    (hb : isNumeric op b = true) (h : writtenBefore a b = true) :
    Text.cmp (fullText a) (fullText b) = .lt := by
  rw [← stableExpr_eq ha, ← stableExpr_eq hb]
  fun_cases writtenBefore a b with
  | case1 x left op' right x' c =>
    rw [stableExpr_eq ha, stableExpr_eq hb, fullText_binary]
    obtain ⟨word, -, htext⟩ := fullText_constant x' hb
    rw [htext]
    exact Text.cmp_cons_eq_lt.mpr (.inl (by decide))
  | case2 => simp [writtenBefore] at h
  | case3 _ _ hleft hright => simpa [writtenBefore] using h

/-- What stands behind two numeric expressions does not change their order. -/
theorem cmp_fullText_append {op : BinaryOp} {a b : Expr} (ha : isNumeric op a = true)
    (hb : isNumeric op b = true) (h : Text.cmp (fullText a) (fullText b) = .lt) (s t : Text) :
    Text.cmp (fullText a ++ s) (fullText b ++ t) = .lt := by
  refine Text.cmp_append_of_not_isPrefix h ?_ s t
  rintro ⟨rest, hrest⟩
  have hsame := (fullText_append_inj ha hb (hrest.trans (List.append_nil _).symm)).1
  rw [hsame, Text.cmp_self] at h
  exact absurd h (by decide)

/-- The expression is written like the other one or before it. -/
def NotAfter (a b : Expr) : Prop :=
  fullText a = fullText b ∨ Text.cmp (fullText a) (fullText b) = .lt

/-- An operation comes before another one if its first operand does. -/
theorem cmp_binary_left {op : BinaryOp} {a b a' b' : Expr} (x x' : Extent)
    (ha : isNumeric op a = true) (ha' : isNumeric op a' = true)
    (h : Text.cmp (fullText a) (fullText a') = .lt) :
    Text.cmp (fullText (.binary x a op b)) (fullText (.binary x' a' op b')) = .lt := by
  rw [fullText_binary, fullText_binary, Text.cmp_append_left]
  exact cmp_fullText_append ha ha' h _ _

theorem notAfter_binary {op : BinaryOp} {a b a' b' : Expr} (x x' : Extent)
    (ha : isNumeric op a = true) (ha' : isNumeric op a' = true) (hb : isNumeric op b = true)
    (hb' : isNumeric op b' = true) (hleft : NotAfter a a') (hright : NotAfter b b') :
    NotAfter (.binary x a op b) (.binary x' a' op b') := by
  rcases hleft with hleft | hleft
  · rcases hright with hright | hright
    · exact .inl (by rw [fullText_binary, fullText_binary, hleft, hright])
    · refine .inr ?_
      rw [fullText_binary, fullText_binary, hleft]
      simp only [Text.cmp_append_left]
      exact cmp_fullText_append hb hb' hright _ _
  · exact .inr (cmp_binary_left x x' ha ha' hleft)

/-! ## Normal forms of numeric expressions -/

variable {cfg : Config}

/-- The normal form of a numeric expression is written like the expression or before it. -/
theorem notAfter_expr {op : BinaryOp} {e : Expr} (target : Bool) (he : isNumeric op e = true)
    (hn : isNumeric op (expr cfg target e) = true) : NotAfter (expr cfg target e) e := by
  induction e, he using isNumeric_induction generalizing target with
  | number x c hc =>
    unfold expr constant at hn ⊢
    split
    next hon =>
      rw [if_pos hon] at hn
      split at hn <;> simp [isNumeric, isNumber] at hn
    next => exact .inl rfl
  | operation x left right hl hr ihl ihr =>
    rw [expr, binary] at hn ⊢
    split
    next hswap =>
      rw [if_pos hswap] at hn
      simp only [isNumeric, Bool.and_eq_true] at hn
      simp only [swaps, Bool.and_eq_true] at hswap
      have hlt : Text.cmp (fullText right) (fullText left) = .lt :=
        cmp_of_writtenBefore hr hl hswap.2
      refine .inr (cmp_binary_left x x hn.1.2 hl ?_)
      rcases ihr false hn.1.2 with hsame | hbefore
      · rwa [hsame]
      · exact Text.cmp_trans hbefore hlt
    next hswap =>
      rw [if_neg hswap] at hn
      simp only [isNumeric, Bool.and_eq_true] at hn
      exact notAfter_binary x x hn.1.2 hl hn.2 hr (ihl false hn.1.2) (ihr false hn.2)

/-- Operands that change places do not take the places of operands with the same texts. -/
theorem fullText_ne_of_swaps {op : BinaryOp} {left right : Expr} (target : Bool)
    (h : swaps op left right = true) (hn : isNumeric op (expr cfg target right) = true) :
    fullText (expr cfg target right) ≠ fullText left := by
  intro hsame
  simp only [swaps, Bool.and_eq_true] at h
  have hlt : Text.cmp (fullText right) (fullText left) = .lt :=
    cmp_of_writtenBefore h.1.2 h.1.1.2 h.2
  rcases notAfter_expr target h.1.2 hn with heq | hbefore
  · rw [← heq, hsame, Text.cmp_self] at hlt
    exact absurd hlt (by decide)
  · rw [hsame] at hbefore
    have hself := Text.cmp_trans hlt hbefore
    rw [Text.cmp_self] at hself
    exact absurd hself (by decide)

end Normal

end CloneScout
