import CloneScout.Proofs.Token.Lexer
import Mathlib.Data.List.Forall2

/-!
# Where tokens stand

A replacement field is cut into the same tokens wherever it stands in the source, and is free of
faults there or nowhere. In a source text every token that does not lay out lines starts behind the
one before, so offsets tell such tokens apart.
-/

namespace CloneScout

open Diagnostic

/-- Tokens that only lay out the lines of a text. -/
def Token.Kind.isLayout (k : Token.Kind) : Bool :=
  k = .newline || k = .indent || k = .dedent || k = .eof

/-- Tokens that differ only in where they stand. Offsets that belong together are related by `A`. -/
structure Token.Alike (A : Nat → Nat → Prop) (t t' : Token) : Prop where
  kind : t.kind = t'.kind
  lexeme (h : t.kind.isLayout = false) : t.lexeme = t'.lexeme
  start (h : t.kind.isLayout = false) : A t.span.lo t'.span.lo

/-- Offsets that belong together are told apart in the same way. -/
def OneToOne (A : Nat → Nat → Prop) : Prop :=
  ∀ a a' b b', A a a' → A b b' → (a = b ↔ a' = b')

namespace Token

/-! ## One field at two places -/

/-- Offsets that lie as far behind `o` as behind `o'`. -/
def Shift (o o' a a' : Nat) : Prop := a + o' = a' + o

theorem oneToOne_shift (o o' : Nat) : OneToOne (Shift o o') := by
  intro a a' b b' ha hb
  unfold Shift at ha hb
  omega

namespace Lexer

/-- Two lexers at the same place of the same field. -/
structure Shifted (A : Nat → Nat → Prop) (s s' : Lexer) : Prop where
  rest : s.rest = s'.rest
  pos : A s.pos s'.pos
  brackets : List.Forall₂ (fun t t' : Token => t.kind = t'.kind) s.brackets s'.brackets
  inside : s.atLineStart = false ∧ s.embedded = true
  inside' : s'.atLineStart = false ∧ s'.embedded = true
  tokens : List.Forall₂ (Token.Alike A) s.tokens.toList s'.tokens.toList
  clean : Clean s.diags ↔ Clean s'.diags

namespace Shifted

variable {o o' : Nat} {s s' : Lexer}

theorem advance (h : s.Shifted (Shift o o') s') (n : Nat) :
    (s.advance n).Shifted (Shift o o') (s'.advance n) where
  rest := congrArg (List.drop n) h.rest
  pos := by
    have hpos := h.pos
    unfold Shift at hpos ⊢
    simp only [Lexer.advance]
    omega
  brackets := h.brackets
  inside := h.inside
  inside' := h.inside'
  tokens := h.tokens
  clean := h.clean

theorem push {A : Nat → Nat → Prop} (h : s.Shifted A s') {t t' : Token} (ht : t.Alike A t') :
    (s.push t).Shifted A (s'.push t') :=
  { h with
    tokens := by
      simp only [Lexer.push, Array.toList_push]
      exact List.rel_append h.tokens (.cons ht .nil) }

theorem report {A : Nat → Nat → Prop} (h : s.Shifted A s') (code code' : Code) (span span' : Span)
    (arg arg' : Text) : (s.report code span arg).Shifted A (s'.report code' span' arg') :=
  { h with
    clean := iff_of_false (not_clean_push_errorAt _ _ _ _) (not_clean_push_errorAt _ _ _ _) }

theorem tokenOf {A : Nat → Nat → Prop} (h : s.Shifted A s') (k : Kind) (n : Nat) :
    (s.tokenOf k n).Alike A (s'.tokenOf k n) :=
  ⟨rfl, fun _ => congrArg (List.take n) h.rest, fun _ => h.pos⟩

theorem take (h : s.Shifted (Shift o o') s') (k : Kind) (n : Nat) :
    (s.take k n).Shifted (Shift o o') (s'.take k n) :=
  { (h.push (h.tokenOf k n)).advance n with }

theorem string (h : s.Shifted (Shift o o') s') (letters : Nat) :
    (s.string letters).Shifted (Shift o o') (s'.string letters) := by
  unfold Lexer.string
  simp only [← h.rest]
  generalize (s.rest.drop letters).take _ = opener
  split
  · exact h.take _ _
  · exact (h.report ..).take _ _

theorem number (h : s.Shifted (Shift o o') s') : s.number.Shifted (Shift o o') s'.number := by
  unfold Lexer.number
  simp only [← h.rest]
  split
  · exact (h.report ..).take _ _
  · exact h.take _ _

theorem word (h : s.Shifted (Shift o o') s') : s.word.Shifted (Shift o o') s'.word := by
  unfold Lexer.word
  simp only [← h.rest]
  split
  · exact h.string _
  · exact h.take _ _

theorem track {A : Nat → Nat → Prop} (h : s.Shifted A s') {t t' : Token} (ht : t.kind = t'.kind) :
    (s.track t).Shifted A (s'.track t') := by
  unfold Lexer.track
  rw [← ht]
  split
  · exact { h with brackets := .cons ht h.brackets }
  · split
    · exact h
    · have hbrackets := h.brackets
      cases hs : s.brackets with
      | nil =>
        rw [hs, List.forall₂_nil_left_iff] at hbrackets
        rw [hbrackets]
        exact h.report ..
      | cons top below =>
        rw [hs, List.forall₂_cons_left_iff] at hbrackets
        obtain ⟨top', below', htop, hbelow, hs'⟩ := hbrackets
        rw [hs']
        dsimp only
        rw [← htop]
        split
        · exact { h with brackets := hbelow }
        · exact h.report ..

theorem sign (h : s.Shifted (Shift o o') s') : s.sign.Shifted (Shift o o') s'.sign := by
  unfold Lexer.sign
  simp only [← h.rest]
  exact (h.take _ _).track rfl

theorem item (h : s.Shifted (Shift o o') s') (b : UInt8) :
    (s.item b).Shifted (Shift o o') (s'.item b) := by
  have hfeed (s : Lexer) (hs : s.embedded = true) : s.lineFeed = s.advance 1 := by
    simp [lineFeed, hs]
  unfold Lexer.item
  simp only [← h.rest, hfeed s h.inside.2, hfeed s' h.inside'.2]
  split
  · exact h.advance 1
  split
  · exact h.advance _
  split
  · split
    · exact h.advance _
    · exact (h.report ..).advance 1
  split
  · exact h.advance 1
  split
  · exact h.number
  split
  · exact h.word
  split
  · exact h.string 0
  · exact h.sign

/-- Inside a field every step reads one item. -/
theorem run (h : s.Shifted (Shift o o') s') (steps : Nat) :
    (s.run steps).Shifted (Shift o o') (s'.run steps) := by
  have hstep (s : Lexer) (hs : s.atLineStart = false) : s.step = s.readItem := by
    simp [step_eq, hs]
  induction steps generalizing s s' with
  | zero => exact h
  | succ steps ih =>
    rw [Lexer.run, Lexer.run, hstep s h.inside.1, hstep s' h.inside'.1, readItem, readItem, ← h.rest]
    cases s.rest with
    | nil => exact h
    | cons b t => exact ih (h.item b)

theorem reportOpen {A : Nat → Nat → Prop} (h : s.Shifted A s') :
    s.reportOpen.Shifted A s'.reportOpen := by
  unfold Lexer.reportOpen
  have hbrackets := h.brackets
  generalize s.brackets = bs at hbrackets ⊢
  generalize s'.brackets = bs' at hbrackets ⊢
  have hfold : (bs.foldr (fun t s => s.report .unmatchedBracket t.span t.lexeme) s).Shifted A
      (bs'.foldr (fun t s => s.report .unmatchedBracket t.span t.lexeme) s') := by
    induction hbrackets with
    | nil => exact h
    | cons _ _ ih => exact ih.report ..
  exact { hfold with brackets := .nil }

end Shifted

end Lexer

/-- The place of a field does not matter to its tokens. -/
theorem lexField_shifted (offset offset' line line' : Nat) (part : Text) :
    List.Forall₂ (Token.Alike (Shift offset offset')) (lexField offset line part).1.toList
        (lexField offset' line' part).1.toList ∧
      (Clean (lexField offset line part).2 ↔ Clean (lexField offset' line' part).2) := by
  let start (offset line : Nat) : Lexer :=
    { rest := part, pos := offset, line, atLineStart := false, embedded := true }
  have hstart : (start offset line).Shifted (Shift offset offset') (start offset' line') :=
    ⟨rfl, Nat.add_comm _ _, .nil, ⟨rfl, rfl⟩, ⟨rfl, rfl⟩, .nil, .rfl⟩
  have hread := (hstart.run (part.length + 1)).reportOpen
  generalize hs : ((start offset line).run (part.length + 1)).reportOpen = s at hread
  generalize hs' : ((start offset' line').run (part.length + 1)).reportOpen = s' at hread
  have heof : (s.emptyToken .eof).Alike (Shift offset offset') (s'.emptyToken .eof) :=
    ⟨rfl, fun _ => rfl, fun h => nomatch (h : true = false)⟩
  have hfield : lexField offset line part = s.finish := congrArg Lexer.finish hs
  have hfield' : lexField offset' line' part = s'.finish := congrArg Lexer.finish hs'
  rw [hfield, hfield']
  exact ⟨(hread.push heof).tokens, hread.clean⟩

/-! ## Sources -/

/-- A token stands in front of another, if neither lays out lines. -/
def Before (t u : Token) : Prop :=
  t.kind.isLayout = false → u.kind.isLayout = false → t.span.lo < u.span.lo

namespace Lexer

/-- The tokens stand one behind the other and in front of what is unread. -/
structure Ordered (s : Lexer) : Prop where
  tokens : s.tokens.toList.Pairwise Before
  unread : ∀ t ∈ s.tokens, t.kind.isLayout = false → t.span.lo < s.pos

namespace Ordered

variable {s : Lexer}

theorem advance (h : s.Ordered) (n : Nat) : (s.advance n).Ordered :=
  ⟨h.tokens, fun t ht hk => Nat.lt_add_right n (h.unread t ht hk)⟩

/-- Nothing but tokens and the place is looked at. -/
theorem of_eq {s' : Lexer} (h : s.Ordered) (htokens : s'.tokens = s.tokens) (hpos : s'.pos = s.pos) :
    s'.Ordered := by
  refine ⟨?_, ?_⟩
  · rw [htokens]
    exact h.tokens
  · rw [htokens, hpos]
    exact h.unread

theorem report (h : s.Ordered) (code : Code) (span : Span) (arg : Text) :
    (s.report code span arg).Ordered :=
  h.of_eq rfl rfl

theorem push_layout (h : s.Ordered) {t : Token} (ht : t.kind.isLayout = true) :
    (s.push t).Ordered := by
  refine ⟨?_, fun u hu hk => ?_⟩
  · simp only [push, Array.toList_push, List.pairwise_append, List.pairwise_singleton,
      List.mem_singleton, true_and]
    refine ⟨h.tokens, fun u _ v hv _ hk => ?_⟩
    rw [hv, ht] at hk
    nomatch hk
  · rcases Array.mem_push.mp hu with hu | rfl
    · exact h.unread u hu hk
    · rw [ht] at hk
      nomatch hk

/-- A token is not empty. -/
theorem take (h : s.Ordered) (k : Kind) {n : Nat} (hn : 0 < n) : (s.take k n).Ordered := by
  refine ⟨?_, fun u hu hk => ?_⟩
  · simp only [Lexer.take, Lexer.advance, push, Array.toList_push, List.pairwise_append,
      List.pairwise_singleton, List.mem_singleton, true_and]
    refine ⟨h.tokens, fun u hu v hv hk _ => ?_⟩
    rw [hv]
    exact h.unread u (Array.mem_toList_iff.mp hu) hk
  · show u.span.lo < s.pos + n
    rcases Array.mem_push.mp hu with hu | rfl
    · exact Nat.lt_add_right n (h.unread u hu hk)
    · exact Nat.lt_add_of_pos_right hn

theorem indentTo (h : s.Ordered) (col : Nat) : (s.indentTo col).Ordered := by
  have hclose (indents : List Nat) {s : Lexer} (h : s.Ordered) :
      (closeIndents col indents s).2.Ordered := by
    induction indents generalizing s with
    | nil => exact h
    | cons top below ih =>
      unfold closeIndents
      split
      · exact ih (h.push_layout rfl)
      · exact h
  unfold Lexer.indentTo
  dsimp only
  split
  · exact (h.push_layout (t := s.emptyToken .indent) rfl).of_eq rfl rfl
  · have hclosed := hclose s.indents h
    split
    · exact hclosed.of_eq rfl rfl
    · exact hclosed.of_eq rfl rfl

theorem lineStart (h : s.Ordered) : s.lineStart.lexer.Ordered := by
  unfold Lexer.lineStart
  dsimp only
  split
  · exact h.advance _
  · generalize hs₁ : s.advance (s.rest.takeWhile isBlank).length = s₁
    have h₁ : s₁.Ordered := hs₁ ▸ h.advance _
    have hcomment : (if s₁.rest.head? = some (ascii '#') then s₁.advance (toLineEnd s₁.rest)
        else s₁).Ordered := by
      split
      · exact h₁.advance _
      · exact h₁
    generalize (if s₁.rest.head? = some (ascii '#') then s₁.advance (toLineEnd s₁.rest)
      else s₁) = s₂ at hcomment ⊢
    split
    · exact hcomment.advance 1
    · split
      · exact hcomment.advance _
      · have hline : Ordered { s₂ with atLineStart := false } := hcomment.of_eq rfl rfl
        exact hline.indentTo _

theorem string (h : s.Ordered) {letters : Nat} {b : UInt8} {t : Text}
    (hrest : s.rest.drop letters = b :: t) : (s.string letters).Ordered := by
  unfold Lexer.string
  simp only [hrest]
  generalize hopener : (b :: t).take _ = opener
  have hlength : 0 < opener.length := by
    rw [← hopener]
    split <;> simp
  split
  · exact h.take _ (by omega)
  · exact (h.report ..).take _ (by omega)

theorem track (h : s.Ordered) (t : Token) : (s.track t).Ordered := by
  unfold Lexer.track
  split
  · exact h.of_eq rfl rfl
  · split
    · exact h
    · split
      · split
        · exact h.of_eq rfl rfl
        · exact h.report ..
      · exact h.report ..

theorem sign (h : s.Ordered) : s.sign.Ordered := by
  have hspelling : ∀ e ∈ Kind.signTable, 0 < e.1.length := by decide +kernel
  unfold Lexer.sign
  cases hsign : Kind.sign? s.rest with
  | none => exact (h.take _ (Nat.add_pos_left Nat.one_pos _)).track _
  | some found => exact (h.take _ (hspelling _ (List.mem_of_find?_eq_some hsign))).track _

theorem lineFeed (h : s.Ordered) : s.lineFeed.Ordered := by
  unfold Lexer.lineFeed
  dsimp only
  split
  · split
    · exact ((h.advance 1).push_layout rfl).of_eq rfl rfl
    · exact (h.advance 1).of_eq rfl rfl
  · exact h.advance 1

end Ordered

end Lexer

/-- What starts like a number is not empty. -/
theorem Number.length_scan_pos {b : UInt8} {t : Text}
    (h : (Text.isDigit b || (b = ascii '.' && t.head?.any Text.isDigit)) = true) :
    0 < (Number.scan (b :: t)).length := by
  have hdecimal : 0 < (Number.decimal (b :: t)).length := by
    unfold Number.decimal
    by_cases hdigit : Text.isDigit b = true
    · have hmark : b ≠ ascii '_' := by
        rintro rfl
        exact absurd hdigit (by decide)
      simp [Number.digits, Number.run, hdigit, hmark] <;> omega
    · rw [Bool.not_eq_true] at hdigit
      rw [hdigit, Bool.false_or, Bool.and_eq_true, decide_eq_true_eq] at h
      obtain ⟨rfl, hnext⟩ := h
      have hwhole : Number.digits Text.isDigit (ascii '.' :: t) = ⟨[], 0, false⟩ := rfl
      simp [hwhole, Number.fraction?, hnext] <;> omega
  unfold Number.scan
  refine Nat.lt_of_lt_of_le ?_ (Nat.le_add_right _ _)
  unfold Number.bare
  split
  · split
    · split
      · simp only [Number.based]
        omega
      · exact hdecimal
    · exact hdecimal
  · exact hdecimal

namespace Lexer

namespace Ordered

variable {s : Lexer}

theorem item (h : s.Ordered) {b : UInt8} {t : Text} (hrest : s.rest = b :: t) :
    (s.item b).Ordered := by
  unfold Lexer.item
  dsimp only
  split
  · exact h.advance 1
  split
  · exact h.advance _
  split
  · split
    · exact h.advance _
    · exact (h.report ..).advance 1
  split
  · exact h.lineFeed
  split
  · next hnumber =>
    rw [hrest, List.drop_one, List.tail_cons] at hnumber
    have hlength := Number.length_scan_pos hnumber
    rw [← hrest] at hlength
    unfold number
    dsimp only
    split
    · exact (h.report ..).take _ hlength
    · exact h.take _ hlength
  split
  · next hstart =>
    unfold word
    dsimp only
    split
    · next hquoted =>
      rw [Bool.and_eq_true] at hquoted
      obtain ⟨q, hq, -⟩ := (Option.any_eq_true _ _).mp hquoted.1
      obtain ⟨after, hafter⟩ := List.head?_eq_some_iff.mp hq
      exact h.string hafter
    · have hpart : isIdentPart b = true := by rw [isIdentPart, hstart, Bool.true_or]
      exact h.take _ (by rw [hrest, List.takeWhile_cons_of_pos hpart]; simp)
  split
  · exact h.string hrest
  · exact h.sign

theorem step (h : s.Ordered) : s.step.1.Ordered := by
  have hread {s : Lexer} (h : s.Ordered) : s.readItem.1.Ordered := by
    unfold readItem
    split
    · exact h
    · next hrest => exact h.item hrest
  have hline := h.lineStart
  rw [step_eq]
  split
  · split
    · next hs' =>
      rw [hs'] at hline
      exact hline
    · next hs' =>
      rw [hs'] at hline
      exact hread hline
  · exact hread h

theorem run (h : s.Ordered) (steps : Nat) : (s.run steps).Ordered := by
  induction steps generalizing s with
  | zero => exact h
  | succ steps ih =>
    have hstep := h.step
    rw [Lexer.run]
    split
    · next hs' =>
      rw [hs'] at hstep
      exact ih hstep
    · next hs' =>
      rw [hs'] at hstep
      exact hstep

theorem finish (h : s.Ordered) : s.reportOpen.finishLines.finish.1.toList.Pairwise Before := by
  have hfold (l : List Token) : (l.foldr
      (fun t s => s.report .unmatchedBracket t.span t.lexeme) s).Ordered := by
    induction l with
    | nil => exact h
    | cons _ l ih => exact ih.report ..
  have hopen : s.reportOpen.Ordered := (hfold s.brackets).of_eq rfl rfl
  generalize s.reportOpen = s₁ at hopen ⊢
  have hdedent (l : List Nat) {s : Lexer} (h : s.Ordered) :
      (l.foldl (fun s _ => s.push (s.emptyToken .dedent)) s).Ordered := by
    induction l generalizing s with
    | nil => exact h
    | cons _ l ih => exact ih (h.push_layout rfl)
  have hlines : s₁.finishLines.Ordered := by
    unfold finishLines
    dsimp only
    refine hdedent _ ?_
    split
    · exact hopen.push_layout rfl
    · exact hopen
  exact (hlines.push_layout (t := emptyToken .eof _) rfl).tokens

end Ordered

end Lexer

/-- Tokens of a source stand one behind the other. -/
theorem lex_pairwise_before (source : Text) : (lex source).1.toList.Pairwise Before := by
  unfold lex
  split
  · exact List.pairwise_singleton _ _
  · refine Lexer.Ordered.finish (Lexer.Ordered.run ?_ _)
    exact ⟨.nil, fun t ht => absurd ht (Array.not_mem_empty t)⟩

/-- The places of tokens that belong together and do not lay out lines. -/
def SamePlace (ts us : Array Token) (a b : Nat) : Prop :=
  ∃ (i : Nat) (t u : Token), ts[i]? = some t ∧ us[i]? = some u ∧ t.kind.isLayout = false ∧ u.kind.isLayout = false ∧
    t.span.lo = a ∧ u.span.lo = b

theorem oneToOne_samePlace {ts us : Array Token} (ht : ts.toList.Pairwise Before)
    (hu : us.toList.Pairwise Before) : OneToOne (SamePlace ts us) := by
  have hindex {ts : Array Token} (h : ts.toList.Pairwise Before) {i j : Nat} {t t' : Token}
      (hi : ts[i]? = some t) (hj : ts[j]? = some t') (hk : t.kind.isLayout = false)
      (hk' : t'.kind.isLayout = false) (heq : t.span.lo = t'.span.lo) : i = j := by
    rw [← Array.getElem?_toList, List.getElem?_eq_some_iff] at hi hj
    obtain ⟨hi, rfl⟩ := hi
    obtain ⟨hj, rfl⟩ := hj
    rcases Nat.lt_trichotomy i j with hlt | hlt | hlt
    · exact absurd (List.pairwise_iff_getElem.mp h i j hi hj hlt hk hk') (by omega)
    · exact hlt
    · exact absurd (List.pairwise_iff_getElem.mp h j i hj hi hlt hk' hk) (by omega)
  rintro _ _ _ _ ⟨i, t, u, hti, hui, htk, huk, rfl, rfl⟩ ⟨j, t', u', htj, huj, htk', huk', rfl, rfl⟩
  constructor
  · intro heq
    obtain rfl := hindex ht hti htj htk htk' heq
    rw [Option.some.inj (hui.symm.trans huj)]
  · intro heq
    obtain rfl := hindex hu hui huj huk huk' heq
    rw [Option.some.inj (hti.symm.trans htj)]

end Token

end CloneScout
