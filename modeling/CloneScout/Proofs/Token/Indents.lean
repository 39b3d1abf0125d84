import CloneScout.Proofs.Token.Lines
import CloneScout.Proofs.Token.Moves
import CloneScout.Token.Cursor
import Mathlib.Data.List.DropRight

/-!
# What stands behind an indentation

An indentation is opened for what a line holds, so a token of the line follows. The exception is a
comment that ends the text without a line feed: it counts as something that the line holds, but it
leaves no token.
-/

namespace CloneScout

namespace Cursor

/-- Something stands behind every indentation before the line ends. -/
def Solid (c : Cursor) : Prop :=
  ∀ i, (c.get i).kind = .indent → (c.get (i + 1)).kind.isLayout = false

variable {c c' : Cursor}

theorem Solid.of_tokens (h : c.Solid) (htokens : c'.tokens = c.tokens) : c'.Solid := by
  obtain ⟨tokens, pos⟩ := c
  obtain ⟨tokens', pos'⟩ := c'
  obtain rfl : tokens' = tokens := htokens
  exact h

end Cursor

namespace Token

open Diagnostic (Clean)

/-- Behind every indentation stands a token of the line. -/
def Indented (ts : Array Token) : Prop :=
  ∀ (i : Nat) (hi : i < ts.size), ts[i].kind = .indent →
    ∃ hnext : i + 1 < ts.size, ts[i + 1].kind.isLayout = false

namespace Indented

variable {ts : Array Token} {t u : Token}

theorem empty : Indented #[] := fun i hi => absurd hi (Nat.not_lt_zero i)

theorem push (h : Indented ts) (ht : t.kind ≠ .indent) : Indented (ts.push t) := by
  intro i hi hkind
  by_cases hlt : i < ts.size
  · rw [Array.getElem_push_lt hlt] at hkind
    obtain ⟨hnext, hlayout⟩ := h i hlt hkind
    exact ⟨by rw [Array.size_push]; omega, by rwa [Array.getElem_push_lt hnext]⟩
  · rw [Array.size_push] at hi
    obtain rfl : i = ts.size := by omega
    rw [Array.getElem_push_eq] at hkind
    exact absurd hkind ht

/-- Whatever was put out last, a token of the line may follow it. -/
theorem push_push (h : Indented ts) (hu : u.kind.isLayout = false) :
    Indented ((ts.push t).push u) := by
  have hindent : u.kind ≠ .indent := by
    rintro hkind
    rw [hkind] at hu
    nomatch hu
  intro i hi hkind
  rw [Array.size_push] at hi
  rcases Nat.lt_succ_iff_lt_or_eq.mp hi with hlt | rfl
  · by_cases hless : i < ts.size
    · rw [Array.getElem_push_lt hlt, Array.getElem_push_lt hless] at hkind
      obtain ⟨hnext, hlayout⟩ := h i hless hkind
      have hnext' : i + 1 < (ts.push t).size := by rw [Array.size_push]; omega
      refine ⟨by rw [Array.size_push]; omega, ?_⟩
      rwa [Array.getElem_push_lt hnext', Array.getElem_push_lt hnext]
    · rw [Array.size_push] at hlt
      obtain rfl : i = ts.size := by omega
      refine ⟨by simp, ?_⟩
      have hsize : ts.size + 1 = (ts.push t).size := (Array.size_push t).symm
      simpa only [hsize, Array.getElem_push_eq] using hu
  · rw [Array.getElem_push_eq] at hkind
    exact absurd hkind hindent

/-- The last token is no indentation, so a cursor sees none behind it. -/
theorem solid (h : Indented ts) (pos : Nat) : Cursor.Solid ⟨ts, pos⟩ := by
  intro i hkind
  unfold Cursor.get at hkind ⊢
  rcases Nat.lt_or_ge i ts.size with hlt | hge
  · simp only [Array.getElem?_eq_getElem hlt, Option.getD_some] at hkind
    obtain ⟨hnext, hlayout⟩ := h i hlt hkind
    simpa only [Array.getElem?_eq_getElem hnext, Option.getD_some] using hlayout
  · simp only [Array.getElem?_eq_none hge, Option.getD_none, Cursor.final] at hkind
    cases hback : ts.back? with
    | none =>
      rw [hback] at hkind
      nomatch hkind
    | some t =>
      rw [hback] at hkind
      obtain ⟨hsize, rfl⟩ := Array.getElem?_eq_some_iff.mp (Array.back?_eq_getElem? ▸ hback)
      obtain ⟨hnext, -⟩ := h (ts.size - 1) hsize hkind
      omega

end Indented

namespace Lexer

/-! ## Items -/

/-- One token of a line is put out. -/
def Puts (s s' : Lexer) : Prop :=
  ∃ t : Token, t.kind.isLayout = false ∧ s'.tokens = s.tokens.push t ∧
    s'.atLineStart = s.atLineStart

variable {s s' : Lexer}

theorem puts_take (kind : Kind) (h : kind.isLayout = false) (n : Nat) : s.Puts (s.take kind n) :=
  ⟨s.tokenOf kind n, h, rfl, rfl⟩

theorem puts_string (letters : Nat) : s.Puts (s.string letters) := by
  unfold string
  dsimp only
  generalize (s.rest.drop letters).take _ = opener
  split
  · exact puts_take .stringLit rfl _
  · exact (puts_take .error rfl _ : (s.report _ _ _).Puts _)

theorem puts_number : s.Puts s.number := by
  unfold number
  dsimp only
  split
  · exact (puts_take .error rfl _ : (s.report _ _ _).Puts _)
  · exact puts_take _ (isLayout_number _) _

theorem puts_word : s.Puts s.word := by
  unfold word
  dsimp only
  split
  · exact puts_string _
  · exact puts_take _ (isLayout_ofWord _) _

theorem track_stays (t : Token) (s : Lexer) :
    (track t s).tokens = s.tokens ∧ (track t s).atLineStart = s.atLineStart := by
  unfold track
  split
  · exact ⟨rfl, rfl⟩
  · split
    · exact ⟨rfl, rfl⟩
    · split
      · split <;> exact ⟨rfl, rfl⟩
      · exact ⟨rfl, rfl⟩

theorem puts_sign : s.Puts s.sign := by
  have htable : ∀ e ∈ Kind.signTable, e.2.isLayout = false := by decide +kernel
  have htrack {kind : Kind} (h : kind.isLayout = false) (n : Nat) :
      s.Puts (track (s.tokenOf kind n) (s.take kind n)) := by
    obtain ⟨htokens, hstart⟩ := track_stays (s.tokenOf kind n) (s.take kind n)
    exact ⟨s.tokenOf kind n, h, htokens, hstart⟩
  unfold sign
  cases hsign : Kind.sign? s.rest with
  | none => exact htrack rfl _
  | some found => exact htrack (htable _ (List.mem_of_find?_eq_some hsign)) _

/-- What starts a token puts it out. -/
theorem puts_item {b : UInt8} (h : Starts b) : s.Puts (s.item b) := by
  obtain ⟨hblank, hmark, hbackslash, hfeed⟩ := h
  unfold item
  dsimp only
  rw [if_neg (by simp [hblank]), if_neg hmark, if_neg hbackslash, if_neg hfeed]
  split
  · exact puts_number
  split
  · exact puts_word
  split
  · exact puts_string 0
  · exact puts_sign

/-- What does not start a token puts out none, except at the end of a line. -/
theorem item_stays {b : UInt8} (h : ¬ Starts b) (hfeed : b ≠ 10) :
    (s.item b).tokens = s.tokens ∧ (s.item b).atLineStart = s.atLineStart := by
  unfold item
  dsimp only
  split
  · exact ⟨rfl, rfl⟩
  · next hblank =>
    split
    · exact ⟨rfl, rfl⟩
    · next hmark =>
      split
      · split <;> exact ⟨rfl, rfl⟩
      · next hbackslash => exact absurd ⟨by simpa using hblank, hmark, hbackslash, hfeed⟩ h

/-! ## The start of a line -/

/-- The text holds a line feed right in front of the rest. -/
def Behind (t rest : Text) : Prop := ∃ u, t = u ++ 10 :: rest

/-- What the start of a line leads to: a later line or the end of the text, the end of a comment
that ends the text, or something that the line holds. -/
inductive LineLeads (s : Lexer) : LineStart → Prop where
  | skipped {s' : Lexer} (tokens : s'.tokens = s.tokens) (brackets : s'.brackets = s.brackets)
      (rest : s'.rest = [] ∨ Behind s.rest s'.rest) : LineLeads s (.skipped s')
  | comment {s' : Lexer} (col : Nat) (tokens : s'.tokens = s.tokens) (rest : s'.rest = [])
      (line : 10 ∉ s.rest) (mark : (s.rest.dropWhile isBlank).head? = some (ascii '#')) :
      LineLeads s (.content (indentTo col s'))
  | content {s' : Lexer} (col : Nat) (tokens : s'.tokens = s.tokens)
      (start : s'.atLineStart = false) {b : UInt8} {r : Text} (rest : s'.rest = b :: r)
      (starts : Starts b ∨ b = ascii '\\' ∧ continuation? s'.rest = none) :
      LineLeads s (.content (indentTo col s'))

theorem behind_continuation {t : Text} {n : Nat} (h : continuation? t = some n) :
    Behind t (t.drop n) := by
  unfold continuation? at h
  split at h
  · split at h
    · obtain rfl := Option.some.inj h
      exact ⟨[_], rfl⟩
    · nomatch h
  · split at h
    · obtain rfl := Option.some.inj h
      exact ⟨[_, 13], rfl⟩
    · nomatch h
  · nomatch h

theorem Behind.of_suffix {t u r : Text} (h : Behind u r) (hsuffix : u <:+ t) : Behind t r := by
  obtain ⟨v, rfl⟩ := hsuffix
  obtain ⟨w, rfl⟩ := h
  exact ⟨v ++ w, (List.append_assoc ..).symm⟩

theorem lineLeads (s : Lexer) : LineLeads s s.lineStart := by
  have hrest : (s.advance (s.rest.takeWhile isBlank).length).rest = s.rest.dropWhile isBlank :=
    rest_advance List.takeWhile_append_dropWhile.symm
  have htokens : (s.advance (s.rest.takeWhile isBlank).length).tokens = s.tokens := rfl
  have hbrackets : (s.advance (s.rest.takeWhile isBlank).length).brackets = s.brackets := rfl
  have hsuffix : s.rest.dropWhile isBlank <:+ s.rest := List.dropWhile_suffix _
  unfold lineStart
  dsimp only
  generalize s.advance (s.rest.takeWhile isBlank).length = s₁ at hrest htokens hbrackets ⊢
  rw [← hrest] at hsuffix
  split
  · next hempty => exact .skipped htokens hbrackets (.inl (List.isEmpty_iff.mp hempty))
  next hmore =>
  by_cases hmark : s₁.rest.head? = some (ascii '#')
  · rw [if_pos hmark]
    have hline : (s₁.advance (toLineEnd s₁.rest)).rest = s₁.rest.dropWhile (· ≠ 10) :=
      rest_advance List.takeWhile_append_dropWhile.symm
    have htokens₂ : (s₁.advance (toLineEnd s₁.rest)).tokens = s.tokens := htokens
    have hbrackets₂ : (s₁.advance (toLineEnd s₁.rest)).brackets = s.brackets := hbrackets
    generalize s₁.advance (toLineEnd s₁.rest) = s₂ at hline htokens₂ hbrackets₂ ⊢
    split
    · next hfeed =>
      obtain ⟨r, hr⟩ := List.head?_eq_some_iff.mp hfeed
      refine .skipped htokens₂ hbrackets₂ (.inr (Behind.of_suffix ?_ hsuffix))
      refine ⟨s₁.rest.takeWhile (· ≠ 10), ?_⟩
      have hr₁ : (s₂.advance 1).rest = r := rest_advance (t := [10]) hr
      rw [hr₁, ← hr, hline, List.takeWhile_append_dropWhile]
    · next hfeed =>
      -- Behind a comment stands a line feed or nothing.
      have hend : s₂.rest = [] := by
        cases hs₂ : s₂.rest with
        | nil => rfl
        | cons b r =>
          have hb := List.head?_dropWhile_not (· ≠ 10) s₁.rest
          rw [← hline, hs₂] at hb
          exact absurd (by simpa using hb) (by simpa [hs₂] using hfeed)
      split
      · next hn =>
        rw [hend] at hn
        cases hn
      · refine .comment _ htokens₂ hend ?_ (hrest ▸ hmark)
        rw [hend] at hline
        rw [← List.takeWhile_append_dropWhile (p := isBlank) (l := s.rest), ← hrest]
        simp only [List.mem_append, not_or]
        refine ⟨fun hmem => absurd (List.mem_takeWhile_imp hmem) (by decide), fun hmem => ?_⟩
        simpa using List.dropWhile_eq_nil_iff.mp hline.symm 10 hmem
  · rw [if_neg hmark]
    split
    · next hfeed =>
      obtain ⟨r, hr⟩ := List.head?_eq_some_iff.mp hfeed
      refine .skipped htokens hbrackets (.inr (Behind.of_suffix ⟨[], ?_⟩ hsuffix))
      simp [advance, hr]
    · next hfeed =>
      split
      · next n hn =>
        exact .skipped htokens hbrackets (.inr ((behind_continuation hn).of_suffix hsuffix))
      · next hnone =>
        obtain ⟨b, r, hs₁⟩ := List.exists_cons_of_ne_nil fun h => hmore (List.isEmpty_iff.mpr h)
        refine .content _ htokens rfl hs₁ ?_
        have hb : isBlank b = false := by
          simpa [← hrest, hs₁] using List.head?_dropWhile_not isBlank s.rest
        rw [hs₁, List.head?_cons, Option.some.injEq] at hmark hfeed
        by_cases hbackslash : b = ascii '\\'
        · exact .inr ⟨hbackslash, hnone⟩
        · exact .inl ⟨hb, hmark, hbackslash, hfeed⟩

theorem closeIndents_stays (col : Nat) (indents : List Nat) (s : Lexer) :
    (closeIndents col indents s).2.rest = s.rest ∧
      (closeIndents col indents s).2.atLineStart = s.atLineStart ∧
      (Indented s.tokens → Indented (closeIndents col indents s).2.tokens) := by
  induction indents generalizing s with
  | nil => exact ⟨rfl, rfl, id⟩
  | cons top below ih =>
    unfold closeIndents
    split
    · obtain ⟨hrest, hstart, htokens⟩ := ih (s.push (s.emptyToken .dedent))
      exact ⟨hrest, hstart, fun h => htokens (h.push (by simp [emptyToken]))⟩
    · exact ⟨rfl, rfl, id⟩

theorem indentTo_stays (col : Nat) (s : Lexer) :
    (indentTo col s).rest = s.rest ∧ (indentTo col s).atLineStart = s.atLineStart := by
  obtain ⟨hrest, hstart, -⟩ := closeIndents_stays col s.indents s
  unfold indentTo
  dsimp only
  split
  · exact ⟨rfl, rfl⟩
  · split <;> exact ⟨hrest, hstart⟩

/-- Behind a change of indentation a token of the line is put out. -/
theorem Puts.indented {col : Nat} (hputs : (indentTo col s).Puts s') (h : Indented s.tokens) :
    Indented s'.tokens := by
  obtain ⟨t, ht, htokens, -⟩ := hputs
  have hclosed := (closeIndents_stays col s.indents s).2.2 h
  have hindent : t.kind ≠ .indent := by
    rintro hkind
    rw [hkind] at ht
    nomatch ht
  rw [htokens]
  unfold indentTo
  dsimp only
  split
  · exact h.push_push ht
  · split
    · exact hclosed.push hindent
    · exact hclosed.push hindent

/-! ## Steps and runs -/

/-- The last line of the text is a comment. -/
def EndsInComment (t : Text) : Prop :=
  ((t.rtakeWhile (· ≠ 10)).dropWhile isBlank).head? = some (ascii '#')

/-- The lexer has not gone wrong: the rest is the end of the text, what it calls the start of a line
is one, and a token stands behind every indentation. -/
structure Aligned (t : Text) (s : Lexer) : Prop where
  place : s.rest <:+ t
  line : s.atLineStart = true → s.brackets = [] ∧ (s.rest = [] ∨ s.rest = t ∨ Behind t s.rest)
  tokens : Indented s.tokens

variable {t : Text}

theorem suffix_of_moves (h : s.Moves s') : s'.rest <:+ s.rest := by
  refine h.preserves (P := fun s' => s'.rest <:+ s.rest) (fun s₁ s₂ h₁ hmove => ?_)
    (List.suffix_refl _)
  cases hmove with
  | keep hrest => rwa [hrest]
  | skip => exact (List.drop_suffix ..).trans h₁
  | stray => exact (List.drop_suffix ..).trans h₁
  | take => exact (List.drop_suffix ..).trans h₁
  | newline => exact (List.drop_suffix ..).trans h₁
  | mark => exact h₁

theorem rtakeWhile_eq_self {r : Text} (h : 10 ∉ r) : r.rtakeWhile (· ≠ 10) = r := by
  refine List.rtakeWhile_eq_self_iff.mpr fun b hb => decide_eq_true ?_
  rintro rfl
  exact h hb

/-- The rest is the last line if no line feed follows. -/
theorem Aligned.rtakeWhile (h : s.Aligned t) (hstart : s.atLineStart = true) (hrest : s.rest ≠ [])
    (hline : 10 ∉ s.rest) : t.rtakeWhile (· ≠ 10) = s.rest := by
  rcases (h.line hstart).2 with hnil | hall | ⟨u, hu⟩
  · exact absurd hnil hrest
  · rw [← hall]
    exact rtakeWhile_eq_self hline
  · have hall : ∀ b ∈ s.rest.reverse, decide (b ≠ 10) = true := by
      intro b hb
      refine decide_eq_true ?_
      rintro rfl
      exact hline (List.mem_reverse.mp hb)
    rw [hu, List.rtakeWhile, List.reverse_append, List.reverse_cons, List.append_assoc,
      List.takeWhile_append_of_pos hall]
    simp

theorem Aligned.lineFeed (h : s.Aligned t) {r : Text} (hrest : s.rest = 10 :: r)
    (hstart : s.atLineStart = false) : s.lineFeed.Aligned t := by
  have hplace : (s.advance 1).rest <:+ t := (List.drop_suffix ..).trans h.place
  have hbehind : Behind t (s.advance 1).rest := by
    have hafter : (s.advance 1).rest = r := rest_advance (t := [10]) hrest
    rw [hafter]
    exact Behind.of_suffix ⟨[], rfl⟩ (hrest ▸ h.place)
  unfold Lexer.lineFeed
  dsimp only
  split
  · next houtside =>
    rw [Bool.and_eq_true, List.isEmpty_iff] at houtside
    have hline : s.brackets = [] ∧ ((s.advance 1).rest = [] ∨ (s.advance 1).rest = t ∨
        Behind t (s.advance 1).rest) := ⟨houtside.1, .inr (.inr hbehind)⟩
    split
    · exact ⟨hplace, fun _ => hline, h.tokens.push (by simp)⟩
    · exact ⟨hplace, fun _ => hline, h.tokens⟩
  · exact ⟨hplace, fun hline => (nomatch hstart.symm.trans hline), h.tokens⟩

theorem Aligned.item (h : s.Aligned t) {b : UInt8} {r : Text} (hrest : s.rest = b :: r)
    (hstart : s.atLineStart = false) : (s.item b).Aligned t := by
  have hplace := (suffix_of_moves (reads_item hrest).1).trans h.place
  by_cases hstarts : Starts b
  · obtain ⟨u, hu, htokens, hsame⟩ := puts_item (s := s) hstarts
    refine ⟨hplace, fun hline => (nomatch (hsame.trans hstart).symm.trans hline), ?_⟩
    rw [htokens]
    refine h.tokens.push ?_
    rintro hkind
    rw [hkind] at hu
    nomatch hu
  · by_cases hfeed : b = 10
    · subst hfeed
      exact h.lineFeed hrest hstart
    · obtain ⟨htokens, hsame⟩ := item_stays (s := s) hstarts hfeed
      refine ⟨hplace, fun hline => ?_, htokens ▸ h.tokens⟩
      nomatch (hsame.trans hstart).symm.trans hline

theorem not_clean_item {s : Lexer} (h : continuation? s.rest = none) :
    ¬ Clean (s.item (ascii '\\')).diags := by
  have hitem : s.item (ascii '\\') =
      (s.report .strayBackslash ⟨s.pos, s.pos + 1⟩ []).advance 1 := by
    unfold item
    dsimp only
    rw [if_neg (by decide), if_neg (by decide), if_pos rfl, h]
  rw [hitem]
  exact Diagnostic.not_clean_push_errorAt _ _ _ _

/-- At the start of a line a comment does not end the text, so a token follows. -/
theorem Aligned.step (h : s.Aligned t) (ht : ¬ EndsInComment t) (hclean : Clean s.step.1.diags) :
    s.step.1.Aligned t := by
  have hplace := (suffix_of_moves (moves_step s).1).trans h.place
  unfold Lexer.step at hclean hplace ⊢
  dsimp only at hclean hplace ⊢
  split
  · next hstart =>
    rw [if_pos hstart] at hclean hplace
    rw [Bool.and_eq_true] at hstart
    have hleads := lineLeads s
    generalize s.lineStart = found at hleads hclean hplace ⊢
    cases hleads with
    | @skipped s' htokens hbrackets hrest =>
      refine ⟨hplace, fun _ => ⟨hbrackets.trans (h.line hstart.1).1, ?_⟩, htokens ▸ h.tokens⟩
      exact hrest.imp_right fun hbehind => .inr (hbehind.of_suffix h.place)
    | comment col htokens hrest hline hmark =>
      have hne : s.rest ≠ [] := by
        rintro hnil
        rw [hnil] at hmark
        nomatch hmark
      -- The rest of the line is the last line of the text.
      exact absurd (by rw [EndsInComment, h.rtakeWhile hstart.1 hne hline]; exact hmark) ht
    | @content s' col htokens hline b r hrest hstarts =>
      obtain ⟨hsame, hstart'⟩ := indentTo_stays col s'
      have hrest' : (indentTo col s').rest = b :: r := hsame.trans hrest
      dsimp only at hclean hplace ⊢
      rw [hrest'] at hclean hplace ⊢
      rcases hstarts with hstarts | ⟨rfl, hstray⟩
      · have hputs := puts_item (s := indentTo col s') hstarts
        refine ⟨hplace, fun hl => ?_, hputs.indented (htokens ▸ h.tokens)⟩
        obtain ⟨-, -, -, hsame'⟩ := hputs
        nomatch (hsame'.trans (hstart'.trans hline)).symm.trans hl
      · exact absurd hclean (not_clean_item (hsame ▸ hstray))
  · next hinside =>
    split
    · exact h
    · next b r hrest =>
      refine h.item hrest (Bool.eq_false_iff.mpr fun hstart => hinside ?_)
      rw [hstart, (h.line hstart).1]
      rfl

/-- No move takes a report back. -/
theorem mem_diags_of_moves (h : s.Moves s') : ∀ d ∈ s.diags, d ∈ s'.diags := by
  refine h.preserves (P := fun s' => ∀ d ∈ s.diags, d ∈ s'.diags) (fun s₁ s₂ h₁ hmove d hd => ?_)
    fun _ => id
  cases hmove with
  | keep _ _ _ _ hkeep => exact hkeep d (h₁ d hd)
  | stray => exact Array.mem_push_of_mem _ (h₁ d hd)
  | _ => exact h₁ d hd

theorem clean_of_moves (h : s.Moves s') (hclean : Clean s'.diags) : Clean s.diags :=
  Diagnostic.clean_iff.mpr fun d hd => Diagnostic.clean_iff.mp hclean d (mem_diags_of_moves h d hd)

theorem Aligned.run {steps : Nat} (h : s.Aligned t) (ht : ¬ EndsInComment t)
    (hclean : Clean (s.run steps).diags) : (s.run steps).Aligned t := by
  induction steps generalizing s with
  | zero => exact h
  | succ steps ih =>
    have hstep := h.step ht
    rw [Lexer.run] at hclean ⊢
    split
    · next s' hs' =>
      rw [hs'] at hclean hstep
      exact ih (hstep (clean_of_moves (moves_run steps s') hclean)) hclean
    · next s' hs' =>
      rw [hs'] at hclean hstep
      exact hstep hclean

theorem aligned_start (source : Text) :
    (Lexer.start source).Aligned (Lexer.start source).rest :=
  ⟨List.suffix_refl _, fun _ => ⟨rfl, .inr (.inl rfl)⟩, .empty⟩

theorem indented_finishLines (h : Indented s.tokens) : Indented s.finishLines.tokens := by
  have hmark (kind : Kind) (hkind : kind ≠ .indent) {s : Lexer} (h : Indented s.tokens) :
      Indented (s.push (s.emptyToken kind)).tokens := h.push hkind
  have hfold (l : List Nat) {s : Lexer} (h : Indented s.tokens) :
      Indented (l.foldl (fun s _ => s.push (s.emptyToken .dedent)) s).tokens := by
    induction l generalizing s with
    | nil => exact h
    | cons _ l ih => exact ih (hmark .dedent (by decide) h)
  unfold finishLines
  dsimp only
  refine hfold _ ?_
  split
  · exact hmark .newline (by decide) h
  · exact h

end Lexer

namespace Lexer

theorem tokens_reportOpen (s : Lexer) : s.reportOpen.tokens = s.tokens := by
  have hfold (l : List Token) : (l.foldr
      (fun t s => s.report .unmatchedBracket t.span t.lexeme) s).tokens = s.tokens := by
    induction l with
    | nil => rfl
    | cons _ l ih => exact ih
  exact hfold s.brackets

end Lexer

/-- In a source that is read without a fault and does not end in a comment, a token of the line
stands behind every indentation. -/
theorem indented_lex {source : Text} (hclean : Clean (lex source).2)
    (hcomment : ¬ Lexer.EndsInComment (Lexer.start source).rest) : Indented (lex source).1 := by
  unfold lex at hclean ⊢
  split at hclean
  · exact absurd hclean (by simp [Diagnostic.clean_iff, invalidUtf8])
  · have hrun := Lexer.clean_of_moves ((Lexer.moves_reportOpen _).trans (Lexer.moves_finishLines _))
      hclean
    have haligned := (Lexer.aligned_start source).run hcomment hrun
    refine Indented.push (Lexer.indented_finishLines ?_) (by simp [Lexer.emptyToken])
    rw [Lexer.tokens_reportOpen]
    exact haligned.tokens

end Token

end CloneScout
