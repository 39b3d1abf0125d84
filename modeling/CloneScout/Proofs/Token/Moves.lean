import CloneScout.Proofs.Token.Places
import Mathlib.Data.List.TakeWhile
import Mathlib.Logic.Relation

/-!
# Moves of the lexer

All that the lexer ever does is one of six moves: it skips a gap between tokens, steps over a stray
backslash, cuts a token off, ends a line, puts out an empty token, or does its bookkeeping. Every
step is a sequence of moves, and unless it is the last one it reads at least one byte. So the steps
that are counted out for a text always reach its end.
-/

namespace CloneScout.Token

/-! ## Gaps -/

/-- Bytes that leave no token: blanks, a comment up to the end of its line, a line feed, and a
backslash with the line end behind it. -/
inductive Gap : Text → Prop where
  | blanks {t : Text} (h : ∀ b ∈ t, Lexer.isBlank b = true) : Gap t
  | comment {t : Text} (h : ∀ b ∈ t, b ≠ 10) : Gap (ascii '#' :: t)
  | lineFeed : Gap [10]
  | continuation : Gap [ascii '\\', 10]
  | returnContinuation : Gap [ascii '\\', 13, 10]

theorem gap_toLineEnd {t : Text} (h : t.head? = some (ascii '#')) :
    Gap (t.takeWhile (· ≠ 10)) := by
  obtain ⟨r, rfl⟩ := List.head?_eq_some_iff.mp h
  rw [List.takeWhile_cons_of_pos (by decide)]
  exact .comment fun b hb => by simpa using List.mem_takeWhile_imp hb

theorem gap_continuation {t : Text} {n : Nat} (h : Lexer.continuation? t = some n) :
    ∃ u r, t = u ++ r ∧ u.length = n ∧ 0 < n ∧ Gap u := by
  unfold Lexer.continuation? at h
  split at h
  · next b r =>
    split at h
    · next hb =>
      obtain rfl := Option.some.inj h
      exact ⟨[b, 10], r, rfl, rfl, by omega, hb ▸ .continuation⟩
    · nomatch h
  · next b r =>
    split at h
    · next hb =>
      obtain rfl := Option.some.inj h
      exact ⟨[b, 13, 10], r, rfl, rfl, by omega, hb ▸ .returnContinuation⟩
    · nomatch h
  · nomatch h

/-! ## Lengths of tokens -/

namespace Number

theorem prefix_text_run (isDigit : UInt8 → Bool) (afterUnderscore : Bool) (t : Text) :
    (run isDigit afterUnderscore t).text <+: t := by
  fun_induction run isDigit afterUnderscore t with
  | case1 => exact List.prefix_rfl
  | case2 _ _ _ ih => exact List.prefix_cons_inj _ |>.mpr ih
  | case3 _ _ _ _ _ _ ih => exact List.prefix_cons_inj _ |>.mpr ih
  | case4 => exact List.nil_prefix

theorem prefix_text_digits (isDigit : UInt8 → Bool) (t : Text) : (digits isDigit t).text <+: t := by
  unfold digits
  dsimp only
  split
  · exact List.nil_prefix
  · exact prefix_text_run isDigit true t

theorem prefix_text_fraction? (n : Nat) (t : Text) : (fraction? n t).elim [] Run.text <+: t := by
  unfold fraction?
  split
  · dsimp only
    split
    · rw [Option.elim_some]
      refine List.prefix_cons_inj _ |>.mpr ?_
      split
      · exact prefix_text_digits _ _
      · exact List.nil_prefix
    · exact List.nil_prefix
  · exact List.nil_prefix

theorem prefix_text_exponent? (t : Text) : (exponent? t).elim [] Run.text <+: t := by
  unfold exponent?
  split
  · split
    · split
      · split
        · exact List.prefix_cons_inj _ |>.mpr (prefix_text_digits _ _)
        · split
          · exact List.prefix_cons_inj _ |>.mpr
              (List.prefix_cons_inj _ |>.mpr (prefix_text_digits _ _))
          · exact List.nil_prefix
      · exact List.nil_prefix
    · exact List.nil_prefix
  · exact List.nil_prefix

theorem length_decimal_le (t : Text) : (decimal t).length ≤ t.length := by
  unfold decimal
  dsimp only
  have hwhole := (prefix_text_digits Text.isDigit t).length_le
  generalize (digits Text.isDigit t).digits = n
  generalize (digits Text.isDigit t).text.length = whole at hwhole ⊢
  have hpoint := (prefix_text_fraction? n (t.drop whole)).length_le
  generalize ((fraction? n (t.drop whole)).elim [] Run.text).length = point at hpoint ⊢
  have hpower := (prefix_text_exponent? ((t.drop whole).drop point)).length_le
  generalize ((exponent? ((t.drop whole).drop point)).elim [] Run.text).length = power at hpower ⊢
  split
  · next himaginary =>
    obtain ⟨b, hb, -⟩ := (Option.any_eq_true _ _).mp himaginary
    obtain ⟨r, hr⟩ := List.head?_eq_some_iff.mp hb
    have hlength := congrArg List.length hr
    simp only [List.length_drop, List.length_cons] at hpoint hpower hlength
    omega
  · simp only [List.length_drop] at hpoint hpower
    omega

theorem length_based_le (isDigit : UInt8 → Bool) (a b : UInt8) (t : Text) :
    (based isDigit t).length ≤ (a :: b :: t).length := by
  unfold based
  dsimp only
  split
  · next hmark =>
    obtain ⟨r, rfl⟩ := List.head?_eq_some_iff.mp hmark
    have hlength := (prefix_text_digits isDigit r).length_le
    simp only [List.drop_one, List.tail_cons, List.length_cons]
    omega
  · have hlength := (prefix_text_digits isDigit t).length_le
    simp only [List.drop_zero, List.length_cons]
    omega

/-- A literal does not reach behind the end of the text. -/
theorem length_scan_le (t : Text) : (scan t).length ≤ t.length := by
  have hbare : (bare t).length ≤ t.length := by
    unfold bare
    split
    · split
      · split
        · exact length_based_le ..
        · exact length_decimal_le _
      · exact length_decimal_le _
    · exact length_decimal_le _
  have hglued := (List.takeWhile_sublist isIdentPart (l := t.drop (bare t).length)).length_le
  rw [List.length_drop] at hglued
  show (bare t).length + ((t.drop (bare t).length).takeWhile isIdentPart).length ≤ t.length
  omega

end Number

namespace Lexer

/-- A string does not reach behind the end of the text. -/
theorem length_stringBody_le (quote : UInt8) (triple : Bool) (read : Nat) (t : Text) :
    (stringBody quote triple read t).1 ≤ read + t.length := by
  fun_induction stringBody quote triple read t with
  | case7 read b t _ _ _ _ hstart =>
    have hlength := (Text.startsWith_iff.mp hstart).length_le
    simp only [List.length_cons, List.length_nil] at hlength ⊢
    omega
  | _ => simp only [List.length_cons, List.length_nil] at *; omega

/-! ## Moves -/

/-- What the lexer can do at once. -/
inductive Move (s : Lexer) : Lexer → Prop where
  /-- Only indentations, brackets, marks of the line and diagnostics change. -/
  | keep {s' : Lexer} (rest : s'.rest = s.rest) (pos : s'.pos = s.pos) (line : s'.line = s.line)
      (tokens : s'.tokens = s.tokens) (diags : ∀ d ∈ s.diags, d ∈ s'.diags) : Move s s'
  | skip {t r : Text} (rest : s.rest = t ++ r) (gap : Gap t) : Move s (s.advance t.length)
  | stray {r : Text} (rest : s.rest = ascii '\\' :: r) :
      Move s ((s.report .strayBackslash ⟨s.pos, s.pos + 1⟩ []).advance 1)
  | take {kind : Kind} {n : Nat} (hkind : kind.isLayout = false) (hpos : 0 < n)
      (hlength : n ≤ s.rest.length) : Move s (s.take kind n)
  | newline {r : Text} (rest : s.rest = 10 :: r) :
      Move s ((s.advance 1).push ⟨.newline, ⟨s.pos, s.pos + 1⟩, [10], s.line, s.line⟩)
  | mark {kind : Kind} (hkind : kind.isLayout = true) (heof : kind ≠ .eof) :
      Move s (s.push (s.emptyToken kind))

/-- Moves one after the other. -/
def Moves : Lexer → Lexer → Prop := Relation.ReflTransGen Move

namespace Moves

variable {s s' s'' : Lexer}

theorem refl (s : Lexer) : s.Moves s := Relation.ReflTransGen.refl

theorem trans (h : s.Moves s') (h' : s'.Moves s'') : s.Moves s'' := Relation.ReflTransGen.trans h h'

theorem move (h : s.Moves s') (h' : s'.Move s'') : s.Moves s'' := .tail h h'

/-- What no move changes holds after any number of moves. -/
theorem preserves {P : Lexer → Prop} (hmove : ∀ s s', P s → s.Move s' → P s') (h : s.Moves s')
    (hs : P s) : P s' := by
  induction h with
  | refl => exact hs
  | tail _ hmoved ih => exact hmove _ _ ih hmoved

theorem keep (h : s.Moves s') (rest : s''.rest = s'.rest) (pos : s''.pos = s'.pos)
    (line : s''.line = s'.line) (tokens : s''.tokens = s'.tokens)
    (diags : ∀ d ∈ s'.diags, d ∈ s''.diags) : s.Moves s'' :=
  h.move (.keep rest pos line tokens diags)

theorem report (h : s.Moves s') (code : Diagnostic.Code) (span : Span) (arg : Text) :
    s.Moves (s'.report code span arg) :=
  h.keep rfl rfl rfl rfl fun _ hd => Array.mem_push_of_mem _ hd

end Moves

/-- A move reads on and loses nothing of the text. -/
theorem Move.length {s s' : Lexer} (h : s.Move s') :
    s.pos ≤ s'.pos ∧ s'.pos + s'.rest.length = s.pos + s.rest.length := by
  cases h with
  | keep rest pos => rw [rest, pos]; exact ⟨Nat.le_refl _, rfl⟩
  | skip rest =>
    simp only [advance, rest, List.length_drop, List.length_append]
    omega
  | stray rest =>
    simp only [advance, Lexer.report, rest, List.length_drop, List.length_cons]
    omega
  | take _ _ hlength =>
    simp only [Lexer.take, advance, push, List.length_drop]
    omega
  | newline rest =>
    simp only [advance, push, rest, List.length_drop, List.length_cons]
    omega
  | mark => exact ⟨Nat.le_refl _, rfl⟩

theorem Moves.length {s s' : Lexer} (h : s.Moves s') :
    s.pos ≤ s'.pos ∧ s'.pos + s'.rest.length = s.pos + s.rest.length := by
  refine h.preserves (P := fun s' => s.pos ≤ s'.pos ∧
    s'.pos + s'.rest.length = s.pos + s.rest.length) (fun s₁ s₂ h₁ hmove => ?_) ⟨Nat.le_refl _, rfl⟩
  have := hmove.length
  omega

/-- Moves that read at least one byte. -/
def Reads (s s' : Lexer) : Prop := s.Moves s' ∧ s.pos < s'.pos

namespace Reads

variable {s s' s'' : Lexer}

theorem after (h : s.Moves s') (h' : s'.Reads s'') : s.Reads s'' :=
  ⟨h.trans h'.1, Nat.lt_of_le_of_lt h.length.1 h'.2⟩

theorem moves (h : s.Reads s') (h' : s'.Moves s'') : s.Reads s'' :=
  ⟨h.1.trans h', Nat.lt_of_lt_of_le h.2 h'.length.1⟩

theorem skip {t r : Text} (rest : s.rest = t ++ r) (gap : Gap t) (hpos : 0 < t.length) :
    s.Reads (s.advance t.length) :=
  ⟨(Moves.refl s).move (.skip rest gap), Nat.lt_add_of_pos_right hpos⟩

theorem take {kind : Kind} {n : Nat} (hkind : kind.isLayout = false) (hpos : 0 < n)
    (hlength : n ≤ s.rest.length) : s.Reads (s.take kind n) :=
  ⟨(Moves.refl s).move (.take hkind hpos hlength), Nat.lt_add_of_pos_right hpos⟩

end Reads

/-! ## The start of a line -/

theorem moves_closeIndents (col : Nat) (indents : List Nat) (s : Lexer) :
    s.Moves (closeIndents col indents s).2 := by
  induction indents generalizing s with
  | nil => exact .refl s
  | cons top below ih =>
    unfold closeIndents
    split
    · exact ((Moves.refl s).move (.mark rfl (by decide))).trans (ih _)
    · exact .refl s

theorem moves_indentTo (col : Nat) (s : Lexer) : s.Moves (s.indentTo col) := by
  unfold indentTo
  dsimp only
  split
  · have hindent : s.Move (s.push (s.emptyToken .indent)) := .mark rfl (by decide)
    exact ((Moves.refl s).move hindent).keep rfl rfl rfl rfl fun _ => id
  · have hclosed := moves_closeIndents col s.indents s
    split
    · exact hclosed.keep rfl rfl rfl rfl fun _ => id
    · exact hclosed.keep rfl rfl rfl rfl fun _ hd => Array.mem_push_of_mem _ hd

/-- Blanks and a comment in front of a line. -/
theorem moves_blanks (s : Lexer) : s.Moves (s.advance (s.rest.takeWhile isBlank).length) :=
  (Moves.refl s).move (.skip (List.takeWhile_append_dropWhile (p := isBlank)).symm
    (.blanks fun _ hb => List.mem_takeWhile_imp hb))

theorem moves_comment {s : Lexer} (h : s.rest.head? = some (ascii '#')) :
    s.Reads (s.advance (toLineEnd s.rest)) := by
  refine .skip (r := s.rest.dropWhile (· ≠ 10)) List.takeWhile_append_dropWhile.symm
    (gap_toLineEnd h) ?_
  obtain ⟨r, hr⟩ := List.head?_eq_some_iff.mp h
  rw [hr, List.takeWhile_cons_of_pos (by decide)]
  exact Nat.succ_pos _

theorem reads_lineFeed_skip {s : Lexer} (h : s.rest.head? = some 10) : s.Reads (s.advance 1) := by
  obtain ⟨r, hr⟩ := List.head?_eq_some_iff.mp h
  exact .skip (t := [10]) hr .lineFeed Nat.one_pos

theorem reads_continuation {s : Lexer} {n : Nat} (h : continuation? s.rest = some n) :
    s.Reads (s.advance n) := by
  obtain ⟨u, r, hrest, rfl, hpos, hgap⟩ := gap_continuation h
  exact .skip hrest hgap hpos

/-- A line that is skipped is read, unless the text ends. -/
theorem moves_lineStart (s : Lexer) : s.Moves s.lineStart.lexer ∧
    ∀ s', s.lineStart = .skipped s' → s'.rest ≠ [] → s.pos < s'.pos := by
  unfold lineStart
  dsimp only
  have hblanks := moves_blanks s
  generalize s.advance (s.rest.takeWhile isBlank).length = s₁ at hblanks ⊢
  split
  · next hempty =>
    refine ⟨hblanks, fun s' hs' hrest => ?_⟩
    obtain rfl := LineStart.skipped.inj hs'
    exact absurd (List.isEmpty_iff.mp hempty) hrest
  · have hcomment : s.Moves (if s₁.rest.head? = some (ascii '#') then s₁.advance (toLineEnd s₁.rest)
        else s₁) := by
      split
      · next h => exact hblanks.trans (moves_comment h).1
      · exact hblanks
    generalize (if s₁.rest.head? = some (ascii '#') then s₁.advance (toLineEnd s₁.rest)
      else s₁) = s₂ at hcomment ⊢
    split
    · next hfeed =>
      have hreads := Reads.after hcomment (reads_lineFeed_skip hfeed)
      exact ⟨hreads.1, fun s' hs' _ => LineStart.skipped.inj hs' ▸ hreads.2⟩
    · split
      · next n hn =>
        have hreads := Reads.after hcomment (reads_continuation hn)
        exact ⟨hreads.1, fun s' hs' _ => LineStart.skipped.inj hs' ▸ hreads.2⟩
      · have hline : s.Moves { s₂ with atLineStart := false } :=
          hcomment.keep rfl rfl rfl rfl fun _ => id
        exact ⟨hline.trans (moves_indentTo _ _), fun s' hs' => by cases hs'⟩

/-! ## Items -/

theorem reads_string {s : Lexer} {letters : Nat} {b : UInt8} {t : Text}
    (h : s.rest.drop letters = b :: t) : s.Reads (s.string letters) := by
  unfold string
  simp only [h]
  generalize hopener : (b :: t).take _ = opener
  have hopen : 0 < opener.length ∧ opener.length ≤ (b :: t).length := by
    rw [← hopener]
    exact ⟨by split <;> simp, List.length_take_le' ..⟩
  generalize Text.startsWith (b :: t) _ = triple
  have hbody := length_stringBody_le ((b :: t).headD 0) triple 0 ((b :: t).drop opener.length)
  generalize stringBody ((b :: t).headD 0) triple 0 ((b :: t).drop opener.length) = found at hbody ⊢
  have hlength : letters + opener.length + found.1 ≤ s.rest.length := by
    have hrest := congrArg List.length h
    rw [List.length_drop] at hbody hrest
    omega
  split
  · exact .take rfl (by omega) hlength
  · exact .after ((Moves.refl s).report ..) (.take rfl (by omega) hlength)

theorem isLayout_number (t : Text) : (Number.scan t).kind.isLayout = false := by
  have hdecimal (t : Text) : (Number.decimal t).kind.isLayout = false := by
    unfold Number.decimal
    dsimp only
    split
    · rfl
    · split <;> rfl
  show (Number.bare t).kind.isLayout = false
  unfold Number.bare
  split
  · split
    · split
      · rfl
      · exact hdecimal _
    · exact hdecimal _
  · exact hdecimal _

theorem isLayout_ofWord (w : Text) : (Kind.ofWord w).isLayout = false := by
  have hall : ∀ e ∈ Kind.keywordTable, e.2.isLayout = false := by decide +kernel
  unfold Kind.ofWord
  cases hlook : Kind.keywordTable.lookup w with
  | none => rfl
  | some k =>
    obtain ⟨l₁, l₂, hsplit, -⟩ := List.lookup_eq_some_iff.mp hlook
    exact hall (w, k) (by rw [hsplit]; simp)

theorem reads_number {s : Lexer} {b : UInt8} {t : Text} (hrest : s.rest = b :: t)
    (h : (Text.isDigit b || (b = ascii '.' && t.head?.any Text.isDigit)) = true) :
    s.Reads s.number := by
  have hpos := Number.length_scan_pos h
  rw [← hrest] at hpos
  have hlength := Number.length_scan_le s.rest
  unfold number
  dsimp only
  split
  · exact .after ((Moves.refl s).report ..) (.take rfl hpos hlength)
  · exact .take (isLayout_number _) hpos hlength

theorem reads_word {s : Lexer} {b : UInt8} {t : Text} (hrest : s.rest = b :: t)
    (h : isIdentStart b = true) : s.Reads s.word := by
  unfold word
  dsimp only
  split
  · next hquoted =>
    rw [Bool.and_eq_true] at hquoted
    obtain ⟨q, hq, -⟩ := (Option.any_eq_true _ _).mp hquoted.1
    obtain ⟨after, hafter⟩ := List.head?_eq_some_iff.mp hq
    exact reads_string hafter
  · have hpart : isIdentPart b = true := by rw [isIdentPart, h, Bool.true_or]
    refine .take (isLayout_ofWord _) ?_ (List.takeWhile_sublist _).length_le
    rw [hrest, List.takeWhile_cons_of_pos hpart]
    exact Nat.succ_pos _

theorem moves_track (t : Token) (s : Lexer) : s.Moves (track t s) := by
  unfold track
  split
  · exact (Moves.refl s).keep rfl rfl rfl rfl fun _ => id
  · split
    · exact .refl s
    · split
      · split
        · exact (Moves.refl s).keep rfl rfl rfl rfl fun _ => id
        · exact (Moves.refl s).report ..
      · exact (Moves.refl s).report ..

theorem reads_sign {s : Lexer} {b : UInt8} {t : Text} (hrest : s.rest = b :: t) :
    s.Reads s.sign := by
  have htable : ∀ e ∈ Kind.signTable, 0 < e.1.length ∧ e.2.isLayout = false := by decide +kernel
  unfold sign
  cases hsign : Kind.sign? s.rest with
  | none =>
    refine .moves (.take rfl (Nat.add_pos_left Nat.one_pos _) ?_) (moves_track _ _)
    have hle := (List.takeWhile_sublist Utf8.isContinuation (l := s.rest.drop 1)).length_le
    rw [hrest] at hle ⊢
    simp only [List.drop_one, List.tail_cons, List.length_cons] at hle ⊢
    omega
  | some found =>
    have hfound := htable _ (List.mem_of_find?_eq_some hsign)
    have hlength := (sign?_kind hsign).1.length_le
    exact .moves (.take hfound.2 hfound.1 hlength) (moves_track _ _)

theorem reads_lineFeed {s : Lexer} {t : Text} (hrest : s.rest = 10 :: t) : s.Reads s.lineFeed := by
  have hskip : s.Reads (s.advance 1) := reads_lineFeed_skip (by rw [hrest]; rfl)
  unfold lineFeed
  dsimp only
  split
  · split
    · have hnewline := (Moves.refl s).move (.newline hrest)
      exact ⟨hnewline.keep rfl rfl rfl rfl fun _ => id, hskip.2⟩
    · exact hskip.moves ((Moves.refl _).keep rfl rfl rfl rfl fun _ => id)
  · exact hskip

theorem reads_item {s : Lexer} {b : UInt8} {t : Text} (hrest : s.rest = b :: t) :
    s.Reads (s.item b) := by
  unfold item
  dsimp only
  split
  · next hblank =>
    exact .skip (t := [b]) hrest (.blanks (by simpa using hblank)) Nat.one_pos
  split
  · next hmark => exact moves_comment (by rw [hrest, hmark]; rfl)
  split
  · next hbackslash =>
    split
    · next hn => exact reads_continuation hn
    · exact ⟨(Moves.refl s).move (.stray (hbackslash ▸ hrest)), Nat.lt_succ_self _⟩
  split
  · next hfeed => exact reads_lineFeed (hfeed ▸ hrest)
  split
  · next hnumber =>
    rw [hrest, List.drop_one, List.tail_cons] at hnumber
    exact reads_number hrest hnumber
  split
  · next hstart => exact reads_word hrest hstart
  split
  · exact reads_string hrest
  · exact reads_sign hrest

/-! ## Steps and runs -/

/-- A step reads at least one byte or ends the run, and only at the end of the text. -/
theorem moves_step (s : Lexer) : s.Moves s.step.1 ∧
    (s.step.2 = true → s.pos < s.step.1.pos) ∧ (s.step.2 = false → s.step.1.rest = []) := by
  have hread {s' : Lexer} (hmoves : s.Moves s') : s.Moves s'.readItem.1 ∧
      (s'.readItem.2 = true → s.pos < s'.readItem.1.pos) ∧
      (s'.readItem.2 = false → s'.readItem.1.rest = []) := by
    unfold readItem
    split
    · next hrest => exact ⟨hmoves, (absurd · Bool.false_ne_true), fun _ => hrest⟩
    · next hrest =>
      have hitem := Reads.after hmoves (reads_item hrest)
      exact ⟨hitem.1, fun _ => hitem.2, (absurd ·.symm Bool.false_ne_true)⟩
  obtain ⟨hline, hskipped⟩ := moves_lineStart s
  rw [step_eq]
  split
  · split
    · next s' hs' =>
      rw [hs'] at hline
      refine ⟨hline, fun h => hskipped s' hs' ?_, fun h => ?_⟩
      · simpa using h
      · simpa using h
    · next s' hs' =>
      rw [hs'] at hline
      exact hread hline
  · exact hread (.refl s)

theorem moves_run (steps : Nat) (s : Lexer) : s.Moves (s.run steps) := by
  induction steps generalizing s with
  | zero => exact .refl s
  | succ steps ih =>
    have hstep := (moves_step s).1
    rw [run]
    split
    · next s' hs' =>
      rw [hs'] at hstep
      exact hstep.trans (ih s')
    · next s' hs' =>
      rw [hs'] at hstep
      exact hstep

/-- As many steps as there are bytes, and one more, read all of the text. -/
theorem rest_run_eq_nil {steps : Nat} {s : Lexer} (h : s.rest.length < steps) :
    (s.run steps).rest = [] := by
  induction steps generalizing s with
  | zero => exact absurd h (Nat.not_lt_zero _)
  | succ steps ih =>
    obtain ⟨hmoves, hmore, hlast⟩ := moves_step s
    have hlength := hmoves.length
    rw [run]
    split
    · next s' hs' =>
      simp only [hs'] at hmore hlength
      have := hmore trivial
      exact ih (by omega)
    · next s' hs' =>
      rw [hs'] at hlast
      exact hlast rfl

theorem moves_reportOpen (s : Lexer) : s.Moves s.reportOpen := by
  have hfold (l : List Token) : s.Moves (l.foldr
      (fun t s => s.report .unmatchedBracket t.span t.lexeme) s) := by
    induction l with
    | nil => exact .refl s
    | cons _ l ih => exact ih.report ..
  exact (hfold s.brackets).keep rfl rfl rfl rfl fun _ => id

theorem moves_finishLines (s : Lexer) : s.Moves s.finishLines := by
  have hdedent (l : List Nat) (s : Lexer) :
      s.Moves (l.foldl (fun s _ => s.push (s.emptyToken .dedent)) s) := by
    induction l generalizing s with
    | nil => exact .refl s
    | cons _ l ih => exact ((Moves.refl s).move (.mark rfl (by decide))).trans (ih _)
  unfold finishLines
  dsimp only
  refine Moves.trans ?_ (hdedent _ _)
  split
  · exact (Moves.refl s).move (.mark rfl (by decide))
  · exact .refl s

theorem Moves.rest_eq_nil {s s' : Lexer} (h : s.Moves s') (hrest : s.rest = []) :
    s'.rest = [] := by
  have hlength := h.length
  rw [hrest, List.length_nil] at hlength
  exact List.length_eq_zero_iff.mp (by omega)

end Lexer

/-- The tokens of a source are what moves to its end have put out. -/
theorem lex_eq_finish {source : Text} (h : Utf8.isValid source = true) :
    ∃ s, (Lexer.start source).Moves s ∧ s.rest = [] ∧ lex source = s.finish := by
  generalize hrun : (Lexer.start source).run (source.length + 1) = s
  have hmoves : (Lexer.start source).Moves s := hrun ▸ Lexer.moves_run ..
  have hrest : s.rest = [] := by
    rw [← hrun]
    refine Lexer.rest_run_eq_nil (Nat.lt_succ_of_le ?_)
    simp [Lexer.start]
  have hend := (Lexer.moves_reportOpen s).trans (Lexer.moves_finishLines _)
  refine ⟨_, hmoves.trans hend, hend.rest_eq_nil hrest, ?_⟩
  rw [lex, Utf8.firstInvalid_of_isValid h, ← hrun]

/-- The lexer at the start of a field. -/
def Lexer.startField (offset line : Nat) (part : Text) : Lexer :=
  { rest := part, pos := offset, line, atLineStart := false, embedded := true }

/-- The tokens of a field are what moves to its end have put out. -/
theorem lexField_eq_finish (offset line : Nat) (part : Text) :
    ∃ s, (Lexer.startField offset line part).Moves s ∧ s.rest = [] ∧
      lexField offset line part = s.finish := by
  have hrest : ((Lexer.startField offset line part).run (part.length + 1)).rest = [] :=
    Lexer.rest_run_eq_nil (Nat.lt_succ_self _)
  have hopen := Lexer.moves_reportOpen ((Lexer.startField offset line part).run (part.length + 1))
  exact ⟨_, (Lexer.moves_run ..).trans hopen, hopen.rest_eq_nil hrest, rfl⟩

end CloneScout.Token
