import CloneScout.Proofs.Token.LineEnds
import CloneScout.Proofs.Token.Coverage

/-!
# Fields and text in brackets

The text of a replacement field is cut as if it stood in brackets. The lexer has two ways to know
that it is inside: in a field it is told so, in a source text a bracket is open. Line feeds, and
with them the starts of lines, are blanks in both. The text in brackets has a line feed behind it,
where a field just ends. What is free of faults as a field does not look beyond its end: a comment
stops there, a string is closed, and a backslash is not the last byte.
-/

namespace CloneScout.Token

/-- The token `d` bytes further on. -/
def moved (d : Nat) (t : Token) : Token := { t with span := ⟨t.span.lo + d, t.span.hi + d⟩ }

namespace Lexer

/-! ## Texts in front of a line feed -/

theorem atLineEnd_lineFeed (c : Text) : AtLineEnd (10 :: c) := fun _ hb =>
  .inl (Option.some.inj hb).symm

theorem startsWith_lineFeed {start : Text} (h : 10 ∉ start) (t c : Text) :
    Text.startsWith (t ++ 10 :: c) start = Text.startsWith t start := by
  rw [Bool.eq_iff_iff, Text.startsWith_iff, Text.startsWith_iff]
  constructor
  · intro hprefix
    rcases List.prefix_or_prefix_of_prefix hprefix (List.prefix_append t _) with hshort | ⟨u, rfl⟩
    · exact hshort
    · rw [List.prefix_append_right_inj] at hprefix
      cases u with
      | nil => simp
      | cons b u =>
        obtain rfl := (List.cons_prefix_cons.mp hprefix).1
        simp at h
  · exact fun hprefix => hprefix.trans (List.prefix_append t _)

theorem toLineEnd_lineFeed (t c : Text) : toLineEnd (t ++ 10 :: c) = toLineEnd t := by
  have hstop : (10 :: c).takeWhile (· ≠ (10 : UInt8)) = [] := List.takeWhile_cons_of_neg (by simp)
  rw [toLineEnd, toLineEnd, List.takeWhile_append]
  split
  · next hall => rw [hstop, List.append_nil, hall]
  · rfl

theorem continuation?_append_of_some {t : Text} {n : Nat} (h : continuation? t = some n) (c : Text) :
    continuation? (t ++ c) = some n := by
  unfold continuation? at h
  split at h
  · exact h
  · exact h
  · nomatch h

/-- A string that is closed is read in the same way with a line feed behind the text. -/
theorem stringBody_lineFeed {quote : UInt8} (hquote : quote ≠ 10) {triple : Bool} {read n : Nat}
    {t : Text} (h : stringBody quote triple read t = (n, true)) (c : Text) :
    stringBody quote triple read (t ++ 10 :: c) = (n, true) := by
  have hquotes : (10 : UInt8) ∉ [quote, quote] := by simpa using Ne.symm hquote
  fun_induction stringBody quote triple read t with
  | case1 => cases h
  | case2 => cases h
  | case3 read b t ih =>
    rw [List.cons_append, List.cons_append, stringBody, if_pos rfl]
    exact ih h
  | case4 read b t hb hend => cases h
  | case5 read b t hb hend hne ih =>
    rw [List.cons_append, stringBody_cons hb, if_neg hend, if_pos hne]
    exact ih h
  | case6 read b t hb hend hsame hsingle =>
    rw [List.cons_append, stringBody_cons hb, if_neg hend, if_neg hsame, if_pos hsingle]
    exact h
  | case7 read b t hb hend hsame hsingle hclose =>
    rw [List.cons_append, stringBody_cons hb, if_neg hend, if_neg hsame, if_neg hsingle,
      startsWith_lineFeed hquotes, if_pos hclose]
    exact h
  | case8 read b t hb hend hsame hsingle hclose ih =>
    rw [List.cons_append, stringBody_cons hb, if_neg hend, if_neg hsame, if_neg hsingle,
      startsWith_lineFeed hquotes, if_neg hclose]
    exact ih h

/-! ## Items -/

/-- The lexer of a source text on a line that has tokens, with no indentation open. -/
def onLine (rest : Text) (pos line : Nat) (brackets : List Token) (tokens : Array Token) : Lexer :=
  { rest, pos, line, brackets, tokens
    atLineStart := false, lineHasTokens := true, embedded := false }

/-- The lexer of a source text where the lexer of a field stands. The field is in the bracket
`outer`, which is the first byte of the source, and a line feed and `c` follow the field. -/
def enclosed (outer : Token) (c : Text) (s : Lexer) : Lexer :=
  onLine (s.rest ++ 10 :: c) (s.pos + 1) s.line (s.brackets.map (moved 1) ++ [outer])
    (#[outer] ++ s.tokens.map (moved 1))

variable {s : Lexer} {outer : Token} {c : Text}

@[simp]
theorem rest_enclosed : (s.enclosed outer c).rest = s.rest ++ 10 :: c := rfl

theorem diags_report_ne (code : Diagnostic.Code) (span : Span) (arg : Text) :
    (s.report code span arg).diags ≠ #[] :=
  Array.push_ne_empty

theorem advance_enclosed {n : Nat} (h : n ≤ s.rest.length) :
    (s.enclosed outer c).advance n = (s.advance n).enclosed outer c := by
  simp only [enclosed, onLine, advance, List.drop_append_of_le_length h,
    List.take_append_of_le_length h, Nat.add_right_comm s.pos 1 n]

theorem tokenOf_enclosed {n : Nat} (h : n ≤ s.rest.length) (kind : Kind) :
    (s.enclosed outer c).tokenOf kind n = (s.tokenOf kind n).moved 1 := by
  simp only [enclosed, onLine, tokenOf, moved, List.take_append_of_le_length h,
    Nat.add_right_comm s.pos 1 n]

theorem take_enclosed {n : Nat} (h : n ≤ s.rest.length) (kind : Kind) :
    (s.enclosed outer c).take kind n = (s.take kind n).enclosed outer c := by
  have hpush : (s.enclosed outer c).push ((s.tokenOf kind n).moved 1) =
      (s.push (s.tokenOf kind n)).enclosed outer c := by
    simp [enclosed, onLine, push]
  have hadvance : ((s.push (s.tokenOf kind n)).enclosed outer c).advance n =
      ((s.push (s.tokenOf kind n)).advance n).enclosed outer c := advance_enclosed h
  rw [Lexer.take, tokenOf_enclosed h, hpush, hadvance]
  rfl

theorem track_enclosed {t : Token} (h : (track t s).diags = #[]) :
    track (t.moved 1) (s.enclosed outer c) = (track t s).enclosed outer c := by
  have hkind : (t.moved 1).kind = t.kind := rfl
  unfold track at h ⊢
  rw [hkind]
  split
  · rfl
  next hopening =>
  rw [if_neg hopening] at h
  cases hopen : t.kind.opening? with
  | none => rfl
  | some opening =>
    simp only [hopen] at h
    cases hbrackets : s.brackets with
    | nil =>
      -- the bracket around the field is not there for the field to close
      simp only [hbrackets] at h
      exact absurd h (diags_report_ne _ _ _)
    | cons top below =>
      have htop : (s.enclosed outer c).brackets =
          top.moved 1 :: (below.map (moved 1) ++ [outer]) := by
        simp [enclosed, onLine, hbrackets]
      have hsame : (top.moved 1).kind = top.kind := rfl
      simp only [hbrackets] at h
      simp only [htop, hsame]
      split
      · rfl
      · next hmatch =>
        rw [if_neg hmatch] at h
        exact absurd h (diags_report_ne _ _ _)

theorem lineFeed_enclosed {t : Text} (hrest : s.rest = 10 :: t) (hfield : s.embedded = true) :
    (s.enclosed outer c).lineFeed = s.lineFeed.enclosed outer c := by
  have hle : 1 ≤ s.rest.length := by rw [hrest]; exact Nat.succ_pos _
  have hopen : (s.enclosed outer c).brackets.isEmpty = false := by simp [enclosed, onLine]
  have hfeed : s.lineFeed = s.advance 1 := by simp [lineFeed, hfield]
  rw [hfeed, ← advance_enclosed hle]
  simp [lineFeed, hopen]

theorem number_enclosed (h : s.number.diags = #[]) :
    (s.enclosed outer c).number = s.number.enclosed outer c := by
  have hscan := Number.scan_lineEnd (atLineEnd_lineFeed c) s.rest
  unfold number at h ⊢
  simp only [rest_enclosed, hscan] at h ⊢
  split
  · next hbad =>
    rw [if_pos hbad] at h
    exact absurd h (diags_report_ne _ _ _)
  · exact take_enclosed (Number.length_scan_le s.rest) _

theorem string_enclosed {letters : Nat} {quote : UInt8} {t : Text} (hquote : quote ≠ 10)
    (hdrop : s.rest.drop letters = quote :: t) (h : (s.string letters).diags = #[]) :
    (s.enclosed outer c).string letters = (s.string letters).enclosed outer c := by
  have hlength := congrArg List.length hdrop
  simp only [List.length_drop, List.length_cons] at hlength
  have hdrop' : (s.rest ++ 10 :: c).drop letters = quote :: (t ++ 10 :: c) := by
    rw [List.drop_append_of_le_length (by omega), hdrop, List.cons_append]
  have hquotes : (10 : UInt8) ∉ [quote, quote, quote] := by simpa using Ne.symm hquote
  have htriple : Text.startsWith (quote :: (t ++ 10 :: c)) [quote, quote, quote] =
      Text.startsWith (quote :: t) [quote, quote, quote] :=
    startsWith_lineFeed hquotes (quote :: t) c
  unfold string at h ⊢
  simp only [rest_enclosed, hdrop, hdrop', htriple, List.headD_cons] at h ⊢
  have hwidth : (if Text.startsWith (quote :: t) [quote, quote, quote] then 3 else 1) ≤
      (quote :: t).length := by
    split
    · next hstart => exact (Text.startsWith_iff.mp hstart).length_le
    · exact Nat.succ_pos _
  generalize Text.startsWith (quote :: t) [quote, quote, quote] = triple at h hwidth ⊢
  generalize (if triple then 3 else 1) = width at h hwidth ⊢
  have htake : (quote :: (t ++ 10 :: c)).take width = (quote :: t).take width :=
    List.take_append_of_le_length hwidth
  have hbody : (quote :: (t ++ 10 :: c)).drop width = (quote :: t).drop width ++ 10 :: c :=
    List.drop_append_of_le_length hwidth
  simp only [htake, List.length_take_of_le hwidth, hbody] at h ⊢
  have hle := length_stringBody_le quote triple 0 ((quote :: t).drop width)
  cases hfound : stringBody quote triple 0 ((quote :: t).drop width) with
  | mk n closed =>
    simp only [hfound, List.length_drop, List.length_cons] at h hle hwidth
    cases closed with
    | false => exact absurd h (diags_report_ne _ _ _)
    | true =>
      simp only [stringBody_lineFeed hquote hfound]
      exact take_enclosed (by omega) _

theorem word_enclosed (h : s.word.diags = #[]) :
    (s.enclosed outer c).word = s.word.enclosed outer c := by
  have hle : (s.rest.takeWhile isIdentPart).length ≤ s.rest.length :=
    (List.takeWhile_sublist _).length_le
  have hword := (atLineEnd_lineFeed c).takeWhile (p := isIdentPart) (by decide) (by decide) s.rest
  have hquoted := (atLineEnd_lineFeed c).head? (p := isQuote) (by decide) (by decide)
    (s.rest.drop (s.rest.takeWhile isIdentPart).length)
  unfold word at h ⊢
  simp only [rest_enclosed, hword, List.drop_append_of_le_length hle, hquoted] at h ⊢
  split
  · next hstring =>
    rw [if_pos hstring] at h
    rw [Bool.and_eq_true] at hstring
    obtain ⟨q, hq, hquote⟩ := (Option.any_eq_true _ _).mp hstring.1
    obtain ⟨t, ht⟩ := List.head?_eq_some_iff.mp hq
    exact string_enclosed (by rintro rfl; exact absurd hquote (by decide)) ht h
  · exact take_enclosed hle _

theorem sign_enclosed (hrest : s.rest ≠ []) (h : s.sign.diags = #[]) :
    (s.enclosed outer c).sign = s.sign.enclosed outer c := by
  have hsign : Kind.sign? (s.rest ++ 10 :: c) = Kind.sign? s.rest :=
    List.find?_congr fun e he => startsWith_lineFeed (lineFeed_not_mem_sign e he) s.rest c
  have hone : 1 ≤ s.rest.length := List.length_pos_iff.mpr hrest
  have hcontinues := (atLineEnd_lineFeed c).takeWhile (p := Utf8.isContinuation) (by decide)
    (by decide) (s.rest.drop 1)
  unfold sign at h ⊢
  simp only [rest_enclosed, hsign, List.drop_append_of_le_length hone, hcontinues] at h ⊢
  cases hfound : Kind.sign? s.rest with
  | none =>
    have hle : 1 + ((s.rest.drop 1).takeWhile Utf8.isContinuation).length ≤ s.rest.length := by
      have hlength := (List.takeWhile_sublist Utf8.isContinuation (l := s.rest.drop 1)).length_le
      rw [List.length_drop] at hlength
      omega
    simp only [hfound] at h
    simp only [tokenOf_enclosed hle, take_enclosed hle]
    exact track_enclosed h
  | some found =>
    have hle := (sign?_kind hfound).1.length_le
    simp only [hfound] at h
    simp only [tokenOf_enclosed hle, take_enclosed hle]
    exact track_enclosed h

/-- An item without a fault is the same in a field and in brackets. -/
theorem item_enclosed {b : UInt8} {t : Text} (hrest : s.rest = b :: t) (hfield : s.embedded = true)
    (h : (s.item b).diags = #[]) :
    (s.enclosed outer c).item b = (s.item b).enclosed outer c := by
  have hone : 1 ≤ s.rest.length := by rw [hrest]; exact Nat.succ_pos _
  have hnext : ((s.rest ++ 10 :: c).drop 1).head?.any Text.isDigit =
      (s.rest.drop 1).head?.any Text.isDigit := by
    rw [List.drop_append_of_le_length hone]
    exact (atLineEnd_lineFeed c).head? (by decide) (by decide) _
  unfold item at h ⊢
  simp only [rest_enclosed, hnext, toLineEnd_lineFeed] at h ⊢
  split
  · exact advance_enclosed hone
  next hblank =>
  rw [if_neg hblank] at h
  split
  · exact advance_enclosed (List.takeWhile_sublist _).length_le
  next hmark =>
  rw [if_neg hmark] at h
  split
  · next hbackslash =>
    rw [if_pos hbackslash] at h
    cases hcontinues : continuation? s.rest with
    | none =>
      simp only [hcontinues] at h
      exact absurd h (diags_report_ne _ _ _)
    | some n =>
      obtain ⟨u, r, hu, rfl, -⟩ := gap_continuation hcontinues
      simp only [continuation?_append_of_some hcontinues]
      exact advance_enclosed (by rw [hu]; simp)
  next hbackslash =>
  rw [if_neg hbackslash] at h
  split
  · next hfeed => exact lineFeed_enclosed (hfeed ▸ hrest) hfield
  next hfeed =>
  rw [if_neg hfeed] at h
  split
  · next hnumber =>
    rw [if_pos hnumber] at h
    exact number_enclosed h
  next hnumber =>
  rw [if_neg hnumber] at h
  split
  · next hstart =>
    rw [if_pos hstart] at h
    exact word_enclosed h
  next hstart =>
  rw [if_neg hstart] at h
  split
  · next hquote =>
    rw [if_pos hquote] at h
    have hdrop : s.rest.drop 0 = b :: t := hrest
    exact string_enclosed hfeed hdrop h
  next hquote =>
  rw [if_neg hquote] at h
  exact sign_enclosed (by simp [hrest]) h

/-! ## Runs -/

/-- Inside a field every step reads one item. -/
theorem inside_item (h : s.atLineStart = false ∧ s.embedded = true) (b : UInt8) :
    (s.item b).atLineStart = false ∧ (s.item b).embedded = true := by
  have hsame : s.Shifted (Shift 0 0) s :=
    ⟨rfl, rfl, List.forall₂_same.mpr fun _ _ => rfl, h, h,
      List.forall₂_same.mpr fun _ _ => ⟨rfl, fun _ => rfl, fun _ => rfl⟩, .rfl⟩
  exact (hsame.item b).inside

/-- The steps of a run without a fault through a field are steps in brackets too. -/
theorem run_enclosed {steps : Nat} (hlt : s.rest.length < steps)
    (hfield : s.atLineStart = false ∧ s.embedded = true) (h : (s.run steps).diags = #[]) :
    ∃ k ≤ s.rest.length, ∀ n,
      (s.enclosed outer c).run (n + k) = ((s.run steps).enclosed outer c).run n := by
  induction steps generalizing s with
  | zero => exact absurd hlt (Nat.not_lt_zero _)
  | succ steps ih =>
    have hstep (s : Lexer) (hs : s.atLineStart = false) : s.step = s.readItem := by
      simp [step_eq, hs]
    cases hrest : s.rest with
    | nil =>
      have hrun : s.run (steps + 1) = s := by simp [run, hstep s hfield.1, readItem, hrest]
      exact ⟨0, Nat.zero_le _, fun n => by rw [hrun]; rfl⟩
    | cons b t =>
      have hrun : s.run (steps + 1) = (s.item b).run steps := by
        simp [run, hstep s hfield.1, readItem, hrest]
      rw [hrun] at h ⊢
      obtain ⟨hmoves, hreads⟩ := reads_item hrest
      have hlength := hmoves.length
      have hclean : (s.item b).diags = #[] := by
        refine Array.eq_empty_iff_forall_not_mem.mpr fun d hd => ?_
        exact absurd (h ▸ mem_diags_of_moves (moves_run steps _) d hd) (Array.not_mem_empty d)
      have hitem : (s.enclosed outer c).item b = (s.item b).enclosed outer c :=
        item_enclosed hrest hfield.2 hclean
      obtain ⟨k, hk, hsteps⟩ := ih (by omega) (inside_item hfield b) h
      refine ⟨k + 1, ?_, fun n => ?_⟩
      · rw [hrest, List.length_cons] at hlength
        rw [List.length_cons]
        omega
      · have hread : (s.enclosed outer c).step = ((s.item b).enclosed outer c, true) := by
          rw [hstep _ rfl, readItem, rest_enclosed, hrest, List.cons_append, ← hitem]
        rw [← Nat.add_assoc, run, hread]
        exact hsteps n

/-! ## Parentheses -/

/-- A parenthesis does not go on as a longer sign. -/
theorem sign?_paren {k : Kind} (hk : k = .lparen ∨ k = .rparen) (t : Text) :
    Kind.sign? (k.text ++ t) = some (k.text, k) := by
  have hown : Kind.sign? k.text = some (k.text, k) := by rcases hk with rfl | rfl <;> decide
  have hlone : ∀ e ∈ Kind.signTable, e.1.head? = k.text.head? → e.1 = k.text := by
    rcases hk with rfl | rfl <;> decide
  obtain ⟨b, hb⟩ : ∃ b, k.text = [b] := by rcases hk with rfl | rfl <;> exact ⟨_, rfl⟩
  rw [← hown, hb]
  refine List.find?_congr fun e he => ?_
  rw [Bool.eq_iff_iff, Text.startsWith_iff, Text.startsWith_iff]
  constructor
  · intro hstart
    cases hspelling : e.1 with
    | nil => exact List.nil_prefix
    | cons a u =>
      rw [hspelling] at hstart
      obtain rfl := (List.cons_prefix_cons.mp hstart).1
      have hwhole : e.1 = [_] := (hlone e he (by rw [hspelling, hb]; rfl)).trans hb
      exact hspelling ▸ hwhole ▸ List.prefix_rfl
  · exact fun hstart => hstart.trans (List.prefix_append _ _)

theorem item_paren {k : Kind} (hk : k = .lparen ∨ k = .rparen) {b : UInt8} {t : Text}
    (hb : k.text = [b]) (hrest : s.rest = b :: t) :
    s.item b = track (s.tokenOf k 1) (s.take k 1) := by
  have hbyte : isBlank b = false ∧ b ≠ ascii '#' ∧ b ≠ ascii '\\' ∧ b ≠ 10 ∧
      Text.isDigit b = false ∧ b ≠ ascii '.' ∧ isIdentStart b = false ∧ isQuote b = false := by
    rcases hk with rfl | rfl
    · obtain rfl : b = ascii '(' := (List.cons.inj hb).1.symm
      decide
    · obtain rfl : b = ascii ')' := (List.cons.inj hb).1.symm
      decide
  obtain ⟨hblank, hhash, hback, hfeed, hdigit, hdot, hident, hquote⟩ := hbyte
  have hsign : Kind.sign? s.rest = some (k.text, k) := by
    rw [hrest, ← sign?_paren hk t, hb, List.singleton_append]
  have hitem : s.item b = s.sign := by
    simp [item, hblank, hhash, hback, hfeed, hdigit, hdot, hident, hquote]
  rw [hitem, sign, hsign, hb]
  rfl

/-- A line without indentation. -/
theorem lineStart_unindented {s : Lexer} {b : UInt8} {t : Text} (hrest : s.rest = b :: t)
    (hb : Starts b) (hindents : s.indents = [0]) :
    s.lineStart = .content { s.advance 0 with atLineStart := false } := by
  obtain ⟨hblank, hhash, hback, hfeed⟩ := hb
  have hblanks : (b :: t).takeWhile isBlank = [] := List.takeWhile_cons_of_neg (by simp [hblank])
  have hcolumn : column 0 (b :: t) = 0 := column_replicate 0 0 t hblank
  have hcontinues : continuation? (b :: t) = none := continuation?_of_head? (by simpa using hback)
  have hrest₁ : (s.advance 0).rest = b :: t := hrest
  have hindents₁ : (s.advance 0).indents = [0] := hindents
  simp only [lineStart, hrest, hblanks, hcolumn, List.length_nil, hrest₁, List.isEmpty_cons,
    List.head?_cons, Option.some.injEq, hhash, hfeed, hcontinues, Bool.false_eq_true, if_false,
    indentTo, hindents₁, closeIndents, List.headD_cons, Nat.lt_irrefl, if_true]

/-- The opening parenthesis in front of a field. -/
theorem step_opening (part c : Text) :
    (start (utf8 "(" ++ (part ++ 10 :: c))).step =
      ((startField 0 1 part).enclosed ⟨.lparen, ⟨0, 1⟩, utf8 "(", 1, 1⟩ c, true) := by
  have hrest : (start (utf8 "(" ++ (part ++ 10 :: c))).rest = ascii '(' :: (part ++ 10 :: c) := rfl
  have hline := lineStart_unindented hrest ⟨by decide, by decide, by decide, by decide⟩ rfl
  have hbounds : (start (utf8 "(" ++ (part ++ 10 :: c))).atLineStart = true ∧
      (start (utf8 "(" ++ (part ++ 10 :: c))).brackets = [] := ⟨rfl, rfl⟩
  rw [step_eq, hbounds.1, hbounds.2, hline]
  show (item _ _, true) = _
  have henclosed : (startField 0 1 part).enclosed ⟨.lparen, ⟨0, 1⟩, utf8 "(", 1, 1⟩ c =
      onLine (part ++ 10 :: c) 1 1 [⟨.lparen, ⟨0, 1⟩, utf8 "(", 1, 1⟩]
        #[⟨.lparen, ⟨0, 1⟩, utf8 "(", 1, 1⟩] := by
    simp [enclosed, startField]
  rw [item_paren (k := .lparen) (.inl rfl) rfl rfl, henclosed]
  rfl

section

variable {rest : Text} {pos line : Nat} {tokens : Array Token}

/-- A line feed inside a bracket. -/
theorem step_onLine_lineFeed :
    (onLine (10 :: rest) pos line [outer] tokens).step =
      (onLine rest (pos + 1) (lineAfter line [10]) [outer] tokens, true) :=
  rfl

/-- The parenthesis that closes the only open one. -/
theorem step_onLine_closing (houter : outer.kind = .lparen) :
    (onLine (ascii ')' :: rest) pos line [outer] tokens).step =
      (onLine rest (pos + 1) (lineAfter line (utf8 ")")) [] (tokens.push
        ⟨.rparen, ⟨pos, pos + 1⟩, utf8 ")", line, lineAfter line (utf8 ")")⟩), true) := by
  have hrest : (onLine (ascii ')' :: rest) pos line [outer] tokens).rest = ascii ')' :: rest := rfl
  have htext : Kind.text .rparen = [ascii ')'] := rfl
  have hkind : Kind.opening? .rparen = some .lparen := rfl
  have hstep : (onLine (ascii ')' :: rest) pos line [outer] tokens).step =
      ((onLine (ascii ')' :: rest) pos line [outer] tokens).item (ascii ')'), true) := rfl
  rw [hstep, item_paren (.inr rfl) htext hrest]
  have htake : (onLine (ascii ')' :: rest) pos line [outer] tokens).take .rparen 1 =
      onLine rest (pos + 1) (lineAfter line (utf8 ")")) [outer]
        (tokens.push ⟨.rparen, ⟨pos, pos + 1⟩, utf8 ")", line, lineAfter line (utf8 ")")⟩) := rfl
  rw [htake]
  simp [track, tokenOf, Kind.isOpening, hkind, onLine, houter]

/-- The last line feed of a source. -/
theorem finish_onLine (n : Nat) :
    ((onLine [10] pos line [] tokens).run (n + 2)).reportOpen.finishLines.finish =
      ((tokens.push ⟨.newline, ⟨pos, pos + 1⟩, [10], line, line⟩).push
        ⟨.eof, ⟨pos + 1, pos + 1⟩, [], lineAfter line [10], lineAfter line [10]⟩, #[]) := by
  rw [← lineAfter_lineAfter_nil]
  rfl

end

/-- A field that is closed at its end, with the line feed, the closing parenthesis and the line feed
behind it. -/
theorem finish_enclosed (houter : outer.kind = .lparen) (hrest : s.rest = [])
    (hbrackets : s.brackets = []) (n : Nat) :
    ((s.enclosed outer (utf8 ")\n")).run (n + 4)).reportOpen.finishLines.finish =
      (#[outer] ++ s.tokens.map (moved 1) ++
        #[⟨.rparen, ⟨s.pos + 2, s.pos + 3⟩, utf8 ")", lineAfter s.line [10], lineAfter s.line [10]⟩,
          ⟨.newline, ⟨s.pos + 3, s.pos + 4⟩, [10], lineAfter s.line [10], lineAfter s.line [10]⟩,
          ⟨.eof, ⟨s.pos + 4, s.pos + 4⟩, [], lineAfter s.line [10, 10], lineAfter s.line [10, 10]⟩],
        #[]) := by
  have hparen : lineAfter (lineAfter s.line [10]) (utf8 ")") = lineAfter s.line [10] :=
    (lineAfter_append s.line [10] (utf8 ")")).symm
  have hfeed : lineAfter (lineAfter s.line [10]) [10] = lineAfter s.line [10, 10] :=
    (lineAfter_append s.line [10] [10]).symm
  have hend : s.enclosed outer (utf8 ")\n") = onLine (10 :: ascii ')' :: [10]) (s.pos + 1) s.line
      [outer] (#[outer] ++ s.tokens.map (moved 1)) := by
    rw [enclosed, hrest, hbrackets]
    rfl
  rw [hend, run, step_onLine_lineFeed]
  dsimp only
  rw [run, step_onLine_closing houter]
  dsimp only
  rw [finish_onLine, hparen, hfeed]
  simp only [Array.push_eq_append, Array.append_assoc]
  rfl

/-- Every bracket that is open at the end is reported. -/
theorem of_diags_reportOpen (h : s.reportOpen.diags = #[]) : s.brackets = [] ∧ s.diags = #[] := by
  unfold reportOpen at h
  cases hbrackets : s.brackets with
  | nil => simpa [hbrackets] using h
  | cons t below =>
    simp only [hbrackets, List.foldr_cons] at h
    exact absurd h (diags_report_ne _ _ _)

end Lexer

end CloneScout.Token
