import CloneScout.Proofs.Token.Ledger
import CloneScout.Proofs.Token.LineEnds

/-!
# Source texts with carriage returns

The lexer reads a text with a carriage return in front of every line feed side by side with the text
itself, and puts out the same tokens on the same lines, up to the first string in single quotes that
goes on behind a line feed.
-/

namespace CloneScout

open Text (crlf Returned crlf_cons crlf_of_not_mem)

namespace Token

/-! ## Tokens -/

/-- What a token is and on which lines it stands. -/
def onLines (t : Token) : Kind × Nat × Nat := (t.kind, t.line, t.endLine)

/-- The text of a string token is quoted by three quotes. -/
def isTripleQuoted (lexeme : Text) : Bool :=
  let quoted := lexeme.dropWhile fun b => !Lexer.isQuote b
  Text.startsWith quoted [quoted.headD 0, quoted.headD 0, quoted.headD 0]

/-- The token is a string in single quotes that goes on behind a line feed. -/
def IsContinued (t : Token) : Prop :=
  t.kind = .stringLit ∧ 10 ∈ t.lexeme ∧ isTripleQuoted t.lexeme = false

instance (t : Token) : Decidable (IsContinued t) :=
  inferInstanceAs (Decidable (_ ∧ _ ∧ _))

namespace Lexer

/-! ## Opening quotes -/

/-- A string with its letters, its opening quotes and the text behind these. -/
structure Opened (rest : Text) (letters : Nat) (quote : UInt8) (triple : Bool) (t : Text) :
    Prop where
  front : ∀ b ∈ rest.take letters, isQuote b = false ∧ b ≠ 10
  opens : isQuote quote = true
  split : rest.drop letters = (if triple then [quote, quote, quote] else [quote]) ++ t
  wide : Text.startsWith (rest.drop letters) [quote, quote, quote] = triple

namespace Opened

variable {rest t : Text} {letters : Nat} {quote : UInt8} {triple : Bool}

theorem exists_opened (hletters : ∀ b ∈ rest.take letters, isQuote b = false ∧ b ≠ 10)
    (hdrop : rest.drop letters = quote :: t) (hquote : isQuote quote = true) :
    ∃ triple t, Opened rest letters quote triple t := by
  cases htriple : Text.startsWith (rest.drop letters) [quote, quote, quote] with
  | false => exact ⟨false, t, hletters, hquote, hdrop, htriple⟩
  | true =>
    obtain ⟨r, hr⟩ := Text.startsWith_iff.mp htriple
    exact ⟨true, r, hletters, hquote, hr.symm, htriple⟩

variable (h : Opened rest letters quote triple t)

include h

theorem ne : 10 ≠ quote ∧ 13 ≠ quote := by
  have hquote := h.opens
  constructor
  · rintro rfl
    exact absurd hquote (by decide)
  · rintro rfl
    exact absurd hquote (by decide)

theorem not_mem_take : 10 ∉ rest.take letters := fun hmem => (h.front 10 hmem).2 rfl

theorem length_take : (rest.take letters).length = letters := by
  have hlength := congrArg List.length h.split
  refine List.length_take_of_le ?_
  rw [List.length_drop, List.length_append] at hlength
  split at hlength <;> simp only [List.length_cons] at hlength <;> omega

theorem not_mem_opener : 10 ∉ (if triple then [quote, quote, quote] else [quote]) := by
  split <;> simpa using h.ne.1

/-- The string opens in the same way with carriage returns in the text. -/
theorem crlf : Opened (crlf rest) letters quote triple (Text.crlf t) := by
  have htake : (Text.crlf rest).take letters = rest.take letters := by
    have hcrlf := Text.take_crlf rest letters
    rwa [crlf_of_not_mem h.not_mem_take, h.length_take] at hcrlf
  have hdrop : (Text.crlf rest).drop letters = Text.crlf (rest.drop letters) := by
    have hcrlf := Text.drop_crlf rest letters
    rwa [crlf_of_not_mem h.not_mem_take, h.length_take] at hcrlf
  refine ⟨htake ▸ h.front, h.opens, ?_, ?_⟩
  · rw [hdrop, h.split, Text.crlf_append, crlf_of_not_mem h.not_mem_opener]
  · rw [hdrop, Text.startsWith_crlf (by simpa using h.ne.1) (by simpa using h.ne.2), h.wide]

/-- The string with its opening quotes split off. -/
theorem string_eq {s : Lexer} (hs : s.rest = rest) :
    s.string letters =
      let found := stringBody quote triple 0 t
      let length := letters + (if triple then 3 else 1) + found.1
      if found.2 then s.take .stringLit length
      else (s.report .unterminatedString ⟨s.pos, s.pos + length⟩
        (if triple then [quote, quote, quote] else [quote])).take .error length := by
  have hhead : (rest.drop letters).headD 0 = quote := by rw [h.split]; cases triple <;> rfl
  unfold string
  simp only [hs, hhead, h.wide]
  rw [h.split]
  cases triple <;> rfl

/-- How the text of the string token is cut. -/
theorem take_eq (k : Nat) : rest.take (letters + (if triple then 3 else 1) + k) =
    rest.take letters ++ ((if triple then [quote, quote, quote] else [quote]) ++ t.take k) := by
  have hsplit : rest = rest.take letters ++ rest.drop letters := (List.take_append_drop ..).symm
  conv => lhs; arg 2; rw [hsplit, h.split]
  nth_rewrite 1 [← h.length_take]
  rw [Nat.add_assoc, List.take_length_add_append]
  cases triple
  · rw [Nat.add_comm]
    rfl
  · rw [Nat.add_comm]
    rfl

/-- What stands behind the opening quotes does not count. -/
theorem isTripleQuoted_take (k : Nat) :
    isTripleQuoted (rest.take (letters + (if triple then 3 else 1) + k)) = triple := by
  have hquote := h.opens
  have hdropped : (rest.take (letters + (if triple then 3 else 1) + k)).dropWhile
      (fun b => !isQuote b) = (if triple then [quote, quote, quote] else [quote]) ++ t.take k := by
    rw [h.take_eq, List.dropWhile_append_of_pos fun b hb => by simp [(h.front b hb).1]]
    cases triple
    · exact List.dropWhile_cons_of_neg (by simp [hquote])
    · exact List.dropWhile_cons_of_neg (by simp [hquote])
  have htriple := h.wide
  rw [h.split] at htriple
  rw [isTripleQuoted, hdropped]
  cases triple with
  | true => exact Text.startsWith_append [quote, quote, quote] (t.take k)
  | false =>
    rw [Bool.eq_false_iff, Ne, Text.startsWith_iff] at htriple ⊢
    exact fun hstart => htriple (hstart.trans
      ((List.prefix_append_right_inj [quote]).mpr (List.take_prefix k t)))

/-- The string token is continued if a line feed stands behind its only opening quote. -/
theorem isContinued_iff {s : Lexer} (hs : s.rest = rest) (k : Nat) :
    IsContinued (s.tokenOf .stringLit (letters + (if triple then 3 else 1) + k)) ↔
      triple = false ∧ 10 ∈ t.take k := by
  show Kind.stringLit = .stringLit ∧ 10 ∈ s.rest.take _ ∧ isTripleQuoted (s.rest.take _) = false ↔ _
  rw [hs, h.isTripleQuoted_take, h.take_eq, List.mem_append, List.mem_append]
  simp only [h.not_mem_take, h.not_mem_opener, false_or, true_and]
  exact and_comm

end Opened

/-! ## What stays -/

theorem mem_tokens_of_moves {s s' : Lexer} (h : s.Moves s') : ∀ t ∈ s.tokens, t ∈ s'.tokens := by
  refine h.preserves (P := fun s' => ∀ t ∈ s.tokens, t ∈ s'.tokens) (fun s₁ s₂ h₁ hmove t ht => ?_)
    fun _ => id
  cases hmove with
  | keep _ _ _ htokens _ => exact htokens ▸ h₁ t ht
  | take => exact Array.mem_push_of_mem _ (h₁ t ht)
  | newline => exact Array.mem_push_of_mem _ (h₁ t ht)
  | mark => exact Array.mem_push_of_mem _ (h₁ t ht)
  | _ => exact h₁ t ht

theorem diags_of_moves {s s' : Lexer} (h : s.Moves s') (hclean : s'.diags = #[]) :
    s.diags = #[] := by
  have hmem := mem_diags_of_moves h
  rw [hclean] at hmem
  exact Array.eq_empty_iff_forall_not_mem.mpr fun d hd => Array.not_mem_empty d (hmem d hd)

theorem moves_readItem (s : Lexer) : s.Moves s.readItem.1 := by
  unfold readItem
  split
  · exact .refl s
  · next hrest => exact (reads_item hrest).1

/-! ## Two lexers side by side -/

/-- The lexers stand at the same place of a text, with and without carriage returns, and have found
the same so far, with no fault. No string that the first one put out is continued. -/
structure Twin (s s' : Lexer) : Prop where
  rest : Returned s.rest s'.rest
  plain : 13 ∉ s.rest
  line : s'.line = s.line
  wrapped : Word.wrap s.line = s.line
  indents : s'.indents = s.indents
  brackets : s'.brackets.map Token.kind = s.brackets.map Token.kind
  flags : s'.atLineStart = s.atLineStart ∧ s'.lineHasTokens = s.lineHasTokens ∧
    s'.embedded = s.embedded
  tokens : s'.tokens.toList.map onLines = s.tokens.toList.map onLines
  whole : ∀ t ∈ s.tokens, ¬ IsContinued t
  clean : s.diags = #[] ∧ s'.diags = #[]

/-- The lexers are side by side, or the first one put out a continued string and the second one
found a fault. -/
def Forks (s s' : Lexer) : Prop :=
  s.Twin s' ∨ (∃ t ∈ s.tokens, IsContinued t) ∧ s'.diags ≠ #[]

/-- The second lexer is not in front of a carriage return when a line feed is next for the first
one. -/
def Level (s s' : Lexer) : Prop := s.rest.head? = some 10 → s'.rest.head? = some 10

namespace Twin

variable {s s' : Lexer}

theorem advance (h : s.Twin s') {n n' : Nat} (hrest : Returned (s.rest.drop n) (s'.rest.drop n'))
    (hlines : (s'.rest.take n').count 10 = (s.rest.take n).count 10) :
    (s.advance n).Twin (s'.advance n') :=
  { h with
    rest := hrest
    plain := fun hmem => h.plain (List.mem_of_mem_drop hmem)
    line := by
      show lineAfter s'.line (s'.rest.take n') = lineAfter s.line (s.rest.take n)
      rw [lineAfter, lineAfter, hlines, h.line]
    wrapped := Nat.mod_mod _ _ }

/-- What is read up to a line feed at most is skipped. -/
theorem advance_takeWhile (h : s.Twin s') {p : UInt8 → Bool} (hfeed : p 10 = false) :
    (s.advance (s.rest.takeWhile p).length).Twin (s'.advance (s'.rest.takeWhile p).length) := by
  have hcount (t : Text) : (t.takeWhile p).count 10 = 0 := List.count_eq_zero_of_not_mem fun hmem =>
    Bool.false_ne_true (hfeed.symm.trans (List.mem_takeWhile_imp hmem))
  refine h.advance ?_ ?_
  · rw [drop_length_takeWhile, drop_length_takeWhile]
    exact h.rest.dropWhile hfeed
  · rw [take_length_takeWhile, take_length_takeWhile, hcount, hcount]

theorem push (h : s.Twin s') {t t' : Token} (ht : onLines t' = onLines t)
    (hwhole : ¬ IsContinued t) : (s.push t).Twin (s'.push t') :=
  { h with
    tokens := by simp [Lexer.push, h.tokens, ht]
    whole := fun u hu => (Array.mem_push.mp hu).elim (h.whole u) (· ▸ hwhole) }

theorem push_empty (h : s.Twin s') {kind : Kind} (hkind : kind ≠ .stringLit) :
    (s.push (s.emptyToken kind)).Twin (s'.push (s'.emptyToken kind)) :=
  h.push (by simp [onLines, emptyToken, h.line]) fun hwhole => hkind hwhole.1

theorem tokenOf (h : s.Twin s') (hrest : s'.rest = crlf s.rest) (kind : Kind) (n : Nat) :
    onLines (s'.tokenOf kind (crlf (s.rest.take n)).length) = onLines (s.tokenOf kind n) := by
  simp only [onLines, Lexer.tokenOf, h.line, hrest, Text.take_crlf, lineAfter, Text.count_crlf]

/-- A token is put out. -/
theorem take (h : s.Twin s') (hrest : s'.rest = crlf s.rest) {kind : Kind} {n : Nat}
    (hwhole : ¬ IsContinued (s.tokenOf kind n)) :
    (s.take kind n).Twin (s'.take kind (crlf (s.rest.take n)).length) := by
  have hpush := h.push (h.tokenOf hrest kind n) hwhole
  have hpushed : (s'.push (s'.tokenOf kind (crlf (s.rest.take n)).length)).rest = crlf s.rest := hrest
  have hdropped : Returned (s.rest.drop n) ((crlf s.rest).drop (crlf (s.rest.take n)).length) := by
    rw [Text.drop_crlf]
    exact .all _
  have hadvanced := hpush.advance (hpushed ▸ hdropped)
    (by rw [hpushed, Text.take_crlf, Text.count_crlf]; rfl)
  exact { hadvanced with flags := ⟨hadvanced.flags.1, rfl, hadvanced.flags.2.2⟩ }

/-- A token within a line. -/
theorem take_line (h : s.Twin s') (hrest : s'.rest = crlf s.rest) (kind : Kind) {n : Nat}
    (hlength : n ≤ s.rest.length) (hline : 10 ∉ s.rest.take n) :
    (s.take kind n).Twin (s'.take kind n) := by
  have hsame : (crlf (s.rest.take n)).length = n := by
    rw [crlf_of_not_mem hline, List.length_take_of_le hlength]
  have htake : (s.take kind n).Twin (s'.take kind (crlf (s.rest.take n)).length) :=
    h.take hrest fun hwhole => hline hwhole.2.1
  rwa [hsame] at htake

/-! ### Indentation -/

theorem closeIndents (h : s.Twin s') (col : Nat) (indents : List Nat) :
    (Lexer.closeIndents col indents s').1 = (Lexer.closeIndents col indents s).1 ∧
      (Lexer.closeIndents col indents s).2.Twin (Lexer.closeIndents col indents s').2 := by
  induction indents generalizing s s' with
  | nil => exact ⟨rfl, h⟩
  | cons top below ih =>
    rw [Lexer.closeIndents, Lexer.closeIndents]
    split
    · exact ih (h.push_empty (by decide))
    · exact ⟨rfl, h⟩

theorem indentTo (h : s.Twin s') (col : Nat) (hclean : (Lexer.indentTo col s).diags = #[]) :
    (Lexer.indentTo col s).Twin (Lexer.indentTo col s') := by
  obtain ⟨hindents, hclosed⟩ := h.closeIndents col s.indents
  unfold Lexer.indentTo at hclean ⊢
  rw [h.indents]
  dsimp only at hclean ⊢
  split
  · exact { h.push_empty (by decide) with indents := rfl }
  · next hopen =>
    rw [if_neg hopen] at hclean
    rw [hindents]
    split
    · exact { hclosed with indents := rfl }
    · next hother =>
      rw [if_neg hother] at hclean
      exact absurd hclean (by simp [report])

/-! ### Items -/

theorem isEmpty_brackets (h : s.Twin s') : s'.brackets.isEmpty = s.brackets.isEmpty := by
  rw [← List.isEmpty_map (f := Token.kind), h.brackets, List.isEmpty_map]

theorem lineFeed (h : s.Twin s') {r : Text} (hrest : s.rest = 10 :: r)
    (hrest' : s'.rest = 10 :: crlf r) : s.lineFeed.Twin s'.lineFeed := by
  have hafter : (s.advance 1).Twin (s'.advance 1) := by
    refine h.advance ?_ ?_
    · rw [hrest, hrest']
      exact .all r
    · rw [hrest, hrest']
      rfl
  obtain ⟨hstart, htokens, hembedded⟩ := h.flags
  unfold Lexer.lineFeed
  dsimp only
  rw [h.isEmpty_brackets, htokens, hembedded]
  split
  · split
    · have hline : onLines ⟨.newline, ⟨s'.pos, s'.pos + 1⟩, [10], s'.line, s'.line⟩ =
          onLines ⟨.newline, ⟨s.pos, s.pos + 1⟩, [10], s.line, s.line⟩ := by
        simp [onLines, h.line]
      have hpush := hafter.push hline fun hwhole => Kind.noConfusion hwhole.1
      exact { hpush with flags := ⟨rfl, rfl, hpush.flags.2.2⟩ }
    · exact { hafter with flags := ⟨rfl, rfl, hafter.flags.2.2⟩ }
  · exact hafter

/-- A closing bracket that fits nothing would be a fault. -/
theorem track (h : s.Twin s') {t t' : Token} (ht : t'.kind = t.kind)
    (hclean : (Lexer.track t s).diags = #[]) : (Lexer.track t s).Twin (Lexer.track t' s') := by
  have hbrackets := h.brackets
  have hfault {p : Prop} {span : Span} {arg : Text}
      (hdiags : (s.report .unmatchedBracket span arg).diags = #[]) : p :=
    absurd hdiags (by simp [report])
  unfold Lexer.track at hclean ⊢
  rw [ht]
  split
  · exact { h with brackets := by simp [ht, hbrackets] }
  · next hopening =>
    rw [if_neg hopening] at hclean
    split
    · exact h
    · next o ho =>
      rw [ho] at hclean
      cases hs : s.brackets with
      | nil =>
        rw [hs] at hclean
        exact hfault hclean
      | cons top below =>
        rw [hs] at hbrackets hclean
        obtain ⟨top', below', hs', htop, hbelow⟩ := List.map_eq_cons_iff.mp hbrackets
        rw [hs']
        dsimp only at hclean ⊢
        rw [htop]
        split
        · exact { h with brackets := hbelow }
        · next hother =>
          rw [if_neg hother] at hclean
          exact hfault hclean

theorem number (h : s.Twin s') (hrest : s'.rest = crlf s.rest) (hclean : s.number.diags = #[]) :
    s.number.Twin s'.number := by
  unfold Lexer.number at hclean ⊢
  rw [hrest, scan_crlf]
  dsimp only at hclean ⊢
  split
  · next hbad =>
    rw [if_pos hbad] at hclean
    exact absurd hclean (by simp [report, Lexer.take, Lexer.push, Lexer.advance])
  · exact h.take_line hrest _ (Number.length_scan_le s.rest) (not_mem_scan s.rest)

theorem sign (h : s.Twin s') {b : UInt8} {t : Text} (hs : s.rest = b :: t) (hb : b ≠ 10)
    (hrest : s'.rest = crlf s.rest) (hclean : s.sign.diags = #[]) : s.sign.Twin s'.sign := by
  have htable : ∀ e ∈ Kind.signTable, 10 ∉ e.1 ∧ 13 ∉ e.1 := by decide +kernel
  have hsign : Kind.sign? s'.rest = Kind.sign? s.rest := by
    rw [hrest]
    exact List.find?_congr fun e he => Text.startsWith_crlf (htable e he).1 (htable e he).2 _
  unfold Lexer.sign at hclean ⊢
  rw [hsign]
  cases hfound : Kind.sign? s.rest with
  | some found =>
    simp only [hfound] at hclean ⊢
    obtain ⟨r, hr⟩ := (sign?_kind hfound).1
    have htake : s.rest.take found.1.length = found.1 := by rw [← hr, List.take_left]
    have hline : 10 ∉ s.rest.take found.1.length := by
      rw [htake]
      exact (htable found (List.mem_of_find?_eq_some hfound)).1
    have hlength : found.1.length ≤ s.rest.length := (List.IsPrefix.length_le ⟨r, hr⟩)
    exact (h.take_line hrest _ hlength hline).track rfl hclean
  | none =>
    simp only [hfound] at hclean ⊢
    have hcontinues : (s'.rest.drop 1).takeWhile Utf8.isContinuation =
        (s.rest.drop 1).takeWhile Utf8.isContinuation := by
      rw [hrest, hs, crlf_cons hb]
      exact takeWhile_crlf (by decide) (by decide) t
    have htake : s.rest.take (1 + (t.takeWhile Utf8.isContinuation).length) =
        b :: t.takeWhile Utf8.isContinuation := by
      rw [hs, Nat.add_comm, List.take_succ_cons, take_length_takeWhile]
    rw [hcontinues]
    rw [hs, List.drop_one, List.tail_cons] at hclean ⊢
    refine (h.take_line hrest .unknownPunct ?_ ?_).track rfl hclean
    · rw [hs, List.length_cons]
      have := (List.takeWhile_sublist Utf8.isContinuation (l := t)).length_le
      omega
    · rw [htake, List.mem_cons, not_or]
      exact ⟨Ne.symm hb, fun hmem => absurd (List.mem_takeWhile_imp hmem) (by decide)⟩

/-- A string is put out by both lexers, or is continued and a fault for the second one. -/
theorem string (h : s.Twin s') (hrest : s'.rest = crlf s.rest) {letters : Nat} {quote : UInt8}
    {t : Text} (hdrop : s.rest.drop letters = quote :: t) (hquote : isQuote quote = true)
    (hletters : ∀ b ∈ s.rest.take letters, isQuote b = false ∧ b ≠ 10)
    (hclean : (s.string letters).diags = #[]) : (s.string letters).Forks (s'.string letters) := by
  obtain ⟨triple, r, hopened⟩ := Opened.exists_opened hletters hdrop hquote
  have hstring := hopened.string_eq rfl
  have hstring' := hopened.crlf.string_eq hrest
  dsimp only at hstring hstring'
  generalize hfound : stringBody quote triple 0 r = found at hstring
  obtain ⟨n, closed⟩ := found
  cases closed with
  | false =>
    rw [hstring] at hclean
    exact absurd hclean (by simp [report, Lexer.take, Lexer.push, Lexer.advance])
  | true =>
    obtain ⟨k, hk, -, hbody⟩ := body_of_stringBody hquote hfound 0
    rw [if_pos rfl, hk, Nat.zero_add] at hstring
    have hiff := hopened.isContinued_iff rfl k
    by_cases hcontinued : IsContinued (s.tokenOf .stringLit (letters + (if triple then 3 else 1) + k))
    · obtain ⟨hsingle, hfeed⟩ := hiff.mp hcontinued
      refine .inr ⟨⟨_, ?_, hcontinued⟩, ?_⟩
      · rw [hstring]
        exact Array.mem_push_self
      · rw [hstring', if_neg (by simp [hbody.broken hsingle hfeed])]
        simp [report, Lexer.take, Lexer.push, Lexer.advance]
    · have hwhole : triple = true ∨ 10 ∉ r.take k := by
        by_contra hnone
        rw [not_or, Bool.not_eq_true, Classical.not_not] at hnone
        exact hcontinued (hiff.mpr hnone)
      -- the second token is longer by the carriage returns
      have hlength : (crlf (s.rest.take (letters + (if triple then 3 else 1) + k))).length =
          letters + (if triple then 3 else 1) + (crlf (r.take k)).length := by
        rw [hopened.take_eq, Text.crlf_append, Text.crlf_append, crlf_of_not_mem hopened.not_mem_take,
          crlf_of_not_mem hopened.not_mem_opener, List.length_append, List.length_append,
          hopened.length_take, ← Nat.add_assoc]
        cases triple <;> rfl
      have htake := h.take hrest hcontinued
      rw [hlength] at htake
      rw [hbody.closed hwhole, if_pos rfl, Nat.zero_add] at hstring'
      rw [Forks, hstring, hstring']
      exact .inl htake

theorem word (h : s.Twin s') (hrest : s'.rest = crlf s.rest) (hclean : s.word.diags = #[]) :
    s.word.Forks s'.word := by
  have hpart {b : UInt8} (hb : isIdentPart b = true) : isQuote b = false ∧ b ≠ 10 := by
    constructor
    · by_contra hquote
      rw [Bool.not_eq_false, isQuote, Bool.or_eq_true, decide_eq_true_eq, decide_eq_true_eq] at hquote
      rcases hquote with rfl | rfl
      · exact absurd hb (by decide)
      · exact absurd hb (by decide)
    · rintro rfl
      exact absurd hb (by decide)
  have hsame : s'.rest.takeWhile isIdentPart = s.rest.takeWhile isIdentPart := by
    rw [hrest, takeWhile_crlf (by decide) (by decide)]
  have htake := take_length_takeWhile isIdentPart s.rest
  have hplain : 10 ∉ s.rest.takeWhile isIdentPart := fun hmem =>
    (hpart (List.mem_takeWhile_imp hmem)).2 rfl
  have hquoted : (s'.rest.drop (s.rest.takeWhile isIdentPart).length).head?.any isQuote =
      (s.rest.drop (s.rest.takeWhile isIdentPart).length).head?.any isQuote := by
    have hdrop := Text.drop_crlf s.rest (s.rest.takeWhile isIdentPart).length
    rw [htake, crlf_of_not_mem hplain] at hdrop
    rw [hrest, hdrop, head?_crlf (by decide) (by decide)]
  unfold Lexer.word at hclean ⊢
  dsimp only at hclean ⊢
  rw [hsame, hquoted]
  split
  · next hstring =>
    rw [if_pos hstring] at hclean
    rw [Bool.and_eq_true] at hstring
    obtain ⟨q, hq, hquote⟩ := (Option.any_eq_true _ _).mp hstring.1
    obtain ⟨t, ht⟩ := List.head?_eq_some_iff.mp hq
    refine h.string hrest ht hquote (fun b hb => ?_) hclean
    rw [htake] at hb
    exact hpart (List.mem_takeWhile_imp hb)
  · refine .inl (h.take_line hrest _ (List.takeWhile_sublist _).length_le ?_)
    rw [htake]
    exact hplain

/-- The line end behind a backslash is skipped. -/
theorem continuation (h : s.Twin s') {r : Text} (hrest : s.rest = ascii '\\' :: 10 :: r)
    (hrest' : s'.rest = ascii '\\' :: 13 :: 10 :: crlf r) : (s.advance 2).Twin (s'.advance 3) := by
  refine h.advance ?_ ?_
  · rw [hrest, hrest']
    exact .all r
  · rw [hrest, hrest']
    rfl

/-- The lexers read the same item. -/
theorem item (h : s.Twin s') {b : UInt8} {t : Text} (hs : s.rest = b :: t) (hlevel : Level s s')
    (hclean : (s.item b).diags = #[]) : (s.item b).Forks (s'.item b) := by
  by_cases hb : b = 10
  · subst hb
    have hs' : s'.rest = 10 :: crlf t := by
      have hrest := h.rest
      rw [hs] at hrest
      exact hrest.eq_feed (hlevel (by rw [hs]; rfl))
    exact .inl (h.lineFeed hs hs')
  have hrest : s'.rest = crlf s.rest := h.rest.eq_crlf (by rw [hs]; simpa using hb)
  have hs' : s'.rest = b :: crlf t := by rw [hrest, hs, crlf_cons hb]
  have hnext : (s'.rest.drop 1).head?.any Text.isDigit = (s.rest.drop 1).head?.any Text.isDigit := by
    rw [hs, hs']
    exact head?_crlf (by decide) (by decide) t
  unfold Lexer.item at hclean ⊢
  dsimp only at hclean ⊢
  rw [hnext]
  split
  · refine .inl (h.advance ?_ ?_)
    · rw [hs, hs']
      exact .all t
    · rw [hs, hs']
      rfl
  next hblank =>
  rw [if_neg hblank] at hclean
  split
  · exact .inl (h.advance_takeWhile (p := (· ≠ 10)) (by decide))
  next hmark =>
  rw [if_neg hmark] at hclean
  split
  · next hbackslash =>
    rw [if_pos hbackslash] at hclean
    rcases continuation?_cases h.rest h.plain with ⟨hnone, hnone'⟩ | ⟨r, hr, hr'⟩
    · rw [hnone] at hclean
      exact absurd hclean (by simp [report, Lexer.advance])
    · have htwo : continuation? s.rest = some 2 := by rw [hr]; rfl
      have hthree : continuation? s'.rest = some 3 := by rw [hr']; rfl
      rw [htwo, hthree]
      exact .inl (h.continuation hr hr')
  next hbackslash =>
  rw [if_neg hbackslash, if_neg hb] at hclean
  split
  · next hnumber =>
    rw [if_pos hnumber] at hclean
    exact .inl (h.number hrest hclean)
  next hnumber =>
  rw [if_neg hnumber] at hclean
  split
  · next hstart =>
    rw [if_pos hstart] at hclean
    exact h.word hrest hclean
  next hstart =>
  rw [if_neg hstart] at hclean
  split
  · next hquote =>
    rw [if_pos hquote] at hclean
    exact h.string hrest (show s.rest.drop 0 = _ from hs) hquote (by simp) hclean
  · next hquote =>
    rw [if_neg hquote] at hclean
    exact .inl (h.sign hs hb hrest hclean)

theorem readItem (h : s.Twin s') (hlevel : Level s s') (hclean : s.readItem.1.diags = #[]) :
    s'.readItem.2 = s.readItem.2 ∧ s.readItem.1.Forks s'.readItem.1 := by
  unfold Lexer.readItem at hclean ⊢
  cases hs : s.rest with
  | nil =>
    rw [h.rest.nil_iff.mpr hs]
    exact ⟨rfl, .inl h⟩
  | cons b t =>
    rw [hs] at hclean
    have hitem := h.item hs hlevel hclean
    have hhead : s'.rest.head? = some b := by
      by_cases hb : b = 10
      · rw [hb]
        exact hlevel (by rw [hs, hb]; rfl)
      · rw [h.rest.eq_crlf (by rw [hs]; simpa using hb), hs, crlf_cons hb]
        rfl
    obtain ⟨t', ht'⟩ := List.head?_eq_some_iff.mp hhead
    rw [ht']
    exact ⟨rfl, hitem⟩

/-! ### Steps and runs -/

theorem isEmpty_rest (h : s.Twin s') : s'.rest.isEmpty = s.rest.isEmpty := by
  rw [Bool.eq_iff_iff, List.isEmpty_iff, List.isEmpty_iff, h.rest.nil_iff]

theorem skipComment (h : s.Twin s') (hlevel : Level s s') :
    s.skipComment.Twin s'.skipComment ∧ Level s.skipComment s'.skipComment := by
  have hmark : s'.rest.head? = some (ascii '#') ↔ s.rest.head? = some (ascii '#') :=
    h.rest.head?_iff (by decide) (by decide)
  unfold Lexer.skipComment
  by_cases hcomment : s.rest.head? = some (ascii '#')
  · rw [if_pos hcomment, if_pos (hmark.mpr hcomment)]
    refine ⟨h.advance_takeWhile (p := (· ≠ 10)) (by decide), fun hfeed => ?_⟩
    have hrests (s : Lexer) : (s.advance (toLineEnd s.rest)).rest = s.rest.dropWhile (· ≠ 10) :=
      drop_length_takeWhile _ _
    rw [hrests] at hfeed ⊢
    exact h.rest.head?_dropWhile (by decide) (by decide) hfeed
  · rw [if_neg hcomment, if_neg (mt hmark.mp hcomment)]
    exact ⟨h, hlevel⟩

/-- A line starts in the same way for both lexers. -/
theorem lineStart (h : s.Twin s') (hclean : s.lineStart.lexer.diags = #[]) :
    (∃ x x', s.lineStart = .skipped x ∧ s'.lineStart = .skipped x' ∧ x.Twin x') ∨
      ∃ x x', s.lineStart = .content x ∧ s'.lineStart = .content x' ∧ x.Twin x' ∧ Level x x' := by
  have hcol : column 0 s'.rest = column 0 s.rest := column_returned 0 h.rest
  have hblanks := h.advance_takeWhile (p := isBlank) (by decide)
  have hlevel : Level (s.advance (s.rest.takeWhile isBlank).length)
      (s'.advance (s'.rest.takeWhile isBlank).length) := fun hfeed => by
    have hrests (s : Lexer) : (s.advance (s.rest.takeWhile isBlank).length).rest =
        s.rest.dropWhile isBlank := drop_length_takeWhile _ _
    rw [hrests] at hfeed ⊢
    exact h.rest.head?_dropWhile (by decide) (by decide) hfeed
  rw [lineStart_eq] at hclean ⊢
  rw [lineStart_eq s', hcol]
  dsimp only at hclean ⊢
  generalize s.advance (s.rest.takeWhile isBlank).length = s₁ at hblanks hlevel hclean ⊢
  generalize s'.advance (s'.rest.takeWhile isBlank).length = s₁' at hblanks hlevel ⊢
  obtain ⟨hcomment, hlevel⟩ := hblanks.skipComment hlevel
  generalize s₁.skipComment = s₂ at hcomment hlevel hclean ⊢
  generalize s₁'.skipComment = s₂' at hcomment hlevel ⊢
  -- Behind the blanks and a comment: the end of the text, a line end, a continued line or content.
  rw [hblanks.isEmpty_rest]
  by_cases hempty : s₁.rest.isEmpty = true
  · rw [if_pos hempty, if_pos hempty]
    exact .inl ⟨s₁, s₁', rfl, rfl, hblanks⟩
  rw [if_neg hempty, if_neg hempty] at *
  by_cases hfeed : s₂.rest.head? = some 10
  · rw [if_pos hfeed, if_pos (hlevel hfeed)]
    obtain ⟨r, hr⟩ := List.head?_eq_some_iff.mp hfeed
    have hr' : s₂'.rest = 10 :: crlf r := by
      have hrest := hcomment.rest
      rw [hr] at hrest
      exact hrest.eq_feed (hlevel hfeed)
    refine .inl ⟨_, _, rfl, rfl, hcomment.advance ?_ ?_⟩
    · rw [hr, hr']
      exact .all r
    · rw [hr, hr']
      rfl
  have hfeed' : s₂'.rest.head? ≠ some 10 := fun hhead => hfeed (hcomment.rest.head?_feed hhead)
  rw [if_neg hfeed, if_neg hfeed'] at *
  rcases continuation?_cases hcomment.rest hcomment.plain with ⟨hnone, hnone'⟩ | ⟨r, hr, hr'⟩
  · rw [hnone] at hclean
    rw [hnone, hnone']
    have hline : ({ s₂ with atLineStart := false } : Lexer).Twin { s₂' with atLineStart := false } :=
      { hcomment with flags := ⟨rfl, hcomment.flags.2⟩ }
    refine .inr ⟨_, _, rfl, rfl, hline.indentTo _ hclean, fun hhead => absurd ?_ hfeed⟩
    rwa [(indentTo_stays _ _).1] at hhead
  · have htwo : Lexer.continuation? s₂.rest = some 2 := by rw [hr]; rfl
    have hthree : Lexer.continuation? s₂'.rest = some 3 := by rw [hr']; rfl
    rw [htwo, hthree]
    exact .inl ⟨_, _, rfl, rfl, hcomment.continuation hr hr'⟩

theorem step (h : s.Twin s') (hlevel : (s.atLineStart && s.brackets.isEmpty) = false → Level s s')
    (hclean : s.step.1.diags = #[]) : s'.step.2 = s.step.2 ∧ s.step.1.Forks s'.step.1 := by
  have hflags : (s'.atLineStart && s'.brackets.isEmpty) = (s.atLineStart && s.brackets.isEmpty) := by
    rw [h.flags.1, h.isEmpty_brackets]
  rw [step_eq s] at hclean ⊢
  rw [step_eq s', hflags]
  by_cases hline : (s.atLineStart && s.brackets.isEmpty) = true
  · rw [if_pos hline] at hclean
    rw [if_pos hline, if_pos hline]
    have hstart : s.lineStart.lexer.diags = #[] := by
      cases hs : s.lineStart with
      | skipped x =>
        rw [hs] at hclean
        exact hclean
      | content x =>
        rw [hs] at hclean
        exact diags_of_moves (moves_readItem x) hclean
    rcases h.lineStart hstart with ⟨x, x', hx, hx', htwin⟩ | ⟨x, x', hx, hx', htwin, hlevel⟩
    · rw [hx, hx']
      refine ⟨?_, .inl htwin⟩
      show (!x'.rest.isEmpty) = !x.rest.isEmpty
      rw [htwin.isEmpty_rest]
    · rw [hx] at hclean ⊢
      rw [hx']
      exact htwin.readItem hlevel hclean
  · rw [if_neg hline] at hclean
    rw [if_neg hline, if_neg hline]
    exact h.readItem (hlevel (Bool.not_eq_true _ ▸ hline)) hclean

/-- In front of a line feed the second lexer takes a step of its own for the carriage return. -/
theorem step_return (h : s.Twin s') (hinside : (s.atLineStart && s.brackets.isEmpty) = false)
    (hlevel : ¬ Level s s') : s'.step = (s'.advance 1, true) ∧ s.Twin (s'.advance 1) ∧
      Level s (s'.advance 1) := by
  obtain ⟨hfeed, hfeed'⟩ := Classical.not_imp.mp hlevel
  obtain ⟨r, hr⟩ := List.head?_eq_some_iff.mp hfeed
  have hrest := h.rest
  rw [hr] at hrest
  have hr' : s'.rest = 13 :: 10 :: crlf r := by
    generalize hs' : s'.rest = t' at hrest hfeed'
    generalize hs : 10 :: r = t at hrest
    cases hrest with
    | all => rw [← hs, Text.crlf_feed]
    | read => exact absurd rfl hfeed'
  have hread : (s'.advance 1).rest = 10 :: crlf r := by
    show s'.rest.drop 1 = _
    rw [hr']
    rfl
  refine ⟨?_, ?_, fun _ => by rw [hread]; rfl⟩
  · rw [step_eq, h.flags.1, h.isEmpty_brackets, hinside, if_neg Bool.false_ne_true, Lexer.readItem,
      hr']
    rfl
  · exact
      { h with
        rest := by rw [hread, hr]; exact .read r
        line := by
          show Word.wrap (s'.line + (s'.rest.take 1).count 10) = s.line
          rw [hr', h.line]
          exact h.wrapped }

/-- The lexers stay side by side to the end of the text. -/
theorem run (h : s.Twin s') {n n' : Nat} (hn : s.rest.length < n) (hn' : s'.rest.length < n')
    (hclean : (s.run n).diags = #[]) : (s.run n).Forks (s'.run n') := by
  -- Each text has a bound of its own, since the second lexer takes steps that the first does not.
  induction n generalizing s s' n' with
  | zero => exact absurd hn (Nat.not_lt_zero _)
  | succ n ih =>
    have hsucc (s : Lexer) (n : Nat) :
        s.run (n + 1) = if s.step.2 then s.step.1.run n else s.step.1 := by
      rw [Lexer.run]
      split <;> simp_all
    have hread (s : Lexer) (n : Nat) (hlt : s.rest.length < n + 1) (hgoes : s.step.2 = true) :
        s.step.1.rest.length < n := by
      obtain ⟨hmoves, hmore, -⟩ := moves_step s
      have hlength := hmoves.length
      have := hmore hgoes
      omega
    -- a step of both lexers
    have hboth {s' : Lexer} {n' : Nat} (h : s.Twin s') (hn' : s'.rest.length < n')
        (hlevel : (s.atLineStart && s.brackets.isEmpty) = false → Level s s') :
        (s.run (n + 1)).Forks (s'.run n') := by
      obtain ⟨m, rfl⟩ := Nat.exists_eq_add_one.mpr (Nat.zero_lt_of_lt hn')
      rw [hsucc] at hclean ⊢
      have hstep : s.step.1.diags = #[] := by
        split at hclean
        · exact diags_of_moves (moves_run n _) hclean
        · exact hclean
      obtain ⟨hflag, hforks⟩ := h.step hlevel hstep
      rw [hsucc, hflag]
      split
      · next hgoes =>
        rw [if_pos hgoes] at hclean
        rcases hforks with htwin | ⟨⟨t, ht, hcontinued⟩, hfault⟩
        · exact ih htwin (hread s n hn hgoes) (hread s' m hn' (hflag.trans hgoes)) hclean
        · exact .inr ⟨⟨t, mem_tokens_of_moves (moves_run n _) t ht, hcontinued⟩,
            fun hnone => hfault (diags_of_moves (moves_run m _) hnone)⟩
      · exact hforks
    by_cases hline : (s.atLineStart && s.brackets.isEmpty) = false ∧ ¬ Level s s'
    · obtain ⟨hstep, htwin, hlevel⟩ := h.step_return hline.1 hline.2
      obtain ⟨m, rfl⟩ := Nat.exists_eq_add_one.mpr (Nat.zero_lt_of_lt hn')
      have hlt := hread s' m hn' (by rw [hstep])
      rw [hstep] at hlt
      rw [hsucc s', hstep, if_pos rfl]
      exact hboth htwin hlt fun _ => hlevel
    · exact hboth h hn' fun hinside => Classical.not_not.mp fun hlevel => hline ⟨hinside, hlevel⟩

theorem finishLines (h : s.Twin s') : s.finishLines.Twin s'.finishLines := by
  have hdedents (l : List Nat) {s s' : Lexer} (h : s.Twin s') :
      (l.foldl (fun s _ => s.push (s.emptyToken .dedent)) s).Twin
        (l.foldl (fun s _ => s.push (s.emptyToken .dedent)) s') := by
    induction l generalizing s s' with
    | nil => exact h
    | cons _ l ih => exact ih (h.push_empty (by decide))
  unfold Lexer.finishLines
  dsimp only
  rw [h.flags.2.1]
  split
  · have hpush := h.push_empty (show Kind.newline ≠ .stringLit by decide)
    rw [hpush.indents]
    exact hdedents _ hpush
  · rw [h.indents]
    exact hdedents _ h

theorem start {source : Text} (h : 13 ∉ source) :
    (Lexer.start source).Twin (Lexer.start (crlf source)) := by
  have hmark := Text.startsWith_crlf (show 10 ∉ byteOrderMark by decide) (by decide) source
  refine ⟨?_, fun hmem => h (List.mem_of_mem_drop hmem), rfl, rfl, rfl, rfl, ⟨rfl, rfl, rfl⟩, rfl,
    fun t ht => absurd ht (Array.not_mem_empty t), ⟨rfl, rfl⟩⟩
  unfold Lexer.start
  dsimp only
  rw [hmark]
  split
  · next hbom =>
    obtain ⟨r, rfl⟩ := Text.startsWith_iff.mp hbom
    rw [Text.crlf_append, crlf_of_not_mem (t := byteOrderMark) (by decide)]
    exact .all r
  · exact .all source

end Twin

theorem reportOpen_of_nil {s : Lexer} (h : s.brackets = []) : s.reportOpen = s := by
  cases s
  subst h
  rfl

end Lexer

/-- A valid text without carriage returns and without faults has no fault either with a carriage
return in front of every line feed, unless a string in single quotes goes on behind a line feed. Then
its tokens are the same ones on the same lines. -/
theorem lex_crlf {source : Text} (h : Utf8.isValid source = true) (hplain : 13 ∉ source)
    (hclean : (lex source).2 = #[]) :
    ((lex (crlf source)).2 = #[] ↔ ∀ t ∈ (lex source).1, ¬ IsContinued t) ∧
      ((lex (crlf source)).2 = #[] →
        (lex (crlf source)).1.toList.map onLines = (lex source).1.toList.map onLines) := by
  let e := (Lexer.start source).run (source.length + 1)
  let e' := (Lexer.start (crlf source)).run ((crlf source).length + 1)
  have hlex : lex source = e.reportOpen.finishLines.finish := by
    rw [lex, Utf8.firstInvalid_of_isValid h]
  have hlex' : lex (crlf source) = e'.reportOpen.finishLines.finish := by
    rw [lex, Utf8.firstInvalid_of_isValid (Text.isValid_crlf h)]
  rw [hlex] at hclean ⊢
  rw [hlex']
  -- Without a fault no bracket is open at the end, so nothing is reported there.
  have hopen : e.reportOpen.diags = #[] := Lexer.diags_of_moves (Lexer.moves_finishLines _) hclean
  have hend : e.diags = #[] := Lexer.diags_of_moves (Lexer.moves_reportOpen e) hopen
  have hbrackets : e.brackets = [] := by
    have hcodes := congrArg Ledger.codes (Lexer.ledger_reportOpen e)
    have hnone : e.reportOpen.ledger.codes = [] := by
      show e.reportOpen.diags.toList.map Diagnostic.code = []
      rw [hopen]
      rfl
    rw [hnone] at hcodes
    have hcount := (List.append_eq_nil_iff.mp hcodes.symm).2
    rw [List.replicate_eq_nil_iff] at hcount
    exact List.length_eq_zero_iff.mp hcount
  have hfuel (source : Text) : (Lexer.start source).rest.length < source.length + 1 := by
    refine Nat.lt_succ_of_le ?_
    simp [Lexer.start]
  rcases (Lexer.Twin.start hplain).run (hfuel source) (hfuel (crlf source)) hend with
    htwin | ⟨⟨t, ht, hcontinued⟩, hfault⟩
  · have hbrackets' : e'.brackets = [] := by
      have hkinds : e'.brackets.map Token.kind = e.brackets.map Token.kind := htwin.brackets
      rw [hbrackets] at hkinds
      exact List.map_eq_nil_iff.mp hkinds
    rw [Lexer.reportOpen_of_nil hbrackets, Lexer.reportOpen_of_nil hbrackets']
    have hfinished := (Lexer.Twin.finishLines htwin).push_empty (show Kind.eof ≠ .stringLit by decide)
    exact ⟨iff_of_true hfinished.clean.2 hfinished.whole, fun _ => hfinished.tokens⟩
  · have hmem : t ∈ e.reportOpen.finishLines.finish.1 := by
      have hmoves := (Lexer.moves_reportOpen e).trans (Lexer.moves_finishLines _)
      exact Array.mem_push_of_mem _ (Lexer.mem_tokens_of_moves hmoves t ht)
    have hfaults : e'.reportOpen.finishLines.finish.2 ≠ #[] := fun hnone => by
      have hmoves := (Lexer.moves_reportOpen e').trans (Lexer.moves_finishLines _)
      exact hfault (Lexer.diags_of_moves hmoves hnone)
    exact ⟨iff_of_false hfaults fun hwhole => hwhole t hmem hcontinued,
      fun hnone => absurd hnone hfaults⟩

/-- A string in single quotes that goes on behind a line feed is a fault with a carriage return there.
-/
theorem lex_crlf_ne :
    let source := utf8 "x = 'a\\\nb'\n"
    Utf8.isValid source = true ∧ 13 ∉ source ∧ (lex source).2 = #[] ∧
      (lex (crlf source)).2 ≠ #[] := by
  decide +kernel

/-- Lines that go on in brackets, in a string of triple quotes and behind a backslash. -/
theorem lex_crlf_continued :
    let source := utf8 "x = (1, # c\n  '''a\n''')\nif x: \\\n  pass\n"
    (lex (crlf source)).2 = #[] ∧
      (lex (crlf source)).1.toList.map onLines = (lex source).1.toList.map onLines := by
  intro source
  have hclean : (lex source).2 = #[] := by decide +kernel
  have hwhole : ∀ t ∈ (lex source).1, ¬ IsContinued t := by decide +kernel
  obtain ⟨hiff, htokens⟩ := lex_crlf (by decide +kernel) (by decide +kernel) hclean
  exact ⟨hiff.mpr hwhole, htokens (hiff.mpr hwhole)⟩

end Token

end CloneScout
