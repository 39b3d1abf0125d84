import CloneScout.Proofs.Token.StringLiteral
import CloneScout.Proofs.Tree.Lawful
import CloneScout.Token.Lexer

/-!
# Lawful tokens

Every token that is read from valid UTF-8 without a report is lawful: an identifier is a word, a
string literal has a body of code points and a star is a star. The invariant of the lexer is that,
unless something was reported, the unread text is a sequence of UTF-8 forms and the tokens so far
are lawful.
-/

namespace CloneScout

open Utf8

/-! ## Diagnostics -/

/-- No diagnostic is an error. -/
def Diagnostic.Clean (ds : Array Diagnostic) : Prop := ({ diags := ds } : Bag).issueCount = 0

namespace Diagnostic

theorem clean_iff {ds : Array Diagnostic} :
    Clean ds ↔ ∀ d ∈ ds, d.severity ≠ .error ∧ d.severity ≠ .fatal := by
  unfold Clean Bag.issueCount Bag.errorCount Bag.fatalCount Bag.count
  rw [Nat.add_eq_zero_iff, List.length_eq_zero_iff, List.length_eq_zero_iff, List.filter_eq_nil_iff,
    List.filter_eq_nil_iff, ← forall_and]
  simp only [Array.mem_toList_iff, decide_eq_true_eq, ne_eq, imp_and]

@[simp]
theorem clean_empty : Clean #[] := clean_iff.mpr (by simp)

@[simp]
theorem clean_push {ds : Array Diagnostic} {d : Diagnostic} :
    Clean (ds.push d) ↔ Clean ds ∧ d.severity ≠ .error ∧ d.severity ≠ .fatal := by
  simp only [clean_iff, Array.mem_push]
  constructor
  · intro h
    exact ⟨fun e he => h e (.inl he), h d (.inr rfl)⟩
  · rintro ⟨hds, hd⟩ e (he | rfl)
    · exact hds e he
    · exact hd

@[simp]
theorem clean_append {ds es : Array Diagnostic} : Clean (ds ++ es) ↔ Clean ds ∧ Clean es := by
  simp only [clean_iff, Array.mem_append]
  constructor
  · intro h
    exact ⟨fun d hd => h d (.inl hd), fun d hd => h d (.inr hd)⟩
  · rintro ⟨hds, hes⟩ d (hd | hd)
    · exact hds d hd
    · exact hes d hd

theorem not_clean_push_errorAt (ds : Array Diagnostic) (code : Code) (span : Span) (arg : Text) :
    ¬ Clean (ds.push (errorAt code span arg)) := by
  simp [errorAt]

end Diagnostic

namespace Token

open Diagnostic

/-- What the lexeme of a token is by its kind. -/
structure Lawful (t : Token) : Prop where
  ident : t.kind = .ident → t.lexeme.IsWord
  stringLit : t.kind = .stringLit → IsEncoded (StringLiteral.parts t.lexeme).body ∧
    ((StringLiteral.parts t.lexeme).formatted = true →
      (StringLiteral.parts t.lexeme).bytes = false)
  star : t.kind = .star → t.lexeme = Kind.star.text

/-- The lexeme of any other kind is not bound to anything. -/
theorem Lawful.of_kind {t : Token} (h : t.kind ≠ .ident ∧ t.kind ≠ .stringLit ∧ t.kind ≠ .star) :
    t.Lawful :=
  ⟨fun hk => absurd hk h.1, fun hk => absurd hk h.2.1, fun hk => absurd hk h.2.2⟩

/-! ## Kinds -/

theorem ofWord_kind (w : Text) : Kind.ofWord w ≠ .stringLit ∧ Kind.ofWord w ≠ .star := by
  have hall : ∀ k ∈ Kind.keywords, k ≠ .stringLit ∧ k ≠ .star := by decide
  unfold Kind.ofWord
  cases hlook : Kind.keywordTable.lookup w with
  | none => simp
  | some k =>
    have hmem : k ∈ Kind.keywords := by
      obtain ⟨l₁, l₂, hsplit, -⟩ := List.lookup_eq_some_iff.mp hlook
      have hpair : (w, k) ∈ Kind.keywords.map fun k => (k.text, k) := by
        show (w, k) ∈ Kind.keywordTable
        rw [hsplit]
        simp
      obtain ⟨k', hk', heq⟩ := List.mem_map.mp hpair
      rw [← (Prod.mk.inj heq).2]
      exact hk'
    exact hall k hmem

theorem sign?_kind {t spelling : Text} {k : Kind} (h : Kind.sign? t = some (spelling, k)) :
    spelling <+: t ∧ (∀ b ∈ spelling, b < 0x80) ∧ k ≠ .ident ∧ k ≠ .stringLit ∧
      (k = .star → spelling = Kind.star.text) := by
  have hall : ∀ s ∈ Kind.signTable, (∀ b ∈ s.1, b < 0x80) ∧ s.2 ≠ .ident ∧ s.2 ≠ .stringLit ∧
      (s.2 = .star → s.1 = Kind.star.text) := by decide +kernel
  have hmem := List.mem_of_find?_eq_some h
  have hstart := List.find?_some h
  exact ⟨Text.startsWith_iff.mp hstart, hall _ hmem⟩

theorem number_kind (t : Text) : (Number.scan t).kind ≠ .ident ∧ (Number.scan t).kind ≠ .stringLit ∧
    (Number.scan t).kind ≠ .star := by
  have hdecimal (t : Text) : (Number.decimal t).kind ≠ .ident ∧
      (Number.decimal t).kind ≠ .stringLit ∧ (Number.decimal t).kind ≠ .star := by
    unfold Number.decimal
    dsimp only
    split
    · simp
    · split <;> simp
  show (Number.bare t).kind ≠ .ident ∧ (Number.bare t).kind ≠ .stringLit ∧
    (Number.bare t).kind ≠ .star
  unfold Number.bare
  split
  · split
    · split
      · simp [Number.based]
      · exact hdecimal _
    · exact hdecimal _
  · exact hdecimal _

/-! ## Bytes -/

theorem lt_of_not_isIdentPart {b : UInt8} (h : isIdentPart b = false) : b < 0x80 := by
  have hall : ∀ n < 256, isIdentPart (UInt8.ofNat n) = false → n < 0x80 := by decide +kernel
  exact hall b.toNat b.toNat_lt (by rw [UInt8.ofNat_toNat]; exact h)

theorem not_isQuote_of_isIdentPart {b : UInt8} (h : isIdentPart b = true) :
    StringLiteral.isQuote b = false := by
  have hall : ∀ n < 256, isIdentPart (UInt8.ofNat n) = true →
      StringLiteral.isQuote (UInt8.ofNat n) = false := by decide +kernel
  have hb := hall b.toNat b.toNat_lt
  rw [UInt8.ofNat_toNat] at hb
  exact hb h

theorem isBlank_lt {b : UInt8} (h : Lexer.isBlank b = true) : b < 0x80 := by
  simp only [Lexer.isBlank, Bool.or_eq_true, decide_eq_true_eq] at h
  rcases h with ((rfl | rfl) | rfl) | rfl <;> decide

theorem isQuote_lt {b : UInt8} (h : StringLiteral.isQuote b = true) : b < 0x80 := by
  simp only [StringLiteral.isQuote, Bool.or_eq_true, decide_eq_true_eq] at h
  rcases h with rfl | rfl <;> decide

/-- The first byte behind a run of bytes is not one of them. -/
theorem head?_drop_takeWhile {p : UInt8 → Bool} {t : Text} {b : UInt8}
    (h : b ∈ (t.drop (t.takeWhile p).length).head?) : p b = false := by
  have hdrop : t.drop (t.takeWhile p).length = t.dropWhile p := by
    conv => lhs; arg 2; rw [← List.takeWhile_append_dropWhile (p := p) (l := t)]
    rw [List.drop_left]
  rw [hdrop] at h
  have hnot := List.head?_dropWhile_not p t
  rw [Option.mem_def.mp h] at hnot
  simpa using hnot

namespace Lexer

/-! ## Strings -/

/-- The quotes that end a string, as many as opened it. -/
def quotes (triple : Bool) (q : UInt8) : Text := if triple then [q, q, q] else [q]

/-- A string whose end was found has its body in front of the closing quotes. -/
theorem stringBody_closed {q : UInt8} {triple : Bool} {read n : Nat} {t : Text}
    (h : stringBody q triple read t = (n, true)) :
    ∃ body rest, t = body ++ (quotes triple q ++ rest) ∧
      n = read + body.length + (quotes triple q).length := by
  fun_induction stringBody q triple read t with
  | case3 read next u ih =>
    obtain ⟨body, rest, rfl, rfl⟩ := ih h
    exact ⟨ascii '\\' :: next :: body, rest, rfl, by simp only [List.length_cons]; omega⟩
  | case5 read b t _ _ _ ih =>
    obtain ⟨body, rest, rfl, rfl⟩ := ih h
    exact ⟨b :: body, rest, rfl, by simp only [List.length_cons]; omega⟩
  | case6 read b t _ _ hb htriple =>
    obtain rfl := Decidable.of_not_not hb
    rw [Bool.not_eq_true'] at htriple
    obtain rfl := (Prod.mk.inj h).1
    exact ⟨[], t, by simp [quotes, htriple], by simp [quotes, htriple]⟩
  | case7 read b t _ _ hb htriple hstart =>
    obtain rfl := Decidable.of_not_not hb
    have htriple : triple = true := by simpa using htriple
    obtain ⟨rest, rfl⟩ := Text.startsWith_iff.mp hstart
    obtain rfl := (Prod.mk.inj h).1
    exact ⟨[], rest, by simp [quotes, htriple], by simp [quotes, htriple]⟩
  | case8 read b t _ _ _ _ _ ih =>
    obtain ⟨body, rest, rfl, rfl⟩ := ih h
    exact ⟨b :: body, rest, rfl, by simp only [List.length_cons]; omega⟩
  | _ => exact absurd h (by simp)

theorem quotes_lt {q : UInt8} (triple : Bool) (hq : StringLiteral.isQuote q = true) :
    ∀ b ∈ quotes triple q, b < 0x80 := by
  intro b hb
  have hb : b = q := by
    unfold quotes at hb
    split at hb
    · simpa using hb
    · simpa using hb
  rw [hb]
  exact isQuote_lt hq

/-- The body between the quotes is found again; `triple` holds if and only if there are three. -/
theorem body_parts_quotes {letters body rest : Text} {q : UInt8} {triple : Bool}
    (hletters : ∀ b ∈ letters, StringLiteral.isQuote b = false)
    (hq : StringLiteral.isQuote q = true)
    (h : Text.startsWith (quotes triple q ++ (body ++ (quotes triple q ++ rest))) [q, q, q] =
      triple) :
    (StringLiteral.parts (letters ++ (quotes triple q ++ (body ++ quotes triple q)))).body =
      body := by
  cases triple with
  | true => exact StringLiteral.body_parts_triple hletters hq
  | false =>
    refine StringLiteral.body_parts_single hletters hq ?_
    rw [Bool.eq_false_iff] at h ⊢
    intro hstart
    have hstarts : [q, q, q] <+: q :: (body ++ [q]) := Text.startsWith_iff.mp hstart
    refine h (Text.startsWith_iff.mpr (hstarts.trans ⟨rest, ?_⟩))
    simp [quotes]

/-! ## The invariant -/

/-- The unread text is a sequence of forms and the tokens are lawful. -/
def Good (s : Lexer) : Prop := IsEncoded s.rest ∧ ∀ t ∈ s.tokens, t.Lawful

/-- Unless something was reported, the lexer is in a good state. -/
def Sound (s : Lexer) : Prop := Clean s.diags → s.Good

theorem sound_report {s : Lexer} {code : Code} {span : Span} {arg : Text} :
    (s.report code span arg).Sound :=
  fun h => (not_clean_push_errorAt _ _ _ _ h).elim

theorem Good.advance {s : Lexer} {n : Nat} (h : s.Good) (hn : IsEncoded (s.rest.drop n)) :
    (s.advance n).Good :=
  ⟨hn, h.2⟩

theorem Good.push {s : Lexer} {t : Token} (h : s.Good) (ht : t.Lawful) : (s.push t).Good := by
  refine ⟨h.1, fun t' ht' => ?_⟩
  rcases Array.mem_push.mp ht' with ht' | rfl
  · exact h.2 t' ht'
  · exact ht

theorem Good.take {s : Lexer} {kind : Kind} {n : Nat} (h : s.Good)
    (ht : (s.tokenOf kind n).Lawful) (hn : IsEncoded (s.rest.drop n)) : (s.take kind n).Good :=
  (h.push ht).advance hn

/-! ## Indentation -/

theorem encoded_takeWhile {p : UInt8 → Bool} {t : Text} (h : IsEncoded t)
    (hp : ∀ b, p b = true → b < 0x80) : IsEncoded (t.drop (t.takeWhile p).length) := by
  refine h.drop fun b hb => hp b ?_
  rw [← List.prefix_iff_eq_take.mp (List.takeWhile_prefix p)] at hb
  exact List.all_eq_true.mp List.all_takeWhile b hb

theorem encoded_toLineEnd {t : Text} (h : IsEncoded t) : IsEncoded (t.drop (toLineEnd t)) := by
  refine (h.cut fun b hb => ?_).2
  have hb := head?_drop_takeWhile hb
  rw [decide_eq_false_iff_not] at hb
  rw [Decidable.of_not_not hb]
  decide

theorem encoded_continuation {t : Text} {n : Nat} (h : IsEncoded t)
    (hn : continuation? t = some n) : IsEncoded (t.drop n) := by
  unfold continuation? at hn
  split at hn
  · split at hn
    · next b _ hb =>
      obtain rfl := Option.some.inj hn
      rw [hb] at h
      exact (h.of_cons (by decide)).of_cons (by decide)
    · exact absurd hn (by simp)
  · split at hn
    · next b _ hb =>
      obtain rfl := Option.some.inj hn
      rw [hb] at h
      exact ((h.of_cons (by decide)).of_cons (by decide)).of_cons (by decide)
    · exact absurd hn (by simp)
  · exact absurd hn (by simp)

theorem emptyToken_lawful {s : Lexer} {kind : Kind}
    (h : kind ≠ .ident ∧ kind ≠ .stringLit ∧ kind ≠ .star) : (s.emptyToken kind).Lawful :=
  .of_kind h

theorem good_closeIndents {col : Nat} {indents : List Nat} {s : Lexer} (h : s.Good) :
    (closeIndents col indents s).2.Good := by
  induction indents generalizing s with
  | nil => exact h
  | cons top below ih =>
    rw [closeIndents]
    split
    · exact ih (h.push (emptyToken_lawful (by decide)))
    · exact h

theorem sound_indentTo {col : Nat} {s : Lexer} (h : s.Good) : (indentTo col s).Sound := by
  unfold indentTo
  dsimp only
  split
  · exact fun _ => h.push (emptyToken_lawful (by decide))
  · split
    · exact fun _ => good_closeIndents h
    · exact fun hclean => (not_clean_push_errorAt _ _ _ _ hclean).elim

/-- The lexer behind the start of a line. -/
def LineStart.lexer : LineStart → Lexer
  | .skipped s => s
  | .content s => s

theorem sound_lineStart {s : Lexer} (h : s.Good) : s.lineStart.lexer.Sound := by
  unfold lineStart
  have hblank : (s.advance (s.rest.takeWhile isBlank).length).Good :=
    h.advance (encoded_takeWhile h.1 fun b => isBlank_lt)
  generalize s.advance (s.rest.takeWhile isBlank).length = s₁ at hblank ⊢
  dsimp only
  split
  · exact fun _ => hblank
  · have hcomment : (if s₁.rest.head? = some (ascii '#') then s₁.advance (toLineEnd s₁.rest)
        else s₁).Good := by
      split
      · exact hblank.advance (encoded_toLineEnd hblank.1)
      · exact hblank
    generalize (if s₁.rest.head? = some (ascii '#') then s₁.advance (toLineEnd s₁.rest)
      else s₁) = s₂ at hcomment ⊢
    split
    · next hfeed =>
      obtain ⟨rest, hrest⟩ := List.head?_eq_some_iff.mp hfeed
      refine fun _ => hcomment.advance ?_
      have henc := hcomment.1
      rw [hrest] at henc ⊢
      exact henc.of_cons (by decide)
    · split
      · next n hn => exact fun _ => hcomment.advance (encoded_continuation hcomment.1 hn)
      · exact sound_indentTo hcomment

/-! ## Tokens -/

theorem sound_number {s : Lexer} (h : s.Good) : s.number.Sound := by
  unfold number
  dsimp only
  split
  · exact fun hclean => (not_clean_push_errorAt _ _ _ _ hclean).elim
  · next hbad =>
    refine fun _ => h.take (.of_kind (number_kind s.rest)) (h.1.cut fun b hb => ?_).2
    -- a literal that is well formed runs into no identifier
    have hglued : ((s.rest.drop (Number.bare s.rest).length).takeWhile isIdentPart) = [] := by
      have hboth : ((Number.bare s.rest).bad ||
          !((s.rest.drop (Number.bare s.rest).length).takeWhile isIdentPart).isEmpty) = false :=
        Bool.eq_false_iff.mpr hbad
      rw [Bool.or_eq_false_iff, Bool.not_eq_false', List.isEmpty_iff] at hboth
      exact hboth.2
    have hlength : (Number.scan s.rest).length = (Number.bare s.rest).length := by
      show (Number.bare s.rest).length + _ = _
      rw [hglued]
      rfl
    rw [hlength] at hb
    apply lt_of_not_isIdentPart
    apply head?_drop_takeWhile (t := s.rest.drop (Number.bare s.rest).length)
    rw [hglued]
    exact hb

/-- No letters in front of a quote mark a template and a byte string at once. -/
theorem not_bytes_of_isStringPrefix {w : Text} (h : isStringPrefix w = true) :
    (w.map Text.toLower).contains (ascii 'f') = true →
      (w.map Text.toLower).contains (ascii 'b') = false := by
  have hall : ∀ w ∈ [utf8 "r", utf8 "b", utf8 "u", utf8 "f", utf8 "rb", utf8 "br", utf8 "rf",
      utf8 "fr"], w.contains (ascii 'f') = true → w.contains (ascii 'b') = false := by
    decide +kernel
  exact hall _ (List.contains_iff_mem.mp h)

/-- A string behind letters that hold no quote. -/
theorem sound_string {s : Lexer} {letters rest : Text} {q : UInt8} (h : s.Good)
    (hrest : s.rest = letters ++ q :: rest) (hq : StringLiteral.isQuote q = true)
    (hletters : ∀ b ∈ letters, StringLiteral.isQuote b = false)
    (hmarks : (letters.map Text.toLower).contains (ascii 'f') = true →
      (letters.map Text.toLower).contains (ascii 'b') = false) :
    (s.string letters.length).Sound := by
  unfold string
  have hdrop : s.rest.drop letters.length = q :: rest := by rw [hrest, List.drop_left]
  simp only [hdrop, List.headD_cons]
  generalize htriple : Text.startsWith (q :: rest) [q, q, q] = triple
  obtain ⟨after, hafter⟩ : ∃ after, q :: rest = quotes triple q ++ after := by
    cases triple with
    | true =>
      obtain ⟨after, hafter⟩ := Text.startsWith_iff.mp htriple
      exact ⟨after, hafter.symm⟩
    | false => exact ⟨rest, rfl⟩
  have hopener : (q :: rest).take (if triple then 3 else 1) = quotes triple q := by
    rw [hafter]
    cases triple <;> rfl
  rw [hopener, hafter, List.drop_left]
  rcases hread : stringBody q triple 0 after with ⟨n, closed⟩
  dsimp only
  split
  · next hclosed =>
    rw [hclosed] at hread
    obtain ⟨body, rest', rfl, rfl⟩ := stringBody_closed hread
    rw [hafter] at hrest htriple
    generalize hlength : letters.length + (quotes triple q).length +
      (0 + body.length + (quotes triple q).length) = length
    have hsplit : s.rest = (letters ++ (quotes triple q ++ (body ++ quotes triple q))) ++ rest' := by
      rw [hrest]
      simp only [List.append_assoc]
    have hlen : length = (letters ++ (quotes triple q ++ (body ++ quotes triple q))).length := by
      simp only [List.length_append]
      omega
    have henc := h.1
    rw [hrest] at henc
    have hhead : ∀ t : Text, ∀ b ∈ (quotes triple q ++ t).head?, isContinuation b = false := by
      intro t b hb
      refine isContinuation_of_lt (quotes_lt triple hq b ?_)
      cases triple <;> simpa [quotes, eq_comm] using hb
    have hbody := ((henc.split (hhead _)).2.of_append (quotes_lt triple hq)).split (hhead _)
    refine fun _ => h.take ⟨by simp [tokenOf], fun _ => ?_, by simp [tokenOf]⟩ ?_
    · rw [tokenOf, hsplit, hlen, List.take_left]
      dsimp only
      refine ⟨?_, ?_⟩
      · rw [body_parts_quotes hletters hq htriple]
        exact hbody.1
      · cases triple <;> exact StringLiteral.bytes_parts hletters hq hmarks
    · rw [hsplit, hlen, List.drop_left]
      exact hbody.2.of_append (quotes_lt triple hq)
  · exact fun hclean => (not_clean_push_errorAt _ _ _ _ hclean).elim

theorem sound_word {s : Lexer} (h : s.Good) : s.word.Sound := by
  unfold word
  dsimp only
  have hparts : ∀ b ∈ s.rest.takeWhile isIdentPart, isIdentPart b = true :=
    List.all_eq_true.mp List.all_takeWhile
  have hlexeme : s.rest.take (s.rest.takeWhile isIdentPart).length =
      s.rest.takeWhile isIdentPart :=
    (List.prefix_iff_eq_take.mp (List.takeWhile_prefix _)).symm
  split
  · next hstring =>
    rw [Bool.and_eq_true] at hstring
    obtain ⟨q, hq, hquote⟩ := (Option.any_eq_true _ _).mp hstring.1
    obtain ⟨rest, hrest⟩ := List.head?_eq_some_iff.mp hq
    have hsplit : s.rest = s.rest.takeWhile isIdentPart ++ q :: rest := by
      rw [← hrest]
      conv => lhs; rw [← List.take_append_drop (s.rest.takeWhile isIdentPart).length s.rest, hlexeme]
    exact sound_string h hsplit hquote (fun b hb => not_isQuote_of_isIdentPart (hparts b hb))
      (not_bytes_of_isStringPrefix hstring.2)
  · obtain ⟨hword, hnext⟩ := h.1.cut fun b hb => lt_of_not_isIdentPart (head?_drop_takeWhile hb)
    refine fun _ => h.take ⟨fun _ => ⟨hword, ?_⟩, fun hk => ?_, fun hk => ?_⟩ hnext
    · rw [tokenOf, hlexeme]
      exact hparts
    · exact absurd hk (ofWord_kind _).1
    · exact absurd hk (ofWord_kind _).2

theorem sound_track {t : Token} {s : Lexer} (h : s.Good) : (track t s).Sound := by
  unfold track
  split
  · exact fun _ => h
  · split
    · exact fun _ => h
    · split
      · split
        · exact fun _ => h
        · exact sound_report
      · exact sound_report

theorem sound_sign {s : Lexer} {b : UInt8} {rest : Text} (h : s.Good) (hrest : s.rest = b :: rest)
    (hb : isIdentStart b = false) : s.sign.Sound := by
  unfold sign
  cases hsign : Kind.sign? s.rest with
  | some found =>
    obtain ⟨spelling, kind⟩ := found
    obtain ⟨⟨after, hafter⟩, hascii, hident, hstring, hstar⟩ := sign?_kind hsign
    refine sound_track (h.take ⟨fun hk => absurd hk hident, fun hk => absurd hk hstring, ?_⟩ ?_)
    · intro hk
      rw [tokenOf, ← hafter, List.take_left, hstar hk]
    · have henc := h.1
      rw [← hafter] at henc ⊢
      rw [List.drop_left]
      exact henc.of_append hascii
  | none =>
    refine sound_track (h.take (.of_kind (by simp [tokenOf])) ?_)
    have hb : b < 0x80 := by
      simp only [isIdentStart, Bool.or_eq_false_iff, decide_eq_false_iff_not] at hb
      exact UInt8.not_le.mp hb.1.1
    have henc := h.1
    rw [hrest] at henc ⊢
    rw [List.drop_succ_cons, List.drop_zero, Nat.add_comm, List.drop_succ_cons]
    have hafter := henc.of_cons hb
    rw [← List.take_append_drop (rest.takeWhile isContinuation).length rest] at hafter
    exact (hafter.split fun c hc => head?_drop_takeWhile hc).2

theorem good_lineFeed {s : Lexer} {rest : Text} (h : s.Good) (hrest : s.rest = 10 :: rest) :
    s.lineFeed.Good := by
  have hafter : (s.advance 1).Good := by
    refine h.advance ?_
    have henc := h.1
    rw [hrest] at henc ⊢
    exact henc.of_cons (by decide)
  unfold lineFeed
  dsimp only
  split
  · split
    · exact hafter.push (.of_kind (by simp))
    · exact hafter
  · exact hafter

theorem sound_item {s : Lexer} {b : UInt8} {rest : Text} (h : s.Good) (hrest : s.rest = b :: rest) :
    (s.item b).Sound := by
  unfold item
  dsimp only
  split
  · next hblank =>
    refine fun _ => h.advance ?_
    have henc := h.1
    rw [hrest] at henc ⊢
    exact henc.of_cons (isBlank_lt hblank)
  · split
    · exact fun _ => h.advance (encoded_toLineEnd h.1)
    · split
      · split
        · next n hn => exact fun _ => h.advance (encoded_continuation h.1 hn)
        · exact fun hclean => (not_clean_push_errorAt _ _ _ _ hclean).elim
      · split
        · next hfeed => exact fun _ => good_lineFeed h (by rw [hrest, hfeed])
        · split
          · exact sound_number h
          · split
            · exact sound_word h
            · next hident =>
              split
              · next hquote =>
                have hsplit : s.rest = [] ++ b :: rest := hrest
                have hstring : (s.string ([] : Text).length).Sound :=
                  sound_string h hsplit hquote (by simp) (by simp)
                exact hstring
              · exact sound_sign h hrest (by simpa using hident)

/-! ## Reports stay

What has been reported is never taken back, so a clean end has a clean start. -/

@[simp]
theorem diags_advance (n : Nat) (s : Lexer) : (s.advance n).diags = s.diags := rfl

@[simp]
theorem diags_push (t : Token) (s : Lexer) : (s.push t).diags = s.diags := rfl

@[simp]
theorem diags_take (kind : Kind) (n : Nat) (s : Lexer) : (s.take kind n).diags = s.diags := rfl

@[simp]
theorem diags_report (code : Code) (span : Span) (arg : Text) (s : Lexer) :
    (s.report code span arg).diags = s.diags.push (.errorAt code span arg) := rfl

@[simp]
theorem diags_closeIndents (col : Nat) (indents : List Nat) (s : Lexer) :
    (closeIndents col indents s).2.diags = s.diags := by
  induction indents generalizing s with
  | nil => rfl
  | cons top below ih =>
    rw [closeIndents]
    split
    · rw [ih, diags_push]
    · rfl

theorem clean_of_track {t : Token} {s : Lexer} (h : Clean (track t s).diags) : Clean s.diags := by
  unfold track at h
  split at h
  · exact h
  · split at h
    · exact h
    · split at h
      · split at h
        · exact h
        · exact (clean_push.mp h).1
      · exact (clean_push.mp h).1

theorem clean_of_string {letters : Nat} {s : Lexer} (h : Clean (s.string letters).diags) :
    Clean s.diags := by
  unfold string at h
  dsimp only at h
  generalize (s.rest.drop letters).take _ = opener at h
  split at h
  · exact h
  · exact (clean_push.mp h).1

theorem clean_of_item {b : UInt8} {s : Lexer} (h : Clean (s.item b).diags) : Clean s.diags := by
  unfold item at h
  dsimp only at h
  split at h
  · exact h
  · split at h
    · exact h
    · split at h
      · split at h
        · exact h
        · exact (clean_push.mp h).1
      · split at h
        · unfold lineFeed at h
          dsimp only at h
          split at h
          · split at h <;> exact h
          · exact h
        · split at h
          · unfold number at h
            dsimp only at h
            split at h
            · exact (clean_push.mp h).1
            · exact h
          · split at h
            · unfold word at h
              dsimp only at h
              split at h
              · exact clean_of_string h
              · exact h
            · split at h
              · exact clean_of_string h
              · unfold sign at h
                have htake := clean_of_track h
                exact htake

theorem clean_of_indentTo {col : Nat} {s : Lexer} (h : Clean (indentTo col s).diags) :
    Clean s.diags := by
  unfold indentTo at h
  dsimp only at h
  split at h
  · exact h
  · rw [← diags_closeIndents col s.indents s]
    split at h
    · exact h
    · exact (clean_push.mp h).1

theorem clean_of_lineStart {s : Lexer} (h : Clean s.lineStart.lexer.diags) : Clean s.diags := by
  unfold lineStart at h
  dsimp only at h
  rw [← diags_advance (s.rest.takeWhile isBlank).length s]
  generalize s.advance (s.rest.takeWhile isBlank).length = s₁ at h ⊢
  split at h
  · exact h
  · have hcomment : (if s₁.rest.head? = some (ascii '#') then s₁.advance (toLineEnd s₁.rest)
        else s₁).diags = s₁.diags := by
      split <;> rfl
    rw [← hcomment]
    generalize (if s₁.rest.head? = some (ascii '#') then s₁.advance (toLineEnd s₁.rest)
      else s₁) = s₂ at h ⊢
    split at h
    · exact h
    · split at h
      · exact h
      · have hline := clean_of_indentTo h
        exact hline

/-! ## Runs -/

/-- Reads one token unless the text has ended. -/
def readItem (s : Lexer) : Lexer × Bool :=
  match s.rest with
  | [] => (s, false)
  | b :: _ => (s.item b, true)

theorem step_eq (s : Lexer) : s.step =
    if s.atLineStart && s.brackets.isEmpty then
      match s.lineStart with
      | .skipped s => (s, !s.rest.isEmpty)
      | .content s => s.readItem
    else s.readItem :=
  rfl

theorem sound_readItem {s : Lexer} (h : s.Sound) : s.readItem.1.Sound := by
  unfold readItem
  split
  · exact h
  · next b rest hrest => exact fun hclean => sound_item (h (clean_of_item hclean)) hrest hclean

theorem sound_step {s : Lexer} (h : s.Sound) : s.step.1.Sound := by
  have hline : s.lineStart.lexer.Sound := fun hclean =>
    sound_lineStart (h (clean_of_lineStart hclean)) hclean
  rw [step_eq]
  split
  · split
    · next s' hs' =>
      rw [hs'] at hline
      exact hline
    · next s' hs' =>
      rw [hs'] at hline
      exact sound_readItem hline
  · exact sound_readItem h

theorem sound_run {steps : Nat} {s : Lexer} (h : s.Sound) : (run steps s).Sound := by
  induction steps generalizing s with
  | zero => exact h
  | succ steps ih =>
    have hstep := sound_step h
    rw [run]
    split
    · next s' hs' =>
      rw [hs'] at hstep
      exact ih hstep
    · next s' hs' =>
      rw [hs'] at hstep
      exact hstep

theorem sound_reportOpen {s : Lexer} (h : s.Sound) : s.reportOpen.Sound := by
  unfold reportOpen
  cases s.brackets with
  | nil => exact h
  | cons t rest => exact fun hclean => (not_clean_push_errorAt _ _ _ _ hclean).elim

theorem sound_finishLines {s : Lexer} (h : s.Sound) : s.finishLines.Sound := by
  have hpush {s : Lexer} {kind : Kind} (h : s.Sound)
      (hk : kind ≠ .ident ∧ kind ≠ .stringLit ∧ kind ≠ .star) :
      (s.push (s.emptyToken kind)).Sound :=
    fun hclean => (h hclean).push (emptyToken_lawful hk)
  have hfold (l : List Nat) {s : Lexer} (h : s.Sound) :
      (l.foldl (fun s _ => s.push (s.emptyToken .dedent)) s).Sound := by
    induction l generalizing s with
    | nil => exact h
    | cons _ l ih => exact ih (hpush h (by decide))
  unfold finishLines
  dsimp only
  refine hfold _ ?_
  split
  · exact hpush h (by decide)
  · exact h

/-- The tokens that a sound lexer ends with are lawful. -/
theorem finish_lawful {s : Lexer} (h : s.Sound) (hclean : Clean s.finish.2) :
    ∀ t ∈ s.finish.1, t.Lawful :=
  ((h hclean).push (emptyToken_lawful (by decide))).2

end Lexer

theorem lexField_lawful {offset line : Nat} {part : Text} (h : IsEncoded part)
    (hclean : Clean (lexField offset line part).2) :
    ∀ t ∈ (lexField offset line part).1, t.Lawful := by
  refine Lexer.finish_lawful (Lexer.sound_reportOpen (Lexer.sound_run ?_)) hclean
  exact fun _ => ⟨h, by simp⟩

theorem lex_lawful {source : Text} (hclean : Clean (lex source).2) :
    ∀ t ∈ (lex source).1, t.Lawful := by
  unfold lex at hclean ⊢
  split at hclean
  · exact absurd hclean (by simp [clean_iff, invalidUtf8])
  · next hvalid =>
    refine Lexer.finish_lawful
      (Lexer.sound_finishLines (Lexer.sound_reportOpen (Lexer.sound_run ?_))) hclean
    refine fun _ => ⟨?_, by simp [Lexer.start]⟩
    unfold Lexer.start
    dsimp only
    split
    · next hmark =>
      obtain ⟨rest, rfl⟩ := Text.startsWith_iff.mp hmark
      -- the byte order mark is a form of its own
      have hrest : firstInvalid 3 rest = none := by
        rw [byteOrderMark, List.cons_append, firstInvalid.eq_def] at hvalid
        exact hvalid
      exact IsEncoded.of_firstInvalid hrest
    · exact IsEncoded.of_firstInvalid hvalid

end Token

end CloneScout
