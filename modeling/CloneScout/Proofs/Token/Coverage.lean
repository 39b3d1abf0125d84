import CloneScout.Proofs.Token.Moves

/-!
# Tokens cover their source

Every token of a text is a slice of it: it stands where its span says, its lexeme is what stands
there, and its lines are counted in the text in front of it. The lexer keeps its own place and line
in the same way, and every move preserves that.

The tokens of a source stand in order and do not overlap, and a byte between them is there for one
of few reasons. The invariant holds this for the tokens and bytes in front of the lexer's place.
-/

namespace CloneScout.Token

/-- A token cut from a text that starts at the given offset and line. The line feed of a `newline`
token counts for the next line only. -/
def CutFrom (offset line : Nat) (text : Text) (t : Token) : Prop :=
  ∃ before after, text = before ++ (t.lexeme ++ after) ∧
    t.span = ⟨offset + before.length, offset + before.length + t.lexeme.length⟩ ∧
    t.line = Lexer.lineAfter line before ∧
    t.endLine = if t.kind = .newline then t.line else Lexer.lineAfter t.line t.lexeme

theorem CutFrom.slice {line : Nat} {source : Text} {t : Token} (h : t.CutFrom 0 line source) :
    t.span.hi = t.span.lo + t.lexeme.length ∧ t.span.hi ≤ source.length ∧
      t.lexeme = (source.drop t.span.lo).take (t.span.hi - t.span.lo) := by
  obtain ⟨before, after, rfl, hspan, -, -⟩ := h
  rw [hspan, Nat.zero_add, Nat.add_sub_cancel_left, List.drop_left, List.take_left]
  refine ⟨rfl, ?_, rfl⟩
  simp only [List.length_append]
  omega

namespace Lexer

theorem lineAfter_append (line : Nat) (t u : Text) :
    lineAfter line (t ++ u) = lineAfter (lineAfter line t) u := by
  rw [lineAfter, lineAfter, lineAfter, Word.wrap, Word.wrap, Word.wrap, List.count_append,
    Nat.mod_add_mod, Nat.add_assoc]

@[simp]
theorem lineAfter_lineAfter_nil (line : Nat) (t : Text) :
    lineAfter (lineAfter line t) [] = lineAfter line t := by
  rw [← lineAfter_append, List.append_nil]

/-- The lexer has read the text in front of its place, and counted its lines. -/
structure Reading (offset line : Nat) (text : Text) (s : Lexer) : Prop where
  place : ∃ before, text = before ++ s.rest ∧ s.pos = offset + before.length ∧
    s.line = lineAfter line before
  tokens : ∀ t ∈ s.tokens, t.CutFrom offset line text

namespace Reading

variable {offset line : Nat} {text : Text} {s s' : Lexer}

/-- Nothing but tokens and the place is looked at. -/
theorem of_eq (h : s.Reading offset line text) (rest : s'.rest = s.rest) (pos : s'.pos = s.pos)
    (hline : s'.line = s.line) (tokens : s'.tokens = s.tokens) : s'.Reading offset line text := by
  obtain ⟨hplace, htokens⟩ := h
  exact ⟨by rwa [rest, pos, hline], by rwa [tokens]⟩

theorem advance (h : s.Reading offset line text) {n : Nat} (hn : n ≤ s.rest.length) :
    (s.advance n).Reading offset line text := by
  obtain ⟨⟨before, htext, hpos, hline⟩, htokens⟩ := h
  refine ⟨⟨before ++ s.rest.take n, ?_, ?_, ?_⟩, htokens⟩
  · simp [Lexer.advance, htext]
  · simp [Lexer.advance, hpos, Nat.min_eq_left hn, Nat.add_assoc]
  · simp [Lexer.advance, hline, lineAfter_append]

theorem push (h : s.Reading offset line text) {t : Token} (ht : t.CutFrom offset line text) :
    (s.push t).Reading offset line text := by
  refine ⟨h.place, fun u hu => ?_⟩
  rcases Array.mem_push.mp hu with hu | rfl
  · exact h.tokens u hu
  · exact ht

/-- The next bytes as a token. -/
theorem cut (h : s.Reading offset line text) (kind : Kind) {n : Nat} (hn : n ≤ s.rest.length)
    {endLine : Nat} (hend : endLine = if kind = .newline then s.line
      else lineAfter s.line (s.rest.take n)) :
    Token.CutFrom offset line text ⟨kind, ⟨s.pos, s.pos + n⟩, s.rest.take n, s.line, endLine⟩ := by
  obtain ⟨⟨before, htext, hpos, hline⟩, -⟩ := h
  refine ⟨before, s.rest.drop n, ?_, ?_, hline, hend⟩
  · rw [htext, List.take_append_drop]
  · simp [hpos, Nat.min_eq_left hn]

theorem emptyToken (h : s.Reading offset line text) (kind : Kind) :
    (s.emptyToken kind).CutFrom offset line text := by
  obtain ⟨before, -, -, hline⟩ := h.place
  exact h.cut kind (Nat.zero_le _) (by simp [hline])

theorem move (h : s.Reading offset line text) (hmove : s.Move s') :
    s'.Reading offset line text := by
  cases hmove with
  | keep rest pos hline tokens => exact h.of_eq rest pos hline tokens
  | skip rest => exact h.advance (by rw [rest]; simp)
  | stray rest =>
    have hreport : (s.report .strayBackslash ⟨s.pos, s.pos + 1⟩ []).Reading offset line text :=
      h.of_eq rfl rfl rfl rfl
    exact hreport.advance (by simp [Lexer.report, rest])
  | @take kind n hkind _ hlength =>
    have hkind : kind ≠ .newline := by
      rintro rfl
      cases hkind
    have hcut := h.cut kind hlength (by rw [if_neg hkind])
    exact ((h.push hcut).advance hlength).of_eq rfl rfl rfl rfl
  | newline rest =>
    have hlength : 1 ≤ s.rest.length := by simp [rest]
    have hend : s.line = if Kind.newline = .newline then s.line
        else lineAfter s.line (s.rest.take 1) := rfl
    have hcut := h.cut .newline hlength hend
    rw [show s.rest.take 1 = [10] by simp [rest]] at hcut
    exact (h.advance hlength).push hcut
  | mark => exact h.push (h.emptyToken _)

theorem moves (h : s.Reading offset line text) (hmoves : s.Moves s') :
    s'.Reading offset line text :=
  hmoves.preserves (fun _ _ h hmove => h.move hmove) h

theorem start (source : Text) : (Lexer.start source).Reading 0 1 source := by
  refine ⟨?_, fun t ht => absurd ht (Array.not_mem_empty t)⟩
  unfold Lexer.start
  dsimp only
  split
  · next hmark =>
    obtain ⟨r, rfl⟩ := Text.startsWith_iff.mp hmark
    exact ⟨byteOrderMark, rfl, rfl, rfl⟩
  · exact ⟨[], rfl, rfl, rfl⟩

theorem startField (hline : Word.wrap line = line) (offset : Nat) (part : Text) :
    (Lexer.startField offset line part).Reading offset line part :=
  ⟨⟨[], rfl, rfl, hline.symm⟩, fun t ht => absurd ht (Array.not_mem_empty t)⟩

theorem finish (h : s.Reading offset line text) :
    ∀ t ∈ s.finish.1, t.CutFrom offset line text :=
  (h.push (h.emptyToken .eof)).tokens

end Reading

end Lexer

/-- The tokens of a source are slices of it, with lines counted from one. -/
theorem lex_cutFrom {source : Text} (h : Utf8.isValid source = true) :
    ∀ t ∈ (lex source).1, t.CutFrom 0 1 source := by
  obtain ⟨s, hmoves, -, hlex⟩ := lex_eq_finish h
  rw [hlex]
  exact ((Lexer.Reading.start source).moves hmoves).finish

/-- The tokens of a field are slices of its text. -/
theorem lexField_cutFrom {offset line : Nat} (hline : Word.wrap line = line) (part : Text) :
    ∀ t ∈ (lexField offset line part).1, t.CutFrom offset line part := by
  obtain ⟨s, hmoves, -, hlex⟩ := lexField_eq_finish offset line part
  rw [hlex]
  exact ((Lexer.Reading.startField hline offset part).moves hmoves).finish

end CloneScout.Token

namespace CloneScout.Token

/-- The byte at an offset belongs to the token. -/
def Holds (t : Token) (i : Nat) : Prop := t.span.lo ≤ i ∧ i < t.span.hi

/-- Why the byte at an offset is in no token: it belongs to a byte order mark in front, is a blank,
lies in a comment, ends a line, is a backslash in front of a line end, or is a backslash that was
reported. A comment goes from its mark over bytes in no token up to the end of the line. -/
inductive Loose (source : Text) (tokens : Array Token) (diags : Array Diagnostic) (i : Nat) :
    Prop where
  | mark (hmark : byteOrderMark <+: source) (hi : i < byteOrderMark.length)
  | blank {b : UInt8} (hb : source[i]? = some b) (hblank : Lexer.isBlank b = true)
  | comment {j : Nat} (hj : j ≤ i) (hmark : source[j]? = some (ascii '#'))
      (hbody : ∀ k, j ≤ k → k ≤ i → source[k]? ≠ some 10 ∧ ∀ t ∈ tokens, ¬ t.Holds k)
  | lineFeed (hfeed : source[i]? = some 10)
  | continuation {n : Nat} (hcontinue : Lexer.continuation? (source.drop i) = some n)
  | stray (hbackslash : source[i]? = some (ascii '\\'))
      (hreport : Diagnostic.errorAt .strayBackslash ⟨i, i + 1⟩ [] ∈ diags)

/-- Tokens behind the byte and further diagnostics make no difference. -/
theorem Loose.mono {source : Text} {tokens tokens' : Array Token} {diags diags' : Array Diagnostic}
    {i : Nat} (h : Loose source tokens diags i)
    (htokens : ∀ t ∈ tokens', t ∈ tokens ∨ i < t.span.lo) (hdiags : ∀ d ∈ diags, d ∈ diags') :
    Loose source tokens' diags' i := by
  cases h with
  | mark hmark hi => exact .mark hmark hi
  | blank hb hblank => exact .blank hb hblank
  | comment hj hmark hbody =>
    refine .comment hj hmark fun k hk hki => ⟨(hbody k hk hki).1, fun t ht hholds => ?_⟩
    rcases htokens t ht with ht | hlt
    · exact (hbody k hk hki).2 t ht hholds
    · have := hholds.1
      omega
  | lineFeed hfeed => exact .lineFeed hfeed
  | continuation hcontinue => exact .continuation hcontinue
  | stray hbackslash hreport => exact .stray hbackslash (hdiags _ hreport)

/-- The bytes of a gap are loose. -/
theorem Gap.loose {source t r : Text} {pos : Nat} {tokens : Array Token}
    {diags : Array Diagnostic} (h : Gap t) (hrest : source.drop pos = t ++ r)
    (hbehind : ∀ u ∈ tokens, u.span.hi ≤ pos) {k : Nat} (hk : k < t.length) :
    Loose source tokens diags (pos + k) := by
  have hbyte {m : Nat} (hm : m < t.length) : source[pos + m]? = t[m]? := by
    rw [← List.getElem?_drop, hrest, List.getElem?_append_left hm]
  have hmem {m : Nat} {b : UInt8} (hm : m < t.length) (hb : source[pos + m]? = some b) : b ∈ t :=
    List.mem_of_getElem? (hbyte hm ▸ hb)
  cases h with
  | blanks hblanks =>
    have hb := hbyte hk
    rw [List.getElem?_eq_getElem hk] at hb
    exact .blank hb (hblanks _ (List.getElem_mem hk))
  | comment hbody =>
    refine .comment (j := pos) (Nat.le_add_right _ _) (hbyte (m := 0) (by simp)) fun m hm hmk => ?_
    refine ⟨fun hfeed => ?_, fun u hu hholds => ?_⟩
    · obtain ⟨m, rfl⟩ := Nat.exists_eq_add_of_le hm
      have hmem := hmem (by omega) hfeed
      rcases List.mem_cons.mp hmem with h10 | h10
      · exact absurd h10 (by decide)
      · exact hbody _ h10 rfl
    · have := hbehind u hu
      have := hholds.2
      omega
  | lineFeed =>
    obtain rfl : k = 0 := by simpa using hk
    exact .lineFeed (hbyte hk)
  | continuation =>
    match k, hk with
    | 0, _ => exact .continuation (n := 2) (by rw [Nat.add_zero, hrest]; rfl)
    | 1, hk => exact .lineFeed (hbyte hk)
  | returnContinuation =>
    match k, hk with
    | 0, _ => exact .continuation (n := 3) (by rw [Nat.add_zero, hrest]; rfl)
    | 1, hk => exact .blank (hbyte hk) (by decide)
    | 2, hk => exact .lineFeed (hbyte hk)

namespace Lexer

/-- The tokens so far cover what has been read. -/
structure Covers (source : Text) (s : Lexer) : Prop where
  reading : s.Reading 0 1 source
  behind : ∀ t ∈ s.tokens, t.span.hi ≤ s.pos
  ordered : s.tokens.toList.Pairwise fun t u => t.span.hi ≤ u.span.lo
  kinds : ∀ t ∈ s.tokens, t.kind ≠ .eof ∧ (t.kind = .indent ∨ t.kind = .dedent → t.lexeme = [])
  bytes : ∀ i < s.pos, (∃ t ∈ s.tokens, t.Holds i) ∨ Loose source s.tokens s.diags i

theorem Reading.rest_eq {line : Nat} {source : Text} {s : Lexer} (h : s.Reading 0 line source) :
    source.drop s.pos = s.rest := by
  obtain ⟨before, rfl, hpos, -⟩ := h.place
  rw [hpos, Nat.zero_add, List.drop_left]

namespace Covers

variable {source : Text} {s s' : Lexer}

/-- A move that reads loose bytes and puts out no token. -/
theorem pass (h : s.Covers source) (hmove : s.Move s') (htokens : s'.tokens = s.tokens)
    (hdiags : ∀ d ∈ s.diags, d ∈ s'.diags)
    (hloose : ∀ i, s.pos ≤ i → i < s'.pos → Loose source s.tokens s'.diags i) :
    s'.Covers source where
  reading := h.reading.move hmove
  behind t ht := Nat.le_trans (h.behind t (htokens ▸ ht)) hmove.length.1
  ordered := by rw [htokens]; exact h.ordered
  kinds := by rw [htokens]; exact h.kinds
  bytes i hi := by
    rw [htokens]
    rcases Nat.lt_or_ge i s.pos with hlt | hge
    · exact (h.bytes i hlt).imp_right (·.mono (fun _ ht => .inl ht) hdiags)
    · exact .inr (hloose i hge hi)

/-- A move that puts out the bytes it reads as a token. -/
theorem push (h : s.Covers source) (hmove : s.Move s') {t : Token}
    (htokens : s'.tokens = s.tokens.push t) (hdiags : s'.diags = s.diags)
    (hspan : t.span = ⟨s.pos, s'.pos⟩)
    (hkind : t.kind ≠ .eof ∧ (t.kind = .indent ∨ t.kind = .dedent → t.lexeme = [])) :
    s'.Covers source where
  reading := h.reading.move hmove
  behind u hu := by
    rw [htokens] at hu
    rcases Array.mem_push.mp hu with hu | rfl
    · exact Nat.le_trans (h.behind u hu) hmove.length.1
    · rw [hspan]
  ordered := by
    rw [htokens, Array.toList_push, List.pairwise_append]
    refine ⟨h.ordered, List.pairwise_singleton _ _, fun u hu v hv => ?_⟩
    rw [List.mem_singleton.mp hv, hspan]
    exact h.behind u (Array.mem_toList_iff.mp hu)
  kinds u hu := by
    rw [htokens] at hu
    rcases Array.mem_push.mp hu with hu | rfl
    · exact h.kinds u hu
    · exact hkind
  bytes i hi := by
    rw [htokens, hdiags]
    rcases Nat.lt_or_ge i s.pos with hlt | hge
    · rcases h.bytes i hlt with ⟨u, hu, hholds⟩ | hloose
      · exact .inl ⟨u, Array.mem_push_of_mem _ hu, hholds⟩
      · refine .inr (hloose.mono (fun u hu => ?_) fun _ => id)
        rcases Array.mem_push.mp hu with hu | rfl
        · exact .inl hu
        · exact .inr (by rw [hspan]; exact hlt)
    · exact .inl ⟨t, Array.mem_push_self, by rw [Holds, hspan]; exact ⟨hge, hi⟩⟩

theorem move (h : s.Covers source) (hmove : s.Move s') : s'.Covers source := by
  have hrest := h.reading.rest_eq
  cases hmove with
  | keep rest pos line tokens diags =>
    exact h.pass (.keep rest pos line tokens diags) tokens diags fun i _ _ => by omega
  | @skip t r rest gap =>
    refine h.pass (.skip rest gap) rfl (fun _ => id) fun i hi hlt => ?_
    obtain ⟨k, rfl⟩ := Nat.exists_eq_add_of_le hi
    exact gap.loose (hrest.trans rest) h.behind (Nat.add_lt_add_iff_left.mp hlt)
  | stray rest =>
    refine h.pass (.stray rest) rfl (fun _ hd => Array.mem_push_of_mem _ hd) fun i hi hlt => ?_
    obtain rfl : i = s.pos := Nat.le_antisymm (Nat.le_of_lt_succ hlt) hi
    have hbyte : source[s.pos]? = some (ascii '\\') := by
      rw [← Nat.add_zero s.pos, ← List.getElem?_drop, hrest, rest]
      rfl
    exact .stray hbyte Array.mem_push_self
  | @take kind n hkind hpos hlength =>
    refine h.push (.take hkind hpos hlength) rfl rfl rfl ⟨?_, ?_⟩
    · rintro rfl
      nomatch hkind
    · rintro (rfl | rfl) <;> nomatch hkind
  | newline rest =>
    exact h.push (.newline rest) rfl rfl rfl ⟨nofun, by rintro (hk | hk) <;> nomatch hk⟩
  | mark hkind heof => exact h.push (.mark hkind heof) rfl rfl rfl ⟨heof, fun _ => rfl⟩

theorem moves (h : s.Covers source) (hmoves : s.Moves s') : s'.Covers source :=
  hmoves.preserves (fun _ _ h hmove => h.move hmove) h

theorem start (source : Text) : (Lexer.start source).Covers source where
  reading := .start source
  behind t ht := absurd ht (Array.not_mem_empty t)
  ordered := .nil
  kinds t ht := absurd ht (Array.not_mem_empty t)
  bytes i hi := by
    unfold Lexer.start at hi
    dsimp only at hi
    split at hi
    · next hmark => exact .inr (.mark (Text.startsWith_iff.mp hmark) hi)
    · exact absurd hi (Nat.not_lt_zero _)

end Covers

end Lexer

end CloneScout.Token
