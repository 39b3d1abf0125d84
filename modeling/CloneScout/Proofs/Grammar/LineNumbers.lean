import CloneScout.Proofs.Grammar.Fields
import CloneScout.Proofs.Token.Coverage

/-!
# Line numbers

Lines are counted in three places: by the lexer as it reads on, by a source file that looks up an
offset in the starts of its lines, and from the line of a string token to a field inside it. All
three give one more than the number of line feeds in front.
-/

namespace CloneScout

/-- The line that holds an offset of a text, counted from one. -/
def lineOf (text : Text) (offset : Nat) : Nat := 1 + (text.take offset).count 10

namespace SourceFile

/-- The first start of a line behind an offset tells how many line feeds stand in front of it. -/
theorem findIdx_starts (t : Text) (start offset : Nat) :
    ((t.zipIdx start).filterMap fun (b, i) => if b = 10 then some (i + 1) else none).findIdx
      (offset < ·) = (t.take (offset - start)).count 10 := by
  induction t generalizing start with
  | nil => simp
  | cons b t ih =>
    rw [List.zipIdx_cons, List.filterMap_cons]
    have hrest := ih (start + 1)
    rcases Nat.lt_or_ge start offset with hlt | hge
    · obtain ⟨k, rfl⟩ := Nat.exists_eq_add_of_lt hlt
      rw [show start + k + 1 - start = k + 1 by omega, List.take_succ_cons, List.count_cons]
      rw [show start + k + 1 - (start + 1) = k by omega] at hrest
      by_cases hb : b = 10
      · simp [hb, List.findIdx_cons, hrest, show ¬ start + k < start by omega]
      · simp [hb, hrest]
    · rw [show offset - start = 0 by omega]
      rw [show offset - (start + 1) = 0 by omega] at hrest
      by_cases hb : b = 10
      · simp [hb, List.findIdx_cons, show offset < start + 1 by omega]
      · simpa [hb] using hrest

theorem lineIndex_eq (f : SourceFile) (offset : Nat) :
    f.lineIndex offset = (f.content.take offset).count 10 := by
  have hstarts := findIdx_starts f.content 0 offset
  rw [Nat.sub_zero] at hstarts
  simp [lineIndex, lineStarts, List.findIdx_cons, hstarts]

theorem line_lineCol (f : SourceFile) (offset : Nat) :
    (f.lineCol offset).line = lineOf f.content offset := by
  rw [lineCol, lineIndex_eq, lineOf, Nat.add_comm]

end SourceFile

namespace Token

/-- What is cut from a field of a token is cut from the text of the token. -/
theorem CutFrom.nested {offset line i : Nat} {text part : Text} {t u : Token}
    (ht : t.CutFrom offset line text) (hpart : SliceAt t.lexeme i part)
    (hu : u.CutFrom (t.span.lo + i) (Grammar.lineAt t (t.span.lo + i)) part) :
    u.CutFrom offset line text := by
  obtain ⟨before, after, rfl, hspan, hline, -⟩ := ht
  obtain ⟨head, tail, hlexeme, rfl⟩ := hpart
  obtain ⟨front, back, rfl, huspan, huline, huend⟩ := hu
  have hat : Grammar.lineAt t (t.span.lo + head.length) = Lexer.lineAfter t.line head := by
    rw [Grammar.lineAt, Nat.add_sub_cancel_left, hlexeme, List.take_left, Lexer.lineAfter]
  refine ⟨before ++ (head ++ front), back ++ (tail ++ after), ?_, ?_, ?_, huend⟩
  · simp [hlexeme]
  · rw [huspan, hspan]
    simp [Nat.add_assoc]
  · rw [huline, hat, hline, Lexer.lineAfter_append, Lexer.lineAfter_append]

/-- The lines of a token that is cut from a source. -/
theorem CutFrom.lines {source : Text} {t : Token} (h : t.CutFrom 0 1 source) :
    t.line = Word.wrap (lineOf source t.span.lo) ∧
      t.endLine =
        Word.wrap (lineOf source (if t.kind = .newline then t.span.lo else t.span.hi)) := by
  obtain ⟨before, after, rfl, hspan, hline, hend⟩ := h
  have hlo : (before ++ (t.lexeme ++ after)).take t.span.lo = before := by
    rw [hspan, Nat.zero_add, List.take_left]
  have hhi : (before ++ (t.lexeme ++ after)).take t.span.hi = before ++ t.lexeme := by
    rw [hspan, Nat.zero_add, ← List.length_append, ← List.append_assoc, List.take_left]
  refine ⟨by rw [lineOf, hlo]; exact hline, ?_⟩
  rw [hend]
  split
  · rw [lineOf, hlo]
    exact hline
  · rw [lineOf, hhi, hline, ← Lexer.lineAfter_append]
    rfl

end Token

namespace Grammar

/-- The sequences of tokens that are cut from a source: its own, and those of the replacement fields
of string tokens. -/
inductive Lexed (source : Text) : Array Token → Prop where
  | source : Lexed source (Token.lex source).1
  | field {ts : Array Token} {t : Token} {p : Nat × Text} (h : Lexed source ts) (ht : t ∈ ts)
      (hp : p ∈ t.fields) : Lexed source (Token.lexField p.1 (lineAt t p.1) p.2).1

/-- All tokens that are ever cut from a source are slices of it. -/
theorem Lexed.cutFrom {source : Text} (hvalid : Utf8.isValid source = true) {ts : Array Token}
    (h : Lexed source ts) : ∀ t ∈ ts, t.CutFrom 0 1 source := by
  induction h with
  | source => exact Token.lex_cutFrom hvalid
  | @field ts t p _ ht hp ih =>
    obtain ⟨i, hi, hslice⟩ := Token.sliceAt_of_mem_fields hp
    have hline : Word.wrap (lineAt t p.1) = lineAt t p.1 := Nat.mod_mod _ _
    intro u hu
    have hcut := Token.lexField_cutFrom hline p.2 u hu
    rw [hi] at hcut
    exact (ih t ht).nested hslice hcut

end Grammar

end CloneScout
