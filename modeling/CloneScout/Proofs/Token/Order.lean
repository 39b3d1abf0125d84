import CloneScout.Proofs.Grammar.LineNumbers
import CloneScout.Proofs.Token.Coverage

/-!
# Tokens in the order of their lines

The tokens of a source stand one behind the other, so none of them starts in front of the line where
an earlier one ends. A cursor beyond the end sees the empty last token again and again, which starts
and ends on one line.
-/

namespace CloneScout

theorem one_le_lineOf (source : Text) (offset : Nat) : 1 ≤ lineOf source offset :=
  Nat.le_add_right 1 _

theorem lineOf_mono (source : Text) {i j : Nat} (h : i ≤ j) :
    lineOf source i ≤ lineOf source j :=
  Nat.add_le_add_left ((List.take_sublist_take_left h).count_le _) 1

theorem lineOf_le (source : Text) (offset : Nat) :
    lineOf source offset ≤ lineOf source source.length := by
  rw [lineOf, lineOf, List.take_length]
  exact Nat.add_le_add_left ((List.take_sublist _ _).count_le _) 1

namespace Cursor

/-- The tokens have ranges of lines, in the order of the tokens, and the last one has a single line.
-/
structure Lined (c : Cursor) : Prop where
  range (i : Nat) : 1 ≤ (c.get i).line ∧ (c.get i).line ≤ (c.get i).endLine
  order {i j : Nat} (h : i < j) : (c.get i).endLine ≤ (c.get j).line
  eof {i : Nat} (h : (c.get i).kind = .eof) : (c.get i).endLine = (c.get i).line

namespace Lined

variable {c c' : Cursor}

theorem of_tokens (h : c.Lined) (htokens : c'.tokens = c.tokens) : c'.Lined := by
  obtain ⟨tokens, pos⟩ := c
  obtain ⟨tokens', pos'⟩ := c'
  obtain rfl : tokens' = tokens := htokens
  exact ⟨h.range, h.order, h.eof⟩

theorem line_mono (h : c.Lined) {i j : Nat} (hij : i ≤ j) : (c.get i).line ≤ (c.get j).line := by
  rcases Nat.eq_or_lt_of_le hij with rfl | hlt
  · exact Nat.le_refl _
  · exact Nat.le_trans (h.range i).2 (h.order hlt)

end Lined

end Cursor

namespace Token

theorem isValid_of_lex {source : Text} (h : Diagnostic.Clean (lex source).2) :
    Utf8.isValid source = true := by
  unfold lex at h
  split at h
  · exact absurd h (by simp [Diagnostic.clean_iff, invalidUtf8])
  · next hvalid => rw [Utf8.isValid, hvalid, Option.isNone_none]

/-- Of two tokens the earlier one ends in front of the later one; the last token is empty. -/
theorem lex_ordered {source : Text} (h : Utf8.isValid source = true) :
    (lex source).1.toList.Pairwise (fun t u => t.span.hi ≤ u.span.lo) ∧
      ∃ (ts : Array Token) (eof : Token), (lex source).1 = ts.push eof ∧
        (∀ t ∈ ts, t.kind ≠ .eof) ∧ eof.span.lo = eof.span.hi := by
  obtain ⟨s, hmoves, -, hlex⟩ := lex_eq_finish h
  have hcovers := (Lexer.Covers.start source).moves hmoves
  rw [hlex]
  refine ⟨?_, s.tokens, s.emptyToken .eof, rfl, fun t ht => (hcovers.kinds t ht).1, rfl⟩
  show (s.tokens.push (s.emptyToken .eof)).toList.Pairwise _
  rw [Array.toList_push, List.pairwise_append]
  refine ⟨hcovers.ordered, List.pairwise_singleton _ _, fun t ht u hu => ?_⟩
  rw [List.mem_singleton.mp hu]
  exact hcovers.behind t (Array.mem_toList_iff.mp ht)

/-- A token from a source whose lines are words starts on the line of its first byte and ends in
front of or on that of its last. -/
theorem CutFrom.lines_le {source : Text} {t : Token} (h : t.CutFrom 0 1 source)
    (hfits : Word.fits (lineOf source source.length) = true) :
    t.line = lineOf source t.span.lo ∧ t.line ≤ t.endLine ∧
      t.endLine ≤ lineOf source t.span.hi := by
  have hwrap (offset : Nat) : Word.wrap (lineOf source offset) = lineOf source offset :=
    Nat.mod_eq_of_lt (Nat.lt_of_le_of_lt (lineOf_le source offset) (of_decide_eq_true hfits))
  have hspan : t.span.lo ≤ t.span.hi := by
    have := h.slice.1
    omega
  obtain ⟨hline, hend⟩ := h.lines
  rw [hwrap] at hline hend
  refine ⟨hline, ?_⟩
  rw [hline, hend]
  split
  · exact ⟨Nat.le_refl _, lineOf_mono source hspan⟩
  · exact ⟨lineOf_mono source hspan, Nat.le_refl _⟩

/-- The tokens of a valid source have ranges of lines, in the order of the tokens. -/
theorem lined_lex {source : Text} (h : Utf8.isValid source = true)
    (hfits : Word.fits (lineOf source source.length) = true) (pos : Nat) :
    Cursor.Lined ⟨(lex source).1, pos⟩ := by
  obtain ⟨hordered, ts, eof, hlex, hkinds, hempty⟩ := lex_ordered h
  have hcut := lex_cutFrom h
  rw [hlex] at hordered hcut ⊢
  rw [Array.toList_push, List.pairwise_append] at hordered
  obtain ⟨hpairs, -, hbefore⟩ := hordered
  have hlines (t : Token) (ht : t ∈ ts.push eof) := (hcut t ht).lines_le hfits
  -- Beyond the end the cursor sees the last token.
  have hget (i : Nat) (hi : i < ts.size) : Cursor.get ⟨ts.push eof, pos⟩ i = ts[i] := by
    have hpush : i < (ts.push eof).size := by rw [Array.size_push]; omega
    rw [Cursor.get, Array.getElem?_eq_getElem hpush, Option.getD_some, Array.getElem_push_lt hi]
  have hend (i : Nat) (hi : ts.size ≤ i) : Cursor.get ⟨ts.push eof, pos⟩ i = eof := by
    rcases Nat.eq_or_lt_of_le hi with rfl | hlt
    · rw [Cursor.get, Array.getElem?_push_size, Option.getD_some]
    · have hpush : (ts.push eof).size ≤ i := by rw [Array.size_push]; omega
      rw [Cursor.get, Array.getElem?_eq_none hpush, Option.getD_none, Cursor.final,
        Array.back?_push, Option.getD_some]
  have hmem (i : Nat) : Cursor.get ⟨ts.push eof, pos⟩ i ∈ ts.push eof := by
    rcases Nat.lt_or_ge i ts.size with hlt | hge
    · rw [hget i hlt]
      exact Array.mem_push_of_mem _ (Array.getElem_mem hlt)
    · rw [hend i hge]
      exact Array.mem_push_self
  refine ⟨fun i => ?_, fun {i j} hij => ?_, fun {i} hkind => ?_⟩
  · obtain ⟨hline, hle, -⟩ := hlines _ (hmem i)
    exact ⟨hline ▸ one_le_lineOf source _, hle⟩
  · obtain ⟨-, -, hlast⟩ := hlines _ (hmem i)
    obtain ⟨hline, -, -⟩ := hlines _ (hmem j)
    rw [hline]
    refine Nat.le_trans hlast (lineOf_mono source ?_)
    rcases Nat.lt_or_ge i ts.size with hi | hi
    · rw [hget i hi]
      rcases Nat.lt_or_ge j ts.size with hj | hj
      · rw [hget j hj]
        exact List.pairwise_iff_getElem.mp hpairs i j hi hj hij
      · rw [hend j hj]
        have hmem := Array.mem_toList_iff.mpr (Array.getElem_mem hi)
        exact hbefore _ hmem eof (List.mem_singleton_self eof)
    · rw [hend i hi, hend j (Nat.le_trans hi (Nat.le_of_lt hij))]
      exact Nat.le_of_eq hempty.symm
  · rcases Nat.lt_or_ge i ts.size with hi | hi
    · rw [hget i hi] at hkind
      exact absurd hkind (hkinds _ (Array.getElem_mem hi))
    · obtain ⟨hline, hle, hlast⟩ := hlines _ (hmem i)
      rw [hend i hi] at hline hle hlast ⊢
      rw [← hempty, ← hline] at hlast
      exact Nat.le_antisymm hlast hle

end Token

end CloneScout
