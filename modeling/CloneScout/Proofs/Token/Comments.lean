import CloneScout.Proofs.Token.Extension
import CloneScout.Proofs.Token.Lines

/-!
# Comment lines at the end of a text

Behind whole lines, where a line starts, a comment line leaves no token and no diagnostic if a line
feed ends it. Without the line feed it counts as a line in its column: it leaves no trace only if
that column is one of the open indentations. So an indented comment can add an indentation that
holds nothing.
-/

namespace CloneScout

open Text (WholeLines startsWith_append_of_mem)

namespace Token

namespace Lexer

variable {s : Lexer}

/-! ## Between steps -/

/-- What holds between steps: at the start of a line no bracket is open and the line has no tokens,
and each open indentation is deeper than the one around it, up to column zero. -/
structure Resting (s : Lexer) : Prop where
  line : s.atLineStart = true → s.brackets = [] ∧ s.lineHasTokens = false
  deeper : s.indents.Pairwise (· > ·)
  bottom : 0 ∈ s.indents

/-- The indentations that a line in the given column leaves open. -/
def still (col : Nat) (indents : List Nat) : List Nat := indents.dropWhile fun top => col < top

theorem closeIndents_eq_still (col : Nat) (indents : List Nat) (s : Lexer) :
    (closeIndents col indents s).1 = still col indents := by
  induction indents generalizing s with
  | nil => rfl
  | cons top below ih =>
    rw [closeIndents, still, List.dropWhile_cons]
    by_cases hlt : col < top
    · rw [if_pos hlt, if_pos (by simpa using hlt), ih, still]
    · rw [if_neg hlt, if_neg (by simpa using hlt)]

/-- Column zero stays open. -/
theorem zero_mem_still {col : Nat} {indents : List Nat} (h : 0 ∈ indents) :
    0 ∈ still col indents := by
  rw [← List.takeWhile_append_dropWhile (p := fun top => decide (col < top)) (l := indents),
    List.mem_append] at h
  refine h.resolve_left fun hmem => ?_
  have hlt := List.mem_takeWhile_imp hmem
  simp at hlt

theorem headD_still_le {col : Nat} {indents : List Nat} (h : 0 ∈ indents) :
    (still col indents).headD 0 ≤ col := by
  have hzero : 0 ∈ still col indents := zero_mem_still h
  have hnot := List.head?_dropWhile_not (fun top => decide (col < top)) indents
  unfold still at hzero ⊢
  cases hclosed : indents.dropWhile fun top => decide (col < top) with
  | nil => exact Nat.zero_le col
  | cons top below =>
    rw [hclosed] at hnot
    simpa using hnot

theorem indents_indentTo (col : Nat) (s : Lexer) :
    (indentTo col s).indents =
      if (still col s.indents).headD 0 = col then still col s.indents
      else col :: still col s.indents := by
  have hclosed := closeIndents_eq_still col s.indents s
  unfold indentTo
  dsimp only
  split
  next hopen =>
    have hall : still col s.indents = s.indents := by
      cases hs : s.indents with
      | nil => rfl
      | cons top below =>
        rw [hs, List.headD_cons] at hopen
        exact List.dropWhile_cons_of_neg (by simpa using Nat.le_of_lt hopen)
    rw [hall, if_neg (Nat.ne_of_lt hopen)]
  next =>
    rw [hclosed]
    split <;> rfl

/-- A column behind all open ones is the deepest. -/
theorem pairwise_cons_of_headD {col : Nat} {l : List Nat} (h : l.Pairwise (· > ·))
    (hlt : l.headD 0 < col) : (col :: l).Pairwise (· > ·) := by
  refine List.pairwise_cons.mpr ⟨fun x hx => ?_, h⟩
  cases l with
  | nil => exact absurd hx List.not_mem_nil
  | cons top below =>
    rcases List.mem_cons.mp hx with rfl | hx
    · exact hlt
    · exact Nat.lt_trans ((List.pairwise_cons.mp h).1 x hx) hlt

theorem indents_string (letters : Nat) : (s.string letters).indents = s.indents := by
  unfold string
  dsimp only
  generalize (s.rest.drop letters).take _ = opener
  split <;> rfl

theorem indents_track (t : Token) (s : Lexer) : (track t s).indents = s.indents := by
  unfold track
  split
  · rfl
  split
  · rfl
  split
  · split <;> rfl
  · rfl

/-- Only the start of a line changes the indentation. -/
theorem indents_item (b : UInt8) : (s.item b).indents = s.indents := by
  unfold item
  dsimp only
  split
  · rfl
  split
  · rfl
  split
  · split <;> rfl
  split
  · unfold Lexer.lineFeed
    dsimp only
    split
    · split <;> rfl
    · rfl
  split
  · unfold number
    dsimp only
    split <;> rfl
  split
  · unfold word
    dsimp only
    split
    · exact indents_string _
    · rfl
  split
  · exact indents_string _
  · unfold sign
    dsimp only
    exact indents_track _ _

namespace Resting

variable {s' : Lexer}

theorem of_eq (h : s.Resting) (hindents : s'.indents = s.indents)
    (hbrackets : s'.brackets = s.brackets) (htokens : s'.lineHasTokens = s.lineHasTokens)
    (hstart : s'.atLineStart = s.atLineStart) : s'.Resting := by
  refine ⟨fun hline => ?_, hindents ▸ h.deeper, hindents ▸ h.bottom⟩
  rw [hbrackets, htokens]
  exact h.line (hstart ▸ hline)

theorem start (source : Text) : (Lexer.start source).Resting :=
  ⟨fun _ => ⟨rfl, rfl⟩, List.pairwise_singleton _ _, List.mem_singleton_self 0⟩

theorem indentTo (h : s.Resting) (hstart : s.atLineStart = false) (col : Nat) :
    (indentTo col s).Resting ∧ (Lexer.indentTo col s).atLineStart = false := by
  have hfalse : (Lexer.indentTo col s).atLineStart = false :=
    (indentTo_stays col s).2.trans hstart
  have hdeeper : (still col s.indents).Pairwise (· > ·) :=
    h.deeper.sublist (List.dropWhile_sublist _)
  have hbottom : 0 ∈ still col s.indents := zero_mem_still h.bottom
  have hle : (still col s.indents).headD 0 ≤ col := headD_still_le h.bottom
  have hindents := indents_indentTo col s
  refine ⟨⟨fun hline => absurd (hfalse.symm.trans hline) Bool.false_ne_true, ?_, ?_⟩, hfalse⟩
  · rw [hindents]
    split
    · exact hdeeper
    · exact pairwise_cons_of_headD hdeeper (by omega)
  · rw [hindents]
    split
    · exact hbottom
    · exact List.mem_cons_of_mem _ hbottom

theorem skipComment (h : s.Resting) : s.skipComment.Resting := by
  unfold Lexer.skipComment
  split
  · exact h.of_eq rfl rfl rfl rfl
  · exact h

theorem lineStart (h : s.Resting) : s.lineStart.lexer.Resting ∧
    ∀ s', s.lineStart = .content s' → s'.atLineStart = false := by
  rw [lineStart_eq]
  dsimp only
  have hblanks : (s.advance (s.rest.takeWhile isBlank).length).Resting := h.of_eq rfl rfl rfl rfl
  generalize s.advance (s.rest.takeWhile isBlank).length = s₁ at hblanks ⊢
  have hcomment := hblanks.skipComment
  generalize s₁.skipComment = s₂ at hcomment ⊢
  split
  · exact ⟨hblanks, fun _ hs' => LineStart.noConfusion hs'⟩
  split
  · exact ⟨hcomment.of_eq rfl rfl rfl rfl, fun _ hs' => LineStart.noConfusion hs'⟩
  split
  · exact ⟨hcomment.of_eq rfl rfl rfl rfl, fun _ hs' => LineStart.noConfusion hs'⟩
  · have hline : ({ s₂ with atLineStart := false } : Lexer).Resting :=
      ⟨fun hline => absurd hline Bool.false_ne_true, hcomment.deeper, hcomment.bottom⟩
    obtain ⟨hresting, hfalse⟩ := hline.indentTo rfl (column 0 s.rest)
    exact ⟨hresting, fun s' hs' => LineStart.content.inj hs' ▸ hfalse⟩

theorem lineFeed (h : s.Resting) (hstart : s.atLineStart = false) : s.lineFeed.Resting := by
  unfold Lexer.lineFeed
  dsimp only
  split
  next houtside =>
    rw [Bool.and_eq_true, List.isEmpty_iff] at houtside
    split
    · exact ⟨fun _ => ⟨houtside.1, rfl⟩, h.deeper, h.bottom⟩
    · exact ⟨fun _ => ⟨houtside.1, rfl⟩, h.deeper, h.bottom⟩
  next =>
    refine ⟨fun hline => ?_, h.deeper, h.bottom⟩
    exact absurd (hstart.symm.trans hline) Bool.false_ne_true

theorem item (h : s.Resting) (hstart : s.atLineStart = false) (b : UInt8) : (s.item b).Resting := by
  by_cases hfeed : b = 10
  · subst hfeed
    exact h.lineFeed hstart
  · have hsame : (s.item b).atLineStart = s.atLineStart := by
      by_cases hstarts : Starts b
      · exact (puts_item (s := s) hstarts).choose_spec.2.2
      · exact (item_stays hstarts hfeed).2
    have hindents : (s.item b).indents = s.indents := indents_item b
    exact ⟨fun hline => absurd ((hsame.trans hstart).symm.trans hline) Bool.false_ne_true,
      hindents ▸ h.deeper, hindents ▸ h.bottom⟩

theorem step (h : s.Resting) : s.step.1.Resting := by
  have hread {s' : Lexer} (h' : s'.Resting) (hstart : s'.atLineStart = false) :
      s'.readItem.1.Resting := by
    unfold readItem
    split
    · exact h'
    · exact h'.item hstart _
  have hline := h.lineStart
  rw [step_eq]
  cases hstart : s.atLineStart with
  | false => exact hread h hstart
  | true =>
    simp only [(h.line hstart).1, List.isEmpty_nil, Bool.and_self, if_true]
    cases hs : s.lineStart with
    | skipped s' =>
      rw [hs] at hline
      exact hline.1
    | content s' =>
      rw [hs] at hline
      exact hread hline.1 (hline.2 s' rfl)

end Resting

/-! ## Runs -/

/-- Whole lines are read in the same steps with more text behind them, if a line starts there. -/
theorem run_extend (hlines : s.rest.WholeLines) (h : s.Resting) :
    ∃ s' k, s'.rest = [] ∧ s'.Resting ∧ k ≤ s.rest.length ∧
      (∀ n, (s.run (n + k)).view = s'.view) ∧
      (s'.atLineStart = true → ∀ c ≠ [], ∀ n,
        (extend c s).run (n + k) = (extend c s').run n) := by
  induction hn : s.rest.length using Nat.strongRecOn generalizing s with
  | ind m ih =>
    obtain rfl := hn
    by_cases hne : s.rest = []
    · exact ⟨s, 0, hne, h, Nat.zero_le _, fun n => view_run_of_rest_eq_nil hne n,
        fun _ _ _ _ => rfl⟩
    obtain ⟨hmoves, hmore, hlast⟩ := moves_step s
    have hlength := hmoves.length
    have hrests : s.atLineStart = true → s.brackets = [] := fun hline => (h.line hline).1
    have hrun (n : Nat) : s.run (n + 1) = if s.step.2 then s.step.1.run n else s.step.1 := by
      rw [run]
      split <;> simp_all
    have hrun' (hstep : s.step.1.rest ≠ [] ∨ s.step.1.atLineStart = true) {c : Text} (hc : c ≠ [])
        (n : Nat) : (extend c s).run (n + 1) = (extend c s.step.1).run n := by
      rw [run, step_extend hlines hne hrests hstep hc]
    by_cases hend : s.step.1.rest = []
    · refine ⟨s.step.1, 1, hend, h.step, List.length_pos_iff.mpr hne, fun n => ?_,
        fun hline c hc n => hrun' (.inr hline) hc n⟩
      rw [hrun]
      split
      · exact view_run_of_rest_eq_nil hend n
      · rfl
    · have hgoes : s.step.2 = true := by
        by_contra hstop
        exact hend (hlast (Bool.not_eq_true _ ▸ hstop))
      have hlt : s.step.1.rest.length < s.rest.length := by
        have := hmore hgoes
        omega
      obtain ⟨s', k, hs', hresting, hk, hview, hextend⟩ :=
        ih _ hlt (hlines.of_suffix (suffix_of_moves hmoves)) h.step rfl
      refine ⟨s', k + 1, hs', hresting, by omega, fun n => ?_, fun hline c hc n => ?_⟩
      · rw [← Nat.add_assoc, hrun, if_pos hgoes, hview]
      · rw [← Nat.add_assoc, hrun' (.inl hend) hc, hextend hline c hc]

/-- More text behind whole lines does not change how the reading of them starts. -/
theorem start_append {source : Text} (hlines : source.WholeLines) {c : Text}
    (hc : ∀ b ∈ c.head?, b < 0x80) : start (source ++ c) = extend c (start source) := by
  have hmark : Text.startsWith (source ++ c) byteOrderMark =
      Text.startsWith source byteOrderMark := by
    cases source with
    | nil =>
      cases c with
      | nil => rfl
      | cons b c =>
        have hb : b < 0x80 := hc b rfl
        have hne : ¬ 0xEF = b := fun h => by
          rw [← h] at hb
          exact absurd hb (by decide)
        simp [Text.startsWith, Text.strip?, byteOrderMark, hne]
    | cons b source =>
      exact startsWith_append_of_mem (hlines.mem (List.cons_ne_nil b source)) (by decide) c
  have hle : (if Text.startsWith source byteOrderMark then 3 else 0) ≤ source.length := by
    split
    next hstart => exact (Text.startsWith_iff.mp hstart).length_le
    next => exact Nat.zero_le _
  unfold start
  simp only [hmark, List.drop_append_of_le_length hle]
  rfl

/-! ## The end of the text -/

/-- The lexer where a source text ends. -/
def ending (source : Text) : Lexer := (start source).run (source.length + 1)

/-- What a view stands for if the text ends there, at the start of a line. -/
def View.ends (v : View) : List Lexeme × Array Diagnostic :=
  (v.found ++ dedents v.indents.dropLast ++ [.eof], v.diags)

end Lexer

/-- The tokens of a source text without their places, and the diagnostics. -/
def lexemes (source : Text) : List Lexeme × Array Diagnostic :=
  ((lex source).1.toList.map toLexeme, (lex source).2)

theorem lexemes_eq_ends {source : Text} (hvalid : Utf8.isValid source = true)
    (hstack : (Lexer.ending source).view.stack = [])
    (htokens : (Lexer.ending source).lineHasTokens = false) :
    lexemes source = (Lexer.ending source).view.ends := by
  have hlex : lex source = (Lexer.ending source).finishLines.finish := by
    rw [lex, Utf8.firstInvalid_of_isValid hvalid]
    exact congrArg (fun s => s.finishLines.finish) (Lexer.reportOpen_eq hstack)
  obtain ⟨hfound, hdiags⟩ := (Lexer.ending source).finishLines.toLexeme_finish
  have hview : (Lexer.ending source).finishLines.view =
      { (Lexer.ending source).view with
        found := (Lexer.ending source).view.found ++
          Lexer.dedents (Lexer.ending source).indents.dropLast } := by
    rw [Lexer.finishLines, htokens]
    exact Lexer.view_foldl_dedent _ _
  rw [lexemes, hlex, hfound, hdiags, hview]
  rfl

/-- A line that holds a comment and nothing else, without the line feed at its end. -/
structure CommentLine where
  blanks : { t : Text // ∀ b ∈ t, Lexer.isBlank b = true }
  comment : { t : Text // Utf8.isValid t = true ∧ 10 ∉ t }

namespace CommentLine

def text (c : CommentLine) : Text := c.blanks.1 ++ ascii '#' :: c.comment.1

/-- The column of the comment. -/
def column (c : CommentLine) : Nat := Lexer.column 0 c.blanks.1

theorem text_ne_nil (c : CommentLine) : c.text ≠ [] := by simp [text]

theorem isValid_text (c : CommentLine) : Utf8.isValid c.text = true := by
  have hcomment : Utf8.isValid ([ascii '#'] ++ c.comment.1) = true :=
    Utf8.isValid_append rfl c.comment.2.1
  refine Utf8.isValid_append ?_ hcomment
  exact Utf8.isValid_of_ascii fun b hb => isBlank_lt (c.blanks.2 b hb)

theorem head_lt (c : CommentLine) (t : Text) : ∀ b ∈ (c.text ++ t).head?, b < 0x80 := by
  intro b hb
  unfold text at hb
  cases hblanks : c.blanks.1 with
  | nil =>
    rw [hblanks] at hb
    obtain rfl := Option.some.inj hb
    decide
  | cons d r =>
    rw [hblanks] at hb
    obtain rfl := Option.some.inj hb
    exact isBlank_lt (c.blanks.2 d (by simp [hblanks]))

end CommentLine

namespace Lexer

variable {s : Lexer}

theorem column_blanks {blanks : Text} (h : ∀ b ∈ blanks, isBlank b = true) (col : Nat) {b : UInt8}
    (hb : isBlank b = false) (t : Text) : column col (blanks ++ b :: t) = column col blanks := by
  induction blanks generalizing col with
  | nil =>
    have hplain : b ≠ ascii ' ' ∧ b ≠ 9 ∧ b ≠ 12 ∧ b ≠ 13 := by simpa [isBlank, and_assoc] using hb
    simp [column, hplain.1, hplain.2.1, hplain.2.2.1, hplain.2.2.2]
  | cons d blanks ih =>
    have hblanks := fun col => ih (fun e he => h e (List.mem_cons_of_mem d he)) col
    simp only [List.cons_append, column, hblanks]

/-- A comment line with its line feed is skipped. -/
theorem step_commentLine_lineFeed (hline : s.atLineStart = true) (hbrackets : s.brackets = [])
    (c : CommentLine) (hrest : s.rest = c.text ++ [10]) :
    ∃ s', s'.view = { s.view with rest := [] } ∧ s.step = (s', false) := by
  let filler : Filler := ⟨c.blanks, some c.comment⟩
  have hfiller : s.rest = filler.text ++ [] := by
    rw [hrest, List.append_nil]
    rfl
  obtain ⟨s', hskip, hview⟩ := lineStart_filler filler hfiller
  have hend : s'.rest = [] := congrArg View.rest hview
  refine ⟨s', hview, ?_⟩
  rw [step_eq, hline, hbrackets, hskip]
  simp [hend]

/-- A comment line that the text ends with counts as a line in its column. -/
theorem step_commentLine (hline : s.atLineStart = true) (hbrackets : s.brackets = [])
    (c : CommentLine) (hrest : s.rest = c.text) :
    ∃ s', s'.view = { s.view with rest := [], atLineStart := false } ∧
      s.step = (indentTo c.column s', false) := by
  have hblanks : s.rest.takeWhile isBlank = c.blanks.1 := by
    rw [hrest]
    exact takeWhile_isBlank c.blanks.2 (by decide)
  have hcolumn : Lexer.column 0 s.rest = c.column := by
    rw [hrest]
    exact column_blanks c.blanks.2 0 (by decide) _
  have hrest₁ := rest_advance hrest
  have hview₁ := view_advance hrest
  have htoEnd : toLineEnd (ascii '#' :: c.comment.1) = (ascii '#' :: c.comment.1).length := by
    have hall : ∀ b ∈ ascii '#' :: c.comment.1, b ≠ 10 := by
      intro b hb
      rcases List.mem_cons.mp hb with rfl | hb
      · decide
      · rintro rfl
        exact c.comment.2.2 hb
    rw [toLineEnd, List.takeWhile_eq_self_iff.mpr (by simpa using hall)]
  have hrest₁' : (s.advance c.blanks.1.length).rest = (ascii '#' :: c.comment.1) ++ [] := by
    rw [hrest₁, List.append_nil]
  have hrest₂ := rest_advance hrest₁'
  have hview₂ := view_advance hrest₁'
  let s' : Lexer := { (s.advance c.blanks.1.length).advance (ascii '#' :: c.comment.1).length with
    rest := []
    atLineStart := false }
  have hview : s'.view = { s.view with rest := [], atLineStart := false } := by
    show ({ ((s.advance c.blanks.1.length).advance (ascii '#' :: c.comment.1).length).view with
      rest := [], atLineStart := false } : View) = _
    rw [hview₂, hview₁]
  have hcontent : s.lineStart = .content (indentTo c.column s') := by
    have hnone : continuation? [] = none := rfl
    simp only [lineStart, hblanks, hcolumn, hrest₁, htoEnd, hrest₂, List.isEmpty_cons,
      List.head?_cons, List.head?_nil, hnone, Bool.false_eq_true, reduceCtorEq, if_false, if_true]
    rfl
  have hend : (indentTo c.column s').rest = [] :=
    (indentTo_stays c.column s').1.trans (congrArg View.rest hview)
  refine ⟨s', hview, ?_⟩
  rw [step_eq, hline, hbrackets, hcontent]
  simp [readItem, hend]

/-- What an empty line in the given column leaves where the text ends: nothing, if the column is one
of the open indentations; an indentation without tokens, if it is deeper than all of them; and
otherwise a diagnostic. -/
theorem ends_indentTo (h : s.Resting) (col : Nat) :
    (col ∈ s.indents → (indentTo col s).view.ends = s.view.ends) ∧
    (s.indents.headD 0 < col → (indentTo col s).view.ends =
      (s.view.found ++ [.indent] ++ dedents s.indents ++ [.eof], s.diags)) ∧
    (col ∉ s.indents → col < s.indents.headD 0 →
      (indentTo col s).view.ends.2.size = s.diags.size + 1) := by
  refine ⟨fun hmem => ?_, fun hlt => ?_, fun hmem hlt => ?_⟩
  · obtain ⟨deeper, below, hindents⟩ := List.append_of_mem hmem
    have hdeeper : ∀ x ∈ deeper, col < x := by
      have hpairs := h.deeper
      rw [hindents, List.pairwise_append] at hpairs
      exact fun x hx => hpairs.2.2 x hx col List.mem_cons_self
    rw [indents_close hdeeper s hindents rfl]
    have hlast : s.view.indents.dropLast = deeper ++ (col :: below).dropLast := by
      show s.indents.dropLast = _
      rw [hindents, List.dropLast_append_of_ne_nil (List.cons_ne_nil col below)]
    simp only [View.ends, hlast, dedents, List.map_append, List.append_assoc]
  · obtain ⟨top, below, hindents⟩ := List.exists_cons_of_ne_nil (List.ne_nil_of_mem h.bottom)
    rw [hindents] at hlt
    rw [indents_open hlt s hindents rfl]
    have hlast : s.indents.length = (col :: top :: below).dropLast.length := by simp [hindents]
    simp only [View.ends, dedents, List.map_const', hlast]
    rfl
  · have hstill := closeIndents_eq_still col s.indents s
    have hother : (still col s.indents).headD 0 ≠ col := by
      have hzero : 0 ∈ still col s.indents := zero_mem_still h.bottom
      obtain ⟨top, below, hs⟩ := List.exists_cons_of_ne_nil (List.ne_nil_of_mem hzero)
      rw [hs, List.headD_cons]
      rintro rfl
      exact hmem ((List.dropWhile_sublist _).subset (hs ▸ List.mem_cons_self : _ ∈ still _ _))
    rw [indentTo, if_neg (Nat.not_lt_of_gt hlt)]
    simp only [hstill, if_neg hother]
    simp [View.ends, view, report]

theorem closeIndents_keeps (col : Nat) (indents : List Nat) (s : Lexer) :
    (closeIndents col indents s).2.brackets = s.brackets ∧
      (closeIndents col indents s).2.lineHasTokens = s.lineHasTokens := by
  induction indents generalizing s with
  | nil => exact ⟨rfl, rfl⟩
  | cons top below ih =>
    rw [closeIndents]
    split
    · exact ih (s.push (s.emptyToken .dedent))
    · exact ⟨rfl, rfl⟩

theorem indentTo_keeps (col : Nat) (s : Lexer) :
    (indentTo col s).brackets = s.brackets ∧
      (indentTo col s).lineHasTokens = s.lineHasTokens := by
  have hclosed := closeIndents_keeps col s.indents s
  unfold indentTo
  dsimp only
  split
  · exact ⟨rfl, rfl⟩
  · split <;> exact hclosed

/-- The lexer where a text of whole lines ends that more text stands behind. -/
theorem ending_append {source : Text} (hlines : source.WholeLines)
    (hline : (ending source).atLineStart = true) :
    ∃ s : Lexer, s.rest = [] ∧ s.Resting ∧ s.view = (ending source).view ∧
      ∀ c ≠ [], (∀ b ∈ c.head?, b < 0x80) →
        ∃ n, ending (source ++ c) = (extend c s).run (n + 1) := by
  have hrest : (start source).rest.length ≤ source.length := by simp [start]
  obtain ⟨s, k, hend, hresting, hk, hview, hextend⟩ :=
    run_extend (s := start source) (hlines.drop _) (.start source)
  have hsame : (ending source).view = s.view := by
    obtain ⟨n, hn⟩ : ∃ n, source.length + 1 = n + k := ⟨source.length + 1 - k, by omega⟩
    rw [ending, hn, hview]
  have hline' : s.atLineStart = true := (congrArg View.atLineStart hsame).symm.trans hline
  refine ⟨s, hend, hresting, hsame.symm, fun c hc hhead => ?_⟩
  obtain ⟨n, hn⟩ : ∃ n, (source ++ c).length + 1 = n + 1 + k :=
    ⟨(source ++ c).length - k, by simp only [List.length_append]; omega⟩
  exact ⟨n, by rw [ending, start_append hlines hhead, hn, hextend hline' c hc]⟩

/-- A comment line with its line feed leaves the lexer as it is. -/
theorem view_ending_commentLine_lineFeed {source : Text} (hlines : source.WholeLines)
    (hline : (ending source).atLineStart = true) (c : CommentLine) :
    (ending (source ++ (c.text ++ [10]))).view = (ending source).view := by
  obtain ⟨s, hrest, hresting, hview, hextend⟩ := ending_append hlines hline
  have hstart : s.atLineStart = true := (congrArg View.atLineStart hview).trans hline
  obtain ⟨n, hrun⟩ := hextend (c.text ++ [10]) (by simp) (c.head_lt [10])
  obtain ⟨s', hs', hstep⟩ := step_commentLine_lineFeed (s := extend _ s) hstart
    (hresting.line hstart).1 c (by rw [rest_extend, hrest, List.nil_append])
  have hlast : ending (source ++ (c.text ++ [10])) = s' := by
    rw [hrun, run, hstep]
  rw [hlast, hs', ← hview]
  show ({ s.view with rest := [] } : View) = s.view
  rw [← hrest]
  rfl

/-- A comment line that the text ends with leaves the lexer behind an empty line in its column. -/
theorem ending_commentLine {source : Text} (hlines : source.WholeLines)
    (hline : (ending source).atLineStart = true) (c : CommentLine) :
    ∃ s : Lexer, s.Resting ∧ s.view = { (ending source).view with atLineStart := false } ∧
      ending (source ++ c.text) = indentTo c.column s := by
  obtain ⟨s, hrest, hresting, hview, hextend⟩ := ending_append hlines hline
  have hstart : s.atLineStart = true := (congrArg View.atLineStart hview).trans hline
  obtain ⟨n, hrun⟩ := hextend c.text c.text_ne_nil fun b hb => c.head_lt [] b (by simpa using hb)
  obtain ⟨s', hs', hstep⟩ := step_commentLine (s := extend c.text s) hstart
    (hresting.line hstart).1 c (by rw [rest_extend, hrest, List.nil_append])
  have hindents : s'.indents = s.indents := congrArg View.indents hs'
  have hfalse : s'.atLineStart = false := congrArg View.atLineStart hs'
  refine ⟨s', ⟨fun htrue => absurd (hfalse.symm.trans htrue) Bool.false_ne_true,
    hindents ▸ hresting.deeper, hindents ▸ hresting.bottom⟩, ?_, by rw [hrun, run, hstep]⟩
  rw [hs', ← hview]
  show ({ s.view with rest := [], atLineStart := false } : View) = _
  rw [← hrest]
  rfl

/-- No bracket is open and no token stands in the line where whole lines end at the start of one. -/
theorem ending_resting {source : Text} (hlines : source.WholeLines)
    (hline : (ending source).atLineStart = true) :
    (ending source).view.stack = [] ∧ (ending source).lineHasTokens = false ∧
      0 ∈ (ending source).indents := by
  obtain ⟨s, -, hresting, hview, -⟩ := ending_append hlines hline
  have hstart : s.atLineStart = true := (congrArg View.atLineStart hview).trans hline
  obtain ⟨hbrackets, htokens⟩ := hresting.line hstart
  refine ⟨?_, (congrArg View.lineHasTokens hview).symm.trans htokens, ?_⟩
  · rw [← hview]
    exact congrArg (List.map Token.kind) hbrackets
  · have hindents : s.indents = (ending source).indents := congrArg View.indents hview
    exact hindents ▸ hresting.bottom

end Lexer

/-- Behind whole lines, where a line starts, a comment line leaves no trace if a line feed ends it.
Without the line feed it leaves none exactly if its column is one of the open indentations, as
column zero always is. A deeper comment adds an indentation that holds nothing. -/
theorem lexemes_append_commentLine {source : Text} (hvalid : Utf8.isValid source = true)
    (hlines : source.WholeLines) (hline : (Lexer.ending source).atLineStart = true)
    (c : CommentLine) :
    lexemes (source ++ (c.text ++ [10])) = lexemes source ∧
    (lexemes (source ++ c.text) = lexemes source ↔ c.column ∈ (Lexer.ending source).indents) ∧
    (c.column = 0 → lexemes (source ++ c.text) = lexemes source) ∧
    ((Lexer.ending source).indents.headD 0 < c.column →
      lexemes (source ++ c.text) =
        ((Lexer.ending source).view.found ++ [.indent] ++
          Lexer.dedents (Lexer.ending source).indents ++ [.eof], (lexemes source).2)) := by
  obtain ⟨hstack, htokens, hzeroOpen⟩ := Lexer.ending_resting hlines hline
  have hsource : lexemes source = (Lexer.ending source).view.ends :=
    lexemes_eq_ends hvalid hstack htokens
  -- with the line feed
  have hwith : lexemes (source ++ (c.text ++ [10])) = lexemes source := by
    have hsame := Lexer.view_ending_commentLine_lineFeed hlines hline c
    have hnew := lexemes_eq_ends
      (Utf8.isValid_append hvalid (Utf8.isValid_append c.isValid_text rfl))
      (hsame ▸ hstack) ((congrArg Lexer.View.lineHasTokens hsame).trans htokens)
    rw [hnew, hsame, hsource]
  -- without it
  obtain ⟨s, hresting, hs, hlast⟩ := Lexer.ending_commentLine hlines hline c
  obtain ⟨hbrackets', htokens'⟩ := Lexer.indentTo_keeps c.column s
  have hindents : s.indents = (Lexer.ending source).indents := congrArg Lexer.View.indents hs
  have hdiags : s.diags = (Lexer.ending source).diags := congrArg Lexer.View.diags hs
  have hfound : s.view.found = (Lexer.ending source).view.found := by rw [hs]
  have hends : s.view.ends = (Lexer.ending source).view.ends := by
    rw [hs]
    rfl
  have hnew : lexemes (source ++ c.text) = (Lexer.indentTo c.column s).view.ends := by
    rw [← hlast] at hbrackets' htokens' ⊢
    have hstack' : s.view.stack = [] := (congrArg Lexer.View.stack hs).trans hstack
    refine lexemes_eq_ends (Utf8.isValid_append hvalid c.isValid_text) ?_
      (htokens'.trans ((congrArg Lexer.View.lineHasTokens hs).trans htokens))
    exact (congrArg (List.map Token.kind) hbrackets').trans hstack'
  obtain ⟨hopen, hdeep, hbetween⟩ := Lexer.ends_indentTo hresting c.column
  rw [hindents] at hopen hdeep hbetween
  rw [hends, ← hsource, ← hnew] at hopen
  rw [hfound, hdiags, ← hnew] at hdeep
  rw [hdiags, ← hnew] at hbetween
  refine ⟨hwith, ⟨fun hsame => ?_, hopen⟩, fun hzero => hopen (hzero ▸ hzeroOpen), fun hlt => ?_⟩
  · by_contra hmem
    rw [hsame, hsource] at hdeep hbetween
    rcases Nat.lt_trichotomy ((Lexer.ending source).indents.headD 0) c.column with hlt | heq | hgt
    · have hlength := congrArg (fun r => r.1.length) (hdeep hlt)
      simp [Lexer.View.ends, Lexer.dedents, Lexer.view] at hlength
    · obtain ⟨top, below, htop⟩ := List.exists_cons_of_ne_nil (List.ne_nil_of_mem hzeroOpen)
      rw [htop, List.headD_cons] at heq
      exact hmem (by rw [htop, heq]; exact List.mem_cons_self)
    · exact absurd (hbetween hmem hgt) (by simp [Lexer.View.ends, Lexer.view])
  · rw [hdeep hlt, hsource]
    rfl

/-- A comment below the body of a branch, in its column. -/
theorem lexemes_append_commentLine_body :
    let source := utf8 "if a:\n b\n"
    let c : CommentLine := ⟨⟨utf8 " ", by decide +kernel⟩, ⟨utf8 " c", by decide +kernel⟩⟩
    c.column = 1 ∧ (Lexer.ending source).indents = [1, 0] ∧
      lexemes (source ++ c.text) = lexemes source := by
  intro source c
  have hindents : (Lexer.ending source).indents = [1, 0] := by decide +kernel
  have hvalid : Utf8.isValid source = true := by decide +kernel
  have hlines : source.WholeLines := by decide +kernel
  have hline : (Lexer.ending source).atLineStart = true := by decide +kernel
  obtain ⟨-, hiff, -⟩ := lexemes_append_commentLine hvalid hlines hline c
  have hcolumn : c.column = 1 := by decide +kernel
  refine ⟨hcolumn, hindents, hiff.mpr ?_⟩
  rw [hcolumn, hindents]
  exact List.mem_cons_self

/-- An indented comment is not invisible in a text without any other line: it leaves an indentation
that opens and closes. -/
theorem lexemes_append_commentLine_ne :
    let c : CommentLine := ⟨⟨utf8 " ", by decide +kernel⟩, ⟨[], by decide +kernel⟩⟩
    WholeLines [] ∧ (Lexer.ending []).atLineStart = true ∧ (lexemes []).1 = [.eof] ∧
      (lexemes ([] ++ c.text)).1 = [.indent, .dedent, .eof] ∧
      (lexemes ([] ++ c.text)).1 ≠ (lexemes []).1 := by
  decide +kernel

end Token
end CloneScout
