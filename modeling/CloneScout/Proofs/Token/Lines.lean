import CloneScout.Proofs.Text.Utf8
import CloneScout.Proofs.Token.Phrase

/-!
# Lines and indentation

Lines without tokens change nothing. A line with tokens first closes the indentations that are
deeper than its column, or opens its own. The tokens of a block do not depend on how deep it is
indented: indentations that are still open behind its last line count as closed.
-/

namespace CloneScout.Token

namespace Lexer

/-! ## Steps of the lexer at the start of a line -/

/-- The lexer at the start of a line outside brackets. -/
def View.atLine (rest : Text) (indents : List Nat) (found : List Lexeme) : View where
  rest := rest
  indents := indents
  stack := []
  atLineStart := true
  lineHasTokens := false
  embedded := false
  found := found
  diags := #[]

theorem view_run_of_rest_eq_nil {s : Lexer} (h : s.rest = []) (n : Nat) :
    (s.run n).view = s.view := by
  cases n with
  | zero => rfl
  | succ n =>
    obtain ⟨s', hs', hstep⟩ := step_of_rest_eq_nil h
    rw [run, hstep, hs']

/-- A step that skips a line; it is the last one if the text ends there. -/
theorem Goes.skip {v v' : View} (hlt : v'.rest.length < v.rest.length)
    (h : ∀ s : Lexer, s.view = v → ∃ s', s'.view = v' ∧ s.step = (s', !s'.rest.isEmpty)) :
    Goes v v' := by
  intro s hs
  obtain ⟨s', hs', hstep⟩ := h s hs
  refine ⟨s', 1, hs', by omega, fun n => ?_⟩
  rw [run, hstep]
  cases hrest : s'.rest with
  | nil => exact (view_run_of_rest_eq_nil hrest n).symm
  | cons b t => rfl

/-- The start of a line and the first token behind it are one step. -/
theorem Goes.content {v v' w : View} (hle : v'.rest.length ≤ v.rest.length)
    (hlt : w.rest.length < v'.rest.length) (hstart : v'.atLineStart = false)
    (h : ∀ s : Lexer, s.view = v → ∃ s', s'.view = v' ∧
      (s.atLineStart && s.brackets.isEmpty) = true ∧ s.lineStart = .content s')
    (hgo : Goes v' w) : Goes v w := by
  intro s hs
  obtain ⟨s', hs', hline, hcontent⟩ := h s hs
  obtain ⟨s'', k, hs'', hk, hrun⟩ := hgo s' hs'
  have hsteps : s.step = s'.step := by
    have hstart' : s'.atLineStart = false := by rw [← hstart, ← hs']; rfl
    rw [Lexer.step, if_pos hline, hcontent, Lexer.step, hstart']
    rfl
  -- some text is read behind the start of the line, so there is a first step
  cases k with
  | zero =>
    have hsame : v' = w := by rw [← hs', ← hs'']; exact hrun 0
    rw [hsame] at hlt
    omega
  | succ k =>
    refine ⟨s'', k + 1, hs'', by omega, fun n => ?_⟩
    rw [← hrun n, ← Nat.add_assoc, run, hsteps, run]

/-! ## Lines without tokens -/

end Lexer

/-- A line without tokens: blanks, and perhaps a comment. -/
structure Filler where
  blanks : { t : Text // ∀ b ∈ t, Lexer.isBlank b = true }
  comment : Option { t : Text // Utf8.isValid t = true ∧ 10 ∉ t }

namespace Filler

/-- The comment with its sign. -/
def body (f : Filler) : Text := f.comment.elim [] fun t => ascii '#' :: t.1

def text (f : Filler) : Text := f.blanks.1 ++ f.body ++ [10]

theorem body_cases (f : Filler) :
    f.body = [] ∨ ∃ t, f.body = ascii '#' :: t ∧ ∀ b ∈ f.body, b ≠ 10 := by
  unfold body
  cases f.comment with
  | none => exact .inl rfl
  | some c =>
    refine .inr ⟨c.1, rfl, fun b hb => ?_⟩
    rcases List.mem_cons.mp hb with rfl | hb
    · decide
    · rintro rfl
      exact c.2.2 hb

end Filler

/-- Lines without tokens. -/
def fillerText (fs : List Filler) : Text := fs.flatMap Filler.text

namespace Lexer

theorem takeWhile_isBlank {blanks r : Text} {b : UInt8} (h : ∀ c ∈ blanks, isBlank c = true)
    (hb : isBlank b = false) : (blanks ++ b :: r).takeWhile isBlank = blanks := by
  rw [List.takeWhile_append_of_pos h, List.takeWhile_cons_of_neg (by simp [hb]), List.append_nil]

theorem toLineEnd_append {t r : Text} (h : ∀ b ∈ t, b ≠ 10) : toLineEnd (t ++ 10 :: r) = t.length := by
  rw [toLineEnd, List.takeWhile_append_of_pos (by simpa using h), List.takeWhile_cons_of_neg (by simp),
    List.append_nil]

theorem rest_advance {s : Lexer} {t r : Text} (h : s.rest = t ++ r) :
    (s.advance t.length).rest = r := by
  simp [advance, h]

/-- The lexer is at the start of a line if its view is. -/
theorem at_line {s : Lexer} {rest : Text} {indents : List Nat} {found : List Lexeme}
    (h : s.view = .atLine rest indents found) :
    s.rest = rest ∧ (s.atLineStart && s.brackets.isEmpty) = true := by
  have hstart : s.atLineStart = true := congrArg View.atLineStart h
  have hstack : s.brackets.map Token.kind = [] := congrArg View.stack h
  refine ⟨congrArg View.rest h, ?_⟩
  rw [hstart, List.map_eq_nil_iff.mp hstack]
  rfl

theorem lineStart_filler {s : Lexer} (f : Filler) {r : Text} (h : s.rest = f.text ++ r) :
    ∃ s', s.lineStart = .skipped s' ∧ s'.view = { s.view with rest := r } := by
  have hrest : s.rest = f.blanks.1 ++ (f.body ++ 10 :: r) := by simpa [Filler.text] using h
  have hrest₁ := rest_advance hrest
  have hview₁ := view_advance hrest
  rcases f.body_cases with hbody | ⟨t, hbody, hline⟩
  · rw [hbody, List.nil_append] at hrest hrest₁ hview₁
    have hblanks : s.rest.takeWhile isBlank = f.blanks.1 := by
      rw [hrest, takeWhile_isBlank f.blanks.2 (by decide)]
    refine ⟨(s.advance f.blanks.1.length).advance [(10 : UInt8)].length, ?_, ?_⟩
    · have hfeed : ¬ (10 : UInt8) = ascii '#' := by decide
      simp only [lineStart, hblanks, hrest₁, List.isEmpty_cons, List.head?_cons, Option.some.injEq,
        hfeed, Bool.false_eq_true, if_false, if_true]
      rfl
    · rw [view_advance hrest₁, hview₁]
  · have hblanks : s.rest.takeWhile isBlank = f.blanks.1 := by
      rw [hrest, hbody, List.cons_append, takeWhile_isBlank f.blanks.2 (by decide)]
    have hrest₂ := rest_advance hrest₁
    have hview₂ := view_advance hrest₁
    refine ⟨((s.advance f.blanks.1.length).advance f.body.length).advance [(10 : UInt8)].length,
      ?_, ?_⟩
    · have hhash : (f.body ++ 10 :: r).head? = some (ascii '#') := by rw [hbody]; rfl
      have hmore : (f.body ++ 10 :: r).isEmpty = false := by rw [hbody]; rfl
      simp only [lineStart, hblanks, hrest₁, toLineEnd_append hline, hhash, hmore, hrest₂,
        List.head?_cons, Bool.false_eq_true, if_false, if_true]
      rfl
    · rw [view_advance hrest₂, hview₂, hview₁]

theorem goes_filler (f : Filler) (r : Text) (indents : List Nat) (found : List Lexeme) :
    Goes (.atLine (f.text ++ r) indents found) (.atLine r indents found) := by
  have hlt : r.length < (f.text ++ r).length := by simp [Filler.text]; omega
  refine .skip hlt fun s hs => ?_
  obtain ⟨hrest, hline⟩ := at_line hs
  obtain ⟨s', hskip, hs'⟩ := lineStart_filler f hrest
  refine ⟨s', ?_, ?_⟩
  · rw [hs', hs]
    rfl
  · rw [Lexer.step, if_pos hline, hskip]

theorem goes_fillers (fs : List Filler) (r : Text) (indents : List Nat) (found : List Lexeme) :
    Goes (.atLine (fillerText fs ++ r) indents found) (.atLine r indents found) := by
  induction fs with
  | nil => exact .refl _
  | cons f fs ih =>
    rw [fillerText, List.flatMap_cons, List.append_assoc]
    exact (goes_filler f _ indents found).trans ih

/-! ## Indentation -/

/-- A line in column `col` turns the open indentations and the tokens into those behind the arrow:
its own indentation is the innermost one then. -/
def Indents (col : Nat) (indents : List Nat) (found : List Lexeme) (below : List Nat)
    (found' : List Lexeme) : Prop :=
  ∀ s : Lexer, s.indents = indents → s.view.found = found →
    (indentTo col s).view = { s.view with indents := col :: below, found := found' }

/-- The tokens that close indentations. -/
def dedents (deeper : List Nat) : List Lexeme := deeper.map fun _ => .dedent

theorem indents_open {col top : Nat} {below : List Nat} {found : List Lexeme} (h : top < col) :
    Indents col (top :: below) found (top :: below) (found ++ [.indent]) := by
  intro s hindents hfound
  have htop : s.indents.headD 0 < col := by rw [hindents]; exact h
  rw [indentTo, if_pos htop, ← hindents, ← hfound]
  simp [view, push, emptyToken, toLexeme, Lexeme.indent]

theorem closeIndents_eq {col : Nat} {deeper : List Nat} (h : ∀ x ∈ deeper, col < x)
    (below : List Nat) (s : Lexer) : ∃ s', closeIndents col (deeper ++ col :: below) s = (col :: below, s') ∧
      s'.view = { s.view with found := s.view.found ++ dedents deeper } := by
  induction deeper generalizing s with
  | nil =>
    refine ⟨s, ?_, ?_⟩
    · rw [List.nil_append, closeIndents, if_neg (Nat.lt_irrefl col)]
    · simp [dedents]
  | cons x deeper ih =>
    have hx := h x List.mem_cons_self
    obtain ⟨s', hclose, hs'⟩ := ih (fun y hy => h y (List.mem_cons_of_mem _ hy))
      (s.push (s.emptyToken .dedent))
    refine ⟨s', ?_, ?_⟩
    · rw [List.cons_append, closeIndents, if_pos hx, hclose]
    · rw [hs']
      simp [view, push, emptyToken, toLexeme, dedents, Lexeme.dedent]

theorem indents_close {col : Nat} {deeper below : List Nat} {found : List Lexeme}
    (h : ∀ x ∈ deeper, col < x) :
    Indents col (deeper ++ col :: below) found below (found ++ dedents deeper) := by
  intro s hindents hfound
  have htop : ¬ s.indents.headD 0 < col := by
    rw [hindents]
    cases deeper with
    | nil => exact Nat.lt_irrefl col
    | cons x deeper => exact Nat.not_lt_of_gt (h x List.mem_cons_self)
  obtain ⟨s', hclose, hs'⟩ := closeIndents_eq h below s
  have hto : indentTo col s = { s' with indents := col :: below } := by
    rw [indentTo, if_neg htop, hindents, hclose]
    exact if_pos rfl
  rw [hfound] at hs'
  rw [hto]
  show ({ s'.view with indents := col :: below } : View) = _
  rw [hs']

/-! ## Lines with tokens -/

/-- A line feed behind tokens ends their line. -/
theorem goes_lineFeed {v : View} {r : Text} (hstart : v.atLineStart = false)
    (hrest : v.rest = 10 :: r) (hstack : v.stack = []) (hembedded : v.embedded = false)
    (htokens : v.lineHasTokens = true) :
    Goes v
      { v with
        rest := r
        atLineStart := true
        lineHasTokens := false
        found := v.found ++ [.newline] } := by
  refine .item hstart hrest (by rw [hrest]; simp) fun s hs => ?_
  have hbrackets : s.brackets = [] := by
    rw [← hs] at hstack
    exact List.map_eq_nil_iff.mp hstack
  have hrest' : s.rest = [10] ++ r := by
    rw [← hs] at hrest
    exact hrest
  have hembedded' : s.embedded = false := by
    rw [← hs] at hembedded
    exact hembedded
  have htokens' : s.lineHasTokens = true := by
    rw [← hs] at htokens
    exact htokens
  have hitem : s.item 10 = s.lineFeed := rfl
  rw [hitem, lineFeed, hbrackets, hembedded', htokens', ← hs]
  simp [view, advance, push, hrest', toLexeme, Lexeme.newline]

/-- The first byte of a line that is neither blank nor a comment. -/
def Starts (b : UInt8) : Prop := isBlank b = false ∧ b ≠ ascii '#' ∧ b ≠ ascii '\\' ∧ b ≠ 10

/-- In front of `r` the text is cut into the tokens. -/
def Cuts (t : Text) (us : List Lexeme) (r : Text) : Prop :=
  ∀ v : View, v.atLineStart = false → v.stack = [] → v.rest = t ++ r →
    Goes v { v with rest := r, lineHasTokens := true, found := v.found ++ us }

/-- The text of a line without its indentation is cut into the tokens. -/
structure Line (t : Text) (us : List Lexeme) : Prop where
  start : ∃ b ∈ t.head?, Starts b
  cuts : ∀ r, Cuts t us (10 :: r)

/-- A line in the given column. -/
def lineText (col : Nat) (t : Text) : Text := List.replicate col (ascii ' ') ++ t ++ [10]

theorem column_replicate (n : Nat) (col : Nat) {b : UInt8} (t : Text) (h : isBlank b = false) :
    column n (List.replicate col (ascii ' ') ++ b :: t) = n + col := by
  induction col generalizing n with
  | zero =>
    have hb : b ≠ ascii ' ' ∧ b ≠ 9 ∧ b ≠ 12 ∧ b ≠ 13 := by
      simpa [isBlank, and_assoc] using h
    simp [column, hb.1, hb.2.1, hb.2.2.1, hb.2.2.2]
  | succ col ih =>
    rw [List.replicate_succ, List.cons_append, column, if_pos rfl, ih]
    omega

theorem lineStart_content {s : Lexer} {col : Nat} {b : UInt8} {t : Text}
    (hrest : s.rest = List.replicate col (ascii ' ') ++ b :: t) (hb : Starts b) :
    ∃ s', s'.view = { s.view with rest := b :: t, atLineStart := false } ∧
      s.lineStart = .content (indentTo col s') := by
  obtain ⟨hblank, hhash, hback, hfeed⟩ := hb
  have hblanks : s.rest.takeWhile isBlank = List.replicate col (ascii ' ') := by
    refine hrest ▸ takeWhile_isBlank (fun c hc => ?_) hblank
    rw [List.eq_of_mem_replicate hc]
    rfl
  have hcolumn : column 0 s.rest = col := by
    rw [hrest, column_replicate 0 col _ hblank, Nat.zero_add]
  have hcontinues : continuation? (b :: t) = none := by
    unfold continuation?
    split <;> simp_all
  have hrest₁ := rest_advance hrest
  refine ⟨{ s.advance (List.replicate col (ascii ' ')).length with atLineStart := false }, ?_, ?_⟩
  · have hview := view_advance hrest
    show ({ (s.advance (List.replicate col (ascii ' ')).length).view with atLineStart := false } : View) = _
    rw [hview]
  · simp only [lineStart, hblanks, hcolumn, hrest₁, List.isEmpty_cons, List.head?_cons,
      Option.some.injEq, hhash, hfeed, hcontinues, Bool.false_eq_true, if_false]

theorem goes_line {col : Nat} {indents below : List Nat} {found found' us : List Lexeme} {t : Text}
    (h : Line t us) (hindents : Indents col indents found below found') (r : Text) :
    Goes (.atLine (lineText col t ++ r) indents found)
      (.atLine r (col :: below) (found' ++ us ++ [.newline])) := by
  obtain ⟨b, hb, hstarts⟩ := h.start
  obtain ⟨t', rfl⟩ := List.head?_eq_some_iff.mp hb
  -- the state behind the indentation of the line
  let v : View := { View.atLine (b :: t' ++ 10 :: r) (col :: below) found' with atLineStart := false }
  have hgo : Goes v (.atLine r (col :: below) (found' ++ us ++ [.newline])) :=
    (h.cuts r v rfl rfl rfl).trans (goes_lineFeed rfl rfl rfl rfl rfl)
  refine .content ?_ ?_ rfl (fun s hs => ?_) hgo
  · simp [v, View.atLine, lineText]
  · simp [v, View.atLine]
    omega
  · obtain ⟨hrest, hline⟩ := at_line hs
    have hrest' : s.rest = List.replicate col (ascii ' ') ++ (b :: (t' ++ 10 :: r)) := by
      simpa [lineText] using hrest
    obtain ⟨s', hs', hcontent⟩ := lineStart_content hrest' hstarts
    refine ⟨indentTo col s', ?_, hline, hcontent⟩
    rw [hs] at hs'
    rw [hindents s' (congrArg View.indents hs') (congrArg View.found hs'), hs']
    rfl

/-! ## Texts of lines -/

theorem Cuts.append {t t' r : Text} {us us' : List Lexeme} (h : Cuts t us (t' ++ r))
    (h' : Cuts t' us' r) : Cuts (t ++ t') (us ++ us') r := by
  intro v hstart hstack hrest
  rw [List.append_assoc] at hrest
  have hgo := (h v hstart hstack hrest).trans (h' _ hstart hstack rfl)
  simpa only [List.append_assoc] using hgo

theorem cuts_keyword {k : Kind} (hk : k ∈ Kind.keywords) {r : Text} (hr : Parts r) :
    Cuts k.text [.ofKind k] r :=
  fun _ hstart _ hrest => goes_keyword hstart hrest hk hr

theorem cuts_name {t : Text} (ht : IsName t) {r : Text} (hr : Parts r) :
    Cuts t [⟨.ident, t⟩] r :=
  fun _ hstart _ hrest => goes_name hstart hrest ht hr

/-- A keyword and the blank behind it. -/
theorem cuts_keyword_blank {k : Kind} (hk : k ∈ Kind.keywords) (r : Text) :
    Cuts (k.text ++ [ascii ' ']) [.ofKind k] r := by
  intro v hstart hstack hrest
  have hrest' : v.rest = k.text ++ (ascii ' ' :: r) := by simpa using hrest
  have hparts : Parts (ascii ' ' :: r) := by
    intro b hb
    obtain rfl := Option.some.inj hb
    decide
  exact (goes_keyword hstart hrest' hk hparts).trans (goes_blank hstart rfl)

theorem endsBefore_cons {k : Kind} {b : UInt8} (r : Text) (hdigit : Text.isDigit b = false)
    (h : ∀ j ∈ Kind.signs, ¬ k.text ++ [b] <+: j.text) : EndsBefore k (b :: r) := by
  intro c hc
  obtain rfl := Option.some.inj hc
  exact ⟨hdigit, h⟩

theorem parts_cons {b : UInt8} (r : Text) (h : isIdentPart b = false ∧ isQuote b = false) :
    Parts (b :: r) := by
  intro c hc
  obtain rfl := Option.some.inj hc
  exact h

theorem cuts_colon (r : Text) : Cuts (Kind.text .colon) [.ofKind .colon] (10 :: r) := by
  intro v hstart hstack hrest
  have hends : EndsBefore .colon (10 :: r) := endsBefore_cons r (by decide) (by decide +kernel)
  exact goes_sign hstart hrest (by decide) hends (tracked_plain ⟨rfl, rfl⟩ _)

/-- An empty list of parameters. -/
theorem cuts_parens (r : Text) :
    Cuts (Kind.text .lparen ++ Kind.text .rparen) [.ofKind .lparen, .ofKind .rparen]
      (Kind.text .colon ++ r) := by
  intro v hstart hstack hrest
  rw [List.append_assoc] at hrest
  have hopen : EndsBefore .lparen (Kind.text .rparen ++ (Kind.text .colon ++ r)) :=
    endsBefore_cons _ (by decide) (by decide +kernel)
  have hclose : EndsBefore .rparen (Kind.text .colon ++ r) :=
    endsBefore_cons _ (by decide) (by decide +kernel)
  let v' : View :=
    { v.took (.ofKind .lparen) (Kind.text .rparen ++ (Kind.text .colon ++ r)) with
      stack := .lparen :: v.stack }
  have hfirst : Goes v v' :=
    goes_sign hstart hrest (by decide) hopen (tracked_opening rfl v.stack)
  have hsecond : Goes v'
      { v'.took (.ofKind .rparen) (Kind.text .colon ++ r) with stack := v.stack } :=
    goes_sign hstart rfl (by decide) hclose (tracked_closing rfl rfl v.stack)
  have hgo := hfirst.trans hsecond
  simpa [v', View.took] using hgo

theorem starts_of_isIdentStart {b : UInt8} (h : isIdentStart b = true) : Starts b := by
  have hall : ∀ b : UInt8, isIdentStart b = true → isBlank b = false ∧ b ≠ ascii '#' ∧
      b ≠ ascii '\\' ∧ b ≠ 10 := forall_byte (by decide +kernel)
  exact hall b h

theorem line_name {t : Text} (ht : IsName t) : Line t [⟨.ident, t⟩] := by
  obtain ⟨b, hb, hstart⟩ := ht.start
  exact ⟨⟨b, hb, starts_of_isIdentStart hstart⟩, fun r => cuts_name ht (parts_cons r (by decide))⟩

/-- The first word of a line. -/
theorem start_keyword {k : Kind} (hk : k ∈ Kind.keywords) (t : Text) :
    ∃ b ∈ (k.text ++ t).head?, Starts b := by
  have hall : ∀ k ∈ Kind.keywords, ∃ b ∈ k.text.head?, isIdentStart b = true := by decide +kernel
  obtain ⟨b, hb, hstart⟩ := hall k hk
  obtain ⟨u, hu⟩ := List.head?_eq_some_iff.mp hb
  exact ⟨b, by rw [hu]; rfl, starts_of_isIdentStart hstart⟩

theorem line_keyword {k : Kind} (hk : k ∈ Kind.keywords) : Line k.text [.ofKind k] := by
  refine ⟨?_, fun r => cuts_keyword hk (parts_cons r (by decide))⟩
  rw [← List.append_nil k.text]
  exact start_keyword hk []

/-- A keyword and a colon. -/
theorem line_heading {k : Kind} (hk : k ∈ Kind.keywords) :
    Line (k.text ++ Kind.text .colon) [.ofKind k, .ofKind .colon] := by
  refine ⟨start_keyword hk _, fun r => ?_⟩
  exact (cuts_keyword hk (parts_cons _ (by decide))).append (cuts_colon r)

/-- A keyword, a name and a colon. -/
theorem line_named {k : Kind} (hk : k ∈ Kind.keywords) {t : Text} (ht : IsName t) :
    Line (k.text ++ [ascii ' '] ++ (t ++ Kind.text .colon))
      [.ofKind k, ⟨.ident, t⟩, .ofKind .colon] := by
  refine ⟨?_, fun r => ?_⟩
  · rw [List.append_assoc]
    exact start_keyword hk _
  · have hname : Cuts t [⟨.ident, t⟩] (Kind.text .colon ++ 10 :: r) :=
      cuts_name ht (parts_cons _ (by decide))
    exact (cuts_keyword_blank hk _).append (hname.append (cuts_colon r))

/-- A keyword, a name, an empty pair of parentheses and a colon. -/
theorem line_called {k : Kind} (hk : k ∈ Kind.keywords) {t : Text} (ht : IsName t) :
    Line (k.text ++ [ascii ' '] ++ (t ++ (Kind.text .lparen ++ Kind.text .rparen ++ Kind.text .colon)))
      [.ofKind k, ⟨.ident, t⟩, .ofKind .lparen, .ofKind .rparen, .ofKind .colon] := by
  refine ⟨?_, fun r => ?_⟩
  · rw [List.append_assoc]
    exact start_keyword hk _
  · have hparens := (cuts_parens (10 :: r)).append (cuts_colon r)
    have hname : Cuts t [⟨.ident, t⟩]
        (Kind.text .lparen ++ Kind.text .rparen ++ Kind.text .colon ++ 10 :: r) :=
      cuts_name ht (parts_cons _ (by decide))
    exact (cuts_keyword_blank hk _).append (hname.append hparens)

/-! ## Blocks -/

/-- Lines of which the first starts in column `col`, cut into the tokens. Behind them there may be
deeper indentations; with the tokens that close them the tokens are complete. -/
def Lays (col : Nat) (below : List Nat) (t : Text) (us : List Lexeme) : Prop :=
  ∀ (indents : List Nat) (found found' : List Lexeme) (r : Text),
    Indents col indents found below found' →
    ∃ deeper found'', (∀ x ∈ deeper, col < x) ∧ found'' ++ dedents deeper = found' ++ us ∧
      Goes (.atLine (t ++ r) indents found) (.atLine r (deeper ++ col :: below) found'')

theorem Lays.line {t : Text} {us : List Lexeme} (h : Line t us) (col : Nat) (below : List Nat) :
    Lays col below (lineText col t) (us ++ [.newline]) := by
  intro indents found found' r hindents
  refine ⟨[], found' ++ us ++ [Lexeme.newline], ?_, ?_, goes_line h hindents r⟩
  · exact fun x hx => absurd hx List.not_mem_nil
  · simp [dedents]

theorem Lays.append {col : Nat} {below : List Nat} {t t' : Text} {us us' : List Lexeme}
    (h : Lays col below t us) (h' : Lays col below t' us') :
    Lays col below (t ++ t') (us ++ us') := by
  intro indents found found' r hindents
  obtain ⟨deeper, mid, hdeeper, hmid, hgo⟩ := h indents found found' (t' ++ r) hindents
  have hclose : Indents col (deeper ++ col :: below) mid below (mid ++ dedents deeper) :=
    indents_close hdeeper
  obtain ⟨deeper', found'', hdeeper', hfound, hgo'⟩ := h' _ mid _ r hclose
  refine ⟨deeper', found'', hdeeper', ?_, ?_⟩
  · rw [hfound, hmid, List.append_assoc]
  · rw [List.append_assoc]
    exact hgo.trans hgo'

theorem Lays.fill {col : Nat} {below : List Nat} {t : Text} {us : List Lexeme}
    (h : Lays col below t us) (fs : List Filler) : Lays col below (fillerText fs ++ t) us := by
  intro indents found found' r hindents
  obtain ⟨deeper, found'', hdeeper, hfound, hgo⟩ := h indents found found' r hindents
  refine ⟨deeper, found'', hdeeper, hfound, ?_⟩
  rw [List.append_assoc]
  exact (goes_fillers fs _ indents found).trans hgo

/-- A heading and the block below it. -/
theorem Lays.block {col col' : Nat} {below : List Nat} {t t' : Text} {us us' : List Lexeme}
    (h : Line t us) (h' : Lays col' (col :: below) t' us') (hlt : col < col') :
    Lays col below (lineText col t ++ t')
      (us ++ .newline :: .indent :: (us' ++ [.dedent])) := by
  intro indents found found' r hindents
  have hgo := goes_line h hindents (t' ++ r)
  have hopen : Indents col' (col :: below) (found' ++ us ++ [.newline]) (col :: below)
      (found' ++ us ++ [.newline] ++ [.indent]) := indents_open hlt
  obtain ⟨deeper, found'', hdeeper, hfound, hgo'⟩ := h' _ _ _ r hopen
  refine ⟨deeper ++ [col'], found'', ?_, ?_, ?_⟩
  · intro x hx
    rcases List.mem_append.mp hx with hx | hx
    · exact Nat.lt_trans hlt (hdeeper x hx)
    · rw [List.mem_singleton.mp hx]
      exact hlt
  · rw [dedents, List.map_append, ← List.append_assoc]
    change found'' ++ dedents deeper ++ _ = _
    rw [hfound]
    simp
  · rw [List.append_assoc, List.append_assoc]
    exact hgo.trans hgo'

/-! ## Texts made of lines -/

theorem view_foldl_dedent (deeper : List Nat) (s : Lexer) :
    (deeper.foldl (fun s _ => s.push (s.emptyToken .dedent)) s).view =
      { s.view with found := s.view.found ++ dedents deeper } := by
  induction deeper generalizing s with
  | nil => simp [dedents]
  | cons x deeper ih =>
    rw [List.foldl_cons, ih]
    simp [view, push, emptyToken, toLexeme, dedents, Lexeme.dedent]

theorem view_finishLines {s : Lexer} {deeper : List Nat} {found : List Lexeme}
    (h : s.view = .atLine [] (deeper ++ [0]) found) :
    s.finishLines.view = .atLine [] (deeper ++ [0]) (found ++ dedents deeper) := by
  have htokens : s.lineHasTokens = false := congrArg View.lineHasTokens h
  have hindents : s.indents = deeper ++ [0] := congrArg View.indents h
  rw [finishLines, htokens]
  simp only [Bool.false_eq_true, if_false]
  rw [hindents, List.dropLast_concat, view_foldl_dedent, h]
  rfl

end Lexer

/-- The tokens of a text made of lines. -/
theorem lex_of_lays {t : Text} {us : List Lexeme} (h : Lexer.Lays 0 [] t us) (fs : List Filler)
    (hvalid : Utf8.isValid (t ++ fillerText fs) = true)
    (hmark : Text.startsWith (t ++ fillerText fs) byteOrderMark = false) :
    (lex (t ++ fillerText fs)).1.toList.map toLexeme = us ++ [.eof] ∧
      (lex (t ++ fillerText fs)).2 = #[] := by
  have hstart : (Lexer.start (t ++ fillerText fs)).view = .atLine (t ++ fillerText fs) [0] [] := by
    rw [Lexer.start, hmark]
    rfl
  have hindents : Lexer.Indents 0 [0] [] [] [] :=
    @Lexer.indents_close 0 [] [] [] fun x hx => absurd hx List.not_mem_nil
  obtain ⟨deeper, found, -, hfound, hgo⟩ := h [0] [] [] (fillerText fs) hindents
  have hfillers := Lexer.goes_fillers fs [] (deeper ++ [0]) found
  rw [List.append_nil] at hfillers
  have hview := Lexer.view_run (hgo.trans hfillers) rfl hstart
  have hrest : (Lexer.start (t ++ fillerText fs)).rest = t ++ fillerText fs :=
    congrArg Lexer.View.rest hstart
  rw [hrest] at hview
  generalize hlast : (Lexer.start (t ++ fillerText fs)).run ((t ++ fillerText fs).length + 1) = s
    at hview
  have hlex : lex (t ++ fillerText fs) = s.finishLines.finish := by
    rw [lex, Utf8.firstInvalid_of_isValid hvalid]
    simp only [hlast]
    rw [Lexer.reportOpen_eq (by rw [hview]; rfl)]
  obtain ⟨htokens, hdiags⟩ := s.finishLines.toLexeme_finish
  rw [hlex, htokens, hdiags, Lexer.view_finishLines hview]
  exact ⟨congrArg (· ++ [Lexeme.eof]) hfound, rfl⟩

end CloneScout.Token
