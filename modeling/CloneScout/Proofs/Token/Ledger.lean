import CloneScout.Proofs.Token.Extension

/-!
# The ledger of the lexer

What the lexer has recorded: kinds of tokens, open brackets, open indentations and codes of
diagnostics. A step makes some of nine entries in this ledger, and what holds at first and is kept
by every entry holds at the end of the text. There the open brackets are reported and the open
indentations closed.
-/

namespace CloneScout.Token

open Diagnostic (Code)

/-! ## Kinds -/

namespace Kind

def isBracket (k : Kind) : Bool := k.isOpening || k.isClosing

/-- The token neither lays out lines nor opens or closes a bracket. -/
def IsPlain (k : Kind) : Prop := k.isLayout = false ∧ k.isBracket = false

instance (k : Kind) : Decidable k.IsPlain :=
  inferInstanceAs (Decidable (k.isLayout = false ∧ k.isBracket = false))

variable {k o : Kind}

theorem isClosing_of_opening? (h : k.opening? = some o) :
    k.isClosing = true ∧ k.isOpening = false ∧ k.isLayout = false := by
  cases k <;> first | exact ⟨rfl, rfl, rfl⟩ | cases h

theorem opening?_of_isClosing (h : k.isClosing = true) : ∃ o, k.opening? = some o := by
  cases k <;> first | exact ⟨_, rfl⟩ | cases h

theorem opening?_of_isOpening (h : k.isOpening = true) :
    k.opening? = none ∧ k.isClosing = false ∧ k.isLayout = false := by
  cases k <;> first | exact ⟨rfl, rfl, rfl⟩ | cases h

theorem isBracket_of_isLayout (h : k.isLayout = true) : k.isBracket = false := by
  cases k <;> first | rfl | cases h

theorem isPlain_ofWord (w : Text) : (ofWord w).IsPlain := by
  have htable : ∀ e ∈ keywordTable, e.2.IsPlain := by decide +kernel
  unfold ofWord
  cases hlook : keywordTable.lookup w with
  | none => decide
  | some k =>
    obtain ⟨before, behind, hsplit, -⟩ := List.lookup_eq_some_iff.mp hlook
    exact htable (w, k) (by rw [hsplit]; simp)

end Kind

theorem isPlain_scan (t : Text) : (Number.scan t).kind.IsPlain := by
  have hdecimal (t : Text) : (Number.decimal t).kind.IsPlain := by
    unfold Number.decimal
    dsimp only
    split
    · decide
    · split <;> decide
  show (Number.bare t).kind.IsPlain
  unfold Number.bare
  split
  · split
    · split
      · show Kind.IsPlain .intLit
        decide
      · exact hdecimal _
    · exact hdecimal _
  · exact hdecimal _

/-! ## Entries -/

/-- What the lexer has recorded, without places and texts. -/
structure Ledger where
  kinds : List Kind
  /-- The kinds of the open brackets, the innermost first. -/
  stack : List Kind
  /-- The columns of the open indentations, the innermost first. -/
  indents : List Nat
  codes : List Code

namespace Ledger

def enter (k : Kind) (l : Ledger) : Ledger := { l with kinds := l.kinds ++ [k] }

def note (c : Code) (l : Ledger) : Ledger := { l with codes := l.codes ++ [c] }

/-- What the lexer can record at once. -/
inductive Entry (l : Ledger) : Ledger → Prop where
  | token {k : Kind} (plain : k.IsPlain) : Entry l (l.enter k)
  | fault {c : Code} (other : c ≠ .unmatchedBracket ∧ c ≠ .inconsistentDedent) : Entry l (l.note c)
  | opening {k : Kind} (opens : k.isOpening = true) :
      Entry l { l.enter k with stack := k :: l.stack }
  | closing {k o : Kind} {below : List Kind} (closes : k.opening? = some o)
      (innermost : l.stack = o :: below) : Entry l { l.enter k with stack := below }
  | unmatched {k o : Kind} (closes : k.opening? = some o) (other : l.stack.head? ≠ some o) :
      Entry l ((l.enter k).note .unmatchedBracket)
  | newline (outside : l.stack = []) : Entry l (l.enter .newline)
  | indent {col : Nat} (outside : l.stack = []) (deeper : l.indents.headD 0 < col) :
      Entry l { l.enter .indent with indents := col :: l.indents }
  | dedent {top : Nat} {below : List Nat} (outside : l.stack = [])
      (innermost : l.indents = top :: below) (positive : 0 < top) :
      Entry l { l.enter .dedent with indents := below }
  | misfit {col : Nat} (outside : l.stack = []) :
      Entry l { l.note .inconsistentDedent with indents := col :: l.indents }

/-- Entries one after the other. -/
def Entries : Ledger → Ledger → Prop := Relation.ReflTransGen Entry

namespace Entries

variable {l l' l'' : Ledger}

theorem refl (l : Ledger) : l.Entries l := Relation.ReflTransGen.refl

theorem trans (h : l.Entries l') (h' : l'.Entries l'') : l.Entries l'' :=
  Relation.ReflTransGen.trans h h'

theorem next (h : l.Entries l') (h' : l'.Entry l'') : l.Entries l'' := .tail h h'

/-- What every entry keeps holds after any number of entries. -/
theorem preserves {P : Ledger → Prop} (hentry : ∀ l l', P l → l.Entry l' → P l')
    (h : l.Entries l') (hl : P l) : P l' := by
  induction h with
  | refl => exact hl
  | tail _ hlast ih => exact hentry _ _ ih hlast

end Entries

end Ledger

open Ledger (Entries)

/-! ## The entries of a step -/

namespace Lexer

def ledger (s : Lexer) : Ledger where
  kinds := s.tokens.toList.map Token.kind
  stack := s.brackets.map Token.kind
  indents := s.indents
  codes := s.diags.toList.map Diagnostic.code

variable {s : Lexer}

theorem ledger_push (t : Token) : (s.push t).ledger = s.ledger.enter t.kind := by
  simp [ledger, push, Ledger.enter]

theorem ledger_report (code : Code) (span : Span) (arg : Text) :
    (s.report code span arg).ledger = s.ledger.note code := by
  simp [ledger, report, Ledger.note, Diagnostic.errorAt]

theorem ledger_take (kind : Kind) (n : Nat) : (s.take kind n).ledger = s.ledger.enter kind :=
  ledger_push (s := s) (s.tokenOf kind n)

theorem entries_take {kind : Kind} (h : kind.IsPlain) (n : Nat) :
    s.ledger.Entries (s.take kind n).ledger := by
  rw [ledger_take]
  exact (Entries.refl _).next (.token h)

/-- A token that is reported and put out as an error. -/
theorem entries_error {code : Code} (h : code ≠ .unmatchedBracket ∧ code ≠ .inconsistentDedent)
    (span : Span) (arg : Text) (n : Nat) :
    s.ledger.Entries ((s.report code span arg).take .error n).ledger := by
  have hreport : s.ledger.Entries (s.report code span arg).ledger := by
    rw [ledger_report]
    exact (Entries.refl _).next (.fault h)
  exact hreport.trans (entries_take (by decide) n)

theorem entries_string (letters : Nat) : s.ledger.Entries (s.string letters).ledger := by
  unfold string
  dsimp only
  generalize (s.rest.drop letters).take _ = opener
  split
  · exact entries_take (by decide) _
  · exact entries_error (by decide) _ _ _

theorem entries_number : s.ledger.Entries s.number.ledger := by
  unfold number
  dsimp only
  split
  · exact entries_error (by decide) _ _ _
  · exact entries_take (isPlain_scan _) _

theorem entries_word : s.ledger.Entries s.word.ledger := by
  unfold word
  dsimp only
  split
  · exact entries_string _
  · exact entries_take (Kind.isPlain_ofWord _) _

/-- What a token that was put out does to the open brackets. -/
theorem entries_track {t : Token} (h : t.kind.isLayout = false) {l : Ledger}
    (hl : s.ledger = l.enter t.kind) : l.Entries (track t s).ledger := by
  have hkinds : s.tokens.toList.map Token.kind = l.kinds ++ [t.kind] := congrArg Ledger.kinds hl
  have hstack : s.brackets.map Token.kind = l.stack := congrArg Ledger.stack hl
  have hunmatched {o : Kind} (hcloses : t.kind.opening? = some o) (hother : l.stack.head? ≠ some o) :
      l.Entries (s.report .unmatchedBracket t.span t.lexeme).ledger := by
    rw [ledger_report, hl]
    exact (Entries.refl l).next (.unmatched hcloses hother)
  -- The token stands in the ledger already, so each case is an entry behind `l`.
  unfold track
  split
  · next hopens =>
    have hentry := Ledger.Entry.opening (l := l) hopens
    rw [← hl, ← hstack] at hentry
    exact (Entries.refl l).next hentry
  · next hopens =>
    split
    · next hnone =>
      have hclosing : t.kind.isClosing = false := by
        by_contra hclosing
        obtain ⟨o, ho⟩ := Kind.opening?_of_isClosing (by simpa using hclosing)
        exact Option.some_ne_none o (ho.symm.trans hnone)
      rw [hl]
      exact (Entries.refl l).next (.token ⟨h, by simp [Kind.isBracket, hopens, hclosing]⟩)
    · next o hcloses =>
      split
      · next top below hbrackets =>
        rw [hbrackets, List.map_cons] at hstack
        split
        · next hmatch =>
          have hinnermost : l.stack = o :: below.map Token.kind := by rw [← hstack, hmatch]
          have hentry := Ledger.Entry.closing hcloses hinnermost
          rw [← hl] at hentry
          exact (Entries.refl l).next hentry
        · next hmatch =>
          refine hunmatched hcloses ?_
          rw [← hstack]
          exact fun heq => hmatch (Option.some.inj heq)
      · next hbrackets =>
        refine hunmatched hcloses ?_
        rw [← hstack, hbrackets]
        exact (Option.some_ne_none _).symm

theorem entries_sign : s.ledger.Entries s.sign.ledger := by
  have htable : ∀ e ∈ Kind.signTable, e.2.isLayout = false := by decide +kernel
  unfold sign
  cases hsign : Kind.sign? s.rest with
  | none => exact entries_track rfl (ledger_take _ _)
  | some found =>
    exact entries_track (htable _ (List.mem_of_find?_eq_some hsign)) (ledger_take _ _)

theorem entries_lineFeed : s.ledger.Entries s.lineFeed.ledger := by
  unfold lineFeed
  dsimp only
  split
  · next houtside =>
    rw [Bool.and_eq_true, List.isEmpty_iff] at houtside
    split
    · have hpush := ledger_push (s := s.advance 1)
        ⟨.newline, ⟨s.pos, s.pos + 1⟩, [10], s.line, s.line⟩
      refine (Entries.refl _).next ?_
      show s.ledger.Entry ((s.advance 1).push _).ledger
      rw [hpush]
      exact .newline (by simp [ledger, houtside.1])
    · exact .refl _
  · exact .refl _

theorem entries_item (b : UInt8) : s.ledger.Entries (s.item b).ledger := by
  unfold item
  dsimp only
  split
  · exact .refl _
  split
  · exact .refl _
  split
  · split
    · exact .refl _
    · show s.ledger.Entries (s.report .strayBackslash ⟨s.pos, s.pos + 1⟩ []).ledger
      rw [ledger_report]
      exact (Entries.refl _).next (.fault (by decide))
  split
  · exact entries_lineFeed
  split
  · exact entries_number
  split
  · exact entries_word
  split
  · exact entries_string 0
  · exact entries_sign

/-- Each indentation that is closed leaves a token. The lexer stays as it is but for its tokens. -/
theorem entries_closeIndents (col : Nat) {indents : List Nat} {s : Lexer} {l : Ledger}
    (hl : l = { s.ledger with indents }) (houtside : s.brackets = []) :
    (closeIndents col indents s).2.brackets = [] ∧
      l.Entries { (closeIndents col indents s).2.ledger with
        indents := (closeIndents col indents s).1 } := by
  induction indents generalizing s l with
  | nil => exact ⟨houtside, hl ▸ .refl _⟩
  | cons top below ih =>
    unfold closeIndents
    split
    · next hdeeper =>
      have hentry : l.Entry { (s.push (s.emptyToken .dedent)).ledger with indents := below } := by
        rw [ledger_push, hl]
        exact .dedent (by simp [ledger, houtside]) rfl (Nat.zero_lt_of_lt hdeeper)
      obtain ⟨hbrackets, hrest⟩ := ih (s := s.push (s.emptyToken .dedent)) rfl houtside
      exact ⟨hbrackets, ((Entries.refl l).next hentry).trans hrest⟩
    · exact ⟨houtside, hl ▸ .refl _⟩

theorem entries_indentTo (col : Nat) (houtside : s.brackets = []) :
    s.ledger.Entries (indentTo col s).ledger := by
  obtain ⟨hbrackets, hclosed⟩ := entries_closeIndents col
    (show s.ledger = { s.ledger with indents := s.indents } from rfl) houtside
  unfold indentTo
  dsimp only
  split
  · next hdeeper =>
    refine (Entries.refl _).next ?_
    show s.ledger.Entry { (s.push (s.emptyToken .indent)).ledger with indents := col :: s.indents }
    rw [ledger_push]
    exact .indent (by simp [ledger, houtside]) hdeeper
  -- A column that no open indentation has is reported and opened.
  · generalize closeIndents col s.indents s = closed at hbrackets hclosed ⊢
    split
    · exact hclosed
    · refine hclosed.next ?_
      show Ledger.Entry _ { (closed.2.report _ _ _).ledger with indents := col :: closed.1 }
      rw [ledger_report]
      exact Ledger.Entry.misfit (l := { closed.2.ledger with indents := closed.1 })
        (by simp [ledger, hbrackets])

theorem entries_lineStart (houtside : s.brackets = []) :
    s.ledger.Entries s.lineStart.lexer.ledger := by
  rw [lineStart_eq]
  dsimp only
  have hcomment (s : Lexer) :
      s.skipComment.ledger = s.ledger ∧ s.skipComment.brackets = s.brackets := by
    unfold skipComment
    split <;> exact ⟨rfl, rfl⟩
  obtain ⟨hledger, hbrackets⟩ := hcomment (s.advance (s.rest.takeWhile isBlank).length)
  generalize (s.advance (s.rest.takeWhile isBlank).length).skipComment = s₂ at hledger hbrackets ⊢
  have hsame : s.ledger = s₂.ledger := hledger.symm
  split
  · exact .refl _
  split
  · exact hsame ▸ .refl _
  split
  · exact hsame ▸ .refl _
  · rw [hsame]
    exact entries_indentTo (s := { s₂ with atLineStart := false }) _ (hbrackets.trans houtside)

theorem entries_step (s : Lexer) : s.ledger.Entries s.step.1.ledger := by
  have hread (s : Lexer) : s.ledger.Entries s.readItem.1.ledger := by
    unfold readItem
    split
    · exact .refl _
    · exact entries_item _
  rw [step_eq]
  split
  · next hline =>
    rw [Bool.and_eq_true, List.isEmpty_iff] at hline
    have hstart := entries_lineStart hline.2
    split
    · next s' hs' =>
      rw [hs'] at hstart
      exact hstart
    · next s' hs' =>
      rw [hs'] at hstart
      exact hstart.trans (hread s')
  · exact hread s

theorem entries_run (steps : Nat) (s : Lexer) : s.ledger.Entries (s.run steps).ledger := by
  induction steps generalizing s with
  | zero => exact .refl _
  | succ steps ih =>
    have hstep := entries_step s
    rw [run]
    split
    · next s' hs' =>
      rw [hs'] at hstep
      exact hstep.trans (ih s')
    · next s' hs' =>
      rw [hs'] at hstep
      exact hstep

/-! ## The end of the text -/

theorem ledger_reportOpen (s : Lexer) : s.reportOpen.ledger =
    { s.ledger with
      stack := []
      codes := s.ledger.codes ++ List.replicate s.brackets.length .unmatchedBracket } := by
  have hfold (open_ : List Token) : (open_.foldr
      (fun t s => s.report .unmatchedBracket t.span t.lexeme) s).ledger =
      { s.ledger with
        codes := s.ledger.codes ++ List.replicate open_.length .unmatchedBracket } := by
    induction open_ with
    | nil => simp
    | cons t open_ ih =>
      rw [List.foldr_cons, ledger_report, ih]
      simp [Ledger.note, List.replicate_succ']
  have hend := hfold s.brackets
  show { (s.brackets.foldr _ s).ledger with stack := [] } = _
  rw [hend]

theorem ledger_finishLines (s : Lexer) : s.finishLines.ledger =
    { s.ledger with
      kinds := s.ledger.kinds ++ (if s.lineHasTokens then [.newline] else []) ++
        List.replicate (s.ledger.indents.length - 1) .dedent } := by
  have hfold (closed : List Nat) (s : Lexer) :
      (closed.foldl (fun s _ => s.push (s.emptyToken .dedent)) s).ledger =
        { s.ledger with kinds := s.ledger.kinds ++ List.replicate closed.length .dedent } := by
    induction closed generalizing s with
    | nil => simp
    | cons top closed ih =>
      rw [List.foldl_cons, ih, ledger_push]
      simp [Ledger.enter, emptyToken, List.replicate_succ]
  unfold finishLines
  dsimp only
  rw [hfold, List.length_dropLast]
  split
  · rw [ledger_push]
    rfl
  · rw [List.append_nil]
    rfl

theorem kinds_finish (s : Lexer) :
    s.finish.1.toList.map Token.kind = s.ledger.kinds ++ [.eof] := by
  simp [finish, push, ledger, emptyToken]

theorem codes_finish (s : Lexer) : s.finish.2.toList.map Diagnostic.code = s.ledger.codes := rfl

end Lexer

/-- The kinds of the tokens of a source text. -/
def kinds (source : Text) : List Kind := (lex source).1.toList.map Token.kind

/-- The codes of the diagnostics about the tokens of a source text. -/
def codes (source : Text) : List Code := (lex source).2.toList.map Diagnostic.code

/-- The ledger of a text is closed with a report of each open bracket, the end of the last line, the
end of each open indentation and the end of the text. -/
theorem exists_entries {source : Text} (h : Utf8.isValid source = true) :
    ∃ (l : Ledger) (last : List Kind), Entries ⟨[], [], [0], []⟩ l ∧
      (last = [] ∨ last = [.newline]) ∧
      kinds source = l.kinds ++ last ++ List.replicate (l.indents.length - 1) .dedent ++ [.eof] ∧
      codes source = l.codes ++ List.replicate l.stack.length .unmatchedBracket := by
  let s := (Lexer.start source).run (source.length + 1)
  have hlex : lex source = s.reportOpen.finishLines.finish := by
    rw [lex, Utf8.firstInvalid_of_isValid h]
  refine ⟨s.ledger, if s.reportOpen.lineHasTokens then [.newline] else [],
    Lexer.entries_run (source.length + 1) (Lexer.start source), ?_, ?_, ?_⟩
  · split
    · exact .inr rfl
    · exact .inl rfl
  · rw [kinds, hlex, Lexer.kinds_finish, Lexer.ledger_finishLines, Lexer.ledger_reportOpen]
  · rw [codes, hlex, Lexer.codes_finish, Lexer.ledger_finishLines, Lexer.ledger_reportOpen,
      show s.ledger.stack = s.brackets.map Token.kind from rfl, List.length_map]

end CloneScout.Token
