import CloneScout.Proofs.Grammar.Halts.Parse
import CloneScout.Proofs.Grammar.Moves.Rules
import CloneScout.Proofs.Grammar.Reading
import Mathlib.Data.List.Flatten

/-!
# How many faults a parser reports

A parser gives up as soon as it has reported as many faults as it may. It compares the numbers only
when it reports a fault itself. The parser of a replacement field counts from zero, up to the same
number, and what it has counted is added to the count of the parser of the string, which goes on. So
a source text may have the permitted number of faults once for itself and once more for each
replacement field that is read. Only in a text without fields a diagnostic that says that there are
too many faults is the last one.
-/

namespace CloneScout

/-! ## Replacement fields -/

/-- The text of a replacement field, with the offset and the line where it starts. -/
structure FieldText where
  offset : Nat
  line : Nat
  text : Text

/-- The replacement fields of a string token. -/
def Token.fieldTexts (t : Token) : List FieldText :=
  if t.kind = .stringLit then t.fields.map fun p => ⟨p.1, Grammar.lineAt t p.1, p.2⟩ else []

namespace FieldText

/-- The field and the fields that lie in it, up to a depth. -/
def within : (depth : Nat) → FieldText → List FieldText
  | 0, _ => []
  | depth + 1, f => f :: (Token.lexField f.offset f.line f.text).1.toList.flatMap fun t =>
      t.fieldTexts.flatMap (within depth)

/-- The fields of a sequence of tokens and the fields in them, up to a depth. -/
def ofTokens (depth : Nat) (ts : List Token) : List FieldText :=
  ts.flatMap fun t => t.fieldTexts.flatMap (within depth)

theorem ofTokens_cons (depth : Nat) (t : Token) (ts : List Token) :
    ofTokens depth (t :: ts) = t.fieldTexts.flatMap (within depth) ++ ofTokens depth ts :=
  List.flatMap_cons

/-- What is wrong with the tokens of the fields. -/
def faults (fs : List FieldText) : List Diagnostic :=
  fs.flatMap fun f => (Token.lexField f.offset f.line f.text).2.toList

theorem faults_cons (f : FieldText) (fs : List FieldText) :
    faults (f :: fs) = (Token.lexField f.offset f.line f.text).2.toList ++ faults fs :=
  List.flatMap_cons

theorem faults_append (fs gs : List FieldText) : faults (fs ++ gs) = faults fs ++ faults gs :=
  List.flatMap_append

end FieldText

/-- The replacement fields of a source text, those in other fields included. -/
def replacementFields (source : Text) : List FieldText :=
  FieldText.ofTokens Grammar.fieldDepth (Token.lex source).1.toList

/-- The number of errors among diagnostics. -/
def Diagnostic.errorCount (ds : List Diagnostic) : Nat := ds.countP fun d => d.severity = .error

/-- Nothing follows a fatal diagnostic. -/
def Diagnostic.FatalLast (ds : List Diagnostic) : Prop :=
  ∀ front d back, ds = front ++ d :: back → d.severity = .fatal → back = []

namespace Grammar

open Diagnostic (errorCount FatalLast)

/-! ## Reports of a parser -/

namespace State

/-- The number of faults that the parser may still report. -/
def credit (s : State) : Nat := if s.aborted then 0 else max 1 (s.maxErrors - s.errors)

/-- A parser with too many faults has given up. -/
def Settled (s : State) : Prop := s.capped = true → s.aborted = true

theorem settled_of_capped {s : State} (h : s.capped = false) : s.Settled := fun hcapped =>
  absurd (h.symm.trans hcapped) Bool.false_ne_true

/-- Between two states the parser has reported `own`, and nothing else was reported. -/
structure Adds (s s' : State) (own : List Diagnostic) : Prop where
  diags : s'.diags.toList = s.diags.toList ++ own
  silent : s.aborted = true → own = []
  aborted : s.aborted = true → s'.aborted = true
  fatalLast : FatalLast own
  fatal : ∀ d ∈ own, d.severity = .fatal → s'.aborted = true

/-- Between two states the parser has reported `own`, together with the parsers of the replacement
fields `read` that were read. The rest was found wrong with the tokens of these fields. -/
structure Reports (s s' : State) (own : List Diagnostic) (read : List FieldText) : Prop where
  maxErrors : s'.maxErrors = s.maxErrors
  diags : s'.diags.toList.Perm (s.diags.toList ++ (own ++ FieldText.faults read))
  settled : s.Settled → s'.Settled
  credit : s.Settled →
    errorCount own + s'.credit ≤ s.credit + max 1 s.maxErrors * read.length
  adds : read = [] → s.Adds s' own

variable {s s' s'' : State} {own own' : List Diagnostic} {read read' : List FieldText}

theorem Adds.refl (s : State) : s.Adds s [] :=
  ⟨by simp, fun _ => rfl, id, fun front d back h => by simp at h, by simp⟩

theorem Adds.trans (h : s.Adds s' own) (h' : s'.Adds s'' own') : s.Adds s'' (own ++ own') where
  diags := by rw [h'.diags, h.diags, List.append_assoc]
  silent hs := by rw [h.silent hs, h'.silent (h.aborted hs), List.append_nil]
  aborted hs := h'.aborted (h.aborted hs)
  fatalLast := by
    intro front d back hsplit hfatal
    rcases List.append_eq_append_iff.mp hsplit with ⟨mid, rfl, hmid⟩ | ⟨mid, rfl, hmid⟩
    · exact h'.fatalLast _ _ _ hmid hfatal
    · -- the parser gives up with a fatal diagnostic, so nothing is reported behind it
      cases mid with
      | nil => exact h'.fatalLast [] d back hmid.symm hfatal
      | cons e mid =>
        obtain ⟨rfl, rfl⟩ := List.cons.inj hmid
        have hsilent := h'.silent (h.fatal d (by simp) hfatal)
        have hlast := h.fatalLast _ _ _ rfl hfatal
        rw [hlast, hsilent]
        rfl
  fatal d hd hfatal := by
    rcases List.mem_append.mp hd with hd | hd
    · exact h'.aborted (h.fatal d hd hfatal)
    · exact h'.fatal d hd hfatal

theorem Reports.of_adds (hmax : s'.maxErrors = s.maxErrors) (hadds : s.Adds s' own)
    (hsettled : s.Settled → s'.Settled)
    (hcredit : s.Settled → errorCount own + s'.credit ≤ s.credit) : s.Reports s' own [] :=
  ⟨hmax, by rw [hadds.diags]; simp [FieldText.faults], hsettled, hcredit, fun _ => hadds⟩

theorem Reports.refl (s : State) : s.Reports s [] [] :=
  .of_adds rfl (.refl s) id fun _ => by simp [errorCount]

/-- A step that reports nothing and counts nothing. -/
theorem Reports.of_eq (hmax : s'.maxErrors = s.maxErrors) (hdiags : s'.diags = s.diags)
    (herrors : s'.errors = s.errors) (haborted : s'.aborted = s.aborted)
    (hcapped : s'.capped = s.capped) : s.Reports s' [] [] := by
  refine .of_adds hmax ?_ (fun hs => ?_) fun hs => ?_
  · obtain ⟨-, hsilent, -, hlast, -⟩ := Adds.refl s
    exact ⟨by rw [hdiags, List.append_nil], hsilent, by rw [haborted]; exact id, hlast, by simp⟩
  · rw [Settled, haborted, hcapped]
    exact hs
  · simp [errorCount, State.credit, hmax, herrors, haborted]

theorem Reports.trans (h : s.Reports s' own read) (h' : s'.Reports s'' own' read') :
    s.Reports s'' (own ++ own') (read ++ read') where
  maxErrors := h'.maxErrors.trans h.maxErrors
  diags := by
    refine (h'.diags.trans (h.diags.append_right _)).trans ?_
    simp only [FieldText.faults_append, List.append_assoc]
    exact ((List.perm_append_comm_assoc ..).append_left _).append_left _
  settled hs := h'.settled (h.settled hs)
  credit hs := by
    have hfirst := h.credit hs
    have hsecond := h'.credit (h.settled hs)
    rw [h.maxErrors] at hsecond
    rw [errorCount, List.countP_append, List.length_append, Nat.mul_add]
    unfold errorCount at hfirst hsecond
    omega
  adds hread := by
    obtain ⟨hread, hread'⟩ := List.append_eq_nil_iff.mp hread
    exact (h.adds hread).trans (h'.adds hread')

/-! ### Faults -/

theorem Adds.push {d : Diagnostic} (h : s.aborted = false) (hdiags : s'.diags = s.diags.push d)
    (hfatal : d.severity = .fatal → s'.aborted = true) : s.Adds s' [d] where
  diags := by rw [hdiags, Array.toList_push]
  silent hs := by simp [h] at hs
  aborted hs := by simp [h] at hs
  fatalLast := by
    intro front e back hsplit _
    rcases List.append_eq_singleton_iff.mp hsplit.symm with ⟨-, he⟩ | ⟨-, he⟩
    · exact (List.cons.inj he).2
    · exact absurd he (List.cons_ne_nil _ _)
  fatal := by simpa using hfatal

/-- A fault that is no repetition costs credit. The parser gives up when there is no more. -/
theorem reports_addFault (h : s.aborted = false) (code : Diagnostic.Code) (span : Span)
    (arg : Text) : ∃ own, s.Reports (s.addFault code span arg) own [] := by
  let fault : Diagnostic := .errorAt code span arg
  let counted : State :=
    { s with latest := some (span.lo, code), errors := s.errors + 1, diags := s.diags.push fault }
  have hseverity : Severity.error ≠ .fatal := by decide
  have hfault : s.Adds counted [fault] := .push h rfl fun hfatal => absurd hfatal hseverity
  have hcredit : s.credit = max 1 (s.maxErrors - s.errors) := by rw [credit, h]; rfl
  show ∃ own, s.Reports (if errorLimit ≤ s.errors + 1 then counted.giveUp
    else if !s.capped && decide (s.maxErrors ≤ s.errors + 1) then counted.cap span
    else counted) own []
  split
  · refine ⟨[fault], .of_adds rfl (.push h rfl fun _ => rfl) (fun _ _ => rfl) fun _ => ?_⟩
    show 1 + 0 ≤ s.credit
    omega
  · split
    · have hcap : counted.Adds (counted.cap span) [_] := .push h rfl fun _ => rfl
      refine ⟨_, .of_adds rfl (hfault.trans hcap) (fun _ _ => rfl) fun _ => ?_⟩
      show 1 + 0 ≤ s.credit
      omega
    · next hmore =>
      refine ⟨[fault], .of_adds rfl hfault id fun hs => ?_⟩
      have hcapped : s.capped = false := by
        cases hcapped : s.capped with
        | false => rfl
        | true => exact absurd (hs hcapped) (by simp [h])
      have hcounted : counted.credit = max 1 (s.maxErrors - (s.errors + 1)) := by
        rw [credit, show counted.aborted = false from h]
        rfl
      have hone : errorCount [fault] = 1 := rfl
      simp only [hcapped, Bool.not_false, Bool.true_and, decide_eq_true_eq] at hmore
      omega

theorem reports_report (s : State) (code : Diagnostic.Code) (span : Span) (arg : Text) :
    ∃ own, s.Reports (s.report code span arg) own [] := by
  unfold report
  dsimp only
  split
  · exact ⟨[], .refl s⟩
  · next hnew =>
    rw [Bool.or_eq_true, not_or, Bool.not_eq_true] at hnew
    split
    · exact ⟨[], .of_eq rfl rfl rfl rfl rfl⟩
    · let seen : State := { s with seen := fingerprint code span :: s.seen }
      have hseen : s.Reports seen [] [] := .of_eq rfl rfl rfl rfl rfl
      obtain ⟨own, hown⟩ := reports_addFault (show seen.aborted = false from hnew.1) code span arg
      exact ⟨own, hseen.trans hown⟩

/-- A parser that has given up reports nothing more. -/
theorem reports_giveUp (s : State) : s.Reports s.giveUp [] [] := by
  obtain ⟨hdiags, hsilent, -, hlast, -⟩ := Adds.refl s
  refine .of_adds rfl ⟨hdiags, hsilent, fun _ => rfl, hlast, by simp⟩ (fun _ _ => rfl) fun _ => ?_
  exact Nat.zero_le s.credit

/-- The parser of a field starts with the whole credit, and takes none from the parser that reads
the string. -/
theorem Reports.absorb {offset line : Nat} {text : Text}
    (h : (s.forField offset line text).Reports s' own read) :
    s.Reports (s.absorb s') own (⟨offset, line, text⟩ :: read) where
  maxErrors := rfl
  diags := by
    have hdiags : s'.diags.toList.Perm _ := h.diags
    simp only [forField, Array.toList_append] at hdiags
    refine hdiags.trans ?_
    rw [FieldText.faults_cons, List.append_assoc]
    exact (List.perm_append_comm_assoc ..).append_left _
  settled hs hcapped := by rw [State.absorb, hs hcapped, Bool.true_or]
  credit hs := by
    have hfield : errorCount own + s'.credit ≤
        max 1 s.maxErrors + max 1 s.maxErrors * read.length := h.credit (settled_of_capped rfl)
    have hcredit : (s.absorb s').credit ≤ s.credit := by
      unfold State.credit State.absorb
      dsimp only
      cases haborted : s.aborted with
      | true => simp
      | false =>
        cases s'.capped with
        | true => simp
        | false =>
          simp only [Bool.or_false, Bool.false_eq_true, if_false]
          omega
    rw [List.length_cons, Nat.mul_add, Nat.mul_one]
    omega
  adds hread := absurd hread (List.cons_ne_nil _ _)

end State

/-! ## What a reader of fields reports -/

/-- The reader reports for one field, and for the fields in it, up to a depth. -/
def FieldReader.Reports (field : FieldReader) (depth : Nat) : Prop :=
  ∀ (t : Token) (offset line : Nat) (text : Text) (s : State),
    ((field t offset line text).run s).2.cursor = s.cursor ∧
      ∃ own read, s.Reports ((field t offset line text).run s).2 own read ∧
        read.Sublist (FieldText.within depth ⟨offset, line, text⟩)

section

variable {field : FieldReader} {depth : Nat} (hfield : field.Reports depth) {s s' : State}

include hfield

theorem reports_visits {t : Token} {fs : List (Nat × Text)} (h : s.Visits field t fs s') :
    s'.cursor = s.cursor ∧ ∃ own read, s.Reports s' own read ∧
      read.Sublist (fs.flatMap fun p => FieldText.within depth ⟨p.1, lineAt t p.1, p.2⟩) := by
  induction h with
  | done s => exact ⟨rfl, [], [], .refl s, List.Sublist.refl _⟩
  | @report fs s s' code span arg _ ih =>
    obtain ⟨hcursor, own, read, hreports, hread⟩ := ih
    obtain ⟨first, hfirst⟩ := s.reports_report code span arg
    exact ⟨hcursor.trans (s.cursor_report code span arg), _, _, hfirst.trans hreports, hread⟩
  | @read p fs s s' _ ih =>
    obtain ⟨hcursor, own, read, hreports, hread⟩ := ih
    obtain ⟨hstay, first, opened, hfirst, hopened⟩ := hfield t p.1 (lineAt t p.1) p.2 s
    exact ⟨hcursor.trans hstay, _, _, hfirst.trans hreports, hopened.append hread⟩
  | leave _ ih =>
    obtain ⟨hcursor, own, read, hreports, hread⟩ := ih
    exact ⟨hcursor, own, read, hreports, hread.trans (List.sublist_append_right _ _)⟩

omit hfield in
/-- Before the end the next token is the first one ahead. -/
theorem upcoming_of_kind {c : Cursor} (hclosed : c.Closed) (hkind : c.kind ≠ .eof) :
    c.upcoming = c.peek :: c.bump.upcoming := by
  have hpos := hclosed.pos_lt hkind
  rw [State.At.upcoming_eq, State.At.upcoming_eq, Cursor.bump, if_pos hpos]
  rw [List.drop_eq_getElem_cons (by simpa using hpos)]
  simp [Cursor.peek, Cursor.get, hpos]

/-- One move reads fields only of the tokens that it leaves behind. -/
theorem reports_move (hclosed : s.cursor.Closed) (h : s.Move field s') :
    s'.cursor.Closed ∧ ∃ own read, s.Reports s' own read ∧
      (read ++ FieldText.ofTokens depth s'.cursor.upcoming).Sublist
        (FieldText.ofTokens depth s.cursor.upcoming) := by
  cases h with
  | @onward c honward =>
    refine ⟨hclosed.of_tokens honward.tokens, [], [], .of_eq rfl rfl rfl rfl rfl, ?_⟩
    refine List.Sublist.flatMap ?_ _
    rw [State.At.upcoming_eq, State.At.upcoming_eq, honward.tokens]
    exact List.drop_sublist_drop_left _ honward.pos
  | report code span arg =>
    obtain ⟨own, hown⟩ := s.reports_report code span arg
    have hcursor := s.cursor_report code span arg
    exact ⟨by rwa [hcursor], own, [], hown, by rw [hcursor]; exact List.Sublist.refl _⟩
  | giveUp => exact ⟨hclosed, [], [], s.reports_giveUp, List.Sublist.refl _⟩
  | stall => exact ⟨hclosed, [], [], .of_eq rfl rfl rfl rfl rfl, List.Sublist.refl _⟩
  | close => exact ⟨hclosed, [], [], .of_eq rfl rfl rfl rfl rfl, List.Sublist.refl _⟩
  | string hkind hvisits =>
    obtain ⟨hcursor, own, read, hreports, hread⟩ := reports_visits hfield hvisits
    have htaken : s.Reports { s with cursor := s.cursor.bump } [] [] := .of_eq rfl rfl rfl rfl rfl
    rw [hcursor]
    refine ⟨hclosed.bump, _, _, htaken.trans hreports, ?_⟩
    rw [upcoming_of_kind hclosed (by rw [hkind]; decide), FieldText.ofTokens_cons]
    refine List.Sublist.append ?_ (List.Sublist.refl _)
    have hkind : s.cursor.peek.kind = .stringLit := hkind
    rwa [List.nil_append, Token.fieldTexts, if_pos hkind, List.flatMap_map]

theorem reports_moves (hclosed : s.cursor.Closed) (h : s.Moves field s') :
    s'.cursor.Closed ∧ ∃ own read, s.Reports s' own read ∧
      (read ++ FieldText.ofTokens depth s'.cursor.upcoming).Sublist
        (FieldText.ofTokens depth s.cursor.upcoming) := by
  induction h with
  | refl => exact ⟨hclosed, [], [], .refl s, List.Sublist.refl _⟩
  | tail _ hmove ih =>
    obtain ⟨hmid, own, read, hreports, hread⟩ := ih
    obtain ⟨hend, own', read', hreports', hread'⟩ := reports_move hfield hmid hmove
    refine ⟨hend, _, _, hreports.trans hreports', ?_⟩
    rw [List.append_assoc]
    exact (hread'.append_left read).trans hread

end

theorem reports_fieldReader (depth : Nat) : (fieldReader depth).Reports depth := by
  induction depth with
  | zero =>
    intro t offset line text s
    obtain ⟨own, hown⟩ := s.reports_report .fStringUnmatchedBrace t.span [Template.openBrace]
    exact ⟨s.cursor_report _ _ _, own, [], hown, List.nil_sublist _⟩
  | succ depth ih =>
    intro t offset line text s
    rw [run_fieldReader]
    have hclosed : (s.forField offset line text).cursor.Closed := closed_lexField offset line text 0
    have hwalks : Walks (fieldReader depth) (wholeExpression (fieldReader depth)) := inferInstance
    obtain ⟨-, own, read, hreports, hread⟩ := reports_moves ih hclosed (hwalks.moves _)
    generalize (wholeExpression (fieldReader depth)).run (s.forField offset line text) = found
      at hreports hread ⊢
    refine ⟨rfl, own, _, hreports.absorb, ?_⟩
    rw [State.At.upcoming_eq (s.forField offset line text).cursor] at hread
    exact ((List.sublist_append_left _ _).trans hread).cons_cons _

end Grammar

/-! ## Source texts -/

namespace Parsed

open Diagnostic (errorCount FatalLast)

/-- What is reported for a source text is what is wrong with its tokens, what is wrong with the
tokens of the replacement fields that are read, and what the parsers of the text and of these fields
report. Each of these parsers reports at most the permitted number of errors. If the text has no
replacement fields, then nothing is reported behind a fatal diagnostic of the parser. -/
theorem diags_ofSource (source : Text) (maxErrors : Nat) :
    ∃ own read,
      (ofSource source maxErrors).diags.toList.Perm
        ((Token.lex source).2.toList ++ (own ++ FieldText.faults read)) ∧
      read.Sublist (replacementFields source) ∧
      errorCount own ≤ max 1 maxErrors * (1 + read.length) ∧
      (replacementFields source = [] →
        (ofSource source maxErrors).diags.toList = (Token.lex source).2.toList ++ own ∧
          FatalLast own) := by
  let start : Grammar.State :=
    { cursor := { tokens := (Token.lex source).1 }, maxErrors, diags := (Token.lex source).2
      aborted := ({ diags := (Token.lex source).2 } : Bag).hasCode .invalidUtf8 }
  have hclosed : start.cursor.Closed := Grammar.closed_lex source 0
  have hmoves := Grammar.walks_wholeModule.moves start
  obtain ⟨-, own, read, hreports, hread⟩ :=
    Grammar.reports_moves (Grammar.reports_fieldReader _) hclosed hmoves
  have hread : read.Sublist (replacementFields source) := by
    rw [Grammar.State.At.upcoming_eq start.cursor] at hread
    exact (List.sublist_append_left _ _).trans hread
  have hcredit : start.credit ≤ max 1 maxErrors := by
    unfold Grammar.State.credit
    split
    · exact Nat.zero_le _
    · exact Nat.le_refl _
  refine ⟨own, read, hreports.diags, hread, ?_, fun hnone => ?_⟩
  · have hcount : errorCount own + _ ≤ start.credit + max 1 maxErrors * read.length :=
      hreports.credit (Grammar.State.settled_of_capped rfl)
    rw [Nat.mul_add, Nat.mul_one]
    omega
  · rw [hnone, List.sublist_nil] at hread
    have hadds := hreports.adds hread
    exact ⟨hadds.diags, hadds.fatalLast⟩

/-- Three faults without fields, of which two are permitted. -/
theorem diags_ofSource_plain :
    let source := utf8 "a b\nc d\ne f\n"
    replacementFields source = [] ∧ errorCount (ofSource source 2).diags.toList ≤ 2 ∧
      FatalLast (ofSource source 2).diags.toList := by
  intro source
  have hnone : replacementFields source = [] := by decide +kernel
  have hlex : (Token.lex source).2 = #[] := by decide +kernel
  obtain ⟨own, read, -, hread, hcount, hplain⟩ := diags_ofSource source 2
  obtain ⟨hdiags, hlast⟩ := hplain hnone
  rw [hlex, Array.toList_empty, List.nil_append] at hdiags
  rw [hnone, List.sublist_nil] at hread
  rw [hread] at hcount
  rw [hdiags]
  exact ⟨hnone, hcount, hlast⟩

/-- Two fields with one fault each: both are reported though one fault is permitted, and the second
one is reported behind the diagnostic that says that there are too many. -/
theorem diags_ofSource_fields :
    let source := utf8 "f\"\x7ba b\x7d\x7bc d\x7d\"\n"
    (Token.lex source).2 = #[] ∧ FieldText.faults (replacementFields source) = [] ∧
      (ofSource source 1).diags.toList.map (·.severity) = [.error, .fatal, .error, .fatal] := by
  decide +kernel

end Parsed

end CloneScout
