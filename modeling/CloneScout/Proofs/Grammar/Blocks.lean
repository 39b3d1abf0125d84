import CloneScout.Proofs.Grammar.Layout
import CloneScout.Proofs.Grammar.Printing

/-!
# Blocks are read back

A program of nested blocks is read without a fault from its text, whatever the layout of the text,
and the tree that is read is the tree of the program. The tokens of a program do not depend on its
layout, so what is left is to read the tokens: a heading and the block below it, and statements one
after the other.
-/

namespace CloneScout

namespace Grammar

theorem stmts_append (ss ss' : List Stmt) :
    Dump.stmts (ss ++ ss') = Dump.stmts ss ++ Dump.stmts ss' := by
  induction ss with
  | nil => rfl
  | cons s ss ih => rw [List.cons_append, Dump.stmts, ih, Dump.stmts, List.cons_append]

/-! ## Rounds over statements -/

/-- One round of `blockBody`. -/
def blockRound (r : Rules) : Parser (List Stmt × Bool) := do
  if (← isAborted) || (← at? .dedent) || (← at? .eof) then return ([], false)
  else if ← eat .newline then return ([], true)
  else
    let before := (← get).cursor.pos
    let found ← r.statement
    if (← get).cursor.pos = before && !(← at? .eof) && !(← at? .dedent) then
      unexpected
      let _ ← bump
    return (found, true)

/-- One round of `moduleBody`. -/
def moduleRound (r : Rules) : Parser (List Stmt × Bool) := do
  if (← isAborted) || (← at? .eof) then return ([], false)
  else if (← at? .newline) || (← at? .dedent) then
    let _ ← bump
    return ([], true)
  else
    let before := (← get).cursor.pos
    let found ← r.statement
    if (← get).cursor.pos = before && !(← at? .eof) then
      unexpected
      let _ ← bump
    return (found, true)

theorem State.pos_ne {s s' : State} {us vs : List Lexeme} (hs : s.At us) (hs' : s'.At vs)
    (hkept : s.Kept s') (hlt : vs.length < us.length) : s'.cursor.pos ≠ s.cursor.pos := by
  have hlength := hs.length_eq
  have hlength' := hs'.length_eq
  rw [Cursor.remaining] at hlength hlength'
  rw [hkept.tokens] at hlength'
  omega

/-- The token is no end of a line, a block or a text. -/
def Inside (w : Lexeme) : Prop := w.kind ≠ .newline ∧ w.kind ≠ .dedent ∧ w.kind ≠ .eof

section

variable {r : Rules} {u v : Lexeme} {us vs : List Lexeme} {Q : List Stmt → Prop}

theorem reads_blockRound (h : Reads r.statement (u :: us) (v :: vs) Q) (hu : Inside u)
    (hlt : vs.length < us.length) :
    Reads (blockRound r) (u :: us) (v :: vs) fun p => p.2 = true ∧ Q p.1 := by
  obtain ⟨hnewline, hdedent, heof⟩ := hu
  refine Reads.isAborted.seq ((Reads.at? (decide_eq_false hdedent)).seq
    ((Reads.at? (decide_eq_false heof)).seq ((Reads.eat_not hnewline).seq ?_)))
  refine h.watch fun s found s' hs hs' hkept hfound => ?_
  have hpos := State.pos_ne hs hs' hkept (by simpa using hlt)
  refine (Reads.at? rfl).seq ((Reads.at? rfl).seq ?_)
  rw [if_neg (by simp [hpos])]
  exact .pure ⟨rfl, hfound⟩

theorem reads_moduleRound (h : Reads r.statement (u :: us) (v :: vs) Q) (hu : Inside u)
    (hlt : vs.length < us.length) :
    Reads (moduleRound r) (u :: us) (v :: vs) fun p => p.2 = true ∧ Q p.1 := by
  obtain ⟨hnewline, hdedent, heof⟩ := hu
  refine Reads.isAborted.seq ((Reads.at? (decide_eq_false heof)).seq
    ((Reads.at? (decide_eq_false hnewline)).seq ((Reads.at? (decide_eq_false hdedent)).seq ?_)))
  refine h.watch fun s found s' hs hs' hkept hfound => ?_
  have hpos := State.pos_ne hs hs' hkept (by simpa using hlt)
  refine (Reads.at? rfl).seq ?_
  rw [if_neg (by simp [hpos])]
  exact .pure ⟨rfl, hfound⟩

end

/-! ## Simple statements -/

/-- A simple statement that is alone on its line. -/
theorem reads_simpleLine {r : Rules} {w : Lexeme} {us vs : List Lexeme} {Q : Stmt → Prop}
    (h : Reads (simpleStatement r) (w :: us) (.newline :: vs) Q) :
    Reads (simpleLine r) (w :: us) vs fun found => ∃ s, found = [s] ∧ Q s := by
  have hline : Reads (semicolons r) (w :: us) (.newline :: vs) fun p =>
      p.2 = .clean ∧ ∃ s, p.1 = [s] ∧ Q s := by
    refine Reads.loop (P := (· = ([], .clean))) rfl (.last fun p hp => ?_)
    obtain rfl := hp
    refine Reads.isAborted.seq (h.watch fun s stmt s' _ _ hkept hstmt => ?_)
    rw [if_neg (by simp [hkept.errors])]
    exact (Reads.eat_not (by decide)).seq (.pure ⟨rfl, rfl, stmt, rfl, hstmt⟩)
  refine hline.bind fun p hp => ?_
  obtain ⟨found, lineEnd⟩ := p
  obtain ⟨rfl, hfound⟩ := hp
  exact (Reads.eat .newline [10]).seq (.pure hfound)

/-- A `match` at the end of a line is a name. -/
theorem reads_atMatch {t : Text} {us : List Lexeme} :
    Reads atMatch (⟨.ident, t⟩ :: .newline :: us) (⟨.ident, t⟩ :: .newline :: us) (· = false) := by
  refine Reads.get fun s hs => .pure ?_
  have hnext : s.cursor.kind 1 = .newline := hs.kind_eq (k := 1) (w := .newline) rfl
  rw [hnext]
  simp [followsName]

end Grammar

namespace Layout

open Grammar
open Lexeme (ofKind)

/-- The token does not go on with the statement in front of it. -/
def Ends (w : Lexeme) : Prop := w.kind ≠ .kwElif ∧ w.kind ≠ .kwElse

/-! ## Names -/

theorem Name.legible (id : Name) : Legible 90 [⟨.ident, id.1⟩] (Dump.expr id.toExpr) :=
  Formula.legible (.name ⟨id.1, id.2.1⟩)

theorem Name.reads_named (id : Name) (field : FieldReader) (n : Nat) (us : List Lexeme) :
    Reads (named (rules field (n + 1))) (⟨.ident, id.1⟩ :: ofKind .colon :: us)
      (ofKind .colon :: us) (Dump.expr · = Dump.expr id.toExpr) := by
  refine Reads.kind.seq (Reads.kind_one.seq ?_)
  exact id.legible.scans .expression (by decide) field n (ofKind .colon) us (by simp) (by decide)

theorem reads_definedName (id : Name) (us : List Lexeme) :
    Reads definedName (⟨.ident, id.1⟩ :: us) us (· = id.1) := by
  refine Reads.peek.bind fun t ht => (Reads.expect .ident id.1).seq (.pure ?_)
  exact congrArg Lexeme.text ht

theorem reads_parameters (r : Rules) (hints : Bool) (us : List Lexeme) :
    Reads (parameters r .rparen hints) (ofKind .rparen :: us) (ofKind .rparen :: us)
      (· = .empty) := by
  refine Reads.bind (P := (· = ({} : ParamList))) (show Reads _ _ (ofKind .rparen :: us) _ from
    Reads.loop (P := (· = ({} : ParamList))) rfl (.last fun ps hps => ?_)) fun ps hps => ?_
  · obtain rfl := hps
    exact Reads.isAborted.seq ((Reads.at? rfl).seq ((Reads.at? rfl).seq (.pure ⟨rfl, rfl⟩)))
  · obtain rfl := hps
    exact .pure rfl

/-! ## Statements of one line -/

theorem reads_pass {r : Rules} (us : List Lexeme) :
    Reads (statement r) (ofKind .kwPass :: .newline :: us) us
      fun found => Dump.stmts found = [Dump.stmt (.pass .blank)] := by
  refine Reads.isAborted.seq (Reads.kind.seq ?_)
  have hmatch : Reads atMatch (ofKind .kwPass :: .newline :: us) (ofKind .kwPass :: .newline :: us)
      (· = false) := by
    refine Reads.get fun s hs => .pure ?_
    have hkind : s.cursor.peek.kind = .kwPass := hs.kind_eq (k := 0) rfl
    simp [Cursor.atWord, Token.isWord, hkind]
  refine hmatch.seq ((reads_simpleLine (Q := fun s => Dump.stmt s = Dump.stmt (.pass .blank)) ?_).mono
    fun found hfound => ?_)
  · refine Reads.kind.seq (Reads.bump.bind fun first _ => (Reads.closeStatement first).bind fun x _ => ?_)
    exact .pure rfl
  · obtain ⟨s, rfl, hs⟩ := hfound
    rw [Dump.stmts, hs, Dump.stmts]

theorem reads_name (id : Name) (field : FieldReader) (n : Nat) (us : List Lexeme) :
    Reads (statement (rules field (n + 1))) (⟨.ident, id.1⟩ :: .newline :: us) us
      fun found => Dump.stmts found = [Dump.stmt (.expr .blank id.toExpr)] := by
  refine Reads.isAborted.seq (Reads.kind.seq (reads_atMatch.seq ?_))
  refine (reads_simpleLine
    (Q := fun s => Dump.stmt s = Dump.stmt (.expr .blank id.toExpr)) ?_).mono fun found hfound => ?_
  · refine Reads.kind.seq (Reads.peek.bind fun first _ => ?_)
    have hread := (id.legible.mono (by decide : 1 ≤ 90)).yieldOrStar field (n := n) (by simp)
      (w := .newline) us (by decide) (by decide)
    refine hread.bind fun e he => Reads.kind.seq ((Reads.closeStatement first).bind fun x _ => ?_)
    exact .pure (by rw [Dump.stmt, he, Dump.stmt])
  · obtain ⟨s, rfl, hs⟩ := hfound
    rw [Dump.stmts, hs, Dump.stmts]

/-! ## Headings and blocks -/

theorem reads_collect_nil {body : Parser (List Stmt × Bool)} {us vs : List Lexeme}
    {Q : List Stmt → Prop} (h : Collects body us vs Q)
    (hlast : Reads body vs vs fun r => r = ([], false)) :
    Reads (collect [] body) us vs Q := by
  refine (Reads.collect h hlast).mono fun found hfound => ?_
  obtain ⟨items, rfl, hitems⟩ := hfound
  exact hitems

/-- The words of lines are read as statements, one in each round, in front of a token that does not
go on with them. -/
def Rows (field : FieldReader) (n : Nat) (l : Lines) : Prop :=
  ∀ (body : Parser (List Stmt × Bool)) (w : Lexeme) (us : List Lexeme), Ends w →
    (∀ (u v : Lexeme) (us vs : List Lexeme) (Q : List Stmt → Prop), Inside u →
      vs.length < us.length → Reads (statement (rules field n)) (u :: us) (v :: vs) Q →
      Reads body (u :: us) (v :: vs) fun p => p.2 = true ∧ Q p.1) →
    Collects body (l.words ++ w :: us) (w :: us) fun found =>
      Dump.stmts found = Dump.stmts l.toStmts

theorem Rows.suite {field : FieldReader} {n : Nat} {l : Lines} (h : Rows field n l)
    (us : List Lexeme) :
    Reads (suite (rules field (n + 1))) (ofKind .colon :: (blockWords l.words ++ us)) us
      fun found => Dump.stmts found = Dump.stmts l.toStmts := by
  have hbody : Reads (blockBody (rules field (n + 1))) (l.words ++ .dedent :: us) (.dedent :: us)
      fun found => Dump.stmts found = Dump.stmts l.toStmts := by
    have hend : Reads (blockRound (rules field (n + 1))) (.dedent :: us) (.dedent :: us)
        fun p => p = ([], false) :=
      Reads.isAborted.seq ((Reads.at? rfl).seq ((Reads.at? rfl).seq (.pure rfl)))
    have hrows := h (blockRound (rules field (n + 1))) .dedent us ⟨by decide, by decide⟩
      fun u v us vs Q hu hlt hread => reads_blockRound hread hu hlt
    exact reads_collect_nil hrows hend
  have hwords : blockWords l.words ++ us =
      .newline :: .indent :: (l.words ++ .dedent :: us) := by simp [blockWords]
  rw [hwords]
  refine (Reads.expect .colon _).seq (Reads.isAborted.seq ((Reads.eat .newline _).seq
    ((Reads.eat .indent _).seq (hbody.bind fun found hfound => ?_))))
  exact (Reads.eat .dedent _).seq (.pure hfound)

theorem Rows.elseSuite {field : FieldReader} {n : Nat} {l : Lines} (h : Rows field n l)
    (us : List Lexeme) :
    Reads (elseSuite (rules field (n + 1)))
      ([ofKind .kwElse, ofKind .colon] ++ blockWords l.words ++ us) us
      fun found => Dump.stmts found = Dump.stmts l.toStmts :=
  (Reads.eat .kwElse _).seq (h.suite us)

theorem reads_elseSuite_end {r : Rules} {w : Lexeme} (us : List Lexeme) (hw : Ends w) :
    Reads (elseSuite r) (w :: us) (w :: us) fun found => Dump.stmts found = [] :=
  (Reads.eat_not hw.2).seq (.pure rfl)

/-! ## Statements -/

/-- The token starts a statement. -/
def Begins (w : Lexeme) : Prop := Inside w ∧ Ends w

theorem Statement.words_eq_cons (s : Statement) :
    ∃ w vs, s.words = w :: vs ∧ Begins w ∧ vs ≠ [] := by
  cases s <;>
    exact ⟨_, _, rfl, by simp [Begins, Inside, Ends, ofKind], by simp [blockWords]⟩

theorem Lines.words_eq_cons (l : Lines) : ∃ w vs, l.words = w :: vs ∧ Begins w := by
  cases l with
  | last before s =>
    obtain ⟨w, vs, hwords, hw, -⟩ := s.words_eq_cons
    exact ⟨w, vs, hwords, hw⟩
  | more before s rest =>
    obtain ⟨w, vs, hwords, hw, -⟩ := s.words_eq_cons
    exact ⟨w, vs ++ rest.words, by rw [Lines.words, hwords, List.cons_append], hw⟩

/-- The words of the statement are read as the statement, in front of a token that does not go on
with it. -/
def Reading (field : FieldReader) (n : Nat) (s : Statement) : Prop :=
  ∀ (w : Lexeme) (us : List Lexeme), Ends w →
    Reads (statement (rules field n)) (s.words ++ w :: us) (w :: us) fun found =>
      Dump.stmts found = [Dump.stmt s.toStmt]

/-- One statement in one round. -/
theorem Reading.cons {field : FieldReader} {n : Nat} {s : Statement} (h : Reading field n s)
    {body : Parser (List Stmt × Bool)} {w : Lexeme} {us ws : List Lexeme} {l : List Stmt}
    (hw : Ends w)
    (hround : ∀ (u v : Lexeme) (us vs : List Lexeme) (Q : List Stmt → Prop), Inside u →
      vs.length < us.length → Reads (statement (rules field n)) (u :: us) (v :: vs) Q →
      Reads body (u :: us) (v :: vs) fun p => p.2 = true ∧ Q p.1)
    (hrest : Collects body (w :: us) ws fun found => Dump.stmts found = Dump.stmts l) :
    Collects body (s.words ++ w :: us) ws fun found =>
      Dump.stmts found = Dump.stmts (s.toStmt :: l) := by
  have hread := h w us hw
  obtain ⟨u, vs, hwords, hu, hne⟩ := s.words_eq_cons
  rw [hwords] at hread ⊢
  have hpos := List.length_pos_iff.mpr hne
  refine (Collects.cons (hround u w (vs ++ w :: us) us _ hu.1 ?_ hread) ?_ hrest fun xs ys hxs hys => ?_)
  · simp only [List.length_cons, List.length_append]
    omega
  · simp only [List.length_cons, List.length_append]
    omega
  · rw [stmts_append, hxs, hys, Dump.stmts]
    rfl

section

variable {field : FieldReader} {n : Nat} {body : Lines} (hbody : Rows field n body)

include hbody

/-- An `if` or `elif` and its block, in front of a token that is no `elif`. -/
theorem Rows.branchStatement (k : Token.Kind) (test : Name) {w : Lexeme} {us ws : List Lexeme}
    {orelse : List Stmt} (hw : w.kind ≠ .kwElif)
    (h : Reads (Grammar.elseSuite (rules field (n + 1))) (w :: us) ws fun found =>
      Dump.stmts found = Dump.stmts orelse) :
    Reads (Grammar.branchStatement (rules field (n + 1)))
      ([ofKind k, ⟨.ident, test.1⟩, ofKind .colon] ++ blockWords body.words ++ w :: us) ws fun s =>
      Dump.stmt s = Dump.stmt (.branch .blank test.toExpr body.toStmts orelse) := by
  refine Reads.bump.bind fun first _ => (test.reads_named field n _).bind fun e he => ?_
  refine (hbody.suite (w :: us)).bind fun found hfound => ?_
  refine (Reads.at? (decide_eq_false hw)).seq (h.bind fun found' hfound' => ?_)
  refine (Reads.closeCompound first).bind fun x _ => .pure ?_
  rw [Dump.stmt, he, hfound, hfound', Dump.stmt]

/-- An `if` or `elif` and its block, in front of an `elif`. -/
theorem Rows.branchStatement_elif (k : Token.Kind) (test : Name) {us ws : List Lexeme}
    {orelse : Stmt}
    (h : Reads (rules field (n + 1)).branch (ofKind .kwElif :: us) ws fun s =>
      Dump.stmt s = Dump.stmt orelse) :
    Reads (Grammar.branchStatement (rules field (n + 1)))
      ([ofKind k, ⟨.ident, test.1⟩, ofKind .colon] ++ blockWords body.words ++
        ofKind .kwElif :: us) ws fun s =>
      Dump.stmt s = Dump.stmt (.branch .blank test.toExpr body.toStmts [orelse]) := by
  refine Reads.bump.bind fun first _ => (test.reads_named field n _).bind fun e he => ?_
  refine (hbody.suite (ofKind .kwElif :: us)).bind fun found hfound => ?_
  refine (Reads.at? rfl).seq (h.bind fun s hs => Reads.seq (.pure rfl) ?_)
  refine (Reads.closeCompound first).bind fun x _ => .pure ?_
  rw [Dump.stmt, he, hfound, Dump.stmts, hs, Dump.stmt, Dump.stmts]
  rfl

theorem Rows.whileStatement (test : Name) {us ws : List Lexeme} {orelse : List Stmt}
    (h : Reads (Grammar.elseSuite (rules field (n + 1))) us ws fun found =>
      Dump.stmts found = Dump.stmts orelse) :
    Reads (Grammar.whileStatement (rules field (n + 1)))
      ([ofKind .kwWhile, ⟨.ident, test.1⟩, ofKind .colon] ++ blockWords body.words ++ us) ws
      fun s => Dump.stmt s = Dump.stmt (.whileLoop .blank test.toExpr body.toStmts orelse) := by
  refine Reads.bump.bind fun first _ => (test.reads_named field n _).bind fun e he => ?_
  refine (hbody.suite us).bind fun found hfound => h.bind fun found' hfound' => ?_
  refine (Reads.closeCompound first).bind fun x _ => .pure ?_
  rw [Dump.stmt, he, hfound, hfound', Dump.stmt]

theorem Rows.tryStatement {final : Lines} (hfinal : Rows field n final) (us : List Lexeme) :
    Reads (Grammar.tryStatement (rules field (n + 1)))
      ([ofKind .kwTry, ofKind .colon] ++ blockWords body.words ++
        ([ofKind .kwFinally, ofKind .colon] ++ blockWords final.words ++ us)) us
      fun s => Dump.stmt s =
        Dump.stmt (.tryBlock .blank false body.toStmts [] [] final.toStmts) := by
  refine Reads.bump.bind fun first _ => (hbody.suite _).bind fun found hfound => ?_
  refine Reads.bind (P := (· = [])) ((Reads.collect (.nil (Q := (· = [])) rfl) ?_).mono
    fun items hitems => ?_) fun handlers hhandlers => ?_
  · exact Reads.isAborted.seq ((Reads.at? rfl).seq (.pure rfl))
  · obtain ⟨xs, rfl, rfl⟩ := hitems
    rfl
  subst hhandlers
  refine Reads.seq (.pure rfl) ?_
  refine (Reads.eat .kwFinally _).seq ((hfinal.suite us).bind fun found' hfound' => ?_)
  refine (Reads.closeCompound first).bind fun x _ => .pure ?_
  rw [Dump.stmt, hfound, hfound', Dump.stmt]
  rfl

theorem Rows.functionStatement (id : Name) (us : List Lexeme) :
    Reads (Grammar.functionStatement (rules field (n + 1)) none [])
      ([ofKind .kwDef, ⟨.ident, id.1⟩, ofKind .lparen, ofKind .rparen, ofKind .colon] ++
        blockWords body.words ++ us) us
      fun s => Dump.stmt s = Dump.stmt (.function .blank false id.1 .empty body.toStmts [] none) := by
  refine Reads.bump.bind fun first _ => (reads_definedName id _).seq ?_
  refine (Reads.expect .lparen _).seq ((reads_parameters _ true _).seq ?_)
  have harrow : Reads (eat .arrow) (ofKind .colon :: (blockWords body.words ++ us))
      (ofKind .colon :: (blockWords body.words ++ us)) (· = false) := Reads.eat_not (by decide)
  refine (Reads.expect .rparen _).seq (Reads.seq (.pure rfl) (harrow.seq (Reads.seq (.pure rfl) ?_)))
  refine (hbody.suite us).bind fun found hfound => (Reads.closeCompound _).bind fun x _ => .pure ?_
  rw [Dump.stmt, hfound, Dump.stmt]
  rfl

theorem Rows.classStatement (id : Name) (us : List Lexeme) :
    Reads (Grammar.classStatement (rules field (n + 1)) [])
      ([ofKind .kwClass, ⟨.ident, id.1⟩, ofKind .colon] ++ blockWords body.words ++ us) us
      fun s => Dump.stmt s = Dump.stmt (.classDef .blank id.1 [] [] body.toStmts []) := by
  refine Reads.bump.bind fun first _ => (reads_definedName id _).seq ?_
  refine (Reads.eat_not (by decide)).seq (Reads.seq (.pure rfl) ?_)
  refine (hbody.suite us).bind fun found hfound => (Reads.closeCompound _).bind fun x _ => .pure ?_
  rw [Dump.stmt, hfound, Dump.stmt]

end

/-- A compound statement is a statement by itself. -/
theorem reads_compound {x : Parser Stmt} {us ws : List Lexeme} {d : Document}
    (h : Reads x us ws (Dump.stmt · = d)) :
    Reads (do return [← x]) us ws fun found => Dump.stmts found = [d] :=
  h.bind fun s hs => .pure (by rw [Dump.stmts, hs, Dump.stmts])

mutual

theorem Statement.reads (s : Statement) (field : FieldReader) {n : Nat} (hn : s.words.length ≤ n) :
    Reading field n s := by
  intro w us hw
  obtain ⟨m, rfl⟩ : ∃ m, n = m + 1 := by
    obtain ⟨v, vs, hwords, -, -⟩ := s.words_eq_cons
    exact ⟨n - 1, by simp [hwords] at hn; omega⟩
  cases s with
  | pass => exact reads_pass (w :: us)
  | name id => exact reads_name id field m (w :: us)
  | branch test body orelse =>
    obtain ⟨more, lines⟩ := body
    simp only [Statement.words, Block.words, blockWords, List.length_append, List.length_cons] at hn
    have hbody := lines.rows field (n := m) (by omega)
    have h := orelse.reads field hbody (by omega) .kwIf test w us hw
    rw [Statement.words, List.append_assoc]
    exact Reads.isAborted.seq (Reads.kind.seq (reads_compound h))
  | loop test body =>
    obtain ⟨more, lines⟩ := body
    simp only [Statement.words, Block.words, blockWords, List.length_append, List.length_cons] at hn
    have hbody := lines.rows field (n := m) (by omega)
    have hend : Reads (elseSuite (rules field (m + 1))) (w :: us) (w :: us) fun found =>
        Dump.stmts found = Dump.stmts [] := reads_elseSuite_end us hw
    have h := hbody.whileStatement test hend
    exact Reads.isAborted.seq (Reads.kind.seq (reads_compound h))
  | loopElse test body before orelse =>
    obtain ⟨more, lines⟩ := body
    obtain ⟨more', lines'⟩ := orelse
    simp only [Statement.words, Block.words, blockWords, List.length_append, List.length_cons] at hn
    have hbody := lines.rows field (n := m) (by omega)
    have horelse := lines'.rows field (n := m) (by omega)
    have h := hbody.whileStatement test (horelse.elseSuite (w :: us))
    rw [Statement.words, List.append_assoc]
    exact Reads.isAborted.seq (Reads.kind.seq (reads_compound h))
  | tryFinally body before final =>
    obtain ⟨more, lines⟩ := body
    obtain ⟨more', lines'⟩ := final
    simp only [Statement.words, Block.words, blockWords, List.length_append, List.length_cons] at hn
    have hbody := lines.rows field (n := m) (by omega)
    have hfinal := lines'.rows field (n := m) (by omega)
    have h := hbody.tryStatement hfinal (w :: us)
    rw [Statement.words, List.append_assoc]
    exact Reads.isAborted.seq (Reads.kind.seq (reads_compound h))
  | function id body =>
    obtain ⟨more, lines⟩ := body
    simp only [Statement.words, Block.words, blockWords, List.length_append, List.length_cons] at hn
    have hbody := lines.rows field (n := m) (by omega)
    exact Reads.isAborted.seq (Reads.kind.seq (reads_compound (hbody.functionStatement id (w :: us))))
  | classDef id body =>
    obtain ⟨more, lines⟩ := body
    simp only [Statement.words, Block.words, blockWords, List.length_append, List.length_cons] at hn
    have hbody := lines.rows field (n := m) (by omega)
    exact Reads.isAborted.seq (Reads.kind.seq (reads_compound (hbody.classStatement id (w :: us))))

theorem Alternative.reads (a : Alternative) (field : FieldReader) {n : Nat} {body : Lines}
    (hbody : Rows field n body) (hn : a.words.length ≤ n + 1) (k : Token.Kind) (test : Name) (w : Lexeme)
    (us : List Lexeme) (hw : Ends w) :
    Reads (branchStatement (rules field (n + 1)))
      ([ofKind k, ⟨.ident, test.1⟩, ofKind .colon] ++ blockWords body.words ++
        (a.words ++ w :: us)) (w :: us) fun s =>
      Dump.stmt s = Dump.stmt (.branch .blank test.toExpr body.toStmts a.toStmts) := by
  cases a with
  | none => exact hbody.branchStatement k test hw.1 (reads_elseSuite_end us hw)
  | block before orelse =>
    obtain ⟨more, lines⟩ := orelse
    have horelse := lines.rows field (n := n) (by
      simp [Alternative.words, Block.words, blockWords] at hn; omega)
    exact hbody.branchStatement k test (by decide) (horelse.elseSuite (w :: us))
  | elif before test' body' orelse =>
    obtain ⟨more, lines⟩ := body'
    simp [Alternative.words, Block.words, blockWords] at hn
    obtain ⟨m, rfl⟩ : ∃ m, n = m + 1 := ⟨n - 1, by omega⟩
    have hinner := orelse.reads field (lines.rows field (n := m) (by omega)) (by omega) .kwElif
      test' w us hw
    have h := hbody.branchStatement_elif k test hinner
    simpa [Alternative.words, Alternative.toStmts, Block.words, Block.toStmts] using h

theorem Lines.rows (l : Lines) (field : FieldReader) {n : Nat} (hn : l.words.length ≤ n) :
    Rows field n l := by
  intro body w us hw hround
  cases l with
  | last before s => exact (s.reads field hn).cons hw hround (.nil rfl)
  | more before s rest =>
    rw [Lines.words, List.length_append] at hn
    have hrest := rest.rows field (n := n) (by omega) body w us hw hround
    obtain ⟨v, vs, hwords, hv⟩ := rest.words_eq_cons
    rw [Lines.words, List.append_assoc]
    rw [hwords] at hrest ⊢
    exact (s.reads field (by omega)).cons hv.2 hround hrest

end

/-! ## Programs -/

theorem Lines.reads_moduleBody (l : Lines) (field : FieldReader) {n : Nat} (hn : l.words.length ≤ n) :
    Reads (moduleBody (rules field (n + 1))) (l.words ++ [.eof]) [.eof] fun found =>
      Dump.stmts found = Dump.stmts l.toStmts := by
  have hend : Reads (moduleRound (rules field (n + 1))) [.eof] [.eof] fun p => p = ([], false) :=
    Reads.isAborted.seq ((Reads.at? rfl).seq (.pure rfl))
  have hrows := l.rows field hn (moduleRound (rules field (n + 1))) .eof [] ⟨by decide, by decide⟩
    fun u v us vs Q hu hlt hread => reads_moduleRound hread hu hlt
  exact reads_collect_nil hrows hend

theorem Program.reads (p : Program) :
    Reads wholeModule (p.lines.words ++ [.eof]) [.eof] fun m =>
      Dump.module m = Dump.module p.toModule := by
  refine Reads.get fun s hs => ?_
  have hsize : p.lines.words.length ≤ 2 * s.cursor.tokens.size + 1 := by
    have hlength := hs.length_eq
    rw [Cursor.remaining, List.length_append] at hlength
    omega
  have hread := p.lines.reads_moduleBody (fieldReader fieldDepth) hsize
  obtain ⟨w, vs, hwords, -⟩ := p.lines.words_eq_cons
  rw [hwords] at hread ⊢
  refine Reads.peek.bind fun first _ => hread.bind fun body hbody => Reads.get fun s' _ => .pure ?_
  rw [Dump.module, hbody]
  rfl

end Layout

theorem Parsed.ofSource_eq {source : Text} {maxErrors : Nat} {m : Module} {s : Grammar.State}
    (h : Grammar.wholeModule.run
      { cursor := { tokens := (Token.lex source).1 }, maxErrors
        diags := (Token.lex source).2
        aborted := ({ diags := (Token.lex source).2 } : Bag).hasCode .invalidUtf8 } = (m, s)) :
    Parsed.ofSource source maxErrors = ⟨m, s.diags, s.aborted⟩ := by
  unfold Parsed.ofSource
  generalize Token.lex source = r at h ⊢
  obtain ⟨tokens, diags⟩ := r
  simp only at h ⊢
  rw [h]

end CloneScout
