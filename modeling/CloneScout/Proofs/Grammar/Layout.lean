import CloneScout.Proofs.Token.Lexer
import CloneScout.Proofs.Token.Lines
import CloneScout.Proofs.Tree.Outline

/-!
# Programs and their layout

A program of nested blocks together with the choices that its text leaves open: how deep each block
is indented, which lines without tokens stand in front of each line, and whether an `if` statement
that is alone in an `else` block is written with `elif`. The tokens of the text do not depend on these
choices.
-/

namespace CloneScout.Layout

open Token (Filler fillerText Kind)
open Token.Lexer
open Lexeme (ofKind)

/-- A name, in valid UTF-8. -/
abbrev Name := { t : Text // Token.IsName t ∧ Utf8.isValid t = true }

mutual

inductive Statement where
  | pass
  | name (id : Name)
  | branch (test : Name) (body : Block) (orelse : Alternative)
  | loop (test : Name) (body : Block)
  | loopElse (test : Name) (body : Block) (before : List Filler) (orelse : Block)
  | tryFinally (body : Block) (before : List Filler) (final : Block)
  | function (id : Name) (body : Block)
  | classDef (id : Name) (body : Block)

/-- What follows the block of an `if` statement. -/
inductive Alternative where
  | none
  | block (before : List Filler) (body : Block)
  | elif (before : List Filler) (test : Name) (body : Block) (orelse : Alternative)

/-- A block that is indented deeper than its heading by one column and `more` others. -/
inductive Block where
  | mk (more : Nat) (lines : Lines)

/-- One or more statements, with the lines without tokens in front of each of them. -/
inductive Lines where
  | last (before : List Filler) (s : Statement)
  | more (before : List Filler) (s : Statement) (rest : Lines)

end

/-! ## Texts -/

/-- A keyword and a colon. -/
def heading (k : Kind) : Text := k.text ++ Kind.text .colon

/-- A keyword, a name and a colon. -/
def headingOf (k : Kind) (id : Name) : Text := k.text ++ [ascii ' '] ++ (id.1 ++ Kind.text .colon)

def functionHeading (id : Name) : Text :=
  Kind.text .kwDef ++ [ascii ' '] ++
    (id.1 ++ (Kind.text .lparen ++ Kind.text .rparen ++ Kind.text .colon))

mutual

def Statement.text (col : Nat) : Statement → Text
  | .pass => lineText col (Kind.text .kwPass)
  | .name id => lineText col id.1
  | .branch test body orelse =>
    lineText col (headingOf .kwIf test) ++ body.text col ++ orelse.text col
  | .loop test body => lineText col (headingOf .kwWhile test) ++ body.text col
  | .loopElse test body before orelse =>
    lineText col (headingOf .kwWhile test) ++ body.text col ++
      (fillerText before ++ (lineText col (heading .kwElse) ++ orelse.text col))
  | .tryFinally body before final =>
    lineText col (heading .kwTry) ++ body.text col ++
      (fillerText before ++ (lineText col (heading .kwFinally) ++ final.text col))
  | .function id body => lineText col (functionHeading id) ++ body.text col
  | .classDef id body => lineText col (headingOf .kwClass id) ++ body.text col

def Alternative.text (col : Nat) : Alternative → Text
  | .none => []
  | .block before body => fillerText before ++ (lineText col (heading .kwElse) ++ body.text col)
  | .elif before test body orelse =>
    fillerText before ++ (lineText col (headingOf .kwElif test) ++ body.text col) ++ orelse.text col

def Block.text (col : Nat) : Block → Text
  | .mk more lines => lines.text (col + more + 1)

def Lines.text (col : Nat) : Lines → Text
  | .last before s => fillerText before ++ s.text col
  | .more before s rest => fillerText before ++ s.text col ++ rest.text col

end

/-- The lines of a text. The text of a file starts behind its byte order mark, so no text of its own
starts with one. -/
structure Program where
  lines : Lines
  after : List Filler
  unmarked : Text.startsWith (lines.text 0 ++ fillerText after) Token.byteOrderMark = false

def Program.text (p : Program) : Text := p.lines.text 0 ++ fillerText p.after

example :
    let a : Name := ⟨utf8 "a", ⟨⟨_, rfl, by decide⟩, by decide, by decide +kernel⟩, by decide⟩
    let comment : Filler := ⟨⟨utf8 "    ", by decide⟩, some ⟨utf8 "!", by decide⟩⟩
    let inner : Lines := .last [comment] (.loop a (.mk 0 (.last [] .pass)))
    Lines.text 0 (.last [] (.branch a (.mk 2 inner) (.elif [] a (.mk 0 (.last [] (.name a))) .none))) =
      utf8 "if a:\n    #!\n   while a:\n    pass\nelif a:\n a\n" := by
  decide +kernel

/-! ## Tokens -/

/-- The tokens of a block behind its heading. -/
def blockWords (ws : List Lexeme) : List Lexeme := .newline :: .indent :: (ws ++ [.dedent])

mutual

def Statement.words : Statement → List Lexeme
  | .pass => [ofKind .kwPass] ++ [.newline]
  | .name id => [⟨.ident, id.1⟩] ++ [.newline]
  | .branch test body orelse =>
    [ofKind .kwIf, ⟨.ident, test.1⟩, ofKind .colon] ++ blockWords body.words ++ orelse.words
  | .loop test body => [ofKind .kwWhile, ⟨.ident, test.1⟩, ofKind .colon] ++ blockWords body.words
  | .loopElse test body _ orelse =>
    [ofKind .kwWhile, ⟨.ident, test.1⟩, ofKind .colon] ++ blockWords body.words ++
      ([ofKind .kwElse, ofKind .colon] ++ blockWords orelse.words)
  | .tryFinally body _ final =>
    [ofKind .kwTry, ofKind .colon] ++ blockWords body.words ++
      ([ofKind .kwFinally, ofKind .colon] ++ blockWords final.words)
  | .function id body =>
    [ofKind .kwDef, ⟨.ident, id.1⟩, ofKind .lparen, ofKind .rparen, ofKind .colon] ++
      blockWords body.words
  | .classDef id body => [ofKind .kwClass, ⟨.ident, id.1⟩, ofKind .colon] ++ blockWords body.words

def Alternative.words : Alternative → List Lexeme
  | .none => []
  | .block _ body => [ofKind .kwElse, ofKind .colon] ++ blockWords body.words
  | .elif _ test body orelse =>
    [ofKind .kwElif, ⟨.ident, test.1⟩, ofKind .colon] ++ blockWords body.words ++ orelse.words

def Block.words : Block → List Lexeme
  | .mk _ lines => lines.words

def Lines.words : Lines → List Lexeme
  | .last _ s => s.words
  | .more _ s rest => s.words ++ rest.words

end

/-! ## Trees -/

def Name.toExpr (id : Name) : Expr := .name .blank id.1 .load

mutual

def Statement.toStmt : Statement → Stmt
  | .pass => .pass .blank
  | .name id => .expr .blank id.toExpr
  | .branch test body orelse => .branch .blank test.toExpr body.toStmts orelse.toStmts
  | .loop test body => .whileLoop .blank test.toExpr body.toStmts []
  | .loopElse test body _ orelse => .whileLoop .blank test.toExpr body.toStmts orelse.toStmts
  | .tryFinally body _ final => .tryBlock .blank false body.toStmts [] [] final.toStmts
  | .function id body => .function .blank false id.1 .empty body.toStmts [] none
  | .classDef id body => .classDef .blank id.1 [] [] body.toStmts []

def Alternative.toStmts : Alternative → List Stmt
  | .none => []
  | .block _ body => body.toStmts
  | .elif _ test body orelse => [.branch .blank test.toExpr body.toStmts orelse.toStmts]

def Block.toStmts : Block → List Stmt
  | .mk _ lines => lines.toStmts

def Lines.toStmts : Lines → List Stmt
  | .last _ s => [s.toStmt]
  | .more _ s rest => s.toStmt :: rest.toStmts

end

def Program.toModule (p : Program) : Module := ⟨.blank, p.lines.toStmts⟩

/-! ## The tokens of a text -/

mutual

theorem Statement.lays (s : Statement) (col : Nat) (below : List Nat) :
    Lays col below (s.text col) s.words := by
  cases s with
  | pass => exact .line (line_keyword (by decide)) col below
  | name id => exact .line (line_name id.2.1) col below
  | branch test body orelse =>
    exact orelse.lays_append (body.lays_heading (line_named (by decide) test.2.1) col below)
  | loop test body => exact body.lays_heading (line_named (by decide) test.2.1) col below
  | loopElse test body before orelse =>
    have hbody := body.lays_heading (line_named (k := .kwWhile) (by decide) test.2.1) col below
    exact hbody.append ((orelse.lays_heading (line_heading (by decide)) col below).fill before)
  | tryFinally body before final =>
    have hbody := body.lays_heading (line_heading (k := .kwTry) (by decide)) col below
    exact hbody.append ((final.lays_heading (line_heading (by decide)) col below).fill before)
  | function id body => exact body.lays_heading (line_called (by decide) id.2.1) col below
  | classDef id body => exact body.lays_heading (line_named (by decide) id.2.1) col below

theorem Alternative.lays_append (a : Alternative) {col : Nat} {below : List Nat} {t : Text}
    {us : List Lexeme} (h : Lays col below t us) :
    Lays col below (t ++ a.text col) (us ++ a.words) := by
  cases a with
  | none =>
    rw [Alternative.text, Alternative.words, List.append_nil, List.append_nil]
    exact h
  | block before body =>
    exact h.append ((body.lays_heading (line_heading (by decide)) col below).fill before)
  | elif before test body orelse =>
    have hbody := body.lays_heading (line_named (k := .kwElif) (by decide) test.2.1) col below
    exact h.append (orelse.lays_append (hbody.fill before))

theorem Block.lays_heading (b : Block) {t : Text} {us : List Lexeme} (h : Line t us) (col : Nat)
    (below : List Nat) : Lays col below (lineText col t ++ b.text col) (us ++ blockWords b.words) := by
  cases b with
  | mk more lines => exact .block h (lines.lays (col + more + 1) (col :: below)) (by omega)

theorem Lines.lays (l : Lines) (col : Nat) (below : List Nat) :
    Lays col below (l.text col) l.words := by
  cases l with
  | last before s => exact (s.lays col below).fill before
  | more before s rest => exact ((s.lays col below).fill before).append (rest.lays col below)

end

/-! ## Texts are valid -/

theorem isValid_lineText (col : Nat) {t : Text} (h : Utf8.isValid t = true) :
    Utf8.isValid (lineText col t) = true := by
  have hblanks : Utf8.isValid (List.replicate col (ascii ' ')) = true := by
    apply Utf8.isValid_of_ascii
    intro b hb
    rw [List.eq_of_mem_replicate hb]
    decide
  exact Utf8.isValid_append (Utf8.isValid_append hblanks h) (by decide)

theorem isValid_fillerText (fs : List Filler) : Utf8.isValid (fillerText fs) = true := by
  induction fs with
  | nil => rfl
  | cons f fs ih =>
    have hblanks : Utf8.isValid f.blanks.1 = true :=
      Utf8.isValid_of_ascii fun b hb => Token.isBlank_lt (f.blanks.2 b hb)
    have hbody : Utf8.isValid f.body = true := by
      unfold Filler.body
      cases f.comment with
      | none => rfl
      | some c => exact Utf8.isValid_append (s := [ascii '#']) (by decide) c.2.1
    rw [fillerText, List.flatMap_cons]
    exact Utf8.isValid_append
      (Utf8.isValid_append (Utf8.isValid_append hblanks hbody) (by decide)) ih

theorem isValid_headingOf {k : Kind} (hk : Utf8.isValid k.text = true) (id : Name) :
    Utf8.isValid (headingOf k id) = true :=
  Utf8.isValid_append (Utf8.isValid_append hk (by decide)) (Utf8.isValid_append id.2.2 (by decide))

theorem isValid_functionHeading (id : Name) : Utf8.isValid (functionHeading id) = true :=
  Utf8.isValid_append (by decide) (Utf8.isValid_append id.2.2 (by decide))

mutual

theorem Statement.isValid_text (s : Statement) (col : Nat) : Utf8.isValid (s.text col) = true := by
  cases s with
  | pass => exact isValid_lineText col (by decide)
  | name id => exact isValid_lineText col id.2.2
  | branch test body orelse =>
    have hhead := isValid_lineText col (isValid_headingOf (k := .kwIf) (by decide) test)
    exact Utf8.isValid_append (Utf8.isValid_append hhead (body.isValid_text col))
      (orelse.isValid_text col)
  | loop test body =>
    have hhead := isValid_lineText col (isValid_headingOf (k := .kwWhile) (by decide) test)
    exact Utf8.isValid_append hhead (body.isValid_text col)
  | loopElse test body before orelse =>
    have hhead := isValid_lineText col (isValid_headingOf (k := .kwWhile) (by decide) test)
    have helse : Utf8.isValid (lineText col (heading .kwElse)) = true :=
      isValid_lineText col (by decide)
    exact Utf8.isValid_append (Utf8.isValid_append hhead (body.isValid_text col))
      (Utf8.isValid_append (isValid_fillerText before)
        (Utf8.isValid_append helse (orelse.isValid_text col)))
  | tryFinally body before final =>
    have htry : Utf8.isValid (lineText col (heading .kwTry)) = true :=
      isValid_lineText col (by decide)
    have hfinally : Utf8.isValid (lineText col (heading .kwFinally)) = true :=
      isValid_lineText col (by decide)
    exact Utf8.isValid_append (Utf8.isValid_append htry (body.isValid_text col))
      (Utf8.isValid_append (isValid_fillerText before)
        (Utf8.isValid_append hfinally (final.isValid_text col)))
  | function id body =>
    have hhead := isValid_lineText col (isValid_functionHeading id)
    exact Utf8.isValid_append hhead (body.isValid_text col)
  | classDef id body =>
    have hhead := isValid_lineText col (isValid_headingOf (k := .kwClass) (by decide) id)
    exact Utf8.isValid_append hhead (body.isValid_text col)

theorem Alternative.isValid_text (a : Alternative) (col : Nat) :
    Utf8.isValid (a.text col) = true := by
  cases a with
  | none => rfl
  | block before body =>
    have helse : Utf8.isValid (lineText col (heading .kwElse)) = true :=
      isValid_lineText col (by decide)
    exact Utf8.isValid_append (isValid_fillerText before)
      (Utf8.isValid_append helse (body.isValid_text col))
  | elif before test body orelse =>
    have hhead := isValid_lineText col (isValid_headingOf (k := .kwElif) (by decide) test)
    exact Utf8.isValid_append (Utf8.isValid_append (isValid_fillerText before)
      (Utf8.isValid_append hhead (body.isValid_text col))) (orelse.isValid_text col)

theorem Block.isValid_text (b : Block) (col : Nat) : Utf8.isValid (b.text col) = true := by
  cases b with
  | mk more lines => exact lines.isValid_text (col + more + 1)

theorem Lines.isValid_text (l : Lines) (col : Nat) : Utf8.isValid (l.text col) = true := by
  cases l with
  | last before s => exact Utf8.isValid_append (isValid_fillerText before) (s.isValid_text col)
  | more before s rest =>
    exact Utf8.isValid_append (Utf8.isValid_append (isValid_fillerText before) (s.isValid_text col))
      (rest.isValid_text col)

end

end CloneScout.Layout
