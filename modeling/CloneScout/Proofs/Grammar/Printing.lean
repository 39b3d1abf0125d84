import CloneScout.Proofs.Grammar.Formula
import CloneScout.Proofs.Token.Phrase

/-!
# Texts of formulas

A formula is written with one blank between any two of its words. Its text is cut into these words,
and parsing them gives the tree of the formula back.
-/

namespace CloneScout

namespace Formula

open Token (Phrase)
open Lexeme (ofKind)
open Grammar

/-! ## Brackets of a formula match -/

theorem phrase_ofKind {k : Token.Kind} {ws : List Lexeme}
    (hk : k ∈ Token.Kind.keywords ∨ k ∈ Token.Kind.signs)
    (hplain : k.isOpening = false ∧ k.opening? = none) (h : Phrase ws) : Phrase (ofKind k :: ws) := by
  refine .cons ?_ hplain h
  rcases hk with hk | hk
  · exact .keyword hk
  · exact .sign hk

theorem phrase_parenthesized {ws : List Lexeme} (h : Phrase ws) :
    Phrase (ofKind .lparen :: (ws ++ [ofKind .rparen])) :=
  h.enclosed (by decide) (by decide) rfl rfl rfl

theorem phrase_enclose {ws : List Lexeme} (h : Phrase ws) (rank : Nat) (t : Formula) :
    Phrase (enclose rank t ws) := by
  unfold enclose
  split
  · exact phrase_parenthesized h
  · exact h

theorem phrase_compareWords {op : CompareOp} {ws : List Lexeme} (h : Phrase ws) :
    Phrase ((compareWords op).map ofKind ++ ws) := by
  cases op with
  | notIn => exact phrase_ofKind (by decide) (by decide) (phrase_ofKind (by decide) (by decide) h)
  | isNot => exact phrase_ofKind (by decide) (by decide) (phrase_ofKind (by decide) (by decide) h)
  | _ => exact phrase_ofKind (by decide) (by decide) h

theorem phrase_argumentWords {parts : List (List Lexeme)} (h : ∀ ws ∈ parts, Phrase ws) :
    Phrase (argumentWords parts) := by
  induction parts with
  | nil => exact .nil
  | cons ws parts ih =>
    have hfirst := h ws List.mem_cons_self
    have hrest := ih fun ws hws => h ws (List.mem_cons_of_mem _ hws)
    cases parts with
    | nil => exact hfirst
    | cons vs parts => exact hfirst.append (phrase_ofKind (by decide) (by decide) hrest)

theorem phrase_flatMap {k : Token.Kind} (hk : k ∈ Token.Kind.keywords)
    (hplain : k.isOpening = false ∧ k.opening? = none) {parts : List (List Lexeme)}
    (h : ∀ ws ∈ parts, Phrase ws) : Phrase (parts.flatMap fun ws => ofKind k :: ws) := by
  induction parts with
  | nil => exact .nil
  | cons ws parts ih =>
    have hrest := ih fun ws hws => h ws (List.mem_cons_of_mem _ hws)
    rw [List.flatMap_cons]
    exact (phrase_ofKind (.inl hk) hplain (h ws List.mem_cons_self)).append hrest

mutual

theorem phrase_words (t : Formula) : Phrase t.words := by
  cases t with
  | name id => exact .cons (.name id.2) ⟨rfl, rfl⟩ .nil
  | int value => exact .cons (.int value) ⟨rfl, rfl⟩ .nil
  | binary left op right =>
    have hleft := phrase_enclose (phrase_words left) op.leftRank left
    have hright := phrase_enclose (phrase_words right) op.rightRank right
    exact hleft.append (phrase_ofKind (by cases op <;> decide) (by cases op <;> decide) hright)
  | unary op operand =>
    have hoperand := phrase_enclose (phrase_words operand) op.rank operand
    exact phrase_ofKind (by cases op <;> decide) (by cases op <;> decide) hoperand
  | boolean op first second rest =>
    have hfirst := phrase_enclose (phrase_words first) (op.rank + 1) first
    have hsecond := phrase_enclose (phrase_words second) (op.rank + 1) second
    have hrest := phrase_operands (op.rank + 1) rest
    refine hfirst.append (phrase_flatMap (by cases op <;> decide) (by cases op <;> decide) ?_)
    intro ws hws
    rcases List.mem_cons.mp hws with rfl | hws
    · exact hsecond
    · exact hrest ws hws
  | compare left tests =>
    exact (phrase_enclose (phrase_words left) 6 left).append (phrase_testWords tests)
  | conditional test body orelse =>
    have htest := phrase_enclose (phrase_words test) 2 test
    have hbody := phrase_enclose (phrase_words body) 2 body
    have horelse := phrase_words orelse
    exact hbody.append (phrase_ofKind (by decide) (by decide)
      (htest.append (phrase_ofKind (by decide) (by decide) horelse)))
  | «attribute» value id =>
    have hvalue := phrase_enclose (phrase_words value) 90 value
    refine hvalue.append (phrase_ofKind (by decide) (by decide) ?_)
    exact .cons (.name id.2) ⟨rfl, rfl⟩ .nil
  | subscript value index =>
    have hvalue := phrase_enclose (phrase_words value) 90 value
    have hindex := phrase_words index
    exact hvalue.append (hindex.enclosed (by decide) (by decide) rfl rfl rfl)
  | call func args =>
    have hfunc := phrase_enclose (phrase_words func) 90 func
    have hargs := phrase_operands 1 args
    exact hfunc.append (phrase_parenthesized (phrase_argumentWords hargs))

theorem phrase_operands (rank : Nat) (ts : List Formula) : ∀ ws ∈ operands rank ts, Phrase ws := by
  cases ts with
  | nil => exact fun _ hws => nomatch hws
  | cons t ts =>
    have hfirst := phrase_enclose (phrase_words t) rank t
    have hrest := phrase_operands rank ts
    intro ws hws
    rcases List.mem_cons.mp hws with rfl | hws
    · exact hfirst
    · exact hrest ws hws

theorem phrase_testWords (tests : Tests) : Phrase (testWords tests) := by
  cases tests with
  | last op right => exact phrase_compareWords (phrase_enclose (phrase_words right) 6 right)
  | more op right rest =>
    have hright := phrase_enclose (phrase_words right) 6 right
    exact phrase_compareWords (hright.append (phrase_testWords rest))

end

end Formula

namespace Grammar

/-! ## One expression and the end of the text -/

theorem Opens.kind_not {ws : List Lexeme} {rank : Nat} (h : Opens rank ws) :
    ∃ w us, ws = w :: us ∧ w.kind ≠ .kwYield ∧ w.kind ≠ .star := by
  obtain ⟨w, us, rfl, hw⟩ := h
  refine ⟨w, us, rfl, ?_, ?_⟩
  · intro hk
    simp [hk, Token.Kind.opens] at hw
  · intro hk
    simp [hk, Token.Kind.opens] at hw

/-- An expression that no comma follows. -/
theorem reads_yieldOrStar {ws : List Lexeme} {Q : Expr → Prop} {field : FieldReader} {n : Nat}
    {w : Lexeme} {us : List Lexeme} (hopens : Opens 1 ws)
    (h : Reads (expression (rules field n)) (ws ++ w :: us) (w :: us) Q) (hcomma : w.kind ≠ .comma) :
    Reads (yieldOrStar (rules field (n + 1))) (ws ++ w :: us) (w :: us) Q := by
  obtain ⟨v, vs, rfl, hyield, hstar⟩ := hopens.kind_not
  refine (Reads.at? (decide_eq_false hyield)).seq (Reads.peek.bind fun first _ => ?_)
  have hhead : Reads (starExpression (rules field (n + 1))) (v :: vs ++ w :: us) (w :: us) Q :=
    (Reads.at? (decide_eq_false hstar)).seq h
  exact hhead.bind fun e he => (Reads.at? (decide_eq_false hcomma)).seq (.pure he)

theorem Legible.yieldOrStar {ws : List Lexeme} {d : Document} (h : Legible 1 ws d)
    (field : FieldReader) {n : Nat} (hn : ws.length ≤ n + 1) {w : Lexeme} (us : List Lexeme)
    (hend : w.kind.attach < 1) (hcomma : w.kind ≠ .comma) :
    Reads (Grammar.yieldOrStar (rules field (n + 1))) (ws ++ w :: us) (w :: us)
      (Dump.expr · = d) :=
  reads_yieldOrStar h.opens (h.scans .expression (Nat.le_refl 1) field n w us hn hend) hcomma

/-- An expression that is the whole text. The rules may come back to each other as often as there
are tokens. -/
theorem reads_wholeExpression {ws : List Lexeme} {Q : Expr → Prop} {field : FieldReader}
    (hopens : Opens 1 ws) (h : ∀ n, ws.length ≤ n + 1 →
      Reads (expression (rules field n)) (ws ++ [.eof]) [.eof] Q) :
    Reads (wholeExpression field) (ws ++ [.eof]) [.eof] Q := by
  refine Reads.get fun s hs => ?_
  have hsize : ws.length ≤ 2 * s.cursor.tokens.size + 1 + 1 := by
    have hlength := hs.length_eq
    rw [Cursor.remaining, List.length_append] at hlength
    omega
  have hread := reads_yieldOrStar hopens (h _ hsize) (by decide)
  obtain ⟨v, vs, rfl, -⟩ := hopens
  refine Reads.peek.bind fun first _ => ?_
  rw [if_neg (by simp [hs.aborted])]
  exact hread.bind fun e he => (Reads.at? rfl).seq (.pure he)

theorem Legible.wholeExpression {ws : List Lexeme} {d : Document} (h : Legible 1 ws d)
    (field : FieldReader) :
    Reads (wholeExpression field) (ws ++ [.eof]) [.eof] (Dump.expr · = d) :=
  reads_wholeExpression h.opens fun n hn =>
    h.scans .expression (Nat.le_refl 1) field n .eof [] hn (by decide)

end Grammar

theorem ParsedExpr.ofSource_eq {source : Text} {maxErrors : Nat} {e : Expr} {s : Grammar.State}
    (h : (Grammar.wholeExpression (Grammar.fieldReader Grammar.fieldDepth)).run
      { cursor := { tokens := (Token.lexField 0 1 source).1 }, maxErrors
        diags := (Token.lexField 0 1 source).2 } = (e, s)) :
    ParsedExpr.ofSource source maxErrors = ⟨e, s.diags, s.aborted⟩ := by
  unfold ParsedExpr.ofSource
  generalize Token.lexField 0 1 source = r at h ⊢
  obtain ⟨tokens, diags⟩ := r
  simp only at h ⊢
  rw [h]

/-- A text whose tokens are read as one expression without a fault. -/
theorem ParsedExpr.ofSource_of_tokens {source : Text} {us vs : List Lexeme}
    (htokens : (Token.lexField 0 1 source).1.toList.map Token.toLexeme = us)
    (hdiags : (Token.lexField 0 1 source).2 = #[]) {Q : Expr → Prop}
    (h : Grammar.Reads (Grammar.wholeExpression (Grammar.fieldReader Grammar.fieldDepth)) us vs Q)
    (maxErrors : Nat) :
    let p := ParsedExpr.ofSource source maxErrors
    p.diags = #[] ∧ p.aborted = false ∧ Q p.expr := by
  have hstart : Grammar.State.At
      { cursor := { tokens := (Token.lexField 0 1 source).1 }, maxErrors
        diags := (Token.lexField 0 1 source).2 } us := by
    refine ⟨rfl, ?_⟩
    rw [Grammar.State.At.upcoming_eq]
    exact htokens
  obtain ⟨e, s, hrun, hs, hkept, he⟩ := h _ hstart
  rw [ParsedExpr.ofSource_eq hrun]
  exact ⟨hkept.diags.trans hdiags, hs.aborted, he⟩

/-- Words that are read as one expression without a fault, written with blanks between them. -/
theorem ParsedExpr.ofSource_of_reads {ws : List Lexeme} (hphrase : Token.Phrase ws)
    {Q : Expr → Prop} (h : Grammar.Reads
      (Grammar.wholeExpression (Grammar.fieldReader Grammar.fieldDepth)) (ws ++ [.eof]) [.eof] Q)
    (maxErrors : Nat) :
    let p := ParsedExpr.ofSource (Text.join (utf8 " ") (ws.map Lexeme.text)) maxErrors
    p.diags = #[] ∧ p.aborted = false ∧ Q p.expr :=
  ofSource_of_tokens (Token.lexField_join hphrase 0 1).1 (Token.lexField_join hphrase 0 1).2 h
    maxErrors

/-- Operator expressions parse back: the text of a formula, with parentheses only where they are
needed, is read without a fault and gives the tree of the formula. -/
theorem ParsedExpr.dump_ofSource_text (t : Formula) (maxErrors : Nat) :
    (ParsedExpr.ofSource t.text maxErrors).diags = #[] ∧
      (ParsedExpr.ofSource t.text maxErrors).aborted = false ∧
      ∀ named, Dump.exprText named (ParsedExpr.ofSource t.text maxErrors).expr =
        Dump.exprText named t.toExpr := by
  have hlegible := t.legible.mono t.one_le_rank
  obtain ⟨hdiags, haborted, he⟩ := ParsedExpr.ofSource_of_reads t.phrase_words
    (hlegible.wholeExpression (Grammar.fieldReader Grammar.fieldDepth)) maxErrors
  refine ⟨hdiags, haborted, fun named => ?_⟩
  have hdump : Dump.expr (ParsedExpr.ofSource t.text maxErrors).expr = Dump.expr t.toExpr := he
  rw [Dump.exprText, hdump, Dump.exprText]

end CloneScout
