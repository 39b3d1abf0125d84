import CloneScout.Proofs.Grammar.Literals
import CloneScout.Proofs.Token.Formatted

/-!
# Literal text of joined strings

A formatted literal without fields is read as a joined string of one text, the same text that a
plain literal with the same body stands for. So a text survives being quoted, having its braces
doubled and being read back behind an `f`.
-/

namespace CloneScout

namespace Grammar

open StringLiteral (Parts Written)
open Template

/-- The text that the body of a text literal stands for. -/
def decoded (raw : Bool) (body : Text) : Text :=
  if raw then body else StringLiteral.unescape false body

/-- What a string token with the given pieces stands for on its own. -/
def literalValue (x : Extent) (parts : Parts) (pieces : List Piece) : Expr :=
  if parts.formatted then joined x pieces
  else if parts.bytes then .constant x (.bytes (plainText pieces))
  else .constant x (.text (plainText pieces) parts.marked)

/-- The values of a joined string without fields. -/
def textValues (x : Extent) (t : Text) : List Expr :=
  if t.isEmpty then [] else [.constant x (.text t false)]

variable {r : Rules}

/-! ## Pieces -/

theorem templatePieces_doubled (r : Rules) (t : Token) {raw : Bool} {body : Text}
    (h : raw = true ∨ hasNamed body = false) (levels base : Nat) :
    templatePieces r t raw (levels + 1) base (doubled body) =
      pure (if body.isEmpty then [] else [.text (decoded raw body)]) := by
  rw [templatePieces, segments_doubled h]
  cases body.isEmpty with
  | true => rfl
  | false => rfl

theorem joinedValues_decoded (x : Extent) (raw : Bool) (body : Text) :
    joinedValues x [] (if body.isEmpty then [] else [.text (decoded raw body)]) =
      textValues x (decoded raw body) := by
  cases body with
  | nil => cases raw <;> rfl
  | cons b body => rfl

theorem tokenPieces_plain (r : Rules) (t : Token) {parts : Parts} (hbytes : parts.bytes = false)
    (hformatted : parts.formatted = false) :
    tokenPieces r t parts = pure [.text (decoded parts.raw parts.body)] := by
  rw [tokenPieces, hformatted, hbytes]
  rfl

/-- A formatted body that has its braces doubled. -/
theorem tokenPieces_doubled (r : Rules) (t : Token) {parts : Parts} {body : Text}
    (hformatted : parts.formatted = true) (hbody : parts.body = doubled body)
    (h : parts.raw = true ∨ hasNamed body = false) :
    tokenPieces r t parts =
      pure (if body.isEmpty then [] else [.text (decoded parts.raw body)]) := by
  rw [tokenPieces, if_pos hformatted, hbody, templatePieces_doubled r t h]

/-- A text without braces stands for the same in a plain token and in a formatted one. -/
theorem tokenPieces_braceless (r : Rules) (t t' : Token) {plain formatted : Parts}
    (hbytes : plain.bytes = false) (hplain : plain.formatted = false)
    (hformatted : formatted.formatted = true) (hraw : formatted.raw = plain.raw)
    (hbody : formatted.body = plain.body) (h : ∀ b ∈ plain.body, isBrace b = false) :
    tokenPieces r t plain = pure [.text (decoded plain.raw plain.body)] ∧
      tokenPieces r t' formatted =
        pure (if plain.body.isEmpty then [] else [.text (decoded plain.raw plain.body)]) := by
  refine ⟨tokenPieces_plain r t hbytes hplain, ?_⟩
  rw [← hraw]
  exact tokenPieces_doubled r t' hformatted (hbody.trans (doubled_of_braceless h).symm)
    (.inr (hasNamed_of_braceless h))

/-! ## Literals on their own -/

theorem reads_strings_one {w v : Lexeme} {us : List Lexeme} {pieces : List Piece}
    (hkind : w.kind = .stringLit) (hend : v.kind ≠ .stringLit)
    (h : ∀ t : Token, t.lexeme = w.text →
      tokenPieces r t (StringLiteral.parts w.text) = pure pieces) :
    Reads (strings r) (w :: v :: us) (v :: us) fun e =>
      ∃ x, e = literalValue x (StringLiteral.parts w.text) pieces := by
  have hround : Reads (stringRound r) (w :: v :: us) (v :: us)
      (· = ([(StringLiteral.parts w.text, pieces)], true)) := reads_stringRound_of hkind h
  have hcollects : Collects (stringRound r) (w :: v :: us) (v :: us)
      (· = [(StringLiteral.parts w.text, pieces)]) := by
    refine .cons (P := (· = [(StringLiteral.parts w.text, pieces)])) (hround.mono fun p hp => ?_)
      (by simp) (.nil (Q := (· = [])) rfl) fun xs ys hxs hys => by rw [hxs, hys]; rfl
    rw [hp]
    exact ⟨rfl, rfl⟩
  refine Reads.peek.bind fun first _ =>
    (Reads.collect hcollects (reads_stringRound_end hend)).bind fun found hfound => ?_
  obtain ⟨_, rfl, rfl⟩ := hfound
  simp only [List.head?_cons, Option.any_some, List.any_cons, List.any_nil,
    bne_self_eq_false, Bool.or_false, Bool.false_eq_true, if_false, List.flatMap_cons,
    List.flatMap_nil, List.append_nil]
  refine (Reads.extentFrom first).bind fun x _ => ?_
  unfold literalValue
  split
  · exact .pure ⟨x, rfl⟩
  · split
    · exact .pure ⟨x, rfl⟩
    · exact .pure ⟨x, rfl⟩

theorem reads_wholeExpression_literal {w : Lexeme} {pieces : List Piece} (field : FieldReader)
    (hkind : w.kind = .stringLit) (h : ∀ (r : Rules) (t : Token), t.lexeme = w.text →
      tokenPieces r t (StringLiteral.parts w.text) = pure pieces) :
    Reads (wholeExpression field) [w, .eof] [.eof] fun e =>
      ∃ x, e = literalValue x (StringLiteral.parts w.text) pieces := by
  have hopens (rank : Nat) : w.kind.opens rank = true := by rw [hkind]; rfl
  show Reads (wholeExpression field) ([w] ++ [.eof]) [.eof] _
  refine reads_wholeExpression ⟨w, [], rfl, hopens 1⟩ fun n _ => ?_
  refine reads_expression_atom ?_ (fun rank _ => hopens rank) rfl
  refine Reads.peek.bind fun first hfirst => ?_
  have hfirst : first.kind = .stringLit := (congrArg Lexeme.kind hfirst).trans hkind
  rw [hfirst]
  exact reads_strings_one hkind (by decide) (h _)

end Grammar

/-! ## Sources -/

open Grammar StringLiteral Template

theorem ParsedExpr.ofSource_written {w : Written} (hw : w.IsToken []) {pieces : List Piece}
    (h : ∀ (r : Rules) (t : Token), tokenPieces r t (parts w.text) = pure pieces)
    (maxErrors : Nat) :
    let p := ParsedExpr.ofSource w.text maxErrors
    p.diags = #[] ∧ p.aborted = false ∧ ∃ x, p.expr = literalValue x (parts w.text) pieces := by
  obtain ⟨htokens, hdiags⟩ := Token.lexField_written hw 0 1
  exact ofSource_of_tokens htokens hdiags
    (reads_wholeExpression_literal _ rfl fun r t _ => h r t) maxErrors

/-- A text quoted with its braces doubled behind an `f` is read as a joined string of the text. -/
theorem ParsedExpr.ofSource_doubled {s : Text} (hs : Utf8.IsEncoded s) (maxErrors : Nat) :
    let p := ParsedExpr.ofSource (ascii 'f' :: doubled (Quoted.text s)) maxErrors
    p.diags = #[] ∧ p.aborted = false ∧ ∃ x, p.expr = .joined x (textValues x s) := by
  obtain ⟨body, htext, hmeans, hnamed, htoken⟩ := Quoted.exists_formatted hs
  have hquote : isBrace (Quoted.quoteFor s) = false := by
    rcases Quoted.isQuote_quoteFor s with hq | hq <;> rw [hq] <;> decide
  have hsource : ascii 'f' :: doubled (Quoted.text s) =
      (⟨[ascii 'f'], Quoted.quoteFor s, false, doubled body⟩ : Written).text := by
    rw [htext, doubled_cons_of_not hquote, doubled_append, doubled_cons_of_not hquote]
    rfl
  have hparts := Written.parts_text htoken
  have hraw : (parts (Written.text ⟨[ascii 'f'], Quoted.quoteFor s, false, doubled body⟩)).raw =
      false := by rw [hparts]; rfl
  have hformatted : (parts (Written.text
      ⟨[ascii 'f'], Quoted.quoteFor s, false, doubled body⟩)).formatted = true := by
    rw [hparts]; rfl
  have hread := ofSource_written htoken (fun r t => tokenPieces_doubled r t hformatted
    (congrArg Parts.body hparts) (.inr hnamed)) maxErrors
  rw [hsource]
  refine ⟨hread.1, hread.2.1, hread.2.2.imp fun x hx => ?_⟩
  rw [hx, literalValue, if_pos hformatted, joined, joinedValues_decoded, hraw]
  show Expr.joined x (textValues x (unescape false body)) = _
  rw [hmeans]

/-- Texts survive as formatted literals: quoted, with every brace doubled and behind an `f`, a text
is read without a fault as a joined string of just this text, or of nothing if it is empty. And a
body without braces stands for the same text in a plain literal and in a formatted one: in any two
tokens, wherever they stand, and in literals that are read on their own. -/
theorem ParsedExpr.ofSource_formatted (maxErrors : Nat) :
    (∀ s : Text, Utf8.isValid s = true →
      let p := ParsedExpr.ofSource (ascii 'f' :: doubled (Quoted.text s)) maxErrors
      p.diags = #[] ∧ p.aborted = false ∧
        ∃ x, p.expr = .joined x (if s.isEmpty then [] else [.constant x (.text s false)])) ∧
    (∀ t t' : Token, (parts t.lexeme).formatted = false → (parts t.lexeme).bytes = false →
      (parts t'.lexeme).formatted = true → (parts t'.lexeme).raw = (parts t.lexeme).raw →
      (parts t'.lexeme).body = (parts t.lexeme).body →
      (∀ b ∈ (parts t.lexeme).body, isBrace b = false) → ∃ text pieces,
        ∀ (r : Rules) (s : State), (tokenPieces r t (parts t.lexeme)).run s = ([.text text], s) ∧
          (tokenPieces r t' (parts t'.lexeme)).run s = (pieces, s) ∧
          ∀ x, joined x pieces =
            .joined x (if text.isEmpty then [] else [.constant x (.text text false)])) ∧
    (∀ plain formatted : Written, plain.IsToken [] → formatted.IsToken [] →
      (parts plain.text).formatted = false → (parts plain.text).bytes = false →
      (parts formatted.text).formatted = true →
      (parts formatted.text).raw = (parts plain.text).raw → formatted.body = plain.body →
      (∀ b ∈ plain.body, isBrace b = false) →
      let p := ParsedExpr.ofSource plain.text maxErrors
      let q := ParsedExpr.ofSource formatted.text maxErrors
      (p.diags = #[] ∧ p.aborted = false) ∧ (q.diags = #[] ∧ q.aborted = false) ∧
        ∃ text x y, p.expr = .constant x (.text text (parts plain.text).marked) ∧
          q.expr = .joined y (if text.isEmpty then [] else [.constant y (.text text false)])) := by
  refine ⟨fun s hs => ?_, fun t t' hplain hbytes hformatted hraw hbody h => ?_,
    fun plain formatted hp hq hplain hbytes hformatted hraw hbody h => ?_⟩
  · exact ofSource_doubled (.of_firstInvalid (Utf8.firstInvalid_of_isValid hs 0)) maxErrors
  · let p := parts t.lexeme
    refine ⟨decoded p.raw p.body, if p.body.isEmpty then [] else [.text (decoded p.raw p.body)],
      fun r s => ?_⟩
    obtain ⟨hleft, hright⟩ := tokenPieces_braceless r t t' hbytes hplain hformatted hraw hbody h
    rw [hleft, hright]
    exact ⟨rfl, rfl, fun x => congrArg (Expr.joined x) (joinedValues_decoded x _ _)⟩
  · have hcut : (parts plain.text).body = plain.body := by rw [Written.parts_text hp]
    have hcut' : (parts formatted.text).body = plain.body := by rw [Written.parts_text hq, hbody]
    have hpieces (r : Rules) (t : Token) := tokenPieces_braceless r t t hbytes hplain hformatted hraw
      (hcut'.trans hcut.symm) (hcut ▸ h)
    obtain ⟨hdiags, haborted, x, hx⟩ := ofSource_written hp (fun r t => (hpieces r t).1) maxErrors
    obtain ⟨hdiags', haborted', y, hy⟩ := ofSource_written hq (fun r t => (hpieces r t).2) maxErrors
    refine ⟨⟨hdiags, haborted⟩, ⟨hdiags', haborted'⟩,
      decoded (parts plain.text).raw (parts plain.text).body, x, y, ?_, ?_⟩
    · rw [hx, literalValue, hplain, hbytes]
      simp [plainText]
    · rw [hy, literalValue, if_pos hformatted, joined, joinedValues_decoded]
      rfl

/-- Both quotes, a backslash, a line feed and braces, some of them behind `\N`; a raw body with both
quotes and a line feed behind a backslash, in three quotes of either sort. -/
theorem ParsedExpr.ofSource_formatted_mixed :
    let s := utf8 "\x7bit's\x7d\\N\x7b\"\n\x7d"
    let body := utf8 "a\\\n\"'b"
    let plain : Written := ⟨utf8 "R", ascii '"', true, body⟩
    let formatted : Written := ⟨utf8 "rF", ascii '\'', true, body⟩
    let t : Token := ⟨.stringLit, ⟨0, 14⟩, plain.text, 1, 2⟩
    let t' : Token := ⟨.stringLit, ⟨20, 35⟩, formatted.text, 3, 4⟩
    (∃ x, (ParsedExpr.ofSource (ascii 'f' :: doubled (Quoted.text s)) 1).expr =
        .joined x [.constant x (.text s false)]) ∧
      (∃ text pieces, ∀ (r : Rules) (s : State),
        (tokenPieces r t (parts t.lexeme)).run s = ([.text text], s) ∧
          (tokenPieces r t' (parts t'.lexeme)).run s = (pieces, s)) ∧
      ∃ text x y, (ParsedExpr.ofSource plain.text 1).expr = .constant x (.text text false) ∧
        (ParsedExpr.ofSource formatted.text 1).expr =
          .joined y (if text.isEmpty then [] else [.constant y (.text text false)]) := by
  intro s body plain formatted t t'
  obtain ⟨hquoted, htokens, hsources⟩ := ParsedExpr.ofSource_formatted 1
  have hplain : plain.IsToken [] := ⟨.inr (by decide), .inr rfl, by decide, by decide⟩
  have hformatted : formatted.IsToken [] := ⟨.inr (by decide), .inl rfl, by decide, by decide⟩
  refine ⟨(hquoted s (by decide)).2.2, ?_, ?_⟩
  · obtain ⟨text, pieces, hrun⟩ := htokens t t' (by decide) (by decide) (by decide) (by decide)
      (by decide) (by decide)
    exact ⟨text, pieces, fun r s => ⟨(hrun r s).1, (hrun r s).2.1⟩⟩
  · obtain ⟨-, -, hvalues⟩ := hsources plain formatted hplain hformatted (by decide) (by decide)
      (by decide) (by decide) rfl (by decide)
    exact hvalues

end CloneScout
