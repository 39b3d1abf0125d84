import CloneScout.Proofs.Grammar.Printing
import Mathlib.Data.List.Forall2

/-!
# Adjacent literals

Texts that are quoted and written with blanks between them are read as one constant: all of them
together. The same holds for byte strings.
-/

namespace CloneScout

namespace Grammar

open StringLiteral (Parts IsLiteral)

/-! ## String tokens -/

/-- A string token with the given letters, and the text that it stands for. -/
def StandsFor (letters : Text) (w : Lexeme) (t : Text) : Prop :=
  ∃ quote body, w = ⟨.stringLit, letters ++ quote :: (body ++ [quote])⟩ ∧
    IsLiteral letters quote body ∧ StringLiteral.unescape (!letters.isEmpty) body = t

/-- What is found for a token that stands for a text. -/
def FoundFor (letters : Text) (found : Parts × List Piece) (t : Text) : Prop :=
  (found.1.bytes = !letters.isEmpty ∧ found.1.marked = false ∧ found.1.formatted = false) ∧
    found.2 = [.text t]

variable {letters : Text} {r : Rules}

/-- One round of the loop over string tokens. -/
def stringRound (r : Rules) : Parser (List (Parts × List Piece) × Bool) := do
  if !(← isAborted) && (← at? .stringLit) then
    let t ← bump
    let parts := StringLiteral.parts t.lexeme
    return ([(parts, ← tokenPieces r t parts)], true)
  else return ([], false)

theorem reads_stringRound_of {w : Lexeme} {us : List Lexeme} {pieces : List Piece}
    (hkind : w.kind = .stringLit) (h : ∀ t : Token, t.lexeme = w.text →
      tokenPieces r t (StringLiteral.parts w.text) = pure pieces) :
    Reads (stringRound r) (w :: us) us (· = ([(StringLiteral.parts w.text, pieces)], true)) := by
  refine Reads.isAborted.seq ((Reads.at? (decide_eq_true hkind)).seq
    (Reads.bump.bind fun token htoken => ?_))
  have hlexeme : token.lexeme = w.text := congrArg Lexeme.text htoken
  rw [hlexeme]
  dsimp only
  rw [h token hlexeme]
  exact .pure rfl

theorem reads_stringRound {w : Lexeme} {us : List Lexeme} {t : Text} (h : StandsFor letters w t) :
    Reads (stringRound r) (w :: us) us fun p =>
      p.2 = true ∧ ∃ found, p.1 = [found] ∧ FoundFor letters found t := by
  obtain ⟨quote, body, rfl, hliteral, hbody⟩ := h
  obtain ⟨hraw, hbytes, hmarked, hformatted, hcut⟩ := hliteral.parts_eq
  have hpieces (token : Token) :
      tokenPieces r token (StringLiteral.parts (letters ++ quote :: (body ++ [quote]))) =
        pure [.text t] := by
    rw [tokenPieces, hformatted, if_neg Bool.false_ne_true, hraw, if_neg Bool.false_ne_true, hbytes,
      hcut, hbody]
  refine (reads_stringRound_of rfl fun token _ => hpieces token).mono fun p hp => ?_
  subst hp
  exact ⟨rfl, _, rfl, ⟨hbytes, hmarked, hformatted⟩, rfl⟩

theorem reads_stringRound_end {w : Lexeme} {us : List Lexeme} (h : w.kind ≠ .stringLit) :
    Reads (stringRound r) (w :: us) (w :: us) (· = ([], false)) :=
  Reads.isAborted.seq ((Reads.at? (decide_eq_false h)).seq (.pure rfl))

theorem collects_strings {ws : List Lexeme} {ts : List Text}
    (h : List.Forall₂ (StandsFor letters) ws ts) (us : List Lexeme) :
    Collects (stringRound r) (ws ++ us) us fun found =>
      List.Forall₂ (FoundFor letters) found ts := by
  induction h with
  | nil => exact .nil .nil
  | @cons w t ws ts hfirst _ ih =>
    refine .cons (P := fun items => ∃ found, items = [found] ∧ FoundFor letters found t)
      (reads_stringRound hfirst) (by simp) ih fun xs ys hxs hys => ?_
    obtain ⟨found, rfl, hfound⟩ := hxs
    exact .cons hfound hys

theorem reads_stringTokens {ws : List Lexeme} {ts : List Text}
    (h : List.Forall₂ (StandsFor letters) ws ts) {w : Lexeme} (us : List Lexeme)
    (hend : w.kind ≠ .stringLit) : Reads (stringTokens r) (ws ++ w :: us) (w :: us) fun found =>
      List.Forall₂ (FoundFor letters) found ts := by
  refine (Reads.collect (collects_strings h _) (reads_stringRound_end hend)).mono fun found hfound => ?_
  obtain ⟨xs, rfl, hxs⟩ := hfound
  exact hxs

/-! ## What is found -/

section

variable {found : List (Parts × List Piece)} {ts : List Text}

theorem plainText_found (h : List.Forall₂ (FoundFor letters) found ts) :
    plainText (found.flatMap (·.2)) = ts.flatten := by
  induction h with
  | nil => rfl
  | cons hfirst _ ih =>
    rw [plainText] at ih ⊢
    rw [List.flatMap_cons, hfirst.2, List.flatten_cons, ← ih]
    rfl

/-- No token is marked, a template, or of another kind than the letters say. -/
theorem any_found (h : List.Forall₂ (FoundFor letters) found ts) (P : Parts → Bool)
    (hP : ∀ p : Parts, p.bytes = !letters.isEmpty → p.marked = false → p.formatted = false →
      P p = false) : (found.any fun f => P f.1) = false := by
  induction h with
  | nil => rfl
  | cons hfirst _ ih =>
    rw [List.any_cons, hP _ hfirst.1.1 hfirst.1.2.1 hfirst.1.2.2, ih]
    rfl

/-- The constant that stands for the texts. -/
def literalConstant (letters : Text) (t : Text) : Constant :=
  if letters.isEmpty then .text t false else .bytes t

end

/-- String tokens that stand for texts are read as one constant. -/
theorem reads_strings {v w : Lexeme} {vs us : List Lexeme} {ts : List Text}
    (h : List.Forall₂ (StandsFor letters) (v :: vs) ts) (hend : w.kind ≠ .stringLit) :
    Reads (strings r) (v :: vs ++ w :: us) (w :: us) fun e =>
      ∃ x, e = .constant x (literalConstant letters ts.flatten) := by
  refine Reads.peek.bind fun first _ => (reads_stringTokens h us hend).bind fun found hfound => ?_
  obtain ⟨t, ts, -, -, rfl⟩ := List.forall₂_cons_left_iff.mp h
  have hbytes : (found.head?.any fun f => f.1.bytes) = !letters.isEmpty := by
    cases hfound with
    | cons hfirst _ => exact hfirst.1.1
  have hmarked : (found.head?.any fun f => f.1.marked) = false := by
    cases hfound with
    | cons hfirst _ => exact hfirst.1.2.1
  have hmixed : (found.any fun f => f.1.bytes != !letters.isEmpty) = false :=
    any_found hfound (fun p => p.bytes != !letters.isEmpty) fun p hp _ _ => by rw [hp, bne_self_eq_false]
  have hformatted : (found.any fun f => f.1.formatted) = false :=
    any_found hfound (fun p => p.formatted) fun _ _ _ hp => hp
  simp only [hbytes, hmarked, hmixed, hformatted, Bool.false_eq_true, if_false,
    plainText_found hfound]
  refine (Reads.extentFrom first).bind fun x _ => ?_
  unfold literalConstant
  cases letters.isEmpty with
  | true => exact .pure ⟨x, rfl⟩
  | false => exact .pure ⟨x, rfl⟩

theorem reads_wholeExpression_literals {ws : List Lexeme} {ts : List Text}
    (h : List.Forall₂ (StandsFor letters) ws ts) (hne : ws ≠ []) (field : FieldReader) :
    Reads (wholeExpression field) (ws ++ [.eof]) [.eof] fun e =>
      ∃ x, e = .constant x (literalConstant letters ts.flatten) := by
  obtain ⟨v, vs, rfl⟩ := List.exists_cons_of_ne_nil hne
  have hkind : v.kind = .stringLit := by
    cases h with
    | cons hfirst _ =>
      obtain ⟨_, _, rfl, -⟩ := hfirst
      rfl
  have hopens (rank : Nat) : v.kind.opens rank = true := by rw [hkind]; rfl
  refine reads_wholeExpression ⟨v, vs, rfl, hopens 1⟩ fun n _ => ?_
  refine reads_expression_atom ?_ (fun rank _ => hopens rank) rfl
  refine Reads.peek.bind fun first hfirst => ?_
  have hfirst : first.kind = .stringLit := (congrArg Lexeme.kind hfirst).trans hkind
  rw [hfirst]
  exact reads_strings h (by decide)

end Grammar

/-! ## Texts of literals -/

open Grammar (StandsFor literalConstant)

theorem phrase_of_standsFor {letters : Text} {ws : List Lexeme} {ts : List Text}
    (h : List.Forall₂ (StandsFor letters) ws ts) : Token.Phrase ws := by
  induction h with
  | nil => exact .nil
  | cons hfirst _ ih =>
    obtain ⟨quote, body, rfl, hliteral, -⟩ := hfirst
    exact .cons (.literal hliteral) ⟨rfl, rfl⟩ ih

theorem ParsedExpr.ofSource_of_standsFor {letters : Text} {ws : List Lexeme} {ts : List Text}
    (h : List.Forall₂ (StandsFor letters) ws ts) (hne : ws ≠ []) (maxErrors : Nat) :
    let p := ParsedExpr.ofSource (Text.join (utf8 " ") (ws.map Lexeme.text)) maxErrors
    p.diags = #[] ∧ p.aborted = false ∧
      ∃ x, p.expr = .constant x (literalConstant letters ts.flatten) :=
  ParsedExpr.ofSource_of_reads (phrase_of_standsFor h)
    (Grammar.reads_wholeExpression_literals h hne _) maxErrors

/-- The tokens of literals. -/
def literalTokens (write : Text → Text) (ts : List Text) : List Lexeme :=
  ts.map fun t => ⟨.stringLit, write t⟩

theorem standsFor_literalTokens {letters : Text} {write : Text → Text} {ts : List Text}
    (h : ∀ t ∈ ts, StandsFor letters ⟨.stringLit, write t⟩ t) :
    List.Forall₂ (StandsFor letters) (literalTokens write ts) ts := by
  induction ts with
  | nil => exact .nil
  | cons t ts ih =>
    obtain ⟨hfirst, hrest⟩ := List.forall_mem_cons.mp h
    exact .cons hfirst (ih hrest)

theorem text_literalTokens (write : Text → Text) (ts : List Text) :
    (literalTokens write ts).map Lexeme.text = ts.map write := by
  rw [literalTokens, List.map_map]
  rfl

theorem Quoted.standsFor_text {t : Text} (h : Utf8.isValid t = true) :
    StandsFor [] ⟨.stringLit, Quoted.text t⟩ t := by
  obtain ⟨body, htext, hliteral, hbody⟩ :=
    Quoted.exists_text (.of_firstInvalid (Utf8.firstInvalid_of_isValid h 0))
  exact ⟨_, body, by rw [htext]; rfl, hliteral, hbody⟩

theorem Quoted.standsFor_bytes (t : Text) :
    StandsFor [ascii 'b'] ⟨.stringLit, Quoted.bytes t⟩ t := by
  obtain ⟨body, hbytes, hliteral, hbody⟩ := Quoted.exists_bytes t
  exact ⟨_, body, by rw [hbytes], hliteral, hbody⟩

/-- Quoted texts with single blanks between them are read without a fault as the constant of all the
texts together, and quoted byte strings as the constant of all the byte strings together. -/
theorem ParsedExpr.ofSource_quoted (maxErrors : Nat) :
    (∀ ts : List Text, ts ≠ [] → (∀ t ∈ ts, Utf8.isValid t = true) →
      let p := ParsedExpr.ofSource (Text.join (utf8 " ") (ts.map Quoted.text)) maxErrors
      p.diags = #[] ∧ p.aborted = false ∧ ∃ x, p.expr = .constant x (.text ts.flatten false)) ∧
    (∀ ts : List Text, ts ≠ [] →
      let p := ParsedExpr.ofSource (Text.join (utf8 " ") (ts.map Quoted.bytes)) maxErrors
      p.diags = #[] ∧ p.aborted = false ∧ ∃ x, p.expr = .constant x (.bytes ts.flatten)) := by
  constructor
  · intro ts hne hvalid
    have hread := ParsedExpr.ofSource_of_standsFor
      (standsFor_literalTokens fun t ht => Quoted.standsFor_text (hvalid t ht))
      (fun hnil => hne (List.map_eq_nil_iff.mp hnil)) maxErrors
    rwa [text_literalTokens] at hread
  · intro ts hne
    have hread := ParsedExpr.ofSource_of_standsFor
      (standsFor_literalTokens fun t (_ : t ∈ ts) => Quoted.standsFor_bytes t)
      (fun hnil => hne (List.map_eq_nil_iff.mp hnil)) maxErrors
    rwa [text_literalTokens] at hread

/-- Both quotes, a backslash, layout, a letter of two bytes and one that is not printed; an empty
text; and bytes that are no UTF-8. -/
theorem ParsedExpr.ofSource_quoted_mixed :
    let ts := [utf8 "it's \"\\\"\n\té\u200b", [], utf8 "x"]
    let bs : List Text := [[], [0x27, 0x22, 0x5C, 0x00, 0xFF], [0x0A]]
    (∃ x, (ParsedExpr.ofSource (Text.join (utf8 " ") (ts.map Quoted.text)) 1).expr =
        .constant x (.text ts.flatten false)) ∧
      ∃ x, (ParsedExpr.ofSource (Text.join (utf8 " ") (bs.map Quoted.bytes)) 1).expr =
        .constant x (.bytes bs.flatten) := by
  intro ts bs
  have htexts := (ParsedExpr.ofSource_quoted 1).1 ts (by decide) (by decide)
  have hbytes := (ParsedExpr.ofSource_quoted 1).2 bs (by decide)
  exact ⟨htexts.2.2, hbytes.2.2⟩

end CloneScout
