import CloneScout.Grammar.Rules
import CloneScout.Grammar.Strings
import CloneScout.Proofs.Grammar.State
import CloneScout.Proofs.Token.Template

/-!
# String expressions are lawful

What the rules to come back to have to satisfy so that a rule over them is steady and reads a lawful
tree. The texts of a string expression are sequences of code points: they are cut out of lawful
tokens and their escapes stand for code points.
-/

namespace CloneScout

/-- Every node of the expression is lawful. -/
abbrev Expr.IsLawful (e : Expr) : Prop := Every.expr Node.Lawful e

/-- Every node of the pattern is lawful. -/
abbrev Pattern.IsLawful (p : Pattern) : Prop := Every.pattern Node.Lawful p

/-- Every node of the statement is lawful. -/
abbrev Stmt.IsLawful (s : Stmt) : Prop := Every.stmt Node.Lawful s

/-- The parameters and every node in them are lawful. -/
def Params.IsLawful : Params → Prop
  | .mk posOnly plain star kwOnly doubleStar =>
    Params.Lawful posOnly plain star kwOnly doubleStar ∧
      Every.params Node.Lawful (.mk posOnly plain star kwOnly doubleStar)

namespace Grammar

/-- The rules to come back to are steady. -/
class Rules.Steady (r : Rules) : Prop where
  recur (g : Goal) : Grammar.Steady (r.recur g)
  field (t : Token) (offset line : Nat) (text : Text) : Grammar.Steady (r.field t offset line text)

section

variable (r : Rules) [h : r.Steady]

instance steady_rules_expression : Steady r.expression := h.recur .expression

instance steady_rules_disjunction : Steady r.disjunction := h.recur .disjunction

instance steady_rules_inversion : Steady r.inversion := h.recur .inversion

instance steady_rules_arithmetic (floor : Nat) : Steady (r.arithmetic floor) :=
  h.recur (.arithmetic floor)

instance steady_rules_factor : Steady r.factor := h.recur .factor

instance steady_rules_pattern : Steady r.pattern := h.recur .pattern

instance steady_rules_statement : Steady r.statement := h.recur .statement

instance steady_rules_branch : Steady r.branch := h.recur .branch

instance steady_rules_field (t : Token) (offset line : Nat) (text : Text) :
    Steady (r.field t offset line text) :=
  h.field t offset line text

end

/-- The rules to come back to read lawful trees. -/
structure Rules.Lawful (r : Rules) : Prop where
  expression : Finds r.expression Expr.IsLawful
  disjunction : Finds r.disjunction Expr.IsLawful
  inversion : Finds r.inversion Expr.IsLawful
  arithmetic (floor : Nat) : Finds (r.arithmetic floor) Expr.IsLawful
  factor : Finds r.factor Expr.IsLawful
  pattern : Finds r.pattern Pattern.IsLawful
  statement : Finds r.statement fun ss => ∀ s ∈ ss, s.IsLawful
  branch : Finds r.branch Stmt.IsLawful
  field (t : Token) (offset line : Nat) {text : Text} (h : Utf8.IsEncoded text) :
    Finds (r.field t offset line text) Expr.IsLawful

end Grammar

end CloneScout

namespace CloneScout.Grammar

open Utf8

variable (r : Rules) [r.Steady]

/-! ## Steadiness -/

instance steady_fieldPieces (t : Token) (base : Nat) (format : Nat → Text → Parser (List Piece))
    [∀ n text, Steady (format n text)] (f : Template.Field) :
    Steady (fieldPieces r t base format f) := by
  unfold fieldPieces
  cases f.format with
  | none =>
    dsimp only
    infer_instance
  | some format =>
    dsimp only
    split <;> infer_instance

theorem steady_segment (t : Token) (raw : Bool) (base : Nat)
    (format : Nat → Text → Parser (List Piece)) [∀ n text, Steady (format n text)]
    (segment : Template.Segment) :
    Steady (match segment with
      | .literal lit => pure [Piece.text (if raw then lit else StringLiteral.unescape false lit)]
      | .stray => do
        report .fStringUnmatchedBrace t.span [Template.closeBrace]
        return []
      | .field f => fieldPieces r t base format f) := by
  cases segment <;> infer_instance

instance steady_templatePieces (t : Token) (raw : Bool) (levels base : Nat) (template : Text) :
    Steady (templatePieces r t raw levels base template) := by
  induction levels generalizing base template with
  | zero =>
    unfold templatePieces
    infer_instance
  | succ levels ih =>
    have hsegment := steady_segment r t raw base (templatePieces r t raw levels)
    unfold templatePieces
    infer_instance

instance steady_tokenPieces (t : Token) (parts : StringLiteral.Parts) :
    Steady (tokenPieces r t parts) := by
  unfold tokenPieces
  infer_instance

instance steady_stringTokens : Steady (stringTokens r) := by
  unfold stringTokens
  infer_instance

instance steady_strings : Steady (strings r) := by
  unfold strings
  dsimp only
  infer_instance

/-! ## Pieces -/

/-- The text of a piece is a sequence of code points, and its field is lawful. -/
def Piece.IsLawful : Piece → Prop
  | .text t => IsEncoded t
  | .field e => e.IsLawful

theorem lawful_joinedValues {x : Extent} {run : Text} {pieces : List Piece} (hrun : IsEncoded run)
    (h : ∀ p ∈ pieces, p.IsLawful) : ∀ e ∈ joinedValues x run pieces, e.IsLawful := by
  have hconstant {run : Text} (hrun : IsEncoded run) :
      ∀ e ∈ (if run.isEmpty then [] else [Expr.constant x (.text run false)]), e.IsLawful := by
    intro e he
    split at he
    · exact absurd he (by simp)
    · obtain rfl := List.mem_singleton.mp he
      exact ⟨hrun, trivial⟩
  induction pieces generalizing run with
  | nil => exact hconstant hrun
  | cons p pieces ih =>
    obtain ⟨hp, hrest⟩ := List.forall_mem_cons.mp h
    cases p with
    | text t => exact ih (hrun.append hp) hrest
    | field value =>
      intro e he
      rcases List.mem_append.mp he with he | he
      · exact hconstant hrun e he
      · rcases List.mem_cons.mp he with rfl | he
        · exact hp
        · exact ih .nil hrest e he

theorem lawful_joined {x : Extent} {pieces : List Piece} (h : ∀ p ∈ pieces, p.IsLawful) :
    (joined x pieces).IsLawful :=
  ⟨trivial, Every.exprs_iff.mpr (lawful_joinedValues .nil h)⟩

variable {r}

/-! ## Templates -/

theorem finds_fieldPieces (hr : r.Lawful) {t : Token} {base : Nat}
    {format : Nat → Text → Parser (List Piece)} [∀ n text, Steady (format n text)]
    (hformat : ∀ n text, IsEncoded text → Finds (format n text) fun ps => ∀ p ∈ ps, p.IsLawful)
    {f : Template.Field} (hf : f.Lawful) :
    Finds (fieldPieces r t base format f) fun ps => ∀ p ∈ ps, p.IsLawful := by
  have htail (value : Expr) (spec : Option Expr) (hvalue : value.IsLawful)
      (hspec : Every.optExpr Node.Lawful spec) (s : State) :
      Gives s (if f.closed = true then
          pure ((f.shown.elim [] fun shown => [Piece.text shown]) ++
            [Piece.field (.formatted (tokenExtent t) value (fieldConversion f) spec)])
        else do
          report .fStringUnmatchedBrace t.span [Template.openBrace]
          pure ((f.shown.elim [] fun shown => [Piece.text shown]) ++
            [Piece.field (.formatted (tokenExtent t) value (fieldConversion f) spec)]))
        fun ps _ => ∀ p ∈ ps, p.IsLawful := by
    split
    · refine .pure fun p hp => ?_
      rcases List.mem_append.mp hp with hp | hp
      · have hshown := hf.shown
        cases hs : f.shown with
        | none =>
          rw [hs] at hp
          exact absurd hp (by simp)
        | some shown =>
          rw [hs] at hp hshown
          obtain rfl := List.mem_singleton.mp hp
          exact hshown shown rfl
      · obtain rfl := List.mem_singleton.mp hp
        exact ⟨trivial, hvalue, hspec⟩
    · exact .fault
  have hspec := hf.format
  intro s
  unfold fieldPieces
  cases hformat' : f.format with
  | none =>
    dsimp only
    split
    · exact .fault
    · refine (hr.field t _ _ hf.expr).bind fun value hvalue s₁ => ?_
      split
      · exact .fault
      · exact htail value none hvalue trivial s₁
  | some found =>
    obtain ⟨offset, text⟩ := found
    rw [hformat'] at hspec
    dsimp only
    split
    · exact .fault
    · refine (hr.field t _ _ hf.expr).bind fun value hvalue s₁ => ?_
      split
      · exact .fault
      · refine (hformat _ _ (hspec _ rfl)).bind fun pieces hpieces s₂ => ?_
        exact htail value (some (joined (tokenExtent t) pieces)) hvalue (lawful_joined hpieces) s₂

/-- A field that is not closed is reported. -/
theorem finds_fieldPieces_of_open {t : Token} {base : Nat}
    {format : Nat → Text → Parser (List Piece)} [∀ n text, Steady (format n text)]
    {f : Template.Field} (hf : f.closed ≠ true) :
    Finds (fieldPieces r t base format f) fun _ => False := by
  intro s
  unfold fieldPieces
  cases f.format with
  | none =>
    dsimp only
    split
    · exact .fault
    · refine .skip fun value s₁ => ?_
      split
      · exact .fault
      · refine .skip fun spec s₂ => ?_
        exact .fault
  | some found =>
    dsimp only
    split
    · exact .fault
    · refine .skip fun value s₁ => ?_
      split
      · exact .fault
      · refine .skip fun pieces s₂ => .skip fun spec s₃ => ?_
        exact .fault

theorem finds_templatePieces (hr : r.Lawful) {t : Token} {raw : Bool} {levels base : Nat}
    {template : Text} (h : IsEncoded template) :
    Finds (templatePieces r t raw levels base template) fun ps => ∀ p ∈ ps, p.IsLawful := by
  induction levels generalizing base template with
  | zero =>
    intro s
    unfold templatePieces
    exact .fault
  | succ levels ih =>
    have hsteady := steady_segment r t raw base (templatePieces r t raw levels)
    intro s
    unfold templatePieces
    -- one field that is not closed is reported; otherwise all segments are lawful
    by_cases hopen : ∃ f, .field f ∈ Template.segments raw template ∧ f.closed ≠ true
    · obtain ⟨f, hf, hclosed⟩ := hopen
      refine (Finds.mapM_of_false ⟨.field f, hf, ?_⟩).bind fun _ h _ => h.elim
      exact finds_fieldPieces_of_open hclosed
    · have hlawful := Template.segments_lawful h fun f hf =>
        Decidable.of_not_not fun hclosed => hopen ⟨f, hf, hclosed⟩
      refine Finds.bind (Q := fun pss => ∀ ps ∈ pss, ∀ p ∈ ps, p.IsLawful) ?_ fun pss hpss s₁ => ?_
      · refine Finds.mapM fun segment hsegment => ?_
        have hsegment := hlawful segment hsegment
        cases segment with
        | literal lit =>
          refine Finds.pure fun p hp => ?_
          obtain rfl := List.mem_singleton.mp hp
          show IsEncoded (if raw then lit else StringLiteral.unescape false lit)
          split
          · exact hsegment
          · exact StringLiteral.unescape_encoded hsegment
        | stray => exact fun s => .fault
        | field f => exact finds_fieldPieces hr (fun n text htext => ih htext) hsegment
      · refine .pure fun p hp => ?_
        obtain ⟨ps, hps, hp⟩ := List.mem_flatten.mp hp
        exact hpss ps hps p hp

/-! ## String tokens -/

/-- A string token with its pieces: texts of a byte string are any bytes. -/
def TokenPieces.IsLawful (found : StringLiteral.Parts × List Piece) : Prop :=
  (found.1.formatted = true → found.1.bytes = false) ∧
    (found.1.bytes = false → ∀ p ∈ found.2, p.IsLawful)

theorem finds_tokenPieces (hr : r.Lawful) {t : Token} (ht : t.Lawful) (hk : t.kind = .stringLit) :
    Finds (tokenPieces r t (StringLiteral.parts t.lexeme)) fun ps =>
      TokenPieces.IsLawful (StringLiteral.parts t.lexeme, ps) := by
  obtain ⟨hbody, hbytes⟩ := ht.stringLit hk
  intro s
  unfold tokenPieces
  split
  · exact (finds_templatePieces hr hbody s).mono fun ps _ hps => ⟨hbytes, fun _ => hps⟩
  · refine .pure ⟨hbytes, fun hfalse p hp => ?_⟩
    obtain rfl := List.mem_singleton.mp hp
    dsimp only at hfalse
    rw [hfalse]
    show IsEncoded (if _ then _ else _)
    split
    · exact hbody
    · exact StringLiteral.unescape_encoded hbody

theorem finds_stringTokens (hr : r.Lawful) :
    Finds (stringTokens r) fun found => ∀ f ∈ found, TokenPieces.IsLawful f := by
  refine Finds.collect (by simp) fun s => ?_
  refine .skip fun aborted s₁ => .bind (.at? .stringLit) fun b s₂ hb => ?_
  obtain ⟨rfl, hb⟩ := hb
  split
  · next hcond =>
    rw [Bool.and_eq_true] at hcond
    refine .bind .bump fun t s₃ ht => ?_
    have hk : t.kind = .stringLit := by
      rw [ht.1]
      exact hb.mp hcond.2
    refine (finds_tokenPieces hr ht.2.1 hk).bind fun ps hps s₄ => .pure fun f hf => ?_
    obtain rfl := List.mem_singleton.mp hf
    exact hps
  · exact .pure (by simp)

theorem encoded_plainText {pieces : List Piece} (h : ∀ p ∈ pieces, p.IsLawful) :
    IsEncoded (plainText pieces) := by
  induction pieces with
  | nil => exact .nil
  | cons p pieces ih =>
    obtain ⟨hp, hrest⟩ := List.forall_mem_cons.mp h
    unfold plainText at ih ⊢
    rw [List.flatMap_cons]
    refine IsEncoded.append ?_ (ih hrest)
    cases p with
    | text t => exact hp
    | field e => exact .nil

theorem finds_strings (hr : r.Lawful) : Finds (strings r) Expr.IsLawful := by
  intro s
  unfold strings
  refine .skip fun first s₁ => (finds_stringTokens hr).bind fun found hfound s₂ => ?_
  dsimp only
  split
  · exact .fault
  · next hbytes =>
    -- all tokens are byte strings or none is, so if one is formatted then none is
    have hsame : ∀ f ∈ found, f.1.bytes = found.head?.any (·.1.bytes) := by
      intro f hf
      simp only [List.any_eq_true, bne_iff_ne, ne_eq, not_exists, not_and,
        Decidable.not_not] at hbytes
      exact hbytes f hf
    have hpieces (hfalse : found.head?.any (·.1.bytes) = false) :
        ∀ p ∈ found.flatMap (·.2), p.IsLawful := by
      intro p hp
      obtain ⟨f, hf, hp⟩ := List.mem_flatMap.mp hp
      exact (hfound f hf).2 (by rw [hsame f hf, hfalse]) p hp
    refine .skip fun x s₃ => ?_
    split
    · next hformatted =>
      obtain ⟨f, hf, hformatted⟩ := List.any_eq_true.mp hformatted
      refine .pure (lawful_joined (hpieces ?_))
      rw [← hsame f hf]
      exact (hfound f hf).1 hformatted
    · split
      · exact .pure ⟨trivial, trivial⟩
      · next hfalse => exact .pure ⟨encoded_plainText (hpieces (by simpa using hfalse)), trivial⟩

end CloneScout.Grammar
