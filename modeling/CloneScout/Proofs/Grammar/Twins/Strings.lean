import CloneScout.Proofs.Grammar.Strings
import CloneScout.Proofs.Grammar.Twins
import CloneScout.Proofs.Tree.Agree

/-!
# Strings side by side

What the rules to come back to have to satisfy so that a rule over them finds agreeing trees in both
runs, and that string expressions agree.
-/

namespace CloneScout.Grammar

variable {A : Nat → Nat → Prop}

/-- The rules to come back to find agreeing trees in both runs. Offset and line of a replacement field
do not matter. -/
structure Rules.Twin (A : Nat → Nat → Prop) (r : Rules) : Prop where
  expression : Twins A r.expression r.expression (Expr.AgreeFrom A)
  /-- No expression starts with a token that only lays out the lines. -/
  layout {s s' : State} (h : s.cursor.kind.isLayout = true) :
    Both A s s' r.expression r.expression fun _ _ => False
  disjunction : Twins A r.disjunction r.disjunction (Expr.AgreeFrom A)
  inversion : Twins A r.inversion r.inversion (Expr.AgreeFrom A)
  arithmetic (floor : Nat) : Twins A (r.arithmetic floor) (r.arithmetic floor) (Expr.AgreeFrom A)
  factor : Twins A r.factor r.factor (Expr.AgreeFrom A)
  pattern : Twins A r.pattern r.pattern Pattern.Agree
  statement : Twins A r.statement r.statement Stmt.AgreeAll
  branch : Twins A r.branch r.branch Stmt.Agree
  field (t t' : Token) (offset offset' line line' : Nat) (text : Text) :
    Twins A (r.field t offset line text) (r.field t' offset' line' text) (Expr.Agree .load)

/-! ## Pieces -/

inductive Piece.Agree : Piece → Piece → Prop where
  | text (t : Text) : Agree (.text t) (.text t)
  | field {e e' : Expr} (h : e.Agree .load e') : Agree (.field e) (.field e')

theorem agree_joinedValues {x x' : Extent} {pieces pieces' : List Piece} (run : Text)
    (h : List.Forall₂ Piece.Agree pieces pieces') :
    Expr.AgreeAll .load (joinedValues x run pieces) (joinedValues x' run pieces') := by
  have hrun (run : Text) : Expr.AgreeAll .load
      (if run.isEmpty then [] else [.constant x (.text run false)])
      (if run.isEmpty then [] else [.constant x' (.text run false)]) := by
    split
    · exact .nil
    · exact .cons ⟨rfl, fun _ => rfl⟩ .nil
  induction h generalizing run with
  | nil => exact hrun run
  | cons hp _ ih =>
    cases hp with
    | text t => exact ih (run ++ t)
    | field he => exact List.rel_append (hrun run) (.cons he (ih []))

theorem agree_joined {x x' : Extent} {pieces pieces' : List Piece}
    (h : List.Forall₂ Piece.Agree pieces pieces') :
    (joined x pieces).AgreeFrom A (joined x' pieces') :=
  .joined (agree_joinedValues [] h)

theorem plainText_eq {pieces pieces' : List Piece} (h : List.Forall₂ Piece.Agree pieces pieces') :
    plainText pieces = plainText pieces' := by
  unfold plainText
  induction h with
  | nil => rfl
  | cons hp _ ih =>
    rw [List.flatMap_cons, List.flatMap_cons, ih]
    cases hp <;> rfl

variable {r : Rules}

/-! ## Templates -/

theorem twins_fieldPieces (hr : r.Twin A) {t t' : Token} {base base' : Nat}
    {format format' : Nat → Text → Parser (List Piece)} [∀ n text, Steady (format n text)]
    [∀ n text, Steady (format' n text)]
    (hformat : ∀ n n' text, Twins A (format n text) (format' n' text) (List.Forall₂ Piece.Agree))
    (f : Template.Field) :
    Twins A (fieldPieces r t base format f) (fieldPieces r t' base' format' f)
      (List.Forall₂ Piece.Agree) := by
  have htail (value value' : Expr) (spec spec' : Option Expr) (hvalue : value.Agree .load value')
      (hspec : Expr.AgreeOpt .load spec spec') (s s' : State) :
      Both A s s'
        (if f.closed = true then
          pure ((f.shown.elim [] fun shown => [Piece.text shown]) ++
            [Piece.field (.formatted (tokenExtent t) value (fieldConversion f) spec)])
        else do
          report .fStringUnmatchedBrace t.span [Template.openBrace]
          pure ((f.shown.elim [] fun shown => [Piece.text shown]) ++
            [Piece.field (.formatted (tokenExtent t) value (fieldConversion f) spec)]))
        (if f.closed = true then
          pure ((f.shown.elim [] fun shown => [Piece.text shown]) ++
            [Piece.field (.formatted (tokenExtent t') value' (fieldConversion f) spec')])
        else do
          report .fStringUnmatchedBrace t'.span [Template.openBrace]
          pure ((f.shown.elim [] fun shown => [Piece.text shown]) ++
            [Piece.field (.formatted (tokenExtent t') value' (fieldConversion f) spec')]))
        (List.Forall₂ Piece.Agree) := by
    refine .ite (fun _ => .pure (List.rel_append ?_ (.cons (.field ?_) .nil))) fun _ => .fault
    · cases f.shown with
      | none => exact .nil
      | some shown => exact .cons (.text shown) .nil
    · exact (Expr.AgreeFrom.formatted (A := A) _ hvalue hspec).toAgree
  intro s s'
  unfold fieldPieces
  cases f.format with
  | none =>
    dsimp only
    refine .ite (fun _ => .fault) fun _ => (hr.field ..).bind fun value value' hvalue s₁ s₁' => ?_
    exact .ite (fun _ => .fault) fun _ => htail _ _ none none hvalue .none s₁ s₁'
  | some found =>
    dsimp only
    refine .ite (fun _ => .fault) fun _ => (hr.field ..).bind fun value value' hvalue s₁ s₁' => ?_
    refine .ite (fun _ => .fault) fun _ => (hformat ..).bind fun ps ps' hps s₂ s₂' => ?_
    exact htail _ _ _ _ hvalue (.some (agree_joined (A := A) hps).toAgree) s₂ s₂'

variable [r.Steady]

theorem twins_templatePieces (hr : r.Twin A) (t t' : Token) (raw : Bool) (levels base base' : Nat)
    (template : Text) :
    Twins A (templatePieces r t raw levels base template)
      (templatePieces r t' raw levels base' template) (List.Forall₂ Piece.Agree) := by
  induction levels generalizing base base' template with
  | zero =>
    intro s s'
    unfold templatePieces
    exact .fault
  | succ levels ih =>
    have hsteady := steady_segment r t raw base (templatePieces r t raw levels)
    have hsteady' := steady_segment r t' raw base' (templatePieces r t' raw levels)
    intro s s'
    unfold templatePieces
    refine Twins.bind (Q := List.Forall₂ (List.Forall₂ Piece.Agree))
      (.mapM (P := Eq) (List.forall₂_refl _) fun segment segment' h => ?_)
      fun pss pss' hpss s₁ s₁' => .pure (List.rel_flatten hpss)
    subst h
    cases segment with
    | literal lit => exact fun s s' => .pure (.cons (.text _) .nil)
    | stray => exact fun s s' => .fault
    | field f => exact twins_fieldPieces hr ih f

theorem twins_tokenPieces (hr : r.Twin A) (t t' : Token) (parts : StringLiteral.Parts) :
    Twins A (tokenPieces r t parts) (tokenPieces r t' parts) (List.Forall₂ Piece.Agree) := by
  intro s s'
  unfold tokenPieces
  refine .ite (fun _ => twins_templatePieces hr t t' _ _ _ _ _ s s') fun _ => ?_
  exact .pure (.cons (.text _) .nil)

/-! ## String tokens -/

/-- The tokens have the same parts and agreeing pieces. -/
def TokenPieces.Agree (a b : StringLiteral.Parts × List Piece) : Prop :=
  a.1 = b.1 ∧ List.Forall₂ Piece.Agree a.2 b.2

theorem TokenPieces.parts_eq {found found' : List (StringLiteral.Parts × List Piece)}
    (h : List.Forall₂ TokenPieces.Agree found found') :
    found.map (·.1) = found'.map (·.1) := by
  induction h with
  | nil => rfl
  | cons h _ ih => rw [List.map_cons, List.map_cons, h.1, ih]

theorem twins_stringTokens (hr : r.Twin A) :
    Twins A (stringTokens r) (stringTokens r) (List.Forall₂ TokenPieces.Agree) := by
  refine .collect .nil fun s s' => .isAborted (.at? (fun hk => .bump fun ht s₁ s₁' _ _ => ?_) fun _ => ?_)
  · have hlexeme : s.cursor.peek.lexeme = s'.cursor.peek.lexeme :=
      ht.lexeme (by rw [show s.cursor.peek.kind = .stringLit from hk]; rfl)
    rw [hlexeme]
    exact (twins_tokenPieces hr ..).bind fun ps ps' hps s₂ s₂' => .pure ⟨.cons ⟨rfl, hps⟩ .nil, rfl⟩
  · exact .pure ⟨.nil, rfl⟩

theorem twins_strings (hr : r.Twin A) : Twins A (strings r) (strings r) (Expr.AgreeFrom A) := by
  intro s s'
  unfold strings
  refine .peek fun _ => (twins_stringTokens hr).bind fun found found' hfound s₁ s₁' => ?_
  have hany (p : StringLiteral.Parts → Bool) :
      found.any (fun f => p f.1) = found'.any fun f => p f.1 := by
    have hparts := congrArg (List.any · p) (TokenPieces.parts_eq hfound)
    simpa [Function.comp_def] using hparts
  have hhead (p : StringLiteral.Parts → Bool) :
      (found.head?.any fun f => p f.1) = found'.head?.any fun f => p f.1 := by
    cases hfound with
    | nil => rfl
    | cons h _ => simp [h.1]
  have hpieces : List.Forall₂ Piece.Agree (found.flatMap (·.2)) (found'.flatMap (·.2)) :=
    List.rel_flatten (List.rel_map (fun _ _ h => h.2) hfound)
  dsimp only
  rw [hhead (·.bytes), hhead (·.marked), hany (·.formatted), plainText_eq hpieces,
    hany fun parts => parts.bytes != found'.head?.any (·.1.bytes)]
  refine .ite (fun _ => .fault) fun _ => .extent fun x x' => .ite (fun _ => ?_) fun _ => ?_
  · exact .pure (agree_joined hpieces)
  · exact .ite (fun _ => .pure (.constant _)) fun _ => .pure (.constant _)

end CloneScout.Grammar
