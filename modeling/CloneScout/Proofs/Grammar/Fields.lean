import CloneScout.Proofs.Grammar.Parse
import CloneScout.Proofs.Token.Fields

/-!
# Which fields the parser reads

The parser asks for nothing but the replacement fields of string tokens that are among its tokens,
each at its own offset and line: a reader that checks this makes no difference.
-/

namespace CloneScout.Grammar

variable {α β σ : Type}

/-! ## Parsers that do the same -/

/-- The two parsers do the same over the given tokens, and leave them as they are. -/
def Same (ts : Array Token) (x y : Parser α) : Prop :=
  ∀ s, s.cursor.tokens = ts → x.run s = y.run s ∧ (x.run s).2.cursor.tokens = ts

namespace Same

variable {ts : Array Token}

theorem refl (x : Parser α) [hx : Steady x] : Same ts x x :=
  fun s hs => ⟨rfl, (hx.leads s).tokens.trans hs⟩

theorem bind {x y : Parser α} {f g : α → Parser β} (h : Same ts x y)
    (hf : ∀ a, Same ts (f a) (g a)) : Same ts (x >>= f) (y >>= g) := by
  intro s hs
  obtain ⟨heq, htokens⟩ := h s hs
  show (f (x.run s).1).run (x.run s).2 = (g (y.run s).1).run (y.run s).2 ∧ _
  rw [← heq]
  exact hf (x.run s).1 (x.run s).2 htokens

/-- In front of both the same is done. -/
theorem skip {x : Parser α} [Steady x] {f g : α → Parser β} (hf : ∀ a, Same ts (f a) (g a)) :
    Same ts (x >>= f) (x >>= g) :=
  (Same.refl x).bind hf

/-- In front of both the same fault may be reported. -/
theorem reporting {x y : Parser α} (h : Same ts x y) {c : Prop} [Decidable c]
    {code : Diagnostic.Code} {span : Span} {arg : Text} :
    Same ts (if c then report code span arg >>= fun _ => x else x)
      (if c then report code span arg >>= fun _ => y else y) := by
  split
  · exact .skip fun _ => h
  · exact h

theorem mapM {f g : α → Parser β} {l : List α} (h : ∀ a ∈ l, Same ts (f a) (g a)) :
    Same ts (l.mapM f) (l.mapM g) := by
  induction l with
  | nil =>
    rw [List.mapM_nil, List.mapM_nil]
    exact .refl _
  | cons a l ih =>
    obtain ⟨ha, hl⟩ := List.forall_mem_cons.mp h
    rw [List.mapM_cons, List.mapM_cons]
    exact ha.bind fun b => (ih hl).bind fun bs => .refl _

theorem iterate {body body' : σ → Parser (σ × Bool)} (h : ∀ a, Same ts (body a) (body' a)) (n : Nat)
    (a : σ) : Same ts (iterate body n a) (iterate body' n a) := by
  induction n generalizing a with
  | zero =>
    unfold Grammar.iterate
    exact .refl _
  | succ n ih =>
    unfold Grammar.iterate
    refine .skip fun before => (h a).bind fun found => ?_
    dsimp only
    split
    · exact .refl _
    · refine .skip fun s => ?_
      split
      · exact ih _
      · exact .refl _

theorem collect {start : List α} {body body' : Parser (List α × Bool)} (h : Same ts body body') :
    Same ts (Grammar.collect start body) (Grammar.collect start body') := by
  unfold Grammar.collect
  refine .bind ?_ fun found => .refl _
  unfold loop
  exact .skip fun s => .iterate (fun found => h.bind fun more => .refl _) _ _

end Same

/-! ## Fields of a token -/

section

variable {ts : Array Token} {r r' : Rules} {t : Token} {base : Nat}

theorem same_fieldPieces {format format' : Nat → Text → Parser (List Piece)} {f : Template.Field}
    (hfield : Same ts (r.field t (base + f.offset) (lineAt t (base + f.offset)) f.expr)
      (r'.field t (base + f.offset) (lineAt t (base + f.offset)) f.expr))
    (hformat : ∀ p ∈ f.format, Same ts (format (base + p.1) p.2) (format' (base + p.1) p.2)) :
    Same ts (fieldPieces r t base format f) (fieldPieces r' t base format' f) := by
  have hspec (value : Expr) (spec : Option Expr) : Steady
      (if f.closed = true then
        pure ((f.shown.elim [] fun shown => [Piece.text shown]) ++
          [Piece.field (.formatted (tokenExtent t) value (fieldConversion f) spec)])
      else do
        report .fStringUnmatchedBrace t.span [Template.openBrace]
        pure ((f.shown.elim [] fun shown => [Piece.text shown]) ++
          [Piece.field (.formatted (tokenExtent t) value (fieldConversion f) spec)])) :=
    .auto
  unfold fieldPieces
  dsimp only
  cases hf : f.format with
  | none =>
    split
    · exact .refl _
    · exact hfield.bind fun value => .refl _
  | some p =>
    have hp := hformat p hf
    split
    · exact .skip fun _ => .skip fun value => .reporting (hp.bind fun _ => .refl _)
    · exact hfield.bind fun value => .reporting (hp.bind fun _ => .refl _)

theorem same_templatePieces {raw : Bool} {levels : Nat} {template : Text}
    (h : ∀ p ∈ Template.fields raw levels base template,
      Same ts (r.field t p.1 (lineAt t p.1) p.2) (r'.field t p.1 (lineAt t p.1) p.2)) :
    Same ts (templatePieces r t raw levels base template)
      (templatePieces r' t raw levels base template) := by
  induction levels generalizing base template with
  | zero =>
    unfold templatePieces
    exact .refl _
  | succ levels ih =>
    unfold templatePieces
    refine .bind (.mapM fun segment hsegment => ?_) fun pieces => .refl _
    cases segment with
    | literal => exact .refl _
    | stray => exact .refl _
    | field f =>
      refine same_fieldPieces (h _ (Template.mem_fields_succ.mpr ⟨f, hsegment, .inl rfl⟩))
        fun p hp => ih fun q hq => h q ?_
      exact Template.mem_fields_succ.mpr ⟨f, hsegment, .inr ⟨p, hp, hq⟩⟩

theorem same_tokenPieces (h : ∀ p ∈ t.fields,
      Same ts (r.field t p.1 (lineAt t p.1) p.2) (r'.field t p.1 (lineAt t p.1) p.2)) :
    Same ts (tokenPieces r t (StringLiteral.parts t.lexeme))
      (tokenPieces r' t (StringLiteral.parts t.lexeme)) := by
  unfold Token.fields at h
  unfold tokenPieces
  dsimp only at h
  split at h
  · next hformatted =>
    rw [if_pos hformatted, if_pos hformatted]
    exact same_templatePieces h
  · next hformatted =>
    rw [if_neg hformatted, if_neg hformatted]
    exact .refl _

end

/-- The next token is one of the tokens, unless it is the end of none. -/
theorem peek_mem {c : Cursor} (h : c.kind ≠ .eof) : c.peek ∈ c.tokens := by
  unfold Cursor.kind at h
  unfold Cursor.peek Cursor.get at h ⊢
  cases hget : c.tokens[c.pos + 0]? with
  | some t => exact Array.mem_of_getElem? hget
  | none =>
    rw [hget] at h
    unfold Cursor.final at h ⊢
    cases hback : c.tokens.back? with
    | some t => exact Array.mem_of_back? hback
    | none =>
      rw [hback] at h
      exact absurd rfl h

/-- Strings are the same to readers that do the same for the fields of all tokens. -/
theorem same_strings {r r' : Rules} {ts : Array Token}
    (h : ∀ t ∈ ts, ∀ p ∈ t.fields,
      Same ts (r.field t p.1 (lineAt t p.1) p.2) (r'.field t p.1 (lineAt t p.1) p.2)) :
    Same ts (strings r) (strings r') := by
  have htokens : Same ts (stringTokens r) (stringTokens r') := by
    refine .collect fun s hs => ?_
    let found (r : Rules) : Parser (List (StringLiteral.Parts × List Piece) × Bool) := do
      let t ← bump
      let parts := StringLiteral.parts t.lexeme
      return ([(parts, ← tokenPieces r t parts)], true)
    let round (r : Rules) : Parser (List (StringLiteral.Parts × List Piece) × Bool) :=
      if !s.aborted && s.cursor.kind = .stringLit then found r else return ([], false)
    show (round r).run s = (round r').run s ∧ ((round r).run s).2.cursor.tokens = ts
    by_cases hstring : (!s.aborted && s.cursor.kind = .stringLit) = true
    · simp only [round, if_pos hstring]
      have hkind : s.cursor.kind = .stringLit := by simp at hstring; exact hstring.2
      have hpeek : s.cursor.peek ∈ ts := hs ▸ peek_mem (by rw [hkind]; nofun)
      have hpieces := same_tokenPieces (h _ hpeek)
      have hfound := hpieces.bind fun pieces =>
        .refl (pure ([(StringLiteral.parts s.cursor.peek.lexeme, pieces)], true))
      exact hfound { s with cursor := s.cursor.bump } ((tokens_bump _).trans hs)
    · simp only [round, if_neg hstring]
      exact ⟨trivial, hs⟩
  unfold strings
  dsimp only
  exact .skip fun first => htokens.bind fun found => .refl _

/-! ## A reader that checks what it is asked for -/

/-- Reads only fields of tokens that are in view, and gives up when asked for anything else. -/
def FieldReader.checked (field : FieldReader) : FieldReader := fun t offset line text => do
  if t ∈ (← get).cursor.tokens ∧ (offset, text) ∈ t.fields ∧ line = lineAt t offset then
    field t offset line text
  else
    abort
    errorHere

section

variable (field : FieldReader) [hsteady : field.Steady] (recur : (g : Goal) → Parser g.Result)

theorem strings_checked : strings ⟨recur, field.checked⟩ = strings ⟨recur, field⟩ := by
  funext s
  refine (same_strings (fun t ht p hp s' hs' => ?_) s rfl).1
  have := hsteady.steady t p.1 (lineAt t p.1) p.2
  have hcheck : t ∈ s'.cursor.tokens ∧ (p.1, p.2) ∈ t.fields ∧ lineAt t p.1 = lineAt t p.1 :=
    ⟨hs' ▸ ht, hp, rfl⟩
  have hrun : (field.checked t p.1 (lineAt t p.1) p.2).run s' =
      (field t p.1 (lineAt t p.1) p.2).run s' := by
    show (if _ then _ else _ : Parser Expr).run s' = _
    rw [if_pos hcheck]
  exact ⟨hrun, by rw [hrun]; exact (Same.refl (field t p.1 (lineAt t p.1) p.2) s' hs').2⟩

theorem atom_checked : atom ⟨recur, field.checked⟩ = atom ⟨recur, field⟩ := by
  unfold atom
  rw [strings_checked field recur]
  rfl

/-- Only strings hold fields, so every rule is the same with a reader that checks. -/
theorem rule_checked (g : Goal) : rule ⟨recur, field.checked⟩ g = rule ⟨recur, field⟩ g := by
  have hfactor : factor ⟨recur, field.checked⟩ = factor ⟨recur, field⟩ := by
    simp only [factor, power, awaited, primary, atom_checked]
    rfl
  have harithmetic : arithmetic ⟨recur, field.checked⟩ = arithmetic ⟨recur, field⟩ := by
    funext floor
    simp only [arithmetic, hfactor]
  have hdisjunction : disjunction ⟨recur, field.checked⟩ = disjunction ⟨recur, field⟩ := by
    simp only [disjunction, conjunction, inversion, comparison, harithmetic]
  have hvalue : patternValue ⟨recur, field.checked⟩ = patternValue ⟨recur, field⟩ := by
    simp only [patternValue, atom_checked, strings_checked]
  have hclosed : closedPattern ⟨recur, field.checked⟩ = closedPattern ⟨recur, field⟩ := by
    simp only [closedPattern, mappingPattern, mappingEntry, namePattern, hvalue]
    rfl
  cases g with
  | expression =>
    simp only [rule, expression, hdisjunction]
    rfl
  | disjunction => exact hdisjunction
  | inversion => simp only [rule, inversion, comparison, harithmetic]
  | arithmetic floor => exact congrFun harithmetic floor
  | factor => exact hfactor
  | pattern => simp only [rule, pattern, orPattern, hclosed]
  | statement => rfl
  | branch => rfl

theorem runGoal_checked (n : Nat) : runGoal field.checked n = runGoal field n := by
  induction n with
  | zero => rfl
  | succ n ih =>
    funext g
    rw [runGoal, runGoal, ih]
    exact rule_checked field _ g

theorem wholeExpression_checked : wholeExpression field.checked = wholeExpression field := by
  have hrules (c : Cursor) :
      yieldOrStar (rulesFor field.checked c) = yieldOrStar (rulesFor field c) := by
    unfold rulesFor
    rw [runGoal_checked]
    rfl
  simp only [wholeExpression, hrules]

theorem moduleBody_checked (c : Cursor) :
    moduleBody (rulesFor field.checked c) = moduleBody (rulesFor field c) := by
  unfold rulesFor
  rw [runGoal_checked]
  rfl

end

/-- Reads the text of a field with the given parser. -/
def FieldReader.ofParser (x : Parser Expr) : FieldReader := fun _ offset line text => do
  let s ← get
  let found := x.run (s.forField offset line text)
  set (s.absorb found.2)
  return found.1

/-- Reads replacement fields like `fieldReader`, and checks what it is asked for at every depth. -/
def checkedReader : (depth : Nat) → FieldReader
  | 0 => (fieldReader 0).checked
  | depth + 1 => FieldReader.checked (.ofParser (wholeExpression (checkedReader depth)))

theorem checkedReader_eq (depth : Nat) : checkedReader depth = (fieldReader depth).checked := by
  induction depth with
  | zero => rfl
  | succ depth ih =>
    rw [checkedReader, ih, wholeExpression_checked]
    rfl

/-- The parser of a module asks only for fields of tokens that are in view, and so does every parser
of a field that it starts. -/
theorem moduleBody_checkedReader (depth : Nat) (c : Cursor) :
    moduleBody (rulesFor (checkedReader depth) c) =
      moduleBody (rulesFor (fieldReader depth) c) := by
  rw [checkedReader_eq, moduleBody_checked]

end CloneScout.Grammar
