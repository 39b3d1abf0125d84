import CloneScout.Proofs.Grammar.Expr
import CloneScout.Proofs.Grammar.Halts
import CloneScout.Proofs.Grammar.Pattern

/-!
# Expressions and patterns come to an end

The rules of expressions and patterns over rules that end with fewer tokens. What stands behind a
token of the rule itself needs nothing more; in front of it the rule looks at the next token before
it comes back to another rule.
-/

namespace CloneScout.Grammar

/-! ## Rules to come back to -/

/-- Goals that a statement may come back to before it has taken a token are not blocks. -/
def Goal.isBlock : Goal → Bool
  | .statement => true
  | .branch => true
  | _ => false

/-- The rules of expressions and patterns end with fewer than `k` tokens left. -/
class Rules.Below (r : Rules) (k : Nat) : Prop where
  recur (g : Goal) (hg : g.isBlock = false) : Halts k (r.recur g)

/-- The reader of replacement fields ends, whatever is left around the field. -/
class Rules.HaltsFields (r : Rules) : Prop where
  field (k : Nat) (t : Token) (offset line : Nat) (text : Text) :
    Halts k (r.field t offset line text)

variable {k : Nat}

section

variable (r : Rules) [h : r.Below k]

instance halts_rules_expression : Halts k r.expression := h.recur .expression rfl

instance halts_rules_disjunction : Halts k r.disjunction := h.recur .disjunction rfl

instance halts_rules_inversion : Halts k r.inversion := h.recur .inversion rfl

instance halts_rules_arithmetic (floor : Nat) : Halts k (r.arithmetic floor) :=
  h.recur (.arithmetic floor) rfl

instance halts_rules_factor : Halts k r.factor := h.recur .factor rfl

instance halts_rules_pattern : Halts k r.pattern := h.recur .pattern rfl

end

instance halts_rules_field (r : Rules) [h : r.HaltsFields] (t : Token) (offset line : Nat)
    (text : Text) : Halts k (r.field t offset line text) :=
  h.field k t offset line text

variable {r : Rules} [r.Steady]

/-! ## Strings -/

section

variable [r.HaltsFields]

theorem halts_fieldPieces {t : Token} {base : Nat} {format : Nat → Text → Parser (List Piece)}
    (hsteady : ∀ base text, Steady (format base text))
    (hformat : ∀ base text, Halts k (format base text)) (f : Template.Field) : Halts k (fieldPieces r t base format f) := by
  unfold fieldPieces
  exact .auto

instance halts_templatePieces (t : Token) (raw : Bool) (levels base : Nat) (template : Text) :
    Halts k (templatePieces r t raw levels base template) := by
  induction levels generalizing base template with
  | zero =>
    unfold templatePieces
    exact .auto
  | succ levels ih =>
    unfold templatePieces
    refine .bind (.mapM fun segment => ?_) fun pieces => inferInstance
    split
    · exact .auto
    · exact .auto
    · exact halts_fieldPieces (fun _ _ => inferInstance) ih _

instance halts_tokenPieces (t : Token) (parts : StringLiteral.Parts) :
    Halts k (tokenPieces r t parts) := by
  unfold tokenPieces
  exact .auto

instance halts_stringTokens : Halts k (stringTokens r) := by
  unfold stringTokens
  exact .auto

instance halts_strings : Halts k (strings r) := by unfold strings; exact .auto

end

/-! ## Named, starred and yielded expressions -/

section

variable [r.Below k]

instance halts_named : Halts k (named r) := by unfold named; exact .auto

instance halts_starredOr (plain : Parser Expr) [Steady plain] [Halts k plain] :
    Halts k (starredOr r plain) := by
  unfold starredOr
  exact .auto

instance halts_starExpression : Halts k (starExpression r) := by unfold starExpression; exact .auto

instance halts_starNamed : Halts k (starNamed r) := by unfold starNamed; exact .auto

instance halts_starExpressions : Halts k (starExpressions r) := by
  unfold starExpressions
  exact .auto

instance halts_yieldExpr : Halts k (yieldExpr r) := by unfold yieldExpr; exact .auto

instance halts_yieldOrStar : Halts k (yieldOrStar r) := by unfold yieldOrStar; exact .auto

/-! ## Parameters -/

instance halts_paramHead (hints starHint : Bool) : Halts k (paramHead r hints starHint) := by
  unfold paramHead
  exact .auto

instance halts_defaultValue : Halts k (defaultValue r) := by unfold defaultValue; exact .auto

instance halts_plainParam (closing : Token.Kind) (hints : Bool) (ps : ParamList) :
    Halts k (plainParam r closing hints ps) := by
  unfold plainParam
  exact .auto

instance halts_paramItem (closing : Token.Kind) (hints : Bool) (ps : ParamList) :
    Halts k (paramItem r closing hints ps) := by
  unfold paramItem
  exact .auto

instance halts_parameters (closing : Token.Kind) (hints : Bool) :
    Halts k (parameters r closing hints) := by
  unfold parameters
  exact .auto

instance ahead_lambda : Ahead (k + 1) (lambda r) := by
  unfold lambda
  exact .bump fun first => .auto

/-! ## Comprehensions -/

instance halts_starTarget : Halts k (starTarget r) := by unfold starTarget; exact .auto

instance halts_starTargets : Halts k (starTargets r) := by unfold starTargets; exact .auto

instance still_markTarget (ctx : Context) (code : Diagnostic.Code) (e : Expr) (span : Span) :
    Still (markTarget ctx code e span) := by
  unfold markTarget
  split <;> infer_instance

instance halts_comprehension : Halts k (comprehension r) := by unfold comprehension; exact .auto

instance looks_atComprehension : Looks atComprehension where
  toStill := by unfold atComprehension; infer_instance
  ahead {s} htrue heof := by
    change (decide (s.cursor.kind = .kwFor) ||
      (decide (s.cursor.kind = .kwAsync) && decide (s.cursor.kind 1 = .kwFor))) = true at htrue
    simp [heof] at htrue

omit [r.Below k] in
theorem takes_comprehension : Takes (comprehension r) := by
  unfold comprehension
  exact fun c hc hkind => .guard hc (guards_eat (by decide)) (.left (takes_bump c hc hkind))

instance halts_comprehensions : Halts k (comprehensions r) := by
  unfold comprehensions
  refine .collect .auto fun c hc => .still fun aborted => .look inferInstance (fun hkind => ?_) ?_
  · split
    · exact .left (takes_comprehension c hc hkind)
    · exact .stop Bool.false_ne_true
  · rw [Bool.and_false]
    exact .stop Bool.false_ne_true

end

/-! ## Atoms -/

instance halts_number : Halts k number := by unfold number; exact .auto

section

variable [r.Below k]

instance halts_dictEntry : Halts k (dictEntry r) := by unfold dictEntry; exact .auto

instance halts_dictRest (head : Entry) : Halts k (dictRest r head) := by
  unfold dictRest
  infer_instance

instance ahead_parenthesized : Ahead (k + 1) (parenthesized r) := by
  unfold parenthesized
  exact .bump fun first => .auto

instance ahead_listDisplay : Ahead (k + 1) (listDisplay r) := by
  unfold listDisplay
  exact .bump fun first => .auto

instance ahead_braceDisplay : Ahead (k + 1) (braceDisplay r) := by
  unfold braceDisplay
  exact .bump fun first => .auto

instance halts_atom [r.HaltsFields] : Halts (k + 1) (atom r) := by
  unfold atom
  exact .step

/-! ## Calls, subscripts and attributes -/

instance halts_argument (t : Token) (a : Arguments) : Halts k (argument r t a) := by
  unfold argument
  exact .auto

instance halts_arguments : Halts k (arguments r) := by unfold arguments; exact .auto

instance halts_subscriptItem : Halts k (subscriptItem r) := by unfold subscriptItem; exact .auto

instance halts_subscriptIndex : Halts k (subscriptIndex r) := by unfold subscriptIndex; exact .auto

instance halts_trailer (first : Token) (base : Expr) : Halts (k + 1) (trailer r first base) := by
  unfold trailer
  exact .step

omit [r.Below k] in
theorem advances_trailer (first : Token) (base : Expr) : Advances (trailer r first base) := by
  unfold trailer
  refine fun c hc => .still fun aborted => ?_
  split
  · exact .stop Bool.false_ne_true
  · refine .kind ?_
    split
    · next hkind => exact .left (takes_bump c hc (by simp [hkind]))
    · next hkind => exact .left (takes_bump c hc (by simp [hkind]))
    · next hkind => exact .left (takes_bump c hc (by simp [hkind]))
    · exact .stop Bool.false_ne_true

variable [r.HaltsFields]

instance halts_primary : Halts (k + 1) (primary r) := by
  unfold primary
  exact .still fun first => .bind inferInstance fun base =>
    .loop inferInstance (advances_trailer first)

/-! ## Operators -/

instance halts_awaited : Halts (k + 1) (awaited r) := by unfold awaited; exact .step

instance halts_power : Halts (k + 1) (power r) := by unfold power; exact .step

instance halts_factor : Halts (k + 1) (factor r) := by
  unfold factor
  refine .peek (fun first _ => ?_) fun first heof => ?_
  · split
    · exact .bump fun _ => .auto
    · infer_instance
  · rw [heof]
    exact halts_power

omit [r.Steady] [r.Below k] [r.HaltsFields] in
@[simp]
theorem operator?_eof (floor : Nat) : operator? floor .eof = none := rfl

instance halts_arithmetic (floor : Nat) : Halts (k + 1) (arithmetic r floor) := by
  unfold arithmetic
  refine .still fun first => .still fun aborted => ?_
  split
  · infer_instance
  · refine .bind inferInstance fun left => .loop (fun left => ?_) fun left => ?_
    · refine .kind (fun kd _ => .still fun aborted => ?_) (.still fun aborted => ?_)
      · split
        · exact .bump fun _ => .auto
        · infer_instance
      · exact inferInstanceAs (Halts (k + 1) (pure (left, false)))
    · refine fun c hc => .kind (.still fun aborted => ?_)
      split
      · next hop => exact .left (takes_bump c hc fun heof => by simp [heof] at hop)
      · exact .stop Bool.false_ne_true

omit [r.Steady] [r.Below k] [r.HaltsFields] in
@[simp]
theorem compareOp?_eof (next : Token.Kind) : compareOp? .eof next = none := rfl

instance halts_comparison : Halts (k + 1) (comparison r) := by
  unfold comparison
  refine .still fun first => .bind inferInstance fun left =>
    .bind (.collect ?_ ?_) fun rest => .auto
  · refine .kind (fun kd _ => .still fun next => .still fun aborted => ?_)
      (.still fun next => .still fun aborted => ?_)
    · split
      · refine .bump fun _ => ?_
        have harithmetic : Halts k (arithmetic r 0) := .weaken (halts_arithmetic 0)
        exact .auto
      · infer_instance
    · exact inferInstanceAs (Halts (k + 1) (pure ([], false)))
  · refine fun c hc => .kind (.still fun next => .still fun aborted => ?_)
    split
    · next hop => exact .left (takes_bump c hc fun heof => by simp [heof] at hop)
    · exact .stop Bool.false_ne_true

instance halts_inversion : Halts (k + 1) (inversion r) := by unfold inversion; exact .step

omit [r.Steady] [r.Below k] [r.HaltsFields] in
theorem halts_boolean {op : BoolOp} {word : Token.Kind} {operand : Parser Expr} [Steady operand]
    [Halts k operand] (hword : word ≠ .eof) : Halts k (boolean op word operand) := by
  unfold boolean
  refine .still fun first => .bind inferInstance fun head => .still fun more => ?_
  split
  · exact .bind (.collectAfter hword inferInstance) fun values => .auto
  · infer_instance

instance halts_conjunction : Halts (k + 1) (conjunction r) := halts_boolean (by decide)

instance halts_disjunction : Halts (k + 1) (disjunction r) := halts_boolean (by decide)

instance halts_expression : Halts (k + 1) (expression r) := by unfold expression; exact .step

end

end CloneScout.Grammar

namespace CloneScout.Grammar

variable {k : Nat} {r : Rules} [r.Steady] [r.Below k] [r.HaltsFields]

instance halts_dottedName : Halts k dottedName := by unfold dottedName; exact .auto

instance halts_signedNumber : Halts k signedNumber? := by unfold signedNumber?; exact .auto

instance halts_complexNumber : Halts k complexNumber := by unfold complexNumber; exact .auto

instance halts_patternValue : Halts (k + 1) (patternValue r) := by unfold patternValue; exact .auto

instance ahead_sequencePattern (first : Token) (closing : Token.Kind) :
    Ahead (k + 1) (sequencePattern r first closing) := by
  unfold sequencePattern
  exact .bump fun _ => .auto

instance halts_mappingEntry : Halts k (mappingEntry r) := by
  have hvalue : Halts k (patternValue r) := .weaken halts_patternValue
  unfold mappingEntry
  exact .auto

instance ahead_mappingPattern (first : Token) : Ahead (k + 1) (mappingPattern r first) := by
  unfold mappingPattern
  exact .bump fun _ => .auto

instance ahead_classPattern (first : Token) (cls : Expr) :
    Ahead (k + 1) (classPattern r first cls) := by
  unfold classPattern
  exact .bump fun _ => .auto

instance halts_namePattern (first : Token) : Halts (k + 1) (namePattern r first) := by
  unfold namePattern
  exact .step

instance halts_starPattern (first : Token) : Halts k (starPattern first) := by
  unfold starPattern
  exact .auto

instance halts_singletonPattern (first : Token) (value : Singleton) :
    Halts k (singletonPattern first value) := by
  unfold singletonPattern
  exact .auto

instance halts_closedPattern : Halts (k + 1) (closedPattern r) := by
  unfold closedPattern
  exact .step

instance halts_orPattern : Halts (k + 1) (orPattern r) := by unfold orPattern; exact .auto

instance halts_pattern : Halts (k + 1) (pattern r) := by unfold pattern; exact .auto

instance halts_patterns : Halts k (patterns r) := by unfold patterns; exact .auto

end CloneScout.Grammar
