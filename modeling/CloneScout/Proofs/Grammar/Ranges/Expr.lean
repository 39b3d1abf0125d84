import CloneScout.Grammar.Pattern
import CloneScout.Proofs.Grammar.Ranges

/-!
# Expressions close no statement

The rules of expressions and patterns leave the end of the last statement alone if the rules of
expressions and patterns that they come back to do.
-/

namespace CloneScout.Grammar

/-- The rules of expressions and patterns close no statement. -/
class Rules.Keeps (r : Rules) : Prop where
  recur (g : Goal) (h : g ≠ .statement ∧ g ≠ .branch) : Grammar.Keeps (r.recur g)
  field (t : Token) (offset line : Nat) (text : Text) : Grammar.Keeps (r.field t offset line text)

variable (r : Rules) [h : r.Keeps]

instance keeps_rules_expression : Keeps r.expression := h.recur .expression (by simp)

instance keeps_rules_disjunction : Keeps r.disjunction := h.recur .disjunction (by simp)

instance keeps_rules_inversion : Keeps r.inversion := h.recur .inversion (by simp)

instance keeps_rules_arithmetic (floor : Nat) : Keeps (r.arithmetic floor) :=
  h.recur (.arithmetic floor) (by simp)

instance keeps_rules_factor : Keeps r.factor := h.recur .factor (by simp)

instance keeps_rules_pattern : Keeps r.pattern := h.recur .pattern (by simp)

instance keeps_rules_field (t : Token) (offset line : Nat) (text : Text) :
    Keeps (r.field t offset line text) :=
  h.field t offset line text

/-! ## Strings -/

instance keeps_fieldPieces (t : Token) (base : Nat) (format : Nat → Text → Parser (List Piece))
    [∀ n text, Keeps (format n text)] (f : Template.Field) :
    Keeps (fieldPieces r t base format f) := by
  unfold fieldPieces
  cases f.format with
  | none =>
    dsimp only
    infer_instance
  | some format =>
    dsimp only
    split <;> infer_instance

instance keeps_templatePieces (t : Token) (raw : Bool) (levels base : Nat) (template : Text) :
    Keeps (templatePieces r t raw levels base template) := by
  induction levels generalizing base template with
  | zero =>
    unfold templatePieces
    infer_instance
  | succ levels ih =>
    unfold templatePieces
    refine @keeps_bind _ _ _ _ (@keeps_mapM _ _ _ (fun segment => ?_) _) fun pieces => inferInstance
    split <;> infer_instance

instance keeps_tokenPieces (t : Token) (parts : StringLiteral.Parts) :
    Keeps (tokenPieces r t parts) := by
  unfold tokenPieces
  infer_instance

instance keeps_stringTokens : Keeps (stringTokens r) := by
  unfold stringTokens
  infer_instance

instance keeps_strings : Keeps (strings r) := by
  unfold strings
  dsimp only
  infer_instance

/-! ## Named, starred and yielded expressions -/

instance keeps_named : Keeps (named r) := by unfold named; exact .auto

instance keeps_starredOr (plain : Parser Expr) [Keeps plain] : Keeps (starredOr r plain) := by
  unfold starredOr; exact .auto

instance keeps_starExpression : Keeps (starExpression r) := by unfold starExpression; exact .auto

instance keeps_starNamed : Keeps (starNamed r) := by unfold starNamed; exact .auto

instance keeps_starExpressions : Keeps (starExpressions r) := by
  unfold starExpressions; exact .auto

instance keeps_yieldExpr : Keeps (yieldExpr r) := by unfold yieldExpr; exact .auto

instance keeps_yieldOrStar : Keeps (yieldOrStar r) := by unfold yieldOrStar; exact .auto

/-! ## Parameters -/

instance keeps_paramHead (hints starHint : Bool) : Keeps (paramHead r hints starHint) := by
  unfold paramHead; exact .auto

instance keeps_defaultValue : Keeps (defaultValue r) := by unfold defaultValue; exact .auto

instance keeps_plainParam (closing : Token.Kind) (hints : Bool) (ps : ParamList) :
    Keeps (plainParam r closing hints ps) := by
  unfold plainParam; exact .auto

instance keeps_paramItem (closing : Token.Kind) (hints : Bool) (ps : ParamList) :
    Keeps (paramItem r closing hints ps) := by
  unfold paramItem; exact .auto

instance keeps_parameters (closing : Token.Kind) (hints : Bool) :
    Keeps (parameters r closing hints) := by
  unfold parameters; exact .auto

instance keeps_lambda : Keeps (lambda r) := by unfold lambda; exact .auto

/-! ## Comprehensions -/

instance keeps_starTarget : Keeps (starTarget r) := by unfold starTarget; exact .auto

instance keeps_starTargets : Keeps (starTargets r) := by unfold starTargets; exact .auto

instance keeps_markTarget (ctx : Context) (code : Diagnostic.Code) (e : Expr) (span : Span) :
    Keeps (markTarget ctx code e span) := by
  unfold markTarget; exact .auto

instance keeps_atComprehension : Keeps atComprehension := by unfold atComprehension; exact .auto

instance keeps_comprehension : Keeps (comprehension r) := by unfold comprehension; exact .auto

instance keeps_comprehensions : Keeps (comprehensions r) := by unfold comprehensions; exact .auto

/-! ## Atoms -/

instance keeps_number : Keeps number := by unfold number; exact .auto

instance keeps_parenthesized : Keeps (parenthesized r) := by unfold parenthesized; exact .auto

instance keeps_listDisplay : Keeps (listDisplay r) := by unfold listDisplay; exact .auto

instance keeps_dictEntry : Keeps (dictEntry r) := by unfold dictEntry; exact .auto

instance keeps_dictRest (head : Entry) : Keeps (dictRest r head) := by
  unfold dictRest; exact .auto

instance keeps_braceDisplay : Keeps (braceDisplay r) := by unfold braceDisplay; exact .auto

instance keeps_atom : Keeps (atom r) := by unfold atom; exact .auto

/-! ## Calls, subscripts and attributes -/

instance keeps_argument (t : Token) (a : Arguments) : Keeps (argument r t a) := by
  unfold argument; exact .auto

instance keeps_arguments : Keeps (arguments r) := by unfold arguments; exact .auto

instance keeps_subscriptItem : Keeps (subscriptItem r) := by unfold subscriptItem; exact .auto

instance keeps_subscriptIndex : Keeps (subscriptIndex r) := by unfold subscriptIndex; exact .auto

instance keeps_trailer (first : Token) (base : Expr) : Keeps (trailer r first base) := by
  unfold trailer; exact .auto

instance keeps_primary : Keeps (primary r) := by unfold primary; exact .auto

/-! ## Operators -/

instance keeps_awaited : Keeps (awaited r) := by unfold awaited; exact .auto

instance keeps_power : Keeps (power r) := by unfold power; exact .auto

instance keeps_factor : Keeps (factor r) := by unfold factor; exact .auto

instance keeps_arithmetic (floor : Nat) : Keeps (arithmetic r floor) := by
  unfold arithmetic; exact .auto

instance keeps_comparison : Keeps (comparison r) := by unfold comparison; exact .auto

instance keeps_inversion : Keeps (inversion r) := by unfold inversion; exact .auto

instance keeps_boolean (op : BoolOp) (word : Token.Kind) (operand : Parser Expr) [Keeps operand] :
    Keeps (boolean op word operand) := by
  unfold boolean; exact .auto

instance keeps_conjunction : Keeps (conjunction r) := by unfold conjunction; exact .auto

instance keeps_disjunction : Keeps (disjunction r) := by unfold disjunction; exact .auto

instance keeps_expression : Keeps (expression r) := by unfold expression; exact .auto

/-! ## Patterns -/

instance keeps_dottedName : Keeps dottedName := by unfold dottedName; exact .auto

instance keeps_signedNumber : Keeps signedNumber? := by unfold signedNumber?; exact .auto

instance keeps_complexNumber : Keeps complexNumber := by unfold complexNumber; exact .auto

instance keeps_patternValue : Keeps (patternValue r) := by unfold patternValue; exact .auto

instance keeps_sequencePattern (first : Token) (closing : Token.Kind) :
    Keeps (sequencePattern r first closing) := by
  unfold sequencePattern; exact .auto

instance keeps_mappingEntry : Keeps (mappingEntry r) := by unfold mappingEntry; exact .auto

instance keeps_mappingPattern (first : Token) : Keeps (mappingPattern r first) := by
  unfold mappingPattern; exact .auto

instance keeps_classPattern (first : Token) (cls : Expr) : Keeps (classPattern r first cls) := by
  unfold classPattern; exact .auto

instance keeps_namePattern (first : Token) : Keeps (namePattern r first) := by
  unfold namePattern; exact .auto

instance keeps_starPattern (first : Token) : Keeps (starPattern first) := by
  unfold starPattern; exact .auto

instance keeps_singletonPattern (first : Token) (value : Singleton) :
    Keeps (singletonPattern first value) := by
  unfold singletonPattern; exact .auto

instance keeps_closedPattern : Keeps (closedPattern r) := by unfold closedPattern; exact .auto

instance keeps_orPattern : Keeps (orPattern r) := by unfold orPattern; exact .auto

instance keeps_pattern : Keeps (pattern r) := by unfold pattern; exact .auto

instance keeps_patterns : Keeps (patterns r) := by unfold patterns; exact .auto

end CloneScout.Grammar
