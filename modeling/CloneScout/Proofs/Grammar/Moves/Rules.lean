import CloneScout.Grammar.Parse
import CloneScout.Grammar.Pattern
import CloneScout.Proofs.Grammar.Moves

/-!
# The rules are moves

The rules of expressions, patterns and statements do nothing but moves if the rules that they come
back to do so, and so does the whole circle of rules.
-/

namespace CloneScout.Grammar

/-- The rules to come back to do nothing but moves, with one reader of replacement fields. -/
class Rules.Walks (field : FieldReader) (r : Rules) : Prop where
  recur (g : Goal) : Grammar.Walks field (r.recur g)
  field : r.field = field

variable {field : FieldReader} {r : Rules} [h : r.Walks field]

instance walks_rules_expression : Walks field r.expression := h.recur .expression

instance walks_rules_disjunction : Walks field r.disjunction := h.recur .disjunction

instance walks_rules_inversion : Walks field r.inversion := h.recur .inversion

instance walks_rules_arithmetic (floor : Nat) : Walks field (r.arithmetic floor) :=
  h.recur (.arithmetic floor)

instance walks_rules_factor : Walks field r.factor := h.recur .factor

instance walks_rules_pattern : Walks field r.pattern := h.recur .pattern

instance walks_rules_statement : Walks field r.statement := h.recur .statement

instance walks_rules_branch : Walks field r.branch := h.recur .branch

instance walks_strings : Walks field (strings r) := by
  have htokens : Walks field (stringTokens r) := walks_stringTokens h.field
  unfold strings
  dsimp only
  infer_instance

/-! ## Named, starred and yielded expressions -/

instance walks_named : Walks field (named r) := by unfold named; exact .auto

instance walks_starredOr (plain : Parser Expr) [Walks field plain] :
    Walks field (starredOr r plain) := by
  unfold starredOr
  exact .auto

instance walks_starExpression : Walks field (starExpression r) := by
  unfold starExpression
  exact .auto

instance walks_starNamed : Walks field (starNamed r) := by unfold starNamed; exact .auto

instance walks_starExpressions : Walks field (starExpressions r) := by
  unfold starExpressions
  exact .auto

instance walks_yieldExpr : Walks field (yieldExpr r) := by unfold yieldExpr; exact .auto

instance walks_yieldOrStar : Walks field (yieldOrStar r) := by unfold yieldOrStar; exact .auto

/-! ## Parameters -/

instance walks_paramHead (hints starHint : Bool) : Walks field (paramHead r hints starHint) := by
  unfold paramHead
  exact .auto

instance walks_defaultValue : Walks field (defaultValue r) := by unfold defaultValue; exact .auto

instance walks_plainParam (closing : Token.Kind) (hints : Bool) (ps : ParamList) :
    Walks field (plainParam r closing hints ps) := by unfold plainParam; exact .auto

instance walks_paramItem (closing : Token.Kind) (hints : Bool) (ps : ParamList) :
    Walks field (paramItem r closing hints ps) := by unfold paramItem; exact .auto

instance walks_parameters (closing : Token.Kind) (hints : Bool) :
    Walks field (parameters r closing hints) := by unfold parameters; exact .auto

instance walks_lambda : Walks field (lambda r) := by unfold lambda; exact .auto

/-! ## Comprehensions -/

instance walks_starTarget : Walks field (starTarget r) := by unfold starTarget; exact .auto

instance walks_starTargets : Walks field (starTargets r) := by unfold starTargets; exact .auto

instance walks_markTarget (ctx : Context) (code : Diagnostic.Code) (e : Expr) (span : Span) :
    Walks field (markTarget ctx code e span) := by unfold markTarget; exact .auto

instance walks_atComprehension : Walks field atComprehension := by
  unfold atComprehension
  exact .auto

instance walks_comprehension : Walks field (comprehension r) := by unfold comprehension; exact .auto

instance walks_comprehensions : Walks field (comprehensions r) := by
  unfold comprehensions
  exact .auto

/-! ## Atoms -/

instance walks_number : Walks field number := by unfold number; exact .auto

instance walks_parenthesized : Walks field (parenthesized r) := by unfold parenthesized; exact .auto

instance walks_listDisplay : Walks field (listDisplay r) := by unfold listDisplay; exact .auto

instance walks_dictEntry : Walks field (dictEntry r) := by unfold dictEntry; exact .auto

instance walks_dictRest (head : Entry) : Walks field (dictRest r head) := by
  unfold dictRest
  exact .auto

instance walks_braceDisplay : Walks field (braceDisplay r) := by unfold braceDisplay; exact .auto

instance walks_atom : Walks field (atom r) := by unfold atom; exact .auto

/-! ## Calls, subscripts and attributes -/

instance walks_argument (t : Token) (a : Arguments) : Walks field (argument r t a) := by
  unfold argument
  exact .auto

instance walks_arguments : Walks field (arguments r) := by unfold arguments; exact .auto

instance walks_subscriptItem : Walks field (subscriptItem r) := by unfold subscriptItem; exact .auto

instance walks_subscriptIndex : Walks field (subscriptIndex r) := by
  unfold subscriptIndex
  exact .auto

instance walks_trailer (first : Token) (base : Expr) : Walks field (trailer r first base) := by
  unfold trailer
  exact .auto

instance walks_primary : Walks field (primary r) := by unfold primary; exact .auto

/-! ## Operators -/

instance walks_awaited : Walks field (awaited r) := by unfold awaited; exact .auto

instance walks_power : Walks field (power r) := by unfold power; exact .auto

instance walks_factor : Walks field (factor r) := by unfold factor; exact .auto

instance walks_arithmetic (floor : Nat) : Walks field (arithmetic r floor) := by
  unfold arithmetic
  exact .auto

instance walks_comparison : Walks field (comparison r) := by unfold comparison; exact .auto

instance walks_inversion : Walks field (inversion r) := by unfold inversion; exact .auto

instance walks_boolean (op : BoolOp) (word : Token.Kind) (operand : Parser Expr)
    [Walks field operand] : Walks field (boolean op word operand) := by unfold boolean; exact .auto

instance walks_conjunction : Walks field (conjunction r) := by unfold conjunction; exact .auto

instance walks_disjunction : Walks field (disjunction r) := by unfold disjunction; exact .auto

instance walks_expression : Walks field (expression r) := by unfold expression; exact .auto

/-! ## Patterns -/

instance walks_dottedName : Walks field dottedName := by unfold dottedName; exact .auto

instance walks_signedNumber : Walks field signedNumber? := by unfold signedNumber?; exact .auto

instance walks_complexNumber : Walks field complexNumber := by unfold complexNumber; exact .auto

instance walks_patternValue : Walks field (patternValue r) := by unfold patternValue; exact .auto

instance walks_sequencePattern (first : Token) (closing : Token.Kind) :
    Walks field (sequencePattern r first closing) := by unfold sequencePattern; exact .auto

instance walks_mappingEntry : Walks field (mappingEntry r) := by unfold mappingEntry; exact .auto

instance walks_mappingPattern (first : Token) : Walks field (mappingPattern r first) := by
  unfold mappingPattern
  exact .auto

instance walks_classPattern (first : Token) (cls : Expr) :
    Walks field (classPattern r first cls) := by
  unfold classPattern
  exact .auto

instance walks_namePattern (first : Token) : Walks field (namePattern r first) := by
  unfold namePattern
  exact .auto

instance walks_starPattern (first : Token) : Walks field (starPattern first) := by
  unfold starPattern
  exact .auto

instance walks_singletonPattern (first : Token) (value : Singleton) :
    Walks field (singletonPattern first value) := by unfold singletonPattern; exact .auto

instance walks_closedPattern : Walks field (closedPattern r) := by unfold closedPattern; exact .auto

instance walks_orPattern : Walks field (orPattern r) := by unfold orPattern; exact .auto

instance walks_pattern : Walks field (pattern r) := by unfold pattern; exact .auto

instance walks_patterns : Walks field (patterns r) := by unfold patterns; exact .auto

end CloneScout.Grammar

namespace CloneScout.Grammar

variable {field : FieldReader} {r : Rules} [h : r.Walks field]

/-! ## Simple statements -/

instance walks_simpleTarget (code : Diagnostic.Code) (e : Expr) :
    Walks field (simpleTarget code e) := by unfold simpleTarget; exact .auto

instance walks_annotated (first : Token) (target : Expr) :
    Walks field (annotated r first target) := by
  unfold annotated
  exact .auto

instance walks_augmented (first : Token) (target : Expr) (op : BinaryOp) :
    Walks field (augmented r first target op) := by unfold augmented; exact .auto

instance walks_assignment (first : Token) (target : Expr) :
    Walks field (assignment r first target) := by unfold assignment; exact .auto

instance walks_expressionStatement : Walks field (expressionStatement r) := by
  unfold expressionStatement
  exact .auto

instance walks_returnStatement : Walks field (returnStatement r) := by
  unfold returnStatement
  exact .auto

instance walks_raiseStatement : Walks field (raiseStatement r) := by
  unfold raiseStatement
  exact .auto

instance walks_deleteStatement : Walks field (deleteStatement r) := by
  unfold deleteStatement
  exact .auto

instance walks_assertStatement : Walks field (assertStatement r) := by
  unfold assertStatement
  exact .auto

/-! ## Imports -/

instance walks_nameList : Walks field nameList := by unfold nameList; exact .auto

instance walks_moduleName : Walks field moduleName := by unfold moduleName; exact .auto

instance walks_asName : Walks field asName := by unfold asName; exact .auto

instance walks_importStatement : Walks field importStatement := by
  unfold importStatement
  exact .auto

instance walks_importLevel : Walks field importLevel := by unfold importLevel; exact .auto

instance walks_importedNames (inParens : Bool) : Walks field (importedNames inParens) := by
  unfold importedNames
  exact .auto

instance walks_importedList : Walks field importedList := by unfold importedList; exact .auto

instance walks_importFromStatement : Walks field importFromStatement := by
  unfold importFromStatement
  exact .auto

instance walks_wordStatement (make : Extent → Stmt) : Walks field (wordStatement make) := by
  unfold wordStatement
  exact .auto

/-! ## Lines and blocks -/

instance walks_simpleStatement : Walks field (simpleStatement r) := by
  unfold simpleStatement
  exact .auto

instance walks_semicolons : Walks field (semicolons r) := by unfold semicolons; exact .auto

instance walks_simpleLine : Walks field (simpleLine r) := by unfold simpleLine; exact .auto

instance walks_blockBody : Walks field (blockBody r) := by unfold blockBody; exact .auto

instance walks_block : Walks field (block r) := by unfold block; exact .auto

instance walks_suite : Walks field (suite r) := by unfold suite; exact .auto

instance walks_elseSuite : Walks field (elseSuite r) := by unfold elseSuite; exact .auto

/-! ## Compound statements -/

instance walks_branchStatement : Walks field (branchStatement r) := by
  unfold branchStatement
  exact .auto

instance walks_whileStatement : Walks field (whileStatement r) := by
  unfold whileStatement
  exact .auto

instance walks_forStatement (isAsync : Option Token) : Walks field (forStatement r isAsync) := by
  unfold forStatement
  exact .auto

instance walks_withItem : Walks field (withItem r) := by unfold withItem; exact .auto

instance walks_withItems : Walks field (withItems r) := by unfold withItems; exact .auto

instance walks_withStatement (isAsync : Option Token) : Walks field (withStatement r isAsync) := by
  unfold withStatement
  exact .auto

instance walks_handlerType : Walks field (handlerType r) := by unfold handlerType; exact .auto

instance walks_handler : Walks field (handler r) := by unfold handler; exact .auto

instance walks_tryStatement : Walks field (tryStatement r) := by unfold tryStatement; exact .auto

instance walks_atMatch : Walks field atMatch := by unfold atMatch; exact .auto

instance walks_matchSubject : Walks field (matchSubject r) := by unfold matchSubject; exact .auto

instance walks_matchCase : Walks field (matchCase r) := by unfold matchCase; exact .auto

instance walks_matchCases : Walks field (matchCases r) := by unfold matchCases; exact .auto

instance walks_matchBlock : Walks field (matchBlock r) := by unfold matchBlock; exact .auto

instance walks_matchStatement : Walks field (matchStatement r) := by
  unfold matchStatement
  exact .auto

instance walks_definedName : Walks field definedName := by unfold definedName; exact .auto

instance walks_functionStatement (isAsync : Option Token) (decorators : List Expr) :
    Walks field (functionStatement r isAsync decorators) := by unfold functionStatement; exact .auto

instance walks_classStatement (decorators : List Expr) :
    Walks field (classStatement r decorators) := by
  unfold classStatement
  exact .auto

instance walks_decoratedStatement : Walks field (decoratedStatement r) := by
  unfold decoratedStatement
  exact .auto

instance walks_asyncStatement : Walks field (asyncStatement r) := by
  unfold asyncStatement
  exact .auto

instance walks_strayBlock : Walks field (strayBlock r) := by unfold strayBlock; exact .auto

instance walks_statement : Walks field (statement r) := by unfold statement; exact .auto

/-! ## The circle of rules -/

instance walks_exhausted (g : Goal) : Walks field (exhausted g) := by unfold exhausted; exact .auto

instance walks_rule (g : Goal) : Walks field (rule r g) := by
  cases g <;> (unfold rule; infer_instance)

omit h

instance walks_runGoal (n : Nat) (g : Goal) : Walks field (runGoal field n g) := by
  induction n generalizing g with
  | zero => exact walks_exhausted g
  | succ n ih =>
    have hrules : Rules.Walks field ⟨runGoal field n, field⟩ := ⟨ih, rfl⟩
    exact walks_rule g

instance walks_rulesFor (c : Cursor) : (rulesFor field c).Walks field := ⟨walks_runGoal _, rfl⟩

instance walks_wholeExpression : Walks field (wholeExpression field) := by
  unfold wholeExpression
  exact .auto

include h in
instance walks_moduleBody : Walks field (moduleBody r) := by unfold moduleBody; exact .auto

instance walks_wholeModule : Walks (fieldReader fieldDepth) wholeModule := by
  unfold wholeModule
  exact .auto

end CloneScout.Grammar
