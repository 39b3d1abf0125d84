import CloneScout.Proofs.Grammar.Halts.Expr
import CloneScout.Proofs.Grammar.Stmt

/-!
# Statements come to an end

Simple statements come back to expressions before they have taken a token, but to nothing else. All
that belongs to a compound statement stands behind its first token.
-/

namespace CloneScout.Grammar

variable {k : Nat} {r : Rules} [r.Steady]

/-! ## Simple statements -/

section

variable [r.Below k]

instance still_simpleTarget (code : Diagnostic.Code) (e : Expr) : Still (simpleTarget code e) := by
  unfold simpleTarget
  infer_instance

instance halts_annotated (first : Token) (target : Expr) : Halts k (annotated r first target) := by
  unfold annotated
  exact .auto

instance halts_augmented (first : Token) (target : Expr) (op : BinaryOp) :
    Halts k (augmented r first target op) := by
  unfold augmented
  exact .auto

instance halts_assignment (first : Token) (target : Expr) :
    Halts k (assignment r first target) := by
  unfold assignment
  exact .auto

instance halts_expressionStatement : Halts k (expressionStatement r) := by
  unfold expressionStatement
  exact .auto

instance halts_returnStatement : Halts k (returnStatement r) := by
  unfold returnStatement
  exact .auto

instance halts_raiseStatement : Halts k (raiseStatement r) := by unfold raiseStatement; exact .auto

instance halts_deleteStatement : Halts k (deleteStatement r) := by
  unfold deleteStatement
  exact .auto

instance halts_assertStatement : Halts k (assertStatement r) := by
  unfold assertStatement
  exact .auto

omit [r.Below k]

instance halts_nameList : Halts k nameList := by unfold nameList; exact .auto

instance halts_moduleName : Halts k moduleName := by
  unfold moduleName
  refine .still fun named => ?_
  split
  · refine .bind inferInstance fun first => .bind (.collect .auto fun c hc => ?_) fun rest => .auto
    refine .kind (.still fun next => ?_)
    split
    · next hdot => exact .left (takes_bump c hc fun heof => by simp [heof] at hdot)
    · exact .stop Bool.false_ne_true
  · infer_instance

instance halts_asName : Halts k asName := by unfold asName; exact .auto

instance halts_importStatement : Halts k importStatement := by unfold importStatement; exact .auto

instance halts_importLevel : Halts k importLevel := by unfold importLevel; exact .auto

instance halts_importedNames (inParens : Bool) : Halts k (importedNames inParens) := by
  unfold importedNames
  exact .auto

instance halts_importedList : Halts k importedList := by unfold importedList; exact .auto

instance halts_importFromStatement : Halts k importFromStatement := by
  unfold importFromStatement
  exact .auto

instance halts_wordStatement (make : Extent → Stmt) : Halts k (wordStatement make) := by
  unfold wordStatement
  exact .auto

end

section

variable [r.Below k]

instance halts_simpleStatement : Halts k (simpleStatement r) := by
  unfold simpleStatement
  exact .auto

instance halts_semicolons : Halts k (semicolons r) := by unfold semicolons; exact .auto

instance halts_simpleLine : Halts k (simpleLine r) := by unfold simpleLine; exact .auto

end

/-! ## Blocks -/

/-- The rules of statements end with fewer than `k` tokens left. A branch starts with its word. -/
class Rules.BlocksBelow (r : Rules) (k : Nat) : Prop where
  statement : Halts k r.statement
  branch : Ahead k r.branch

instance halts_rules_statement (r : Rules) [h : r.BlocksBelow k] : Halts k r.statement :=
  h.statement

instance ahead_rules_branch (r : Rules) [h : r.BlocksBelow k] : Ahead k r.branch := h.branch

section

variable [r.Below k] [r.BlocksBelow k]

instance halts_blockBody : Halts k (blockBody r) := by
  unfold blockBody
  refine .collect .auto fun c hc => .still fun aborted => .at? (.at? ?_)
  split
  · exact .stop Bool.false_ne_true
  · next hinside =>
    simp only [Bool.or_eq_true, decide_eq_true_eq, not_or] at hinside
    refine .guard hc (guards_eat (by decide)) ?_
    refine .get fun before hbefore => .otherwise hc hinside.2 fun found => ?_
    refine .get fun after hafter => .at? (.at? ?_)
    rw [hbefore, hafter, if_pos (by simp [hinside])]
    exact .still fun _ => .left (takes_bump c hc hinside.2)

instance halts_block : Halts k (block r) := by unfold block; exact .auto

instance halts_suite : Halts k (suite r) := by unfold suite; exact .auto

instance halts_elseSuite : Halts k (elseSuite r) := by unfold elseSuite; exact .auto

/-! ## Compound statements -/

instance ahead_branchStatement : Ahead (k + 1) (branchStatement r) := by
  unfold branchStatement
  refine .bump fun first => .bind inferInstance fun test => .bind inferInstance fun body =>
    .look (looks_at (by decide)) ?_ ?_
  · rw [if_pos rfl]
    exact .bind inferInstance fun next => .auto
  · rw [if_neg Bool.false_ne_true]
    exact .auto

instance ahead_whileStatement : Ahead (k + 1) (whileStatement r) := by
  unfold whileStatement
  exact .bump fun first => .auto

instance halts_forStatement (isAsync : Option Token) : Halts k (forStatement r isAsync) := by
  unfold forStatement
  exact .auto

instance ahead_forStatement (isAsync : Option Token) : Ahead (k + 1) (forStatement r isAsync) := by
  unfold forStatement
  exact .bump fun word => .auto

instance halts_withItem : Halts k (withItem r) := by unfold withItem; exact .auto

instance halts_withItems : Halts k (withItems r) := by unfold withItems; exact .auto

instance halts_withStatement (isAsync : Option Token) : Halts k (withStatement r isAsync) := by
  unfold withStatement
  exact .auto

instance ahead_withStatement (isAsync : Option Token) :
    Ahead (k + 1) (withStatement r isAsync) := by
  unfold withStatement
  exact .bump fun word => .auto

instance halts_handlerType : Halts k (handlerType r) := by unfold handlerType; exact .auto

instance halts_handler : Halts k (handler r) := by unfold handler; exact .auto

omit [r.Below k] [r.BlocksBelow k] in
theorem takes_handler : Takes (handler r) := by
  unfold handler
  exact fun c hc hkind => .left (takes_bump c hc hkind)

instance ahead_tryStatement : Ahead (k + 1) (tryStatement r) := by
  unfold tryStatement
  refine .bump fun first => .bind inferInstance fun body => .bind (.collect .auto fun c hc => ?_)
    fun found => .auto
  refine .still fun aborted => .look (looks_at (by decide)) (fun hkind => ?_) ?_
  · split
    · exact .left (takes_handler c hc hkind)
    · exact .stop Bool.false_ne_true
  · rw [Bool.and_false]
    exact .stop Bool.false_ne_true

instance still_atMatch : Still atMatch := by unfold atMatch; infer_instance

instance halts_matchSubject : Halts k (matchSubject r) := by unfold matchSubject; exact .auto

instance halts_matchCase : Halts k (matchCase r) := by unfold matchCase; exact .auto

omit [r.Below k] [r.BlocksBelow k] in
theorem takes_matchCase : Takes (matchCase r) := by
  unfold matchCase
  exact fun c hc hkind => .left (takes_bump c hc hkind)

instance halts_matchCases : Halts k (matchCases r) := by
  unfold matchCases
  refine .collect .auto fun c hc => .still fun aborted => .at? (.at? ?_)
  split
  · exact .stop Bool.false_ne_true
  · next hinside =>
    simp only [Bool.or_eq_true, decide_eq_true_eq, not_or] at hinside
    refine .guard hc (guards_eat (by decide)) (.still fun s => ?_)
    split
    · exact .left (takes_matchCase c hc hinside.2)
    · refine .still fun t => .still fun _ => .get fun before hbefore => ?_
      refine .otherwise hc hinside.2 fun _ => .get fun after hafter => ?_
      rw [hbefore, hafter, if_pos rfl]
      exact .left (takes_bump c hc hinside.2)

instance halts_matchBlock : Halts k (matchBlock r) := by unfold matchBlock; exact .auto

instance ahead_matchStatement : Ahead (k + 1) (matchStatement r) := by
  unfold matchStatement
  exact .bump fun first => .auto

instance halts_definedName : Halts k definedName := by unfold definedName; exact .auto

instance halts_functionStatement (isAsync : Option Token) (decorators : List Expr) :
    Halts k (functionStatement r isAsync decorators) := by
  unfold functionStatement
  exact .auto

instance ahead_functionStatement (isAsync : Option Token) (decorators : List Expr) :
    Ahead (k + 1) (functionStatement r isAsync decorators) := by
  unfold functionStatement
  exact .bump fun word => .auto

instance ahead_classStatement (decorators : List Expr) :
    Ahead (k + 1) (classStatement r decorators) := by
  unfold classStatement
  exact .bump fun first => .auto

instance halts_decoratedStatement : Halts (k + 1) (decoratedStatement r) := by
  unfold decoratedStatement
  exact .step

instance ahead_asyncStatement : Ahead (k + 1) (asyncStatement r) := by
  unfold asyncStatement
  refine .still fun t => .still fun next => ?_
  split
  · exact .bump fun _ => .auto
  · exact .bump fun _ => .auto
  · exact .bump fun _ => .auto
  · have hskipped : Halts (k + 1) (do
        report .unexpectedToken t.span t.lexeme
        recoverToNewline
        return ([] : List Stmt)) := .auto
    infer_instance

instance ahead_strayBlock : Ahead (k + 1) (strayBlock r) := by
  unfold strayBlock
  refine .still fun t => .still fun _ => .bump fun _ =>
    .bind (.collect .auto fun c hc => .still fun aborted => .at? (.at? ?_)) fun _ => .auto
  split
  · exact .stop Bool.false_ne_true
  · next hinside =>
    simp only [Bool.or_eq_true, decide_eq_true_eq, not_or] at hinside
    refine .get fun before hbefore => .otherwise hc hinside.2 fun _ => .get fun after hafter => ?_
    rw [hbefore, hafter, if_pos rfl]
    exact .left (takes_bump c hc hinside.2)

omit [r.Steady] [r.Below k] [r.BlocksBelow k] in
theorem looks_atMatch : Looks atMatch where
  ahead {s} htrue heof := by
    change (s.cursor.atWord (utf8 "match") && _ && _) = true at htrue
    simp only [Bool.and_eq_true, Cursor.atWord, Token.isWord, decide_eq_true_eq] at htrue
    exact absurd (htrue.1.1.1.symm.trans heof) (by decide)

instance halts_statement [r.Below (k + 1)] : Halts (k + 1) (statement r) := by
  have hplain : Halts (k + 1) (do
      if ← atMatch then return [← matchStatement r] else simpleLine r) := by
    refine .look looks_atMatch ?_ ?_
    · rw [if_pos rfl]
      exact .bind inferInstance fun _ => inferInstance
    · rw [if_neg Bool.false_ne_true]
      infer_instance
  unfold statement
  refine .still fun aborted => ?_
  split
  · infer_instance
  · refine .kind (fun kd _ => ?_) hplain
    split
    · infer_instance
    · exact .bind inferInstance fun _ => inferInstance
    · exact .bind inferInstance fun _ => inferInstance
    · exact .bind inferInstance fun _ => inferInstance
    · exact .bind inferInstance fun _ => inferInstance
    · exact .bind inferInstance fun _ => inferInstance
    · exact .bind inferInstance fun _ => inferInstance
    · exact .bind inferInstance fun _ => inferInstance
    · infer_instance
    · infer_instance
    · infer_instance

end

end CloneScout.Grammar
