import CloneScout.Grammar.Pattern
import CloneScout.Proofs.Grammar.Expr
import CloneScout.Proofs.Grammar.Halts.Stmt
import CloneScout.Proofs.Grammar.Inline

/-!
# Expressions and simple statements stay on a line

The rules of expressions go on along the line if the rules of expressions and patterns that they come
back to do. So do simple statements, and the parts of compound statements in front of their blocks.
-/

namespace CloneScout.Grammar

/-- The rules of expressions and patterns go on along the line. -/
class Rules.Stays (r : Rules) : Prop where
  recur (g : Goal) (h : g ≠ .statement ∧ g ≠ .branch) : Grammar.Stays (r.recur g)
  field (t : Token) (offset line : Nat) (text : Text) : Grammar.Stays (r.field t offset line text)

variable (r : Rules) [h : r.Stays] [r.Steady]

instance stays_rules_expression : Stays r.expression := h.recur .expression (by simp)

instance stays_rules_disjunction : Stays r.disjunction := h.recur .disjunction (by simp)

instance stays_rules_inversion : Stays r.inversion := h.recur .inversion (by simp)

instance stays_rules_arithmetic (floor : Nat) : Stays (r.arithmetic floor) :=
  h.recur (.arithmetic floor) (by simp)

instance stays_rules_factor : Stays r.factor := h.recur .factor (by simp)

instance stays_rules_pattern : Stays r.pattern := h.recur .pattern (by simp)

instance stays_rules_field (t : Token) (offset line : Nat) (text : Text) :
    Stays (r.field t offset line text) :=
  h.field t offset line text

/-! ## Strings -/

instance stays_fieldPieces (t : Token) (base : Nat) (format : Nat → Text → Parser (List Piece))
    [∀ n text, Steady (format n text)] [∀ n text, Stays (format n text)] (f : Template.Field) :
    Stays (fieldPieces r t base format f) :=
  ⟨fun s => by unfold fieldPieces; exact .auto⟩

instance stays_templatePieces (t : Token) (raw : Bool) (levels base : Nat) (template : Text) :
    Stays (templatePieces r t raw levels base template) := by
  induction levels generalizing base template with
  | zero => exact ⟨fun s => by unfold templatePieces; exact .auto⟩
  | succ levels ih => exact ⟨fun s => by unfold templatePieces; exact .auto⟩

instance stays_tokenPieces (t : Token) (parts : StringLiteral.Parts) :
    Stays (tokenPieces r t parts) :=
  ⟨fun s => by unfold tokenPieces; exact .auto⟩

instance stays_stringTokens : Stays (stringTokens r) :=
  ⟨fun s => by unfold stringTokens; exact .auto⟩

instance stays_strings : Stays (strings r) := ⟨fun s => by unfold strings; exact .auto⟩

/-! ## Named, starred and yielded expressions -/

instance stays_named : Stays (named r) := ⟨fun s => by unfold named; exact .auto⟩

instance stays_starredOr (plain : Parser Expr) [Steady plain] [Stays plain] :
    Stays (starredOr r plain) :=
  ⟨fun s => by unfold starredOr; exact .auto⟩

instance stays_starExpression : Stays (starExpression r) :=
  ⟨fun s => by unfold starExpression; exact .auto⟩

instance stays_starNamed : Stays (starNamed r) := ⟨fun s => by unfold starNamed; exact .auto⟩

instance stays_starExpressions : Stays (starExpressions r) :=
  ⟨fun s => by unfold starExpressions; exact .auto⟩

theorem runs_yieldExpr {s : State} (hkind : s.cursor.kind = .kwYield) : Runs s (yieldExpr r) := by
  unfold yieldExpr
  exact .auto

instance stays_yieldOrStar : Stays (yieldOrStar r) := by
  refine ⟨fun s => ?_⟩
  unfold yieldOrStar
  refine .at? ?_
  split
  · next hkind => exact runs_yieldExpr r (of_decide_eq_true hkind)
  · exact .auto

/-! ## Parameters -/

instance stays_paramHead (hints starHint : Bool) : Stays (paramHead r hints starHint) :=
  ⟨fun s => by unfold paramHead; exact .auto⟩

omit h in
/-- A parameter without a name is a fault. -/
theorem gives_paramHead {s : State} (hwords : Worded s.cursor.tokens) (hints starHint : Bool) :
    Gives s (paramHead r hints starHint) fun head _ => head.name.isEmpty = false := by
  unfold paramHead
  refine .bind (.peek 0) (fun t s₁ ht => ?_) inferInstance
  refine .bind (.taken .ident) (fun found s₂ hfound => ?_) inferInstance
  obtain ⟨rfl, rfl, -⟩ := ht
  have hname : s₁.cursor.peek.lexeme.isEmpty = false := by
    refine List.isEmpty_eq_false_iff.mpr (lexeme_peek_ne_nil hwords ?_)
    rw [hfound.2.1]
    rfl
  rw [if_pos hfound.1]
  dsimp only
  split
  · refine .skip (fun hinted s₃ => ?_) inferInstance
    split
    · refine .skip fun isStar s₄ => ?_
      split
      · exact .skip fun hint s₅ => .pure hname
      · exact .skip fun hint s₅ => .pure hname
    · exact .pure hname
  · exact .pure hname

instance stays_defaultValue : Stays (defaultValue r) :=
  ⟨fun s => by unfold defaultValue; exact .auto⟩

instance stays_plainParam (closing : Token.Kind) (hints : Bool) (ps : ParamList) :
    Stays (plainParam r closing hints ps) := by
  refine ⟨fun s => ?_⟩
  unfold plainParam
  refine .given (Stays.runs _) (gives_paramHead r · hints false) fun head s₁ hname => ?_
  rw [hname, if_neg Bool.false_ne_true]
  exact .auto

instance stays_paramItem (closing : Token.Kind) (hints : Bool) (ps : ParamList) :
    Stays (paramItem r closing hints ps) :=
  ⟨fun s => by unfold paramItem; exact .auto⟩

instance stays_parameters (closing : Token.Kind) (hints : Bool) :
    Stays (parameters r closing hints) :=
  ⟨fun s => by unfold parameters; exact .auto⟩

theorem runs_lambda {s : State} (hkind : s.cursor.kind = .kwLambda) : Runs s (lambda r) := by
  unfold lambda
  exact .auto

/-! ## Comprehensions -/

instance stays_starTarget : Stays (starTarget r) := ⟨fun s => by unfold starTarget; exact .auto⟩

instance stays_starTargets : Stays (starTargets r) := ⟨fun s => by unfold starTargets; exact .auto⟩

instance stays_markTarget (ctx : Context) (code : Diagnostic.Code) (e : Expr) (span : Span) :
    Stays (markTarget ctx code e span) :=
  ⟨fun s => by unfold markTarget; exact .auto⟩

instance still_atComprehension : Still atComprehension := by
  unfold atComprehension
  infer_instance

/-- A comprehension starts with a `for`, or with an `async` in front of it. -/
theorem runs_comprehension {s : State}
    (h : s.cursor.kind = .kwFor ∨ s.cursor.kind = .kwAsync ∧ s.cursor.kind 1 = .kwFor) :
    Runs s (comprehension r) := by
  unfold comprehension
  refine .eaten rfl (fun hasync => ?_) fun hfor => ?_
  · have hnext : s.cursor.kind 1 = .kwFor := by simpa [hasync] using h
    exact .auto
  · have hkind : s.cursor.kind = .kwFor := by simpa [hfor] using h
    exact .auto

instance stays_comprehensions : Stays (comprehensions r) := by
  refine ⟨fun s => ?_⟩
  -- A comprehension needs what the look ahead has seen, so that is unfolded here.
  unfold comprehensions atComprehension
  refine .collect fun s₁ => .isAborted ?_
  simp only [bind_assoc, pure_bind]
  refine .kind (.kind (.kind ?_))
  split
  · next hstart =>
    exact .bind (runs_comprehension r (by simp_all)) fun c s₂ => Stays.runs _
  · exact Stays.runs _

/-! ## Atoms -/

theorem isFree_of_isNumber {k : Token.Kind} (h : isNumber k = true) : k.isFree = true := by
  cases k <;> first | rfl | exact Bool.noConfusion h

theorem runs_number {s : State} (hkind : isNumber s.cursor.kind = true) : Runs s number := by
  have hfree := isFree_of_isNumber hkind
  unfold number
  exact .auto

theorem runs_parenthesized {s : State} (hkind : s.cursor.kind = .lparen) :
    Runs s (parenthesized r) := by
  unfold parenthesized
  refine .bump (by rw [hkind]; rfl) (.bind (.eat rfl) fun closed s₁ => ?_)
  split
  · exact .auto
  · refine .at? ?_
    split
    · next hyield =>
      exact .bind (runs_yieldExpr r (of_decide_eq_true hyield)) fun e s₂ => .auto
    · exact .auto

theorem runs_listDisplay {s : State} (hkind : s.cursor.kind = .lbracket) :
    Runs s (listDisplay r) := by
  unfold listDisplay
  exact .auto

instance stays_dictEntry : Stays (dictEntry r) := ⟨fun s => by unfold dictEntry; exact .auto⟩

instance stays_dictRest (head : Entry) : Stays (dictRest r head) :=
  ⟨fun s => by unfold dictRest; exact .auto⟩

theorem runs_braceDisplay {s : State} (hkind : s.cursor.kind = .lbrace) :
    Runs s (braceDisplay r) := by
  unfold braceDisplay
  exact .auto

instance stays_atom : Stays (atom r) := by
  refine ⟨fun s => ?_⟩
  unfold atom
  refine .peek ?_
  split
  · next hvalue => exact .auto
  · split
    · next hkind => exact .auto
    · next hkind => exact runs_number (by rw [← kind_peek, hkind]; rfl)
    · next hkind => exact runs_number (by rw [← kind_peek, hkind]; rfl)
    · next hkind => exact runs_number (by rw [← kind_peek, hkind]; rfl)
    · exact .auto
    · next hkind => exact runs_parenthesized r hkind
    · next hkind => exact runs_listDisplay r hkind
    · next hkind => exact runs_braceDisplay r hkind
    · exact .auto
    · exact .auto

/-! ## Calls, subscripts and attributes -/

theorem runs_argument (s : State) (a : Arguments) : Runs s (argument r s.cursor.peek a) := by
  unfold argument
  exact .auto

instance stays_arguments : Stays (arguments r) := by
  refine ⟨fun s => ?_⟩
  unfold arguments
  refine .bind (.loop fun a s₁ => .isAborted (.at? (.at? ?_))) fun a s₁ => Stays.runs _
  split
  · exact Stays.runs _
  · exact .peek (.bind (runs_argument r s₁ a) fun a s₂ => .bind (.eat rfl) fun more s₃ =>
      Stays.runs _)

instance stays_subscriptItem : Stays (subscriptItem r) := by
  refine ⟨fun s => ?_⟩
  unfold subscriptItem
  refine .peek ?_
  split
  · exact Stays.runs s
  · have hslice (lower : Option Expr) {s' : State} (hcolon : s'.cursor.kind = .colon) :
        Runs s' (do
          let _ ← bump
          let bound : Parser (Option Expr) := do
            if [.colon, .comma, .rbracket].contains (← kind) then return none
            else return some (← r.expression)
          let upper ← bound
          let step ← if ← eat .colon then bound else pure none
          return Expr.slice (← extentFrom s.cursor.peek) lower upper step) :=
      .auto
    dsimp only
    split
    · next hcolon =>
      rw [pure_bind]
      exact .at? (hslice none hcolon)
    · rw [bind_map_left]
      refine .bind (Stays.runs s) fun e s₁ => .at? ?_
      -- Behind a lower bound there is a slice only if a colon follows.
      by_cases hcolon : s₁.cursor.kind = .colon
      · rw [decide_eq_true hcolon]
        exact hslice (some e) hcolon
      · rw [decide_eq_false hcolon]
        exact Stays.runs s₁

instance stays_subscriptIndex : Stays (subscriptIndex r) :=
  ⟨fun s => by unfold subscriptIndex; exact .auto⟩

instance stays_trailer (first : Token) (base : Expr) : Stays (trailer r first base) :=
  ⟨fun s => by unfold trailer; exact .auto⟩

instance stays_primary : Stays (primary r) := ⟨fun s => by unfold primary; exact .auto⟩

/-! ## Operators -/

instance stays_awaited : Stays (awaited r) := ⟨fun s => by unfold awaited; exact .auto⟩

instance stays_power : Stays (power r) := ⟨fun s => by unfold power; exact .auto⟩

instance stays_factor : Stays (factor r) := ⟨fun s => by unfold factor; exact .auto⟩

instance stays_arithmetic (floor : Nat) : Stays (arithmetic r floor) :=
  ⟨fun s => by unfold arithmetic; exact .auto⟩

/-- The second token of a comparison is an `in` or a `not`. -/
theorem isFree_of_compareOp? {k next : Token.Kind} {op : CompareOp}
    (h : compareOp? k next = some (op, 2)) : next.isFree = true := by
  unfold compareOp? at h
  split at h
  case h_8 => split at h <;> simp_all [Token.Kind.isFree, Token.Kind.isLayout]
  case h_9 => split at h <;> simp_all [Token.Kind.isFree, Token.Kind.isLayout]
  all_goals simp at h

instance stays_comparison : Stays (comparison r) := by
  refine ⟨fun s => ?_⟩
  unfold comparison
  refine .peek (.bind (Stays.runs s) fun left s₁ => .bind (.collect fun s₂ => ?_) fun rest s₂ => ?_)
  · refine .kind (.kind (.isAborted ?_))
    split
    · next op n hop _ =>
      have hfree : s₂.cursor.kind.isFree = true :=
        Token.Kind.isFree_of_some (o := fun k => compareOp? k (s₂.cursor.kind 1)) hop
      refine .bump hfree ?_
      split
      · next htwo =>
        have hnext := isFree_of_compareOp? (htwo ▸ hop)
        exact .bump (kind_bump s₂.cursor 0 ▸ hnext) .auto
      · exact .auto
    · exact Stays.runs _
  · exact .auto

instance stays_inversion : Stays (inversion r) := ⟨fun s => by unfold inversion; exact .auto⟩

theorem stays_boolean (op : BoolOp) {word : Token.Kind} (hword : word.isFree = true)
    (operand : Parser Expr) [Stays operand] : Stays (boolean op word operand) := by
  refine ⟨fun s => ?_⟩
  unfold boolean
  refine .peek (.bind (Stays.runs s) fun head s₁ => .at? ?_)
  split
  · exact .bind (.collectAfter hword fun s₂ => Stays.runs s₂) fun values s₂ => Stays.runs s₂
  · exact Stays.runs s₁

instance stays_conjunction : Stays (conjunction r) := stays_boolean .and rfl (inversion r)

instance stays_disjunction : Stays (disjunction r) := stays_boolean .or rfl (conjunction r)

instance stays_expression : Stays (expression r) := by
  refine ⟨fun s => ?_⟩
  unfold expression
  refine .peek (.isAborted ?_)
  split
  · exact Stays.runs s
  · split
    · next hkind => exact runs_lambda r hkind
    · refine .bind (Stays.runs s) fun body s₁ => .eaten rfl (fun hif => ?_) fun _ => .auto
      rw [if_pos rfl]
      -- The `else` stands behind the `if`, so not at the head of a line.
      refine .expectElse ((Cursor.isLayout_before_bump _).trans (hif ▸ rfl)) (Stays.runs _)
        fun test s₂ => ?_
      rw [if_pos rfl]
      exact .auto

/-! ## Patterns -/

omit h in
theorem runs_dottedName {s : State} (hkind : s.cursor.kind = .ident) : Runs s dottedName := by
  unfold dottedName
  exact .auto

instance stays_signedNumber : Stays signedNumber? := by
  refine ⟨fun s => ?_⟩
  unfold signedNumber?
  refine .peek ?_
  split
  · next hminus =>
    refine .bump (by rw [← kind_peek, hminus]; rfl) (.peek ?_)
    split
    · next hnumber => exact .bind (runs_number hnumber) fun e s₁ => Stays.runs _
    · exact .auto
  · split
    · next hnumber => exact .map (runs_number hnumber)
    · exact .auto

instance stays_complexNumber : Stays complexNumber := by
  refine ⟨fun s => ?_⟩
  unfold complexNumber
  refine .peek (.bind (Stays.runs s) fun real s₁ => ?_)
  split
  · exact Stays.runs _
  · refine .peek (.kind ?_)
    split
    · next hsign =>
      simp only [Bool.and_eq_true, Bool.or_eq_true, decide_eq_true_eq] at hsign
      obtain ⟨hsign, hnext⟩ := hsign
      refine .bump (by rcases hsign with hk | hk <;> rw [← kind_peek, hk] <;> rfl) ?_
      exact .bind (runs_number (by rw [kind_bump, hnext]; rfl)) fun e s₂ => Stays.runs _
    · exact Stays.runs _

instance stays_patternValue : Stays (patternValue r) := by
  refine ⟨fun s => ?_⟩
  unfold patternValue
  refine .kind ?_
  split
  · exact Stays.runs s
  · exact Stays.runs s
  · exact Stays.runs s
  · exact Stays.runs s
  · next hkind => exact runs_dottedName hkind
  · exact Stays.runs s

omit [r.Steady] in
theorem runs_sequencePattern {s : State} (first : Token) {opening closing : Token.Kind}
    (hkind : s.cursor.kind = opening) (hopening : opening.isFree = true)
    (hclosing : closing.isFree = true) : Runs s (sequencePattern r first closing) := by
  unfold sequencePattern
  exact .auto

instance stays_mappingEntry : Stays (mappingEntry r) :=
  ⟨fun s => by unfold mappingEntry; exact .auto⟩

theorem runs_mappingPattern {s : State} (first : Token) (hkind : s.cursor.kind = .lbrace) :
    Runs s (mappingPattern r first) := by
  unfold mappingPattern
  exact .auto

theorem runs_classPattern {s : State} (first : Token) (cls : Expr)
    (hkind : s.cursor.kind = .lparen) : Runs s (classPattern r first cls) := by
  unfold classPattern
  exact .auto

theorem runs_namePattern {s : State} (first : Token) (hkind : s.cursor.kind = .ident) :
    Runs s (namePattern r first) := by
  unfold namePattern
  refine .kind ?_
  split
  · refine .bind (Stays.runs s) fun value s₁ => .at? ?_
    split
    · next hopen => exact runs_classPattern r first value (of_decide_eq_true hopen)
    · exact Stays.runs _
  · exact .auto

theorem runs_starPattern {s : State} (first : Token) (hkind : s.cursor.kind = .star) :
    Runs s (starPattern first) := by
  unfold starPattern
  exact .auto

theorem runs_singletonPattern {s : State} (first : Token) (value : Singleton)
    (hfree : s.cursor.kind.isFree = true) : Runs s (singletonPattern first value) := by
  unfold singletonPattern
  exact .auto

instance stays_closedPattern : Stays (closedPattern r) := by
  refine ⟨fun s => ?_⟩
  unfold closedPattern
  refine .peek (.isAborted ?_)
  split
  · exact Stays.runs s
  · split
    · next hkind => exact runs_singletonPattern _ _ (by rw [← kind_peek, hkind]; rfl)
    · next hkind => exact runs_singletonPattern _ _ (by rw [← kind_peek, hkind]; rfl)
    · next hkind => exact runs_singletonPattern _ _ (by rw [← kind_peek, hkind]; rfl)
    · next hkind => exact runs_starPattern _ hkind
    · next hkind => exact runs_sequencePattern r _ hkind rfl rfl
    · next hkind => exact runs_sequencePattern r _ hkind rfl rfl
    · next hkind => exact runs_mappingPattern r _ hkind
    · next hkind => exact runs_namePattern r _ hkind
    · exact .auto

instance stays_orPattern : Stays (orPattern r) := ⟨fun s => by unfold orPattern; exact .auto⟩

instance stays_pattern : Stays (pattern r) := ⟨fun s => by unfold pattern; exact .auto⟩

instance stays_patterns : Stays (patterns r) := ⟨fun s => by unfold patterns; exact .auto⟩

end CloneScout.Grammar

namespace CloneScout.Grammar

variable {r : Rules} [r.Stays] [r.Steady] {s : State}

/-! ## Simple statements -/

instance stays_simpleTarget (code : Diagnostic.Code) (e : Expr) : Stays (simpleTarget code e) :=
  ⟨fun s => by unfold simpleTarget; exact .auto⟩

theorem runs_annotated (first : Token) (target : Expr) (hkind : s.cursor.kind = .colon) :
    Runs s (annotated r first target) := by
  unfold annotated
  exact .auto

theorem runs_augmented (first : Token) (target : Expr) (op : BinaryOp)
    (hfree : s.cursor.kind.isFree = true) : Runs s (augmented r first target op) := by
  unfold augmented
  exact .auto

instance stays_assignment (first : Token) (target : Expr) : Stays (assignment r first target) :=
  ⟨fun s => by unfold assignment; exact .auto⟩

instance stays_expressionStatement : Stays (expressionStatement r) := by
  refine ⟨fun s => ?_⟩
  unfold expressionStatement
  refine .peek (.bind (Stays.runs s) fun e s₁ => .kind ?_)
  split
  · next op hop => exact runs_augmented _ e op (Token.Kind.isFree_of_some hop)
  · split
    · next hcolon => exact runs_annotated _ e hcolon
    · exact .auto

theorem runs_returnStatement (hkind : s.cursor.kind = .kwReturn) : Runs s (returnStatement r) := by
  unfold returnStatement
  exact .auto

omit [r.Steady] in
theorem runs_raiseStatement (hkind : s.cursor.kind = .kwRaise) : Runs s (raiseStatement r) := by
  unfold raiseStatement
  exact .auto

omit [r.Steady] in
theorem runs_deleteStatement (hkind : s.cursor.kind = .kwDel) : Runs s (deleteStatement r) := by
  unfold deleteStatement
  exact .auto

omit [r.Steady] in
theorem runs_assertStatement (hkind : s.cursor.kind = .kwAssert) : Runs s (assertStatement r) := by
  unfold assertStatement
  exact .auto

instance stays_nameList : Stays nameList := ⟨fun s => by unfold nameList; exact .auto⟩

instance stays_moduleName : Stays moduleName := ⟨fun s => by unfold moduleName; exact .auto⟩

instance stays_asName : Stays asName := ⟨fun s => by unfold asName; exact .auto⟩

theorem runs_importStatement (hkind : s.cursor.kind = .kwImport) : Runs s importStatement := by
  unfold importStatement
  exact .auto

instance stays_importLevel : Stays importLevel := ⟨fun s => by unfold importLevel; exact .auto⟩

instance stays_importedNames (inParens : Bool) : Stays (importedNames inParens) :=
  ⟨fun s => by unfold importedNames; exact .auto⟩

instance stays_importedList : Stays importedList := ⟨fun s => by unfold importedList; exact .auto⟩

theorem runs_importFromStatement (hkind : s.cursor.kind = .kwFrom) :
    Runs s importFromStatement := by
  unfold importFromStatement
  exact .auto

theorem runs_wordStatement {make : Extent → Stmt} (hfree : s.cursor.kind.isFree = true) :
    Runs s (wordStatement make) := by
  unfold wordStatement
  exact .auto

instance stays_simpleStatement : Stays (simpleStatement r) := by
  refine ⟨fun s => ?_⟩
  unfold simpleStatement
  refine .kind ?_
  split
  · next hkind => exact runs_wordStatement (hkind ▸ rfl)
  · next hkind => exact runs_wordStatement (hkind ▸ rfl)
  · next hkind => exact runs_wordStatement (hkind ▸ rfl)
  · next hkind => exact runs_returnStatement hkind
  · next hkind => exact runs_raiseStatement hkind
  · next hkind => exact runs_deleteStatement hkind
  · next hkind => exact runs_assertStatement hkind
  · next hkind => exact .auto
  · next hkind => exact .auto
  · next hkind => exact runs_importStatement hkind
  · next hkind => exact runs_importFromStatement hkind
  · exact Stays.runs s

/-! ## Heads of compound statements -/

instance stays_withItem : Stays (withItem r) := ⟨fun s => by unfold withItem; exact .auto⟩

instance stays_withItems : Stays (withItems r) := ⟨fun s => by unfold withItems; exact .auto⟩

instance stays_handlerType : Stays (handlerType r) := ⟨fun s => by unfold handlerType; exact .auto⟩

instance stays_matchSubject : Stays (matchSubject r) :=
  ⟨fun s => by unfold matchSubject; exact .auto⟩

instance stays_definedName : Stays definedName := ⟨fun s => by unfold definedName; exact .auto⟩

end CloneScout.Grammar
