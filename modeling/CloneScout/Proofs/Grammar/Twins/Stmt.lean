import CloneScout.Proofs.Grammar.Stmt
import CloneScout.Proofs.Grammar.Twins.Pattern

/-!
# Statements side by side

Each rule of statements finds agreeing trees in both runs if the rules that it comes back to do. An
assignment with annotation records whether its target is a bare name, by comparing offsets; so
offsets that belong together have to be told apart in the same way.
-/

set_option linter.unusedSectionVars false
set_option synthInstance.maxSize 2000

namespace CloneScout.Grammar

variable {A : Nat → Nat → Prop} {r : Rules} [r.Steady]

/-! ## Simple statements -/

/-- A part that is read only under a condition. -/
theorem both_optional {γ δ : Type} {s s' : State} {c : Prop} [Decidable c] {x : Parser Expr}
    {f : Option Expr → Parser γ} {g : Option Expr → Parser δ} {R : γ → δ → Prop}
    (hx : Twins A x x (Expr.AgreeFrom A))
    (hf : ∀ v v', Expr.AgreeOpt .load v v' → ∀ s s', Both A s s' (f v) (g v') R)
    [∀ a, Steady (f a)] [∀ b, Steady (g b)] :
    Both A s s' (if c then some <$> x >>= f else pure none >>= f)
      (if c then some <$> x >>= g else pure none >>= g) R := by
  have hsome : Twins A (some <$> x) (some <$> x) (Expr.AgreeOpt .load) :=
    hx.map fun _ _ he => .some he.toAgree
  exact .ite (fun _ => hsome.bind hf) fun _ => hf none none .none s s'

theorem twins_simpleTarget (code : Diagnostic.Code) {e e' : Expr} (h : e.AgreeFrom A e') :
    Twins A (simpleTarget code e) (simpleTarget code e') fun t t' =>
      t.Agree .store t' ∧ Option.Rel A t.nameStart? t'.nameStart? := by
  intro s s'
  unfold simpleTarget
  rw [← h.isSimple_eq]
  refine .ite (fun hsimple => .pure ⟨h.mark_of_isSimple hsimple, ?_⟩) fun _ => .fault
  rw [Target.nameStart?_mark, Target.nameStart?_mark]
  exact h.start

theorem isBareName_iff {first : Token} {e : Expr} :
    isBareName first e = true ↔ e.nameStart? = some first.span.lo := by
  cases e <;> simp [isBareName, Expr.nameStart?]

theorem isBareName_eq (hA : OneToOne A) {first first' : Token}
    (hfirst : A first.span.lo first'.span.lo) {e e' : Expr}
    (h : Option.Rel A e.nameStart? e'.nameStart?) : isBareName first e = isBareName first' e' := by
  rw [Bool.eq_iff_iff, isBareName_iff, isBareName_iff]
  generalize e.nameStart? = a at h ⊢
  generalize e'.nameStart? = a' at h ⊢
  cases h with
  | none => simp
  | some h => simpa using hA _ _ _ _ h hfirst

theorem twins_annotated (hA : OneToOne A) (hr : r.Twin A) {first first' : Token}
    (hfirst : A first.span.lo first'.span.lo) {e e' : Expr} (h : e.AgreeFrom A e') :
    Twins A (annotated r first e) (annotated r first' e') Stmt.Agree := by
  intro s s'
  unfold annotated
  refine .skip_bump fun s₁ s₁' => (twins_simpleTarget _ h).bind fun t t' ht s₂ s₂' => ?_
  refine hr.expression.bind fun hint hint' hhint s₃ s₃' => ?_
  rw [isBareName_eq hA hfirst ht.2]
  refine (twins_eat .assign).bind fun more more' hmore s₄ s₄' => ?_
  subst hmore
  exact both_optional (twins_yieldOrStar hr) fun v v' hv s₅ s₅' =>
    .closeStatement fun x x' s₆ s₆' => .pure (.annAssign _ ht.1 hhint.toAgree hv)

theorem twins_augmented (hr : r.Twin A) (first first' : Token) {e e' : Expr}
    (h : e.AgreeFrom A e') (op : BinaryOp) :
    Twins A (augmented r first e op) (augmented r first' e' op) Stmt.Agree := by
  intro s s'
  unfold augmented
  refine .skip_bump fun s₁ s₁' => (twins_simpleTarget _ h).bind fun t t' ht s₂ s₂' => ?_
  exact (twins_yieldOrStar hr).bind fun v v' hv s₃ s₃' => .closeStatement fun x x' s₄ s₄' =>
    .pure (.augAssign op ht.1 hv.toAgree)

theorem forall₂_dropLast {α β : Type} {R : α → β → Prop} {as : List α} {bs : List β}
    (h : List.Forall₂ R as bs) : List.Forall₂ R as.dropLast bs.dropLast := by
  rw [List.dropLast_eq_take, List.dropLast_eq_take, h.length_eq]
  exact List.forall₂_take _ h

theorem forall₂_getLast {α β : Type} {R : α → β → Prop} {as : List α} {bs : List β} {a : α} {b : β}
    (h : List.Forall₂ R as bs) (hab : R a b) : R (as.getLast?.getD a) (bs.getLast?.getD b) := by
  rw [← List.head?_reverse, ← List.head?_reverse]
  have hreverse := List.rel_reverse h
  generalize as.reverse = cs at hreverse ⊢
  generalize bs.reverse = ds at hreverse ⊢
  cases hreverse with
  | nil => exact hab
  | cons h _ => exact h

theorem twins_assignment (hr : r.Twin A) (first first' : Token) {e e' : Expr}
    (h : e.Agree .load e') :
    Twins A (assignment r first e) (assignment r first' e') Stmt.Agree := by
  intro s s'
  unfold assignment
  have hitem : Twins A (yieldOrStar r) (yieldOrStar r) (Expr.Agree .load) :=
    (twins_yieldOrStar hr).mono fun _ _ h => h.toAgree
  refine (Twins.collectAfter (.cons h .nil) hitem).bind fun all all' hall s₁ s₁' => ?_
  refine (Twins.mapM (forall₂_dropLast hall) fun t t' ht => twins_markTarget .store _ ht _ _).bind
    fun targets targets' htargets s₂ s₂' => .closeStatement fun x x' s₃ s₃' => ?_
  exact .pure (.assign htargets (forall₂_getLast hall h))

theorem twins_expressionStatement (hA : OneToOne A) (hr : r.Twin A) :
    Twins A (expressionStatement r) (expressionStatement r) Stmt.Agree := by
  intro s s'
  unfold expressionStatement
  refine .peek fun ht => ?_
  by_cases hlayout : s.cursor.kind.isLayout = true
  · exact (both_yieldOrStar_of_isLayout hlayout hr).stop
      (p := fun _ => @steady_bind _ _ _ _ inferInstance fun _ => by split <;> infer_instance)
      (q := fun _ => @steady_bind _ _ _ _ inferInstance fun _ => by split <;> infer_instance)
  · have hfirst := ht.start (Bool.eq_false_iff.mpr hlayout)
    refine Both.bind
      (p := fun _ => @steady_bind _ _ _ _ inferInstance fun _ => by split <;> infer_instance)
      (q := fun _ => @steady_bind _ _ _ _ inferInstance fun _ => by split <;> infer_instance)
      (twins_yieldOrStar hr _ _) fun e e' he s₁ s₁' => .kind ?_
    split
    · exact twins_augmented hr _ _ he _ s₁ s₁'
    · refine .ite (fun _ => ?_) fun _ => .ite (fun _ => ?_) fun _ => ?_
      · exact twins_annotated hA hr hfirst he s₁ s₁'
      · exact twins_assignment hr _ _ he.toAgree s₁ s₁'
      · exact .closeStatement fun x x' s₂ s₂' => .pure (.expr he.toAgree)

theorem twins_returnStatement (hr : r.Twin A) :
    Twins A (returnStatement r) (returnStatement r) Stmt.Agree := by
  intro s s'
  unfold returnStatement
  refine .skip_bump fun s₁ s₁' => .kind ?_
  exact both_optional (twins_starExpressions hr) fun v v' hv s₂ s₂' =>
    .closeStatement fun x x' s₃ s₃' => .pure (.ret hv)

theorem twins_raiseStatement (hr : r.Twin A) :
    Twins A (raiseStatement r) (raiseStatement r) Stmt.Agree := by
  intro s s'
  unfold raiseStatement
  refine .skip_bump fun s₁ s₁' => .kind (.ite (fun _ => ?_) fun _ => ?_)
  · refine hr.expression.bind fun e e' he s₂ s₂' => ?_
    refine (twins_eat .kwFrom).bind fun more more' hmore s₃ s₃' => ?_
    subst hmore
    exact both_optional hr.expression fun v v' hv s₄ s₄' =>
      .closeStatement fun x x' s₅ s₅' => .pure (.raise (.some he.toAgree) hv)
  · exact .closeStatement fun x x' s₂ s₂' => .pure (.raise .none .none)

theorem twins_deleteStatement (hr : r.Twin A) :
    Twins A (deleteStatement r) (deleteStatement r) Stmt.Agree := by
  intro s s'
  unfold deleteStatement
  refine .skip_bump fun s₁ s₁' => ?_
  refine (Twins.collect (Q := Expr.Agree .delete) .nil fun s s' => .kind (.ite (fun _ => ?_) fun _ => ?_)).bind
    fun es es' hes s₂ s₂' => ?_
  · refine (hr.arithmetic 0).bind fun e e' he s₃ s₃' => ?_
    refine (twins_markTarget .delete _ he.toAgree _ _).bind fun e e' he s₄ s₄' => ?_
    exact .eat (fun _ s₅ s₅' => .pure ⟨.cons he .nil, rfl⟩) fun _ => .pure ⟨.cons he .nil, rfl⟩
  · exact .pure ⟨.nil, rfl⟩
  · rw [isEmpty_eq_of_forall₂ hes]
    refine .ite (fun _ => .unexpected) fun _ => .closeStatement fun x x' s₃ s₃' => ?_
    exact .pure (.delete hes)

theorem twins_assertStatement (hr : r.Twin A) :
    Twins A (assertStatement r) (assertStatement r) Stmt.Agree := by
  intro s s'
  unfold assertStatement
  refine .skip_bump fun s₁ s₁' => hr.expression.bind fun e e' he s₂ s₂' => ?_
  refine (twins_eat .comma).bind fun more more' hmore s₃ s₃' => ?_
  subst hmore
  exact both_optional hr.expression fun v v' hv s₄ s₄' =>
    .closeStatement fun x x' s₅ s₅' => .pure (.assertion he.toAgree hv)

/-! ### Names -/

theorem twins_nameList : Twins A nameList nameList Eq := by
  refine Twins.mono (Q := List.Forall₂ Eq) (.collect .nil fun s s' => ?_)
    fun _ _ h => List.forall₂_eq_eq_eq ▸ h
  refine .peek fun ht => .expect fun hk s₁ s₁' => ?_
  rw [lexeme_eq ht hk rfl]
  exact .eat (fun _ s₂ s₂' => .pure ⟨.cons rfl .nil, rfl⟩) fun _ => .pure ⟨.cons rfl .nil, rfl⟩

theorem twins_moduleName : Twins A moduleName moduleName Eq := by
  intro s s'
  unfold moduleName
  refine .at? (fun hk => .bump fun ht s₁ s₁' _ _ => ?_) fun _ => .pure rfl
  rw [lexeme_eq ht hk rfl]
  refine (Twins.collect (Q := Eq) .nil fun s s' => .kind (.kind (.ite (fun hcond => ?_) fun _ => ?_))).bind
    fun rest rest' h s₂ s₂' => ?_
  · rw [Bool.and_eq_true, decide_eq_true_eq, decide_eq_true_eq] at hcond
    refine .bump_ahead fun s₂ s₂' hnext => .bump fun ht s₃ s₃' _ _ => ?_
    rw [lexeme_eq ht ((hnext 0).trans hcond.2) rfl]
    exact .pure ⟨.cons rfl .nil, rfl⟩
  · exact .pure ⟨.nil, rfl⟩
  · rw [List.forall₂_eq_eq_eq] at h
    rw [h]
    exact .pure rfl

theorem twins_asName : Twins A asName asName Eq := by
  intro s s'
  unfold asName
  refine .eat (fun _ s₁ s₁' => .peek fun ht => .expect fun hk s₂ s₂' => ?_) fun _ => .pure rfl
  rw [lexeme_eq ht hk rfl]
  exact .pure rfl

theorem twins_importStatement : Twins A importStatement importStatement Stmt.Agree := by
  intro s s'
  unfold importStatement
  refine .skip_bump fun s₁ s₁' => ?_
  refine (Twins.collect (Q := Eq) .nil fun s s' => .peek fun _ => ?_).bind
    fun names names' h s₂ s₂' => .closeStatement fun x x' s₃ s₃' => ?_
  · refine twins_moduleName.bind fun name name' hname s₂ s₂' => ?_
    subst hname
    refine .ite (fun _ => .fault) fun _ => twins_asName.bind fun renamed renamed' h s₃ s₃' => ?_
    subst h
    exact .eat (fun _ s₄ s₄' => .pure ⟨.cons rfl .nil, rfl⟩) fun _ => .pure ⟨.cons rfl .nil, rfl⟩
  · rw [List.forall₂_eq_eq_eq] at h
    rw [h]
    exact .pure ⟨trivial, rfl⟩

theorem twins_importLevel : Twins A importLevel importLevel Eq := by
  intro s s'
  unfold importLevel
  refine .loop rfl fun level level' h s s' => ?_
  subst h
  refine .eat (fun _ s₁ s₁' => .pure ⟨rfl, rfl⟩) fun _ => ?_
  exact .eat (fun _ s₁ s₁' => .pure ⟨rfl, rfl⟩) fun _ => .pure ⟨rfl, rfl⟩

theorem twins_importedNames (inParens : Bool) :
    Twins A (importedNames inParens) (importedNames inParens) Eq := by
  refine Twins.mono (Q := List.Forall₂ Eq) (.collect .nil fun s s' => ?_)
    fun _ _ h => List.forall₂_eq_eq_eq ▸ h
  refine .peek fun ht => ?_
  rw [ht.kind]
  refine .ite (fun _ => .pure ⟨.nil, rfl⟩) fun _ => .expect fun hk s₁ s₁' => ?_
  rw [lexeme_eq ht hk rfl]
  refine twins_asName.bind fun renamed renamed' h s₂ s₂' => ?_
  subst h
  exact .eat (fun _ s₃ s₃' => .pure ⟨.cons rfl .nil, rfl⟩) fun _ => .pure ⟨.cons rfl .nil, rfl⟩

theorem twins_importedList : Twins A importedList importedList Eq := by
  intro s s'
  unfold importedList
  refine .at? (fun hk => .bump fun ht s₁ s₁' _ _ => ?_) fun _ => ?_
  · rw [lexeme_eq ht hk rfl]
    exact .pure rfl
  · refine (twins_eat .lparen).bind fun inParens inParens' h s₁ s₁' => ?_
    subst h
    refine (twins_importedNames inParens).bind fun names names' h s₂ s₂' => ?_
    subst h
    exact .ite (fun _ => .expect fun _ s₃ s₃' => .pure rfl) fun _ => .pure rfl

theorem twins_importFromStatement :
    Twins A importFromStatement importFromStatement Stmt.Agree := by
  intro s s'
  unfold importFromStatement
  refine .skip_bump fun s₁ s₁' => twins_importLevel.bind fun level level' h s₂ s₂' => ?_
  subst h
  refine .peek fun _ => twins_moduleName.bind fun name name' h s₃ s₃' => ?_
  subst h
  refine .ite (fun _ => .fault) fun _ => .expect fun _ s₄ s₄' => ?_
  refine twins_importedList.bind fun names names' h s₅ s₅' => .closeStatement fun x x' s₆ s₆' => ?_
  subst h
  exact .pure ⟨trivial, rfl⟩

theorem twins_wordStatement {make : Extent → Stmt} (h : ∀ x x', (make x).Agree (make x')) :
    Twins A (wordStatement make) (wordStatement make) Stmt.Agree := fun _ _ =>
  .skip_bump fun _ _ => .closeStatement fun x x' _ _ => .pure (h x x')

theorem twins_simpleStatement (hA : OneToOne A) (hr : r.Twin A) :
    Twins A (simpleStatement r) (simpleStatement r) Stmt.Agree := by
  intro s s'
  unfold simpleStatement
  refine .kind ?_
  split
  · exact twins_wordStatement (by exact fun x x' => ⟨trivial, rfl⟩) s s'
  · exact twins_wordStatement (by exact fun x x' => ⟨trivial, rfl⟩) s s'
  · exact twins_wordStatement (by exact fun x x' => ⟨trivial, rfl⟩) s s'
  · exact twins_returnStatement hr s s'
  · exact twins_raiseStatement hr s s'
  · exact twins_deleteStatement hr s s'
  · exact twins_assertStatement hr s s'
  · refine .skip_bump fun s₁ s₁' => twins_nameList.bind fun names names' h s₂ s₂' => ?_
    subst h
    exact .closeStatement fun x x' s₃ s₃' => .pure ⟨trivial, rfl⟩
  · refine .skip_bump fun s₁ s₁' => twins_nameList.bind fun names names' h s₂ s₂' => ?_
    subst h
    exact .closeStatement fun x x' s₃ s₃' => .pure ⟨trivial, rfl⟩
  · exact twins_importStatement s s'
  · exact twins_importFromStatement s s'
  · exact twins_expressionStatement hA hr s s'

/-! ## Lines and blocks -/

/-- No line ends faulty without a report. -/
theorem twins_semicolons (hA : OneToOne A) (hr : r.Twin A) :
    Twins A (semicolons r) (semicolons r) fun p p' =>
      Stmt.AgreeAll p.1 p'.1 ∧ p.2 = .clean ∧ p'.2 = .clean := by
  intro s s'
  unfold semicolons
  refine .loop ⟨.nil, rfl, rfl⟩ fun ⟨found, _⟩ ⟨found', _⟩ ⟨h, _, _⟩ s s' => .isAborted ?_
  refine .get fun hs => ?_
  rw [hs.errors, hs.errors']
  refine (twins_simpleStatement hA hr).bind fun t t' ht s₁ s₁' => .get fun hs => ?_
  rw [hs.errors, hs.errors']
  have hmore := List.rel_append h (.cons ht .nil)
  refine .ite (fun hne => absurd rfl hne) fun _ => .eat (fun _ s₂ s₂' => ?_) fun _ => ?_
  · exact .kind (.kind (.pure ⟨⟨hmore, rfl, rfl⟩, rfl⟩))
  · exact .pure ⟨⟨hmore, rfl, rfl⟩, rfl⟩

theorem twins_simpleLine (hA : OneToOne A) (hr : r.Twin A) :
    Twins A (simpleLine r) (simpleLine r) Stmt.AgreeAll := by
  intro s s'
  unfold simpleLine
  refine Both.bind (p := fun _ => by dsimp only; split <;> infer_instance)
    (q := fun _ => by dsimp only; split <;> infer_instance) (twins_semicolons hA hr _ _)
    fun ⟨found, ending⟩ ⟨found', ending'⟩ h s₁ s₁' => ?_
  obtain ⟨h, rfl, rfl⟩ := h
  refine .eat (fun _ s₂ s₂' => .pure h) fun _ => .at? (fun _ => ?_) fun _ => ?_
  · exact .isAborted (.pure h)
  · exact .isAborted (.peek fun _ => .fault)

theorem twins_blockBody (hr : r.Twin A) : Twins A (blockBody r) (blockBody r) Stmt.AgreeAll := by
  refine .collect .nil fun s s' => .isAborted (.at? (fun _ => ?_) fun _ => .at? (fun _ => ?_) fun _ => ?_)
  · exact .at? (fun _ => .pure ⟨.nil, rfl⟩) fun _ => .pure ⟨.nil, rfl⟩
  · exact .pure ⟨.nil, rfl⟩
  · refine .eat (fun _ s₁ s₁' => .pure ⟨.nil, rfl⟩) fun _ => .get fun hs => ?_
    rw [hs.pos]
    refine hr.statement.bind fun found found' h s₁ s₁' => .get fun hs => ?_
    rw [hs.pos]
    refine (twins_at .eof).bind fun eof eof' heof s₂ s₂' => ?_
    refine (twins_at .dedent).bind fun dedent dedent' hdedent s₃ s₃' => ?_
    subst heof hdedent
    exact .ite (fun _ => .unexpected) fun _ => .pure ⟨h, rfl⟩

theorem twins_block (hA : OneToOne A) (hr : r.Twin A) :
    Twins A (block r) (block r) Stmt.AgreeAll := by
  intro s s'
  unfold block
  refine .isAborted (.eat (fun _ s₁ s₁' => ?_) fun _ => twins_simpleLine hA hr s s')
  refine .eat (fun _ s₂ s₂' => ?_) fun _ => .peek fun _ => .fault
  refine (twins_blockBody hr).bind fun body body' h s₃ s₃' => ?_
  exact .eat (fun _ s₄ s₄' => .pure h) fun _ => .pure h

theorem twins_suite (hA : OneToOne A) (hr : r.Twin A) :
    Twins A (suite r) (suite r) Stmt.AgreeAll := by
  intro s s'
  unfold suite
  exact .expect fun _ s₁ s₁' => twins_block hA hr s₁ s₁'

theorem twins_elseSuite (hA : OneToOne A) (hr : r.Twin A) :
    Twins A (elseSuite r) (elseSuite r) Stmt.AgreeAll := by
  intro s s'
  unfold elseSuite
  exact .eat (fun _ s₁ s₁' => twins_suite hA hr s₁ s₁') fun _ => .pure .nil

/-! ## Compound statements -/

theorem twins_branchStatement (hA : OneToOne A) (hr : r.Twin A) :
    Twins A (branchStatement r) (branchStatement r) Stmt.Agree := by
  intro s s'
  unfold branchStatement
  refine .skip_bump fun s₁ s₁' => (twins_named hr).bind fun test test' htest s₂ s₂' => ?_
  refine (twins_suite hA hr).bind fun body body' hbody s₃ s₃' => .at? (fun _ => ?_) fun _ => ?_
  · exact hr.branch.bind fun t t' ht s₄ s₄' => .pure_bind (.closeCompound fun x x' =>
      .pure (.branch htest.toAgree hbody (.cons ht .nil)))
  · exact (twins_elseSuite hA hr).bind fun orelse orelse' horelse s₄ s₄' =>
      .closeCompound fun x x' => .pure (.branch htest.toAgree hbody horelse)

theorem twins_whileStatement (hA : OneToOne A) (hr : r.Twin A) :
    Twins A (whileStatement r) (whileStatement r) Stmt.Agree := by
  intro s s'
  unfold whileStatement
  refine .skip_bump fun s₁ s₁' => (twins_named hr).bind fun test test' htest s₂ s₂' => ?_
  refine (twins_suite hA hr).bind fun body body' hbody s₃ s₃' => ?_
  exact (twins_elseSuite hA hr).bind fun orelse orelse' horelse s₄ s₄' =>
    .closeCompound fun x x' => .pure (.whileLoop htest.toAgree hbody horelse)

theorem twins_forStatement (hA : OneToOne A) (hr : r.Twin A) {isAsync isAsync' : Option Token}
    (h : isAsync.isSome = isAsync'.isSome) :
    Twins A (forStatement r isAsync) (forStatement r isAsync') Stmt.Agree := by
  intro s s'
  unfold forStatement
  refine .skip_bump fun s₁ s₁' => (twins_starTargets hr).bind fun t t' ht s₂ s₂' => ?_
  refine (twins_markTarget .store _ ht.toAgree _ _).bind fun t t' ht s₃ s₃' => ?_
  refine .expect fun _ s₄ s₄' => (twins_starExpressions hr).bind fun iter iter' hiter s₅ s₅' => ?_
  refine (twins_suite hA hr).bind fun body body' hbody s₆ s₆' => ?_
  rw [h]
  exact (twins_elseSuite hA hr).bind fun orelse orelse' horelse s₇ s₇' =>
    .closeCompound fun x x' => .pure (.forLoop _ ht hiter.toAgree hbody horelse)

theorem closesBeforeColon_eq {ts ts' : List Token} (h : List.Forall₂ (Token.Alike A) ts ts')
    (depth : Nat) : closesBeforeColon depth ts = closesBeforeColon depth ts' := by
  induction h generalizing depth with
  | nil => rfl
  | @cons t t' rest rest' ht hrest ih =>
    have hnext : (rest.head?.any fun t => t.kind = .colon) =
        rest'.head?.any fun t => t.kind = .colon := by
      cases hrest with
      | nil => rfl
      | cons ht _ => simp [ht.kind]
    simp only [closesBeforeColon, ht.kind, hnext, ih]

theorem endsInColon_eq {ts ts' : List Token} (h : List.Forall₂ (Token.Alike A) ts ts')
    (depth : Int) (last : Token.Kind) : endsInColon depth last ts = endsInColon depth last ts' := by
  induction h generalizing depth last with
  | nil => rfl
  | cons ht hrest ih => simp only [endsInColon, ht.kind, ih]

theorem isWord_eq {t t' : Token} (h : t.Alike A t') (word : Text) : t.isWord word = t'.isWord word := by
  unfold Token.isWord
  rw [← h.kind]
  by_cases hk : t.kind = .ident
  · rw [lexeme_eq h hk rfl]
  · simp [hk]

theorem twins_withItem (hr : r.Twin A) : Twins A (withItem r) (withItem r) WithItem.Agree := by
  intro s s'
  unfold withItem
  refine hr.expression.bind fun c c' hc s₁ s₁' => .eat (fun _ s₂ s₂' => .peek fun _ => ?_) fun _ => ?_
  · refine (twins_starTarget hr).bind fun t t' ht s₃ s₃' => ?_
    exact (twins_markTarget .store _ ht.toAgree _ _).bind fun t t' ht s₄ s₄' =>
      .pure (.mk hc.toAgree (.some ht))
  · exact .pure (.mk hc.toAgree .none)

theorem twins_withItems (hr : r.Twin A) :
    Twins A (withItems r) (withItems r) (List.Forall₂ WithItem.Agree) := by
  intro s s'
  unfold withItems
  refine (twins_at .lparen).bind fun paren paren' h s₁ s₁' => .get fun hs => ?_
  subst h
  rw [closesBeforeColon_eq hs.upcoming]
  refine .ite (fun _ => .skip_bump fun s₂ s₂' => ?_) fun _ => ?_
  · refine (Twins.collect (Q := WithItem.Agree) .nil fun s s' => .isAborted (.at? (fun _ => ?_) fun _ =>
      .at? (fun _ => ?_) fun _ => (twins_withItem hr).bind fun w w' hw s₁ s₁' => ?_)).bind
      fun ws ws' hws s₃ s₃' => ?_
    · exact .at? (fun _ => .pure ⟨.nil, rfl⟩) fun _ => .pure ⟨.nil, rfl⟩
    · exact .pure ⟨.nil, rfl⟩
    · exact .eat (fun _ s₂ s₂' => .pure ⟨.cons hw .nil, rfl⟩) fun _ => .pure ⟨.cons hw .nil, rfl⟩
    · exact .expect fun _ s₄ s₄' => .pure hws
  · refine .collect .nil fun s s' => (twins_withItem hr).bind fun w w' hw s₂ s₂' => ?_
    refine .isAborted (.eat (fun _ s₃ s₃' => ?_) fun _ => ?_)
    · exact .pure ⟨.cons hw .nil, rfl⟩
    · exact .pure ⟨.cons hw .nil, rfl⟩

theorem twins_withStatement (hA : OneToOne A) (hr : r.Twin A) {isAsync isAsync' : Option Token}
    (h : isAsync.isSome = isAsync'.isSome) :
    Twins A (withStatement r isAsync) (withStatement r isAsync') Stmt.Agree := by
  intro s s'
  unfold withStatement
  rw [h]
  refine .skip_bump fun s₁ s₁' => (twins_withItems hr).bind fun ws ws' hws s₂ s₂' => ?_
  exact (twins_suite hA hr).bind fun body body' hbody s₃ s₃' => .closeCompound fun x x' =>
    .pure (.withBlock _ hws hbody)

/-- Several types without parentheses are reported, so there is a single one. -/
theorem twins_handlerType (hr : r.Twin A) :
    Twins A (handlerType r) (handlerType r) (Expr.AgreeFrom A) := by
  intro s s'
  unfold handlerType
  refine hr.expression.bind fun head head' hhead s₁ s₁' => .peek fun ht => ?_
  rw [ht.kind]
  refine .ite (fun _ => ?_) fun _ => .pure hhead
  have hitem : Twins A r.expression r.expression fun _ _ => True :=
    hr.expression.mono fun _ _ _ => trivial
  exact (Twins.collectCommas (.cons trivial .nil) (by exact fun _ _ => .kind (.kind (.pure rfl)))
    hitem).bind fun _ _ _ s₂ s₂' => .fault

theorem twins_handler (hA : OneToOne A) (hr : r.Twin A) :
    Twins A (handler r) (handler r) fun p p' => p.1.Agree p'.1 ∧ p.2 = p'.2 := by
  intro s s'
  unfold handler
  refine .skip_bump fun s₁ s₁' => (twins_eat .star).bind fun star star' h s₂ s₂' => ?_
  subst h
  refine .at? (fun _ => ?_) fun _ => ?_
  · exact (twins_suite hA hr).bind fun body body' hbody s₃ s₃' => .pure ⟨.mk .none hbody, rfl⟩
  · refine (twins_handlerType hr).bind fun type type' htype s₃ s₃' => ?_
    refine twins_asName.bind fun name name' h s₄ s₄' => ?_
    subst h
    exact (twins_suite hA hr).bind fun body body' hbody s₅ s₅' =>
      .pure ⟨.mk (.some htype.toAgree) hbody, rfl⟩

theorem twins_tryStatement (hA : OneToOne A) (hr : r.Twin A) :
    Twins A (tryStatement r) (tryStatement r) Stmt.Agree := by
  intro s s'
  unfold tryStatement
  refine .skip_bump fun s₁ s₁' => (twins_suite hA hr).bind fun body body' hbody s₂ s₂' => ?_
  refine (Twins.collect (Q := fun (p p' : Handler × Bool) => p.1.Agree p'.1 ∧ p.2 = p'.2) .nil
    fun s s' => .isAborted (.at? (fun _ => ?_) fun _ => ?_)).bind fun found found' hfound s₃ s₃' => ?_
  · exact (twins_handler hA hr).bind fun h h' hh s₃ s₃' => .pure ⟨.cons hh .nil, rfl⟩
  · exact .pure ⟨.nil, rfl⟩
  · have hstar : found.map (·.2) = found'.map (·.2) :=
      List.forall₂_eq_eq_eq ▸ List.rel_map (fun _ _ h => h.2) hfound
    have hany : found.any (·.2) = found'.any (·.2) := by
      simpa [Function.comp_def] using congrArg (List.any · id) hstar
    have hhandlers : List.Forall₂ Handler.Agree (found.map (·.1)) (found'.map (·.1)) :=
      List.rel_map (fun _ _ h => h.1) hfound
    have hclose {orelse orelse' final final' : List Stmt} (horelse : Stmt.AgreeAll orelse orelse')
        (hfinal : Stmt.AgreeAll final final') (first first' : Token) (s s' : State) :
        Both A s s'
          (do
            let x ← closeCompound first
            return Stmt.tryBlock x (found'.any (·.2)) body (found.map (·.1)) orelse final)
          (do
            let x ← closeCompound first'
            return Stmt.tryBlock x (found'.any (·.2)) body' (found'.map (·.1)) orelse' final')
          Stmt.Agree :=
      .closeCompound fun x x' => .pure (.tryBlock _ hhandlers hbody horelse hfinal)
    rw [isEmpty_eq_of_forall₂ hfound, hany]
    dsimp only
    split
    -- Without a handler there is a `finally` or a report.
    · refine .pure_bind (.eat (fun _ s₄ s₄' => ?_) fun _ => .peek fun _ => .fault)
      exact (twins_suite hA hr).bind fun final final' hfinal s₅ s₅' =>
        hclose .nil hfinal _ _ s₅ s₅'
    · refine (twins_elseSuite hA hr).bind fun orelse orelse' horelse s₄ s₄' => ?_
      refine .eat (fun _ s₅ s₅' => ?_) fun _ => hclose horelse .nil _ _ s₄ s₄'
      exact (twins_suite hA hr).bind fun final final' hfinal s₆ s₆' =>
        hclose horelse hfinal _ _ s₆ s₆'

/-! ## Matches -/

theorem twins_atMatch : Twins A atMatch atMatch Eq := by
  intro s s'
  unfold atMatch
  refine .get fun hs => .pure ?_
  have hword : s.cursor.atWord (utf8 "match") = s'.cursor.atWord (utf8 "match") :=
    isWord_eq (hs.peek 0) _
  have hline := endsInColon_eq (List.forall₂_drop 1 hs.upcoming) 0 .error
  rw [hword, hs.kind_eq 1, hline]

theorem twins_matchSubject (hr : r.Twin A) :
    Twins A (matchSubject r) (matchSubject r) (Expr.AgreeFrom A) :=
  twins_orTuple (twins_starNamed hr) (twins_at _)

theorem twins_matchCase (hA : OneToOne A) (hr : r.Twin A) :
    Twins A (matchCase r) (matchCase r) MatchCase.Agree := by
  intro s s'
  unfold matchCase
  refine .skip_bump fun s₁ s₁' => (twins_patterns hr).bind fun p p' hp s₂ s₂' => ?_
  refine (twins_eat .kwIf).bind fun more more' h s₃ s₃' => ?_
  subst h
  refine both_optional (twins_named hr) fun guard guard' hguard s₄ s₄' => ?_
  exact (twins_suite hA hr).bind fun body body' hbody s₅ s₅' => .pure (.mk hp hguard hbody)

theorem twins_matchCases (hA : OneToOne A) (hr : r.Twin A) :
    Twins A (matchCases r) (matchCases r) (List.Forall₂ MatchCase.Agree) := by
  refine .collect .nil fun s s' => .isAborted (.at? (fun _ => ?_) fun _ => .at? (fun _ => ?_) fun _ => ?_)
  · exact .at? (fun _ => .pure ⟨.nil, rfl⟩) fun _ => .pure ⟨.nil, rfl⟩
  · exact .pure ⟨.nil, rfl⟩
  · refine .eat (fun _ s₁ s₁' => .pure ⟨.nil, rfl⟩) fun _ => .get fun hs => ?_
    have hword : s.cursor.atWord (utf8 "case") = s'.cursor.atWord (utf8 "case") :=
      isWord_eq (hs.peek 0) _
    rw [hword]
    refine .ite (fun _ => ?_) fun _ => .peek fun _ => .fault
    exact (twins_matchCase hA hr).bind fun c c' hc s₁ s₁' => .pure ⟨.cons hc .nil, rfl⟩

theorem twins_matchBlock (hA : OneToOne A) (hr : r.Twin A) :
    Twins A (matchBlock r) (matchBlock r) (List.Forall₂ MatchCase.Agree) := by
  intro s s'
  unfold matchBlock
  refine .expect fun _ s₁ s₁' => .eat (fun _ s₂ s₂' => ?_) fun _ => .peek fun _ => .fault
  refine (twins_matchCases hA hr).bind fun cs cs' hcs s₃ s₃' => ?_
  exact .eat (fun _ s₄ s₄' => .pure hcs) fun _ => .pure hcs

theorem twins_matchStatement (hA : OneToOne A) (hr : r.Twin A) :
    Twins A (matchStatement r) (matchStatement r) Stmt.Agree := by
  intro s s'
  unfold matchStatement
  refine .skip_bump fun s₁ s₁' => (twins_matchSubject hr).bind fun e e' he s₂ s₂' => ?_
  refine .expect fun _ s₃ s₃' => (twins_matchBlock hA hr).bind fun cs cs' hcs s₄ s₄' => ?_
  exact .closeCompound fun x x' => .pure (.matchBlock he.toAgree hcs)

/-! ## Definitions -/

theorem twins_definedName : Twins A definedName definedName Eq := by
  intro s s'
  unfold definedName
  refine .peek fun ht => .expect fun hk s₁ s₁' => ?_
  rw [lexeme_eq ht hk rfl]
  exact .pure rfl

theorem twins_functionStatement (hA : OneToOne A) (hr : r.Twin A)
    {isAsync isAsync' : Option Token} (h : isAsync.isSome = isAsync'.isSome) {ds ds' : List Expr}
    (hds : Expr.AgreeAll .load ds ds') :
    Twins A (functionStatement r isAsync ds) (functionStatement r isAsync' ds') Stmt.Agree := by
  intro s s'
  unfold functionStatement
  refine .skip_bump fun s₁ s₁' => twins_definedName.bind fun name name' hname s₂ s₂' => ?_
  subst hname
  rw [h]
  refine .expect fun _ s₃ s₃' => (twins_parameters hr .rparen true).bind fun ps ps' hps s₄ s₄' => ?_
  refine .expect fun _ s₅ s₅' => .pure_bind ?_
  refine (twins_eat .arrow).bind fun more more' h s₆ s₆' => ?_
  subst h
  refine both_optional hr.expression fun returns returns' hreturns s₇ s₇' => ?_
  exact (twins_suite hA hr).bind fun body body' hbody s₈ s₈' => .closeCompound fun x x' =>
    .pure (.function _ _ hps hbody hds hreturns)

theorem twins_classStatement (hA : OneToOne A) (hr : r.Twin A) {ds ds' : List Expr}
    (hds : Expr.AgreeAll .load ds ds') :
    Twins A (classStatement r ds) (classStatement r ds') Stmt.Agree := by
  intro s s'
  unfold classStatement
  refine .skip_bump fun s₁ s₁' => twins_definedName.bind fun name name' hname s₂ s₂' => ?_
  subst hname
  refine .eat (fun _ s₃ s₃' => ?_) fun _ => .pure_bind ?_
  · refine (twins_arguments hr).bind fun a a' ha s₄ s₄' => .expect fun _ s₅ s₅' => .pure_bind ?_
    exact (twins_suite hA hr).bind fun body body' hbody s₆ s₆' => .closeCompound fun x x' =>
      .pure (.classDef _ ha.1 ha.2 hbody hds)
  · exact (twins_suite hA hr).bind fun body body' hbody s₃ s₃' => .closeCompound fun x x' =>
      .pure (.classDef _ .nil .nil hbody hds)

/-- A single statement. -/
theorem both_single {s s' : State} {x y : Parser Stmt} (h : Twins A x y Stmt.Agree) :
    Both A s s' (do return [← x]) (do return [← y]) Stmt.AgreeAll :=
  h.bind fun _ _ ht _ _ => .pure (.cons ht .nil)

theorem twins_decoratedStatement (hA : OneToOne A) (hr : r.Twin A) :
    Twins A (decoratedStatement r) (decoratedStatement r) Stmt.AgreeAll := by
  intro s s'
  unfold decoratedStatement
  refine (Twins.collect (Q := Expr.Agree .load) .nil fun s s' =>
    .isAborted (.at? (fun _ => .skip_bump fun s₁ s₁' => ?_) fun _ => ?_)).bind
    fun ds ds' hds s₁ s₁' => .peek fun ht => ?_
  · refine (twins_named hr).bind fun e e' he s₂ s₂' => .expect fun _ s₃ s₃' => ?_
    exact .pure ⟨.cons he.toAgree .nil, rfl⟩
  · exact .pure ⟨.nil, rfl⟩
  · rw [ht.kind]
    refine .ite (fun _ => ?_) fun _ => .ite (fun _ => ?_) fun _ => .kind (.ite (fun _ => ?_) fun _ => .fault)
    · exact both_single (twins_functionStatement hA hr (by rfl) hds)
    · exact both_single (twins_classStatement hA hr hds)
    · exact .skip_bump fun s₂ s₂' => both_single (twins_functionStatement hA hr (by rfl) hds)

theorem twins_asyncStatement (hA : OneToOne A) (hr : r.Twin A) :
    Twins A (asyncStatement r) (asyncStatement r) Stmt.AgreeAll := by
  intro s s'
  unfold asyncStatement
  refine .peek fun _ => .kind ?_
  split
  · exact .skip_bump fun s₁ s₁' => both_single (twins_functionStatement hA hr (by rfl) .nil)
  · exact .skip_bump fun s₁ s₁' => both_single (twins_forStatement hA hr (by rfl))
  · exact .skip_bump fun s₁ s₁' => both_single (twins_withStatement hA hr (by rfl))
  · exact .fault

theorem twins_statement (hA : OneToOne A) (hr : r.Twin A) :
    Twins A (statement r) (statement r) Stmt.AgreeAll := by
  intro s s'
  unfold statement
  refine .isAborted (.kind ?_)
  split
  · exact .peek fun _ => .fault
  · exact both_single (twins_branchStatement hA hr)
  · exact both_single (twins_whileStatement hA hr)
  · exact both_single (twins_forStatement hA hr (by rfl))
  · exact both_single (twins_withStatement hA hr (by rfl))
  · exact both_single (twins_tryStatement hA hr)
  · exact both_single (twins_functionStatement hA hr (by rfl) .nil)
  · exact both_single (twins_classStatement hA hr .nil)
  · exact twins_decoratedStatement hA hr s s'
  · exact twins_asyncStatement hA hr s s'
  · refine twins_atMatch.bind fun isMatch isMatch' h s₁ s₁' => ?_
    subst h
    refine .ite (fun _ => ?_) fun _ => twins_simpleLine hA hr s₁ s₁'
    exact both_single (twins_matchStatement hA hr)

end CloneScout.Grammar
