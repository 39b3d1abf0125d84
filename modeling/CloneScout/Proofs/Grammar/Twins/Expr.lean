import CloneScout.Proofs.Grammar.Expr
import CloneScout.Proofs.Grammar.Twins.Strings

/-!
# Expressions side by side

Each rule of expressions finds agreeing trees in both runs if the rules that it comes back to do.
-/

set_option linter.unusedSectionVars false
set_option synthInstance.maxSize 1000

namespace CloneScout.Grammar

variable {A : Nat → Nat → Prop} {r : Rules}

/-! ## Tokens and conditions -/

theorem lexeme_eq {t t' : Token} {k : Token.Kind} (h : t.Alike A t') (hk : t.kind = k)
    (hlayout : k.isLayout = false) : t.lexeme = t'.lexeme :=
  h.lexeme (by rw [hk]; exact hlayout)

/-- The next tokens decide in the same way. -/
theorem twins_kind {p : Token.Kind → Bool} :
    Twins A (do return p (← kind)) (do return p (← kind)) Eq :=
  fun _ _ => .kind (.pure rfl)

theorem twins_at (k : Token.Kind) : Twins A (at? k) (at? k) Eq := twins_kind

theorem twins_eat (k : Token.Kind) : Twins A (eat k) (eat k) Eq := by
  intro s s'
  have h : Both A s s' (eat k >>= pure) (eat k >>= pure) Eq :=
    .eat (fun _ s₁ s₁' => .pure rfl) fun _ => .pure rfl
  rwa [bind_pure] at h

theorem twins_atComprehension : Twins A atComprehension atComprehension Eq :=
  fun _ _ => .kind (.kind (.kind (.pure rfl)))

/-! ## Named, starred and yielded expressions -/

theorem twins_named (hr : r.Twin A) : Twins A (named r) (named r) (Expr.AgreeFrom A) := by
  intro s s'
  unfold named
  refine .kind (.kind (.ite (fun hcond => ?_) fun _ => hr.expression s s'))
  rw [Bool.and_eq_true, decide_eq_true_eq] at hcond
  refine .bump fun ht s₁ s₁' _ _ => .extent fun x x' => .skip_bump fun s₂ s₂' => ?_
  rw [lexeme_eq ht hcond.1 rfl]
  refine hr.expression.bind fun value value' hvalue s₃ s₃' => .extent fun y y' => .pure ?_
  exact .named ⟨rfl, fun _ => rfl⟩ hvalue.toAgree

theorem twins_starredOr (hr : r.Twin A) {plain : Parser Expr}
    (hplain : Twins A plain plain (Expr.AgreeFrom A)) :
    Twins A (starredOr r plain) (starredOr r plain) (Expr.AgreeFrom A) := by
  intro s s'
  unfold starredOr
  refine .at? (fun _ => .skip_bump fun s₁ s₁' => ?_) fun _ => hplain s s'
  exact (hr.arithmetic 0).bind fun value value' hvalue s₂ s₂' => .extent fun x x' =>
    .pure (.starred hvalue.toAgree)

theorem twins_starExpression (hr : r.Twin A) :
    Twins A (starExpression r) (starExpression r) (Expr.AgreeFrom A) :=
  twins_starredOr hr hr.expression

theorem twins_starNamed (hr : r.Twin A) :
    Twins A (starNamed r) (starNamed r) (Expr.AgreeFrom A) :=
  twins_starredOr hr (twins_named hr)

/-- An expression, or several with commas between them as a tuple. -/
theorem twins_orTuple {item : Parser Expr} {stops : Parser Bool} [Steady item] [Steady stops]
    (hitem : Twins A item item (Expr.AgreeFrom A)) (hstops : Twins A stops stops Eq) :
    let x : Parser Expr := do
      let first ← peek
      let head ← item
      if ← at? .comma then
        let elts ← collectCommas [head] stops item
        return .tuple (← extentFrom first) elts .load
      else return head
    Twins A x x (Expr.AgreeFrom A) := by
  intro x s s'
  refine .peek fun _ => hitem.bind fun head head' hhead s₁ s₁' => ?_
  refine .at? (fun _ => ?_) fun _ => .pure hhead
  have hagree : Twins A item item (Expr.Agree .load) := hitem.mono fun _ _ h => h.toAgree
  refine (Twins.collectCommas (.cons hhead.toAgree .nil) hstops hagree).bind
    fun elts elts' helts s₂ s₂' => .extent fun y y' => ?_
  exact .pure (.tuple helts)

variable [r.Steady]

theorem twins_starExpressions (hr : r.Twin A) :
    Twins A (starExpressions r) (starExpressions r) (Expr.AgreeFrom A) :=
  twins_orTuple (twins_starExpression hr) fun _ _ => .kind (.kind (.pure rfl))

theorem twins_yieldExpr (hr : r.Twin A) :
    Twins A (yieldExpr r) (yieldExpr r) (Expr.AgreeFrom A) := by
  intro s s'
  unfold yieldExpr
  refine .skip_bump fun s₁ s₁' => .eat (fun _ s₂ s₂' => ?_) fun _ => .kind (.kind ?_)
  · exact hr.expression.bind fun value value' hvalue s₃ s₃' => .extent fun x x' =>
      .pure (.yieldFrom hvalue.toAgree)
  · refine .ite (fun _ => ?_) fun _ => .extent fun x x' => .pure (.yield .none)
    exact (twins_starExpressions hr).bind fun value value' hvalue s₂ s₂' => .extent fun x x' =>
      .pure (.yield (.some hvalue.toAgree))

theorem twins_yieldOrStar (hr : r.Twin A) :
    Twins A (yieldOrStar r) (yieldOrStar r) (Expr.AgreeFrom A) := by
  intro s s'
  unfold yieldOrStar
  exact .at? (fun _ => twins_yieldExpr hr s s') fun _ => twins_starExpressions hr s s'

/-! ## Parameters -/

/-- The heads have the same name and agreeing annotations. -/
structure ParamHead.Agree (head head' : ParamHead) : Prop where
  name : head.name = head'.name
  hint : Expr.AgreeOpt .load head.hint head'.hint

/-- The parameters agree, and the same restricts the next ones. -/
structure ParamList.Agree (ps ps' : ParamList) : Prop where
  posOnly : List.Forall₂ Param.Agree ps.posOnly ps'.posOnly
  plain : List.Forall₂ Param.Agree ps.plain ps'.plain
  star : Option.Rel Param.Agree ps.star ps'.star
  kwOnly : List.Forall₂ Param.Agree ps.kwOnly ps'.kwOnly
  doubleStar : Option.Rel Param.Agree ps.doubleStar ps'.doubleStar
  seenStar : ps.seenStar = ps'.seenStar
  bareStar : ps.bareStar.isSome = ps'.bareStar.isSome
  seenDefault : ps.seenDefault = ps'.seenDefault

theorem isSome_eq_of_rel {α β : Type} {R : α → β → Prop} {a : Option α} {b : Option β}
    (h : Option.Rel R a b) : a.isSome = b.isSome := by
  cases h <;> rfl

theorem isEmpty_eq_of_forall₂ {α β : Type} {R : α → β → Prop} {as : List α} {bs : List β}
    (h : List.Forall₂ R as bs) : as.isEmpty = bs.isEmpty := by
  cases h <;> rfl

theorem twins_paramHead (hr : r.Twin A) (hints starHint : Bool) :
    Twins A (paramHead r hints starHint) (paramHead r hints starHint) ParamHead.Agree := by
  intro s s'
  unfold paramHead
  refine .peek fun ht => .expect fun hk s₁ s₁' => ?_
  have hlexeme := lexeme_eq ht hk rfl
  have hhint {e e' : Expr} (h : e.AgreeFrom A e') {x x' : Span} :
      ParamHead.Agree ⟨s.cursor.peek.lexeme, some e, x⟩ ⟨s'.cursor.peek.lexeme, some e', x'⟩ :=
    ⟨hlexeme, .some h.toAgree⟩
  simp only [↓reduceIte]
  refine .ite (fun _ => .eat (fun _ s₂ s₂' => ?_) fun _ => ?_) fun _ => ?_
  · refine .at? (fun _ => .ite (fun _ => ?_) fun _ => ?_) fun _ => .ite (fun _ => ?_) fun _ => ?_
    · exact (twins_starExpression hr).bind fun _ _ h s₃ s₃' => .pure (hhint h)
    · exact hr.expression.bind fun _ _ h s₃ s₃' => .pure (hhint h)
    · exact (twins_starExpression hr).bind fun _ _ h s₃ s₃' => .pure (hhint h)
    · exact hr.expression.bind fun _ _ h s₃ s₃' => .pure (hhint h)
  · exact .pure ⟨hlexeme, .none⟩
  · exact .pure ⟨hlexeme, .none⟩

theorem twins_defaultValue (hr : r.Twin A) :
    Twins A (defaultValue r) (defaultValue r) (Expr.AgreeOpt .load) := by
  intro s s'
  unfold defaultValue
  refine .eat (fun _ s₁ s₁' => ?_) fun _ => .pure .none
  exact hr.expression.bind fun value value' hvalue s₂ s₂' => .pure (.some hvalue.toAgree)

theorem twins_plainParam (hr : r.Twin A) (closing : Token.Kind) (hints : Bool) {ps ps' : ParamList}
    (h : ps.Agree ps') :
    Twins A (plainParam r closing hints ps) (plainParam r closing hints ps') ParamList.Agree := by
  intro s s'
  unfold plainParam
  refine (twins_paramHead hr hints false).bind fun head head' hhead s₁ s₁' => ?_
  rw [hhead.name]
  refine .ite (fun _ => .recoverTo fun s₂ s₂' => .pure h) fun _ => ?_
  refine (twins_defaultValue hr).bind fun value value' hvalue s₂ s₂' => ?_
  have hparam : Param.Agree (.mk head'.name head.hint value) (.mk head'.name head'.hint value') :=
    .mk hhead.hint hvalue
  have hsome := isSome_eq_of_rel hvalue
  rw [h.seenStar, h.seenDefault, ← Option.not_isSome, ← Option.not_isSome, hsome]
  refine .ite (fun _ => .pure ?_) fun _ => .ite (fun _ => .fault) fun _ => .pure ?_
  · exact { h with
      kwOnly := List.rel_append h.kwOnly (.cons hparam .nil), seenStar := rfl, seenDefault := rfl }
  · exact { h with
      plain := List.rel_append h.plain (.cons hparam .nil), seenStar := rfl, seenDefault := rfl }

theorem twins_paramItem (hr : r.Twin A) (closing : Token.Kind) (hints : Bool) {ps ps' : ParamList}
    (h : ps.Agree ps') :
    Twins A (paramItem r closing hints ps) (paramItem r closing hints ps') ParamList.Agree := by
  intro s s'
  unfold paramItem
  refine .peek fun ht => ?_
  rw [ht.kind]
  split
  · rw [h.seenStar, isEmpty_eq_of_forall₂ h.posOnly, isEmpty_eq_of_forall₂ h.plain]
    refine .skip_bump fun s₁ s₁' => .ite (fun _ => .fault) fun _ => .pure ?_
    exact { h with posOnly := h.plain, plain := .nil, seenStar := rfl }
  · rw [isSome_eq_of_rel h.doubleStar]
    refine .skip_bump fun s₁ s₁' => (twins_paramHead hr hints false).bind
      fun head head' hhead s₂ s₂' => .ite (fun _ => .fault) fun _ => .pure ?_
    rw [hhead.name]
    exact { h with doubleStar := .some (.mk hhead.hint .none) }
  · rw [h.seenStar]
    refine .skip_bump fun s₁ s₁' => .ite (fun _ => .fault) fun _ => .at? (fun _ => ?_) fun _ => ?_
    · refine (twins_paramHead hr hints true).bind fun head head' hhead s₂ s₂' => .pure ?_
      rw [hhead.name]
      exact { h with star := .some (.mk hhead.hint .none), seenStar := rfl }
    · exact .pure { h with seenStar := rfl, bareStar := rfl }
  · exact twins_plainParam hr closing hints h s s'

theorem twins_parameters (hr : r.Twin A) (closing : Token.Kind) (hints : Bool) :
    Twins A (parameters r closing hints) (parameters r closing hints) Params.Agree := by
  intro s s'
  unfold parameters
  have hempty : ParamList.Agree {} {} := ⟨.nil, .nil, .none, .nil, .none, rfl, rfl, rfl⟩
  refine Both.bind (p := fun _ => by dsimp only; split <;> infer_instance)
    (q := fun _ => by dsimp only; split <;> infer_instance)
    (Both.loop hempty fun ps ps' hps s s' => ?_) fun ps ps' hps s₁ s₁' => ?_
  · refine .isAborted (.at? (fun _ => ?_) fun _ => .at? (fun _ => ?_) fun _ => ?_)
    · exact .at? (fun _ => .pure ⟨hps, rfl⟩) fun _ => .pure ⟨hps, rfl⟩
    · exact .pure ⟨hps, rfl⟩
    · refine (twins_paramItem hr closing hints hps).bind fun ps ps' hps s₁ s₁' => ?_
      rw [isSome_eq_of_rel hps.doubleStar]
      have hcomma (s s' : State) : Both A s s' (do return (ps, ← eat .comma))
          (do return (ps', ← eat .comma)) fun r r' => r.1.Agree r'.1 ∧ r.2 = r'.2 :=
        .eat (fun _ s s' => .pure ⟨hps, rfl⟩) fun _ => .pure ⟨hps, rfl⟩
      refine (twins_at .comma).bind fun comma comma' hc s₂ s₂' => .kind ?_
      subst hc
      exact .ite (fun _ => .peek fun _ => .fault) fun _ => hcomma s₂ s₂'
  · have hparams := Params.Agree.mk hps.posOnly hps.plain hps.star hps.kwOnly hps.doubleStar
    have hbare := hps.bareStar
    rw [isEmpty_eq_of_forall₂ hps.kwOnly]
    cases hb : ps.bareStar with
    | none =>
      rw [hb] at hbare
      rw [Option.isNone_iff_eq_none.mp (Option.isSome_eq_false_iff.mp hbare.symm)]
      exact .pure hparams
    | some span =>
      rw [hb] at hbare
      obtain ⟨span', hb'⟩ := Option.isSome_iff_exists.mp hbare.symm
      rw [hb']
      exact .ite (fun _ => .fault) fun _ => .pure hparams

theorem twins_lambda (hr : r.Twin A) : Twins A (lambda r) (lambda r) (Expr.AgreeFrom A) := by
  intro s s'
  unfold lambda
  refine .skip_bump fun s₁ s₁' => (twins_parameters hr .colon false).bind
    fun ps ps' hps s₂ s₂' => .expect fun _ s₃ s₃' => ?_
  exact hr.expression.bind fun body body' hbody s₄ s₄' => .extent fun x x' =>
    .pure (.lambda hps hbody.toAgree)

/-! ## Comprehensions -/

theorem twins_starTarget (hr : r.Twin A) :
    Twins A (starTarget r) (starTarget r) (Expr.AgreeFrom A) :=
  twins_starredOr hr (hr.arithmetic 0)

theorem twins_starTargets (hr : r.Twin A) :
    Twins A (starTargets r) (starTargets r) (Expr.AgreeFrom A) :=
  twins_orTuple (twins_starTarget hr) fun _ _ => .kind (.pure rfl)

/-- What is marked can be a target. -/
theorem twins_markTarget (use : Context) (code : Diagnostic.Code) {e e' : Expr}
    (h : e.Agree .load e') (span span' : Span) :
    Twins A (markTarget use code e span) (markTarget use code e' span') (Expr.Agree use) := by
  intro s s'
  unfold markTarget
  rw [← h.fault?_eq]
  cases hfault : Target.fault? use e with
  | some fault => exact .fault
  | none => exact .pure (h.mark hfault)

theorem twins_comprehension (hr : r.Twin A) :
    Twins A (comprehension r) (comprehension r) Comprehension.Agree := by
  intro s s'
  unfold comprehension
  refine (twins_eat .kwAsync).bind fun isAsync isAsync' h s₁ s₁' => .skip_bump fun s₂ s₂' => ?_
  subst h
  refine .peek fun _ => (twins_starTargets hr).bind fun target target' htarget s₃ s₃' => ?_
  refine (twins_markTarget _ _ htarget.toAgree _ _).bind fun target target' htarget s₄ s₄' => ?_
  refine .expect fun _ s₅ s₅' => hr.disjunction.bind fun iter iter' hiter s₆ s₆' => ?_
  have hcondition : Twins A r.disjunction r.disjunction (Expr.Agree .load) :=
    hr.disjunction.mono fun _ _ h => h.toAgree
  refine (Twins.collectAfter .nil hcondition).bind fun conditions conditions' hconditions s₇ s₇' => ?_
  exact .pure (.mk htarget hiter.toAgree hconditions)

theorem twins_comprehensions (hr : r.Twin A) :
    Twins A (comprehensions r) (comprehensions r) (List.Forall₂ Comprehension.Agree) := by
  refine .collect .nil fun s s' => .isAborted (twins_atComprehension.bind fun go go' h s₁ s₁' => ?_)
  subst h
  refine .ite (fun _ => ?_) fun _ => .pure ⟨.nil, rfl⟩
  exact (twins_comprehension hr).bind fun c c' hc s₂ s₂' => .pure ⟨.cons hc .nil, rfl⟩

/-! ## Atoms -/

theorem both_number {s s' : State} (hlayout : s.cursor.kind.isLayout = false) :
    Both A s s' number number (Expr.AgreeFrom A) := by
  unfold number
  refine .bump fun ht s₁ s₁' _ _ => ?_
  rw [ht.kind, ht.lexeme hlayout]
  split
  · split
    · exact .extent fun x x' => .pure (.constant _)
    · exact .fault
  · exact .extent fun x x' => .pure (.constant _)
  · exact .extent fun x x' => .pure (.constant _)

theorem twins_parenthesized (hr : r.Twin A) :
    Twins A (parenthesized r) (parenthesized r) (Expr.AgreeFrom A) := by
  intro s s'
  unfold parenthesized
  refine .skip_bump fun s₁ s₁' => .eat (fun _ s₂ s₂' => ?_) fun _ => .at? (fun _ => ?_) fun _ => ?_
  · exact .extent fun x x' => .pure (.tuple .nil)
  · exact (twins_yieldExpr hr).bind fun e e' he s₃ s₃' => .expect fun _ s₄ s₄' => .pure he
  · refine (twins_starNamed hr).bind fun head head' hhead s₃ s₃' => ?_
    refine twins_atComprehension.bind fun go go' h s₄ s₄' => ?_
    subst h
    refine .ite (fun _ => ?_) fun _ => .at? (fun _ => ?_) fun _ => ?_
    · exact (twins_comprehensions hr).bind fun gs gs' hgs s₅ s₅' => .close fun s₆ s₆' =>
        .extent fun x x' => .pure (.generator hhead.toAgree hgs)
    · have hitem : Twins A (starNamed r) (starNamed r) (Expr.Agree .load) :=
        (twins_starNamed hr).mono fun _ _ h => h.toAgree
      exact (Twins.collectCommas (.cons hhead.toAgree .nil) (twins_at _) hitem).bind
        fun elts elts' helts s₅ s₅' => .close fun s₆ s₆' => .extent fun x x' => .pure (.tuple helts)
    · exact .close fun s₅ s₅' => .pure hhead

theorem twins_listDisplay (hr : r.Twin A) :
    Twins A (listDisplay r) (listDisplay r) (Expr.AgreeFrom A) := by
  intro s s'
  unfold listDisplay
  refine .skip_bump fun s₁ s₁' => .eat (fun _ s₂ s₂' => ?_) fun _ => ?_
  · exact .extent fun x x' => .pure (.list .nil)
  · refine (twins_starNamed hr).bind fun head head' hhead s₃ s₃' => ?_
    refine twins_atComprehension.bind fun go go' h s₄ s₄' => ?_
    subst h
    refine .ite (fun _ => ?_) fun _ => ?_
    · exact (twins_comprehensions hr).bind fun gs gs' hgs s₅ s₅' => .close fun s₆ s₆' =>
        .extent fun x x' => .pure (.listComp hhead.toAgree hgs)
    · have hitem : Twins A (starNamed r) (starNamed r) (Expr.Agree .load) :=
        (twins_starNamed hr).mono fun _ _ h => h.toAgree
      exact (Twins.collectCommas (.cons hhead.toAgree .nil) (twins_at _) hitem).bind
        fun elts elts' helts s₅ s₅' => .close fun s₆ s₆' => .extent fun x x' => .pure (.list helts)

theorem twins_dictEntry (hr : r.Twin A) : Twins A (dictEntry r) (dictEntry r) Entry.Agree := by
  intro s s'
  unfold dictEntry
  refine .eat (fun _ s₁ s₁' => ?_) fun _ => ?_
  · exact (hr.arithmetic 0).bind fun v v' hv s₂ s₂' => .pure (.unpack hv.toAgree)
  · refine hr.expression.bind fun k k' hk s₁ s₁' => .expect fun _ s₂ s₂' => ?_
    exact hr.expression.bind fun v v' hv s₃ s₃' => .pure (.pair hk.toAgree hv.toAgree)

theorem twins_dictRest (hr : r.Twin A) {head head' : Entry} (h : head.Agree head') :
    Twins A (dictRest r head) (dictRest r head') (List.Forall₂ Entry.Agree) :=
  .collectCommas (.cons h .nil) (twins_at _) (twins_dictEntry hr)

theorem twins_braceDisplay (hr : r.Twin A) :
    Twins A (braceDisplay r) (braceDisplay r) (Expr.AgreeFrom A) := by
  intro s s'
  unfold braceDisplay
  have hdict {head head' : Entry} (h : head.Agree head') {first first' : Token} (s s' : State) :
      Both A s s'
        (do let entries ← dictRest r head; close .rbrace; return .dict (← extentFrom first) entries)
        (do let entries ← dictRest r head'; close .rbrace; return .dict (← extentFrom first') entries)
        (Expr.AgreeFrom A) :=
    (twins_dictRest hr h).bind fun ds ds' hds s₁ s₁' => .close fun s₂ s₂' =>
      .extent fun x x' => .pure (.dict hds)
  refine .skip_bump fun s₁ s₁' => .eat (fun _ s₂ s₂' => ?_) fun _ => .eat (fun _ s₂ s₂' => ?_) fun _ => ?_
  · exact .extent fun x x' => .pure (.dict .nil)
  · exact (hr.arithmetic 0).bind fun v v' hv s₃ s₃' => hdict (.unpack hv.toAgree) s₃ s₃'
  · refine (twins_starNamed hr).bind fun head head' hhead s₂ s₂' => ?_
    refine .eat (fun _ s₃ s₃' => ?_) fun _ => ?_
    · refine hr.expression.bind fun v v' hv s₄ s₄' => ?_
      refine twins_atComprehension.bind fun go go' h s₅ s₅' => ?_
      subst h
      refine .ite (fun _ => ?_) fun _ => hdict (.pair hhead.toAgree hv.toAgree) s₅ s₅'
      exact (twins_comprehensions hr).bind fun gs gs' hgs s₆ s₆' => .close fun s₇ s₇' =>
        .extent fun x x' => .pure (.dictComp hhead.toAgree hv.toAgree hgs)
    · refine twins_atComprehension.bind fun go go' h s₃ s₃' => ?_
      subst h
      refine .ite (fun _ => ?_) fun _ => ?_
      · exact (twins_comprehensions hr).bind fun gs gs' hgs s₄ s₄' => .close fun s₅ s₅' =>
          .extent fun x x' => .pure (.setComp hhead.toAgree hgs)
      · have hitem : Twins A (starNamed r) (starNamed r) (Expr.Agree .load) :=
          (twins_starNamed hr).mono fun _ _ h => h.toAgree
        exact (Twins.collectCommas (.cons hhead.toAgree .nil) (twins_at _) hitem).bind
          fun elts elts' helts s₄ s₄' => .close fun s₅ s₅' => .extent fun x x' => .pure (.set helts)

theorem twins_atom (hr : r.Twin A) : Twins A (atom r) (atom r) (Expr.AgreeFrom A) := by
  intro s s'
  unfold atom
  refine .peek fun ht => ?_
  rw [ht.kind]
  split
  · exact .skip_bump fun s₁ s₁' => .extent fun x x' => .pure (.constant _)
  · split
    · next hk =>
      refine .bump fun _ s₁ s₁' hprev hprev' => .extent_prev hprev hprev' fun x x' hx hx' => ?_
      have hkind := ht.kind.trans hk
      rw [lexeme_eq ht hkind rfl]
      refine .pure (.name _ ?_)
      rw [hx, hx']
      exact ht.start (by rw [hkind]; rfl)
    · next hk => exact both_number (by rw [show s.cursor.kind = _ from ht.kind.trans hk]; rfl)
    · next hk => exact both_number (by rw [show s.cursor.kind = _ from ht.kind.trans hk]; rfl)
    · next hk => exact both_number (by rw [show s.cursor.kind = _ from ht.kind.trans hk]; rfl)
    · exact twins_strings hr s s'
    · exact twins_parenthesized hr s s'
    · exact twins_listDisplay hr s s'
    · exact twins_braceDisplay hr s s'
    · exact .fault_abort
    · exact .fault

/-! ## Calls, subscripts and attributes -/

/-- The arguments agree, and the same restricts the next ones. -/
structure Arguments.Agree (a a' : Arguments) : Prop where
  args : Expr.AgreeAll .load a.args a'.args
  keywords : List.Forall₂ Keyword.Agree a.keywords a'.keywords
  seenKeyword : a.seenKeyword = a'.seenKeyword
  seenUnpack : a.seenUnpack = a'.seenUnpack

theorem Arguments.Agree.addArg {a a' : Arguments} {e e' : Expr} (h : a.Agree a')
    (he : e.Agree .load e') : (a.addArg e).Agree (a'.addArg e') :=
  { h with args := .cons he h.args }

theorem Arguments.Agree.addKeyword {a a' : Arguments} {k k' : Keyword} (h : a.Agree a')
    (hk : k.Agree k') : (a.addKeyword k).Agree (a'.addKeyword k') :=
  { h with keywords := .cons hk h.keywords }

theorem twins_argument (hr : r.Twin A) {t t' : Token} (ht : t.Alike A t') {a a' : Arguments}
    (h : a.Agree a') : Twins A (argument r t a) (argument r t' a') Arguments.Agree := by
  intro s s'
  unfold argument
  rw [ht.kind, h.seenUnpack, h.seenKeyword]
  refine .ite (fun _ => ?_) fun _ => .ite (fun _ => ?_) fun _ => .kind (.ite (fun hcond => ?_) fun _ => ?_)
  · refine .skip_bump fun s₁ s₁' => hr.expression.bind fun v v' hv s₂ s₂' => ?_
    refine .ite (fun _ => .fault) fun _ => .extent fun x x' => .pure (h.addArg ?_)
    exact (Expr.AgreeFrom.starred (A := A) hv.toAgree).toAgree
  · refine .skip_bump fun s₁ s₁' => hr.expression.bind fun v v' hv s₂ s₂' => .pure ?_
    exact { h.addKeyword (.mk hv.toAgree) with seenUnpack := rfl }
  · rw [Bool.and_eq_true, decide_eq_true_eq] at hcond
    refine .skip_bump fun s₁ s₁' => .skip_bump fun s₂ s₂' => ?_
    rw [lexeme_eq ht (ht.kind.trans hcond.1) rfl]
    refine hr.expression.bind fun v v' hv s₃ s₃' => .pure ?_
    exact { h.addKeyword (.mk hv.toAgree) with seenKeyword := rfl }
  · refine (twins_named hr).bind fun v v' hv s₁ s₁' => ?_
    refine twins_atComprehension.bind fun go go' hgo s₂ s₂' => ?_
    subst hgo
    refine .ite (fun _ => ?_) fun _ => .ite (fun _ => .fault) fun _ => .pure (h.addArg hv.toAgree)
    refine (twins_comprehensions hr).bind fun gs gs' hgs s₃ s₃' => .extent fun x x' => ?_
    exact .pure (h.addArg (Expr.AgreeFrom.generator (A := A) hv.toAgree hgs).toAgree)

theorem twins_arguments (hr : r.Twin A) : Twins A (arguments r) (arguments r) fun a a' =>
    Expr.AgreeAll .load a.1 a'.1 ∧ List.Forall₂ Keyword.Agree a.2 a'.2 := by
  intro s s'
  unfold arguments
  have hempty : Arguments.Agree {} {} := ⟨.nil, .nil, rfl, rfl⟩
  refine (Both.loop hempty fun a a' ha s s' => ?_).bind fun a a' ha s₁ s₁' => ?_
  · refine .isAborted (.at? (fun _ => ?_) fun _ => .at? (fun _ => ?_) fun _ => ?_)
    · exact .at? (fun _ => .pure ⟨ha, rfl⟩) fun _ => .pure ⟨ha, rfl⟩
    · exact .pure ⟨ha, rfl⟩
    · refine .peek fun ht => (twins_argument hr ht ha).bind fun a a' ha s₁ s₁' => ?_
      exact .eat (fun _ s₂ s₂' => .pure ⟨ha, rfl⟩) fun _ => .pure ⟨ha, rfl⟩
  · exact .pure ⟨List.rel_reverse ha.args, List.rel_reverse ha.keywords⟩

/-- A bound of a slice, which may be left out. -/
theorem twins_bound (hr : r.Twin A) :
    let bound : Parser (Option Expr) := do
      if [.colon, .comma, .rbracket].contains (← kind) then return none
      else return some (← r.expression)
    Twins A bound bound (Expr.AgreeOpt .load) := by
  intro bound s s'
  refine .kind (.ite (fun _ => .pure .none) fun _ => ?_)
  exact hr.expression.bind fun e e' he s₁ s₁' => .pure (.some he.toAgree)

theorem twins_subscriptItem (hr : r.Twin A) :
    Twins A (subscriptItem r) (subscriptItem r) (Expr.AgreeFrom A) := by
  have hslice {lower lower' : Option Expr} (h : Expr.AgreeOpt .load lower lower')
      (first first' : Token) {bound : Parser (Option Expr)} [Steady bound]
      (hbound : Twins A bound bound (Expr.AgreeOpt .load)) (s s' : State) :
      Both A s s'
        (do
          let _ ← bump
          let upper ← bound
          let step ← if ← eat .colon then bound else pure none
          return .slice (← extentFrom first) lower upper step)
        (do
          let _ ← bump
          let upper ← bound
          let step ← if ← eat .colon then bound else pure none
          return .slice (← extentFrom first') lower' upper step) (Expr.AgreeFrom A) := by
    refine .skip_bump fun s₁ s₁' => hbound.bind fun upper upper' hupper s₂ s₂' => ?_
    have hstep {x : Parser (Option Expr)} (hx : Twins A x x (Expr.AgreeOpt .load)) (s s' : State) :
        Both A s s' (x >>= fun step => do return .slice (← extentFrom first) lower upper step)
          (x >>= fun step => do return .slice (← extentFrom first') lower' upper' step)
          (Expr.AgreeFrom A) :=
      hx.bind fun step step' hstep s₃ s₃' => .extent fun x x' => .pure (.slice h hupper hstep)
    exact .eat (fun _ s₃ s₃' => hstep hbound s₃ s₃') fun _ =>
      hstep (x := pure none) (fun s s' => .pure .none) s₂ s₂'
  intro s s'
  unfold subscriptItem
  refine .peek fun ht => ?_
  rw [ht.kind]
  refine .ite (fun _ => twins_starExpression hr s s') fun _ => ?_
  dsimp only
  refine .ite (fun _ => ?_) fun _ => ?_
  · simp only [pure_bind]
    refine .at? (fun _ => ?_) fun _ => ?_
    · exact hslice .none _ _ (twins_bound hr) s s'
    · exact hslice .none _ _ (twins_bound hr) s s'
  · refine Both.bind
      (p := fun _ => @steady_bind _ _ _ _ inferInstance fun _ => by split <;> infer_instance)
      (q := fun _ => @steady_bind _ _ _ _ inferInstance fun _ => by split <;> infer_instance)
      ((twins_named hr).map (R := Option.Rel (Expr.AgreeFrom A)) (fun _ _ h => .some h) _ _)
      fun lower lower' hlower s₁ s₁' => ?_
    cases hlower with
    | some h =>
      refine .at? (fun _ => ?_) fun _ => .pure h
      exact hslice (.some h.toAgree) _ _ (twins_bound hr) s₁ s₁'
    | none => exact .at? (fun _ => hslice .none _ _ (twins_bound hr) s₁ s₁') fun _ =>
        hslice .none _ _ (twins_bound hr) s₁ s₁'

theorem twins_subscriptIndex (hr : r.Twin A) :
    Twins A (subscriptIndex r) (subscriptIndex r) (Expr.AgreeFrom A) :=
  twins_orTuple (twins_subscriptItem hr) (twins_at _)

theorem twins_trailer (hr : r.Twin A) (first first' : Token) {base base' : Expr}
    (h : base.AgreeFrom A base') :
    Twins A (trailer r first base) (trailer r first' base') fun p p' =>
      p.1.AgreeFrom A p'.1 ∧ p.2 = p'.2 := by
  intro s s'
  unfold trailer
  refine .isAborted (.kind ?_)
  split
  · refine .skip_bump fun s₁ s₁' => .peek fun ht => .expect fun hk s₂ s₂' => .extent fun x x' => ?_
    rw [lexeme_eq ht hk rfl]
    exact .pure ⟨.attribute _ h.toAgree, rfl⟩
  · refine .skip_bump fun s₁ s₁' => (twins_arguments hr).bind fun a a' ha s₂ s₂' => ?_
    exact .close fun s₃ s₃' => .extent fun x x' => .pure ⟨.call h.toAgree ha.1 ha.2, rfl⟩
  · refine .skip_bump fun s₁ s₁' => (twins_subscriptIndex hr).bind fun i i' hi s₂ s₂' => ?_
    exact .close fun s₃ s₃' => .extent fun x x' => .pure ⟨.subscript h.toAgree hi.toAgree, rfl⟩
  · exact .pure ⟨h, rfl⟩

theorem twins_primary (hr : r.Twin A) :
    Twins A (primary r) (primary r) (Expr.AgreeFrom A) := by
  intro s s'
  unfold primary
  refine .peek fun _ => (twins_atom hr).bind fun e e' he s₁ s₁' => ?_
  exact .loop he fun base base' h => twins_trailer hr _ _ h

/-! ## Operators -/

theorem twins_awaited (hr : r.Twin A) :
    Twins A (awaited r) (awaited r) (Expr.AgreeFrom A) := by
  intro s s'
  unfold awaited
  refine .at? (fun _ => ?_) fun _ => twins_primary hr s s'
  exact .skip_bump fun s₁ s₁' => (twins_primary hr).bind fun v v' hv s₂ s₂' =>
    .extent fun x x' => .pure (.await hv.toAgree)

theorem twins_power (hr : r.Twin A) : Twins A (power r) (power r) (Expr.AgreeFrom A) := by
  intro s s'
  unfold power
  refine .peek fun _ => (twins_awaited hr).bind fun base base' hbase s₁ s₁' => ?_
  refine .eat (fun _ s₂ s₂' => ?_) fun _ => .pure hbase
  exact hr.factor.bind fun e e' he s₃ s₃' => .extent fun x x' =>
    .pure (.binary _ hbase.toAgree he.toAgree)

theorem twins_factor (hr : r.Twin A) : Twins A (factor r) (factor r) (Expr.AgreeFrom A) := by
  intro s s'
  unfold factor
  refine .peek fun ht => ?_
  rw [ht.kind]
  split
  · exact .skip_bump fun s₁ s₁' => hr.factor.bind fun e e' he s₂ s₂' => .extent fun x x' =>
      .pure (.unary _ he.toAgree)
  · exact twins_power hr s s'

theorem twins_arithmetic (hr : r.Twin A) (floor : Nat) :
    Twins A (arithmetic r floor) (arithmetic r floor) (Expr.AgreeFrom A) := by
  intro s s'
  unfold arithmetic
  refine .peek fun _ => .isAborted (Both.bind (p := fun _ => .auto) (q := fun _ => .auto)
    (twins_factor hr _ _) fun e e' he s₁ s₁' => ?_)
  refine .loop (p := fun _ => .auto) (q := fun _ => .auto) he fun left left' hleft s s' =>
    .kind (.isAborted ?_)
  split
  · refine .skip_bump fun s₂ s₂' => (hr.arithmetic _).bind fun right right' hright s₃ s₃' => ?_
    exact .extent fun x x' => .pure ⟨.binary _ hleft.toAgree hright.toAgree, rfl⟩
  · exact .pure ⟨hleft, rfl⟩

theorem twins_comparison (hr : r.Twin A) :
    Twins A (comparison r) (comparison r) (Expr.AgreeFrom A) := by
  intro s s'
  unfold comparison
  refine .peek fun _ => Both.bind (p := fun _ => .auto) (q := fun _ => .auto)
    (twins_arithmetic hr 0 _ _) fun left left' hleft s₁ s₁' => ?_
  refine (Twins.collect (p := .auto) (q := .auto)
    (Q := fun (c c' : CompareOp × Expr) => c.1 = c'.1 ∧ c.2.Agree .load c'.2)
    .nil fun s s' => .kind (.kind (.isAborted ?_))).bind fun rest rest' hrest s₂ s₂' => ?_
  · split
    · refine .skip_bump fun s₃ s₃' => .ite (fun _ => .skip_bump fun s₄ s₄' => ?_) fun _ => ?_
      · exact (twins_arithmetic hr 0).bind fun e e' he s₅ s₅' =>
          .pure ⟨.cons ⟨rfl, he.toAgree⟩ .nil, rfl⟩
      · exact (twins_arithmetic hr 0).bind fun e e' he s₄ s₄' =>
          .pure ⟨.cons ⟨rfl, he.toAgree⟩ .nil, rfl⟩
    · exact .pure ⟨.nil, rfl⟩
  · have hops : rest.map (·.1) = rest'.map (·.1) := by
      induction hrest with
      | nil => rfl
      | cons h _ ih => rw [List.map_cons, List.map_cons, h.1, ih]
    rw [isEmpty_eq_of_forall₂ hrest, hops]
    refine .ite (fun _ => .pure hleft) fun hne => .extent fun x x' => .pure ?_
    have hcomparators : Expr.AgreeAll .load (rest.map (·.2)) (rest'.map (·.2)) :=
      List.rel_map (fun _ _ h => h.2) hrest
    refine .compare hleft.toAgree hcomparators (by simpa using hrest.length_eq.symm) ?_
    rw [List.length_map]
    exact List.length_pos_iff.mpr fun h => hne (by rw [h]; rfl)

theorem twins_inversion (hr : r.Twin A) :
    Twins A (inversion r) (inversion r) (Expr.AgreeFrom A) := by
  intro s s'
  unfold inversion
  refine .at? (fun _ => ?_) fun _ => twins_comparison hr s s'
  exact .skip_bump fun s₁ s₁' => hr.inversion.bind fun e e' he s₂ s₂' => .extent fun x x' =>
    .pure (.unary _ he.toAgree)

/-- An operator between operands has at least two of them. -/
theorem twins_boolean (op : BoolOp) (word : Token.Kind) {operand : Parser Expr} [Steady operand]
    (h : Twins A operand operand (Expr.AgreeFrom A)) :
    Twins A (boolean op word operand) (boolean op word operand) (Expr.AgreeFrom A) := by
  intro s s'
  unfold boolean
  refine .peek fun _ => h.bind fun head head' hhead s₁ s₁' => .at? (fun hnext => ?_) fun _ => ?_
  · have hoperand : Twins A operand operand (Expr.Agree .load) := h.mono fun _ _ h => h.toAgree
    refine (Both.collectAfter hnext (.cons hhead.toAgree .nil) hoperand).bind
      fun values values' hvalues s₂ s₂' => .extent fun x x' => ?_
    exact .pure (.boolean op hvalues.2 hvalues.1)
  · exact .pure hhead

theorem twins_conjunction (hr : r.Twin A) :
    Twins A (conjunction r) (conjunction r) (Expr.AgreeFrom A) :=
  twins_boolean .and .kwAnd (twins_inversion hr)

theorem twins_disjunction (hr : r.Twin A) :
    Twins A (disjunction r) (disjunction r) (Expr.AgreeFrom A) :=
  twins_boolean .or .kwOr (twins_conjunction hr)

theorem twins_expression (hr : r.Twin A) :
    Twins A (expression r) (expression r) (Expr.AgreeFrom A) := by
  intro s s'
  unfold expression
  refine .peek fun ht => .isAborted ?_
  simp only [Bool.false_eq_true, ↓reduceIte]
  rw [ht.kind]
  refine .ite (fun _ => twins_lambda hr s s') fun _ => ?_
  refine (twins_disjunction hr).bind fun body body' hbody s₁ s₁' => ?_
  refine .eat (fun _ s₂ s₂' => ?_) fun _ => .pure hbody
  refine (twins_disjunction hr).bind fun test test' htest s₃ s₃' => .expect fun _ s₄ s₄' => ?_
  exact hr.expression.bind fun orelse orelse' horelse s₅ s₅' => .extent fun x x' =>
    .pure (.conditional htest.toAgree hbody.toAgree horelse.toAgree)

/-! ## Tokens that start no expression -/

section

variable {s s' : State} (h : s.cursor.kind.isLayout = true)

include h

theorem kind_of_isLayout : s.cursor.kind = .newline ∨ s.cursor.kind = .indent ∨
    s.cursor.kind = .dedent ∨ s.cursor.kind = .eof := by
  simpa [Token.Kind.isLayout, or_assoc] using h

theorem kind_ne_of_isLayout {k : Token.Kind} (hk : k.isLayout = false) : s.cursor.kind ≠ k := by
  rintro rfl
  rw [h] at hk
  exact nomatch hk

theorem both_atom_of_isLayout : Both A s s' (atom r) (atom r) fun _ _ => False := by
  unfold atom
  refine .peek fun ht => ?_
  rw [← ht.kind]
  rcases kind_of_isLayout h with hk | hk | hk | hk <;>
    rw [show s.cursor.peek.kind = _ from hk]
  · exact .fault
  · exact .fault
  · exact .fault
  · exact .fault_abort

theorem both_factor_of_isLayout : Both A s s' (factor r) (factor r) fun _ _ => False := by
  unfold factor
  refine .peek fun ht => ?_
  have hop : unaryOp? s.cursor.kind = none := by
    rcases kind_of_isLayout h with hk | hk | hk | hk <;> rw [hk] <;> rfl
  rw [← ht.kind, show unaryOp? s.cursor.peek.kind = none from hop]
  have hprimary : Both A s s' (primary r) (primary r) fun _ _ => False :=
    .peek fun _ => (both_atom_of_isLayout h).stop
  have hawaited : Both A s s' (awaited r) (awaited r) fun _ _ => False :=
    .at? (fun hk => absurd hk (kind_ne_of_isLayout h rfl)) fun _ => hprimary
  exact .peek fun _ => hawaited.stop

theorem both_comparison_of_isLayout : Both A s s' (comparison r) (comparison r) fun _ _ => False := by
  have harithmetic : Both A s s' (arithmetic r 0) (arithmetic r 0) fun _ _ => False :=
    .peek fun _ => .isAborted <|
      (both_factor_of_isLayout h).stop (p := fun _ => .auto) (q := fun _ => .auto)
  exact .peek fun _ => harithmetic.stop (p := fun _ => .auto) (q := fun _ => .auto)

/-- No expression starts with a token that only lays out the lines. -/
theorem both_expression_of_isLayout : Both A s s' (expression r) (expression r) fun _ _ => False := by
  have hinversion : Both A s s' (inversion r) (inversion r) fun _ _ => False :=
    .at? (fun hk => absurd hk (kind_ne_of_isLayout h rfl)) fun _ => both_comparison_of_isLayout h
  have hdisjunction : Both A s s' (disjunction r) (disjunction r) fun _ _ => False :=
    .peek fun _ => Both.stop (.peek fun _ => hinversion.stop)
  unfold expression
  refine .peek fun ht => .isAborted ?_
  simp only [Bool.false_eq_true, ↓reduceIte]
  rw [← ht.kind]
  exact .ite (fun hk => absurd hk (kind_ne_of_isLayout h rfl)) fun _ => hdisjunction.stop

theorem both_yieldOrStar_of_isLayout (hr : r.Twin A) :
    Both A s s' (yieldOrStar r) (yieldOrStar r) fun _ _ => False := by
  have hstar : Both A s s' (starExpression r) (starExpression r) fun _ _ => False :=
    .at? (fun hk => absurd hk (kind_ne_of_isLayout h rfl)) fun _ => hr.layout h
  exact .at? (fun hk => absurd hk (kind_ne_of_isLayout h rfl)) fun _ => .peek fun _ => hstar.stop

end

end CloneScout.Grammar
