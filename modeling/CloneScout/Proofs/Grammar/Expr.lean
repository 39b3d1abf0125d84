import CloneScout.Grammar.Expr
import CloneScout.Proofs.Grammar.Strings

/-!
# Expressions are lawful

Each rule of expressions is steady and reads a lawful tree if the rules that it comes back to do.
-/

namespace CloneScout.Grammar

variable {r : Rules} [r.Steady]

/-! ## Optional expressions -/

theorem finds_some {x : Parser Expr} (h : Finds x Expr.IsLawful) :
    Finds (some <$> x) (Every.optExpr Node.Lawful) :=
  h.map fun _ he => he

theorem finds_none : Finds (pure none) (Every.optExpr Node.Lawful) := .pure trivial

/-! ## Named, starred and yielded expressions -/

instance steady_named : Steady (named r) := by unfold named; exact .auto

theorem finds_named (hr : r.Lawful) : Finds (named r) Expr.IsLawful := by
  intro s
  unfold named
  refine .bind (.kind 0) fun k s₁ hk => .bind (.kind 1) fun next s₂ hnext => ?_
  obtain ⟨rfl, rfl⟩ := hk
  obtain ⟨rfl, rfl⟩ := hnext
  split
  · next hcond =>
    rw [Bool.and_eq_true, decide_eq_true_eq, decide_eq_true_eq] at hcond
    refine .bind (.bump_of_kind hcond.1) fun first s₃ hfirst => .skip fun x s₄ => ?_
    refine .skip fun _ s₅ => hr.expression.bind fun value hvalue s₆ => .skip fun x' s₇ => .pure ?_
    exact ⟨trivial, ⟨hfirst.2.ident hfirst.1, trivial⟩, hvalue⟩
  · exact hr.expression s₂

instance steady_starredOr (plain : Parser Expr) [Steady plain] : Steady (starredOr r plain) := by
  unfold starredOr; exact .auto

theorem finds_starredOr (hr : r.Lawful) {plain : Parser Expr} [Steady plain]
    (hplain : Finds plain Expr.IsLawful) : Finds (starredOr r plain) Expr.IsLawful := by
  intro s
  unfold starredOr
  refine .skip fun star s₁ => ?_
  split
  · refine .skip fun first s₂ => (hr.arithmetic 0).bind fun value hvalue s₃ => ?_
    exact .skip fun x s₄ => .pure ⟨trivial, hvalue⟩
  · exact hplain s₁

instance steady_starExpression : Steady (starExpression r) := by unfold starExpression; exact .auto

theorem finds_starExpression (hr : r.Lawful) : Finds (starExpression r) Expr.IsLawful :=
  finds_starredOr hr hr.expression

instance steady_starNamed : Steady (starNamed r) := by unfold starNamed; exact .auto

theorem finds_starNamed (hr : r.Lawful) : Finds (starNamed r) Expr.IsLawful :=
  finds_starredOr hr (finds_named hr)

instance steady_starExpressions : Steady (starExpressions r) := by
  unfold starExpressions; exact .auto

theorem finds_starExpressions (hr : r.Lawful) : Finds (starExpressions r) Expr.IsLawful := by
  intro s
  unfold starExpressions
  refine .skip fun first s₁ => (finds_starExpression hr).bind fun head hhead s₂ => ?_
  refine .skip fun comma s₃ => ?_
  split
  · refine (Finds.collectCommas (by simpa using hhead) (finds_starExpression hr)).bind
      fun elts helts s₄ => .skip fun x s₅ => .pure ?_
    exact ⟨trivial, Every.exprs_iff.mpr helts⟩
  · exact .pure hhead

instance steady_yieldExpr : Steady (yieldExpr r) := by unfold yieldExpr; exact .auto

theorem finds_yieldExpr (hr : r.Lawful) : Finds (yieldExpr r) Expr.IsLawful := by
  intro s
  unfold yieldExpr
  refine .skip fun first s₁ => .skip fun isFrom s₂ => ?_
  split
  · refine hr.expression.bind fun value hvalue s₃ => .skip fun x s₄ => .pure ?_
    exact ⟨trivial, hvalue⟩
  · refine .skip fun k s₃ => .skip fun k' s₄ => ?_
    split
    · refine (finds_starExpressions hr).bind fun value hvalue s₅ => .skip fun x s₆ => .pure ?_
      exact ⟨trivial, hvalue⟩
    · exact .skip fun x s₅ => .pure ⟨trivial, trivial⟩

instance steady_yieldOrStar : Steady (yieldOrStar r) := by unfold yieldOrStar; exact .auto

theorem finds_yieldOrStar (hr : r.Lawful) : Finds (yieldOrStar r) Expr.IsLawful := by
  intro s
  unfold yieldOrStar
  refine .skip fun atYield s₁ => ?_
  split
  · exact finds_yieldExpr hr s₁
  · exact finds_starExpressions hr s₁

/-! ## Parameters -/

/-- The parameters of the list in their order. -/
def ParamList.all (ps : ParamList) : List Param :=
  ps.posOnly ++ ps.plain ++ ps.star.toList ++ ps.kwOnly ++ ps.doubleStar.toList

/-- The parameters read so far are lawful, and whether one has a default value is remembered. -/
structure ParamList.IsLawful (ps : ParamList) : Prop where
  lawful : Params.Lawful ps.posOnly ps.plain ps.star ps.kwOnly ps.doubleStar
  parts : ∀ p ∈ ps.all, Every.param Node.Lawful p
  seenDefault : ∀ p ∈ ps.posOnly ++ ps.plain, p.default.isSome → ps.seenDefault = true

def ParamHead.IsLawful (head : ParamHead) : Prop :=
  head.name.IsWord ∧ Every.optExpr Node.Lawful head.hint

instance steady_paramHead (hints starHint : Bool) : Steady (paramHead r hints starHint) := by
  unfold paramHead; exact .auto

theorem finds_paramHead (hr : r.Lawful) (hints starHint : Bool) :
    Finds (paramHead r hints starHint) ParamHead.IsLawful := by
  intro s
  unfold paramHead
  dsimp only
  refine .identifier fun t ht s₁ => ?_
  have hhinted (s : State) : Gives s (do
      if starHint && (← at? .star) then
        let hint ← starExpression r
        pure (⟨t.lexeme, some hint, t.span.join hint.extent.span⟩ : ParamHead)
      else
        let hint ← r.expression
        pure ⟨t.lexeme, some hint, t.span.join hint.extent.span⟩) fun head _ => head.IsLawful := by
    refine .skip fun star s₂ => ?_
    split
    · exact (finds_starExpression hr).bind fun hint hhint s₃ => .pure ⟨ht, hhint⟩
    · exact hr.expression.bind fun hint hhint s₃ => .pure ⟨ht, hhint⟩
  split
  · refine .skip fun hinted s₂ => ?_
    split
    · exact hhinted s₂
    · exact .pure ⟨ht, trivial⟩
  · exact .pure ⟨ht, trivial⟩

instance steady_defaultValue : Steady (defaultValue r) := by unfold defaultValue; exact .auto

theorem finds_defaultValue (hr : r.Lawful) :
    Finds (defaultValue r) (Every.optExpr Node.Lawful) := by
  intro s
  unfold defaultValue
  refine .skip fun assign s₁ => ?_
  split
  · exact hr.expression.bind fun value hvalue s₂ => .pure hvalue
  · exact .pure trivial

/-- A parameter behind all others that are not named. -/
theorem ParamList.IsLawful.addPlain {ps : ParamList} {head : ParamHead} {value : Option Expr}
    (h : ps.IsLawful) (hhead : head.IsLawful) (hvalue : Every.optExpr Node.Lawful value)
    (hdefault : ¬ (ps.seenDefault && value.isNone) = true) :
    ParamList.IsLawful { ps with
      plain := ps.plain ++ [.mk head.name head.hint value]
      seenDefault := ps.seenDefault || value.isSome } := by
  have hall {p : Param} {Q : Param → Prop} (hold : ∀ p ∈ ps.all, Q p)
      (hnew : Q (.mk head.name head.hint value))
      (hp : p ∈ ps.posOnly ++ (ps.plain ++ [.mk head.name head.hint value]) ++ ps.star.toList ++
        ps.kwOnly ++ ps.doubleStar.toList) : Q p := by
    simp only [ParamList.all, List.mem_append] at hold
    simp only [List.mem_append, List.mem_singleton] at hp
    grind
  refine ⟨⟨fun p => hall h.lawful.names hhead.1, ?_, h.lawful.star, h.lawful.doubleStar⟩,
    fun p => hall h.parts ⟨hhead.2, hvalue⟩, ?_⟩
  · show (ps.posOnly ++ (ps.plain ++ [_])).Pairwise _
    rw [← List.append_assoc, List.pairwise_append]
    refine ⟨h.lawful.defaults, List.pairwise_singleton _ _, fun p hp q hq hsome => ?_⟩
    obtain rfl := List.mem_singleton.mp hq
    have hseen := h.seenDefault p hp hsome
    show value.isSome = true
    rw [Option.isSome_iff_ne_none]
    simpa [hseen] using hdefault
  · intro p hp hsome
    show (ps.seenDefault || value.isSome) = true
    rw [Bool.or_eq_true]
    have hp : p ∈ (ps.posOnly ++ ps.plain) ++ [.mk head.name head.hint value] := by
      rw [List.append_assoc]
      exact hp
    rcases List.mem_append.mp hp with hp | hp
    · exact .inl (h.seenDefault p hp hsome)
    · obtain rfl := List.mem_singleton.mp hp
      exact .inr hsome

theorem ParamList.IsLawful.addKwOnly {ps : ParamList} {head : ParamHead} {value : Option Expr}
    (h : ps.IsLawful) (hhead : head.IsLawful) (hvalue : Every.optExpr Node.Lawful value) :
    ParamList.IsLawful { ps with kwOnly := ps.kwOnly ++ [.mk head.name head.hint value] } := by
  have hall {p : Param} {Q : Param → Prop} (hold : ∀ p ∈ ps.all, Q p)
      (hnew : Q (.mk head.name head.hint value))
      (hp : p ∈ ps.posOnly ++ ps.plain ++ ps.star.toList ++
        (ps.kwOnly ++ [.mk head.name head.hint value]) ++ ps.doubleStar.toList) : Q p := by
    simp only [ParamList.all, List.mem_append] at hold
    simp only [List.mem_append, List.mem_singleton] at hp
    grind
  exact ⟨⟨fun p => hall h.lawful.names hhead.1, h.lawful.defaults, h.lawful.star,
    h.lawful.doubleStar⟩, fun p => hall h.parts ⟨hhead.2, hvalue⟩, h.seenDefault⟩

instance steady_plainParam (closing : Token.Kind) (hints : Bool) (ps : ParamList) :
    Steady (plainParam r closing hints ps) := by
  unfold plainParam; exact .auto

theorem finds_plainParam (hr : r.Lawful) {closing : Token.Kind} {hints : Bool} {ps : ParamList}
    (h : ps.IsLawful) : Finds (plainParam r closing hints ps) ParamList.IsLawful := by
  intro s
  unfold plainParam
  refine (finds_paramHead hr _ _).bind fun head hhead s₁ => ?_
  split
  · exact .skip fun _ s₂ => .pure h
  · refine (finds_defaultValue hr).bind fun value hvalue s₂ => ?_
    dsimp only
    split
    · exact .pure (h.addKwOnly hhead hvalue)
    · split
      · exact .fault
      · next hdefault => exact .pure (h.addPlain hhead hvalue hdefault)

/-- A slash makes the parameters in front of it positional only. -/
theorem ParamList.IsLawful.slash {ps : ParamList} (h : ps.IsLawful) (hempty : ps.posOnly = []) :
    ParamList.IsLawful { ps with posOnly := ps.plain, plain := [] } := by
  have hsame : ps.plain ++ [] = ps.posOnly ++ ps.plain := by rw [hempty, List.append_nil]; rfl
  refine ⟨⟨?_, ?_, h.lawful.star, h.lawful.doubleStar⟩, ?_, ?_⟩
  · rw [hsame]
    exact h.lawful.names
  · rw [hsame]
    exact h.lawful.defaults
  · unfold ParamList.all
    dsimp only
    rw [hsame]
    exact h.parts
  · dsimp only
    rw [hsame]
    exact h.seenDefault

theorem ParamList.IsLawful.setStar {ps : ParamList} {head : ParamHead} (h : ps.IsLawful)
    (hhead : head.IsLawful) :
    ParamList.IsLawful { ps with
      seenStar := true
      star := some (.mk head.name head.hint none) } := by
  have hall {p : Param} {Q : Param → Prop} (hold : ∀ p ∈ ps.all, Q p)
      (hnew : Q (.mk head.name head.hint none))
      (hp : p ∈ ps.posOnly ++ ps.plain ++ [.mk head.name head.hint none] ++ ps.kwOnly ++
        ps.doubleStar.toList) : Q p := by
    simp only [ParamList.all, List.mem_append] at hold
    simp only [List.mem_append, List.mem_singleton] at hp
    grind
  refine ⟨⟨fun p => hall h.lawful.names hhead.1, h.lawful.defaults, ?_, h.lawful.doubleStar⟩,
    fun p => hall h.parts ⟨hhead.2, trivial⟩, h.seenDefault⟩
  rintro p ⟨⟩
  rfl

theorem ParamList.IsLawful.setDoubleStar {ps : ParamList} {head : ParamHead} (h : ps.IsLawful)
    (hhead : head.IsLawful) :
    ParamList.IsLawful { ps with doubleStar := some (.mk head.name head.hint none) } := by
  have hall {p : Param} {Q : Param → Prop} (hold : ∀ p ∈ ps.all, Q p)
      (hnew : Q (.mk head.name head.hint none))
      (hp : p ∈ ps.posOnly ++ ps.plain ++ ps.star.toList ++ ps.kwOnly ++
        [.mk head.name head.hint none]) : Q p := by
    simp only [ParamList.all, List.mem_append] at hold
    simp only [List.mem_append, List.mem_singleton] at hp
    grind
  refine ⟨⟨fun p => hall h.lawful.names hhead.1, h.lawful.defaults, h.lawful.star, ?_⟩,
    fun p => hall h.parts ⟨hhead.2, trivial⟩, h.seenDefault⟩
  rintro p ⟨⟩
  rfl

instance steady_paramItem (closing : Token.Kind) (hints : Bool) (ps : ParamList) :
    Steady (paramItem r closing hints ps) := by
  unfold paramItem; exact .auto

theorem finds_paramItem (hr : r.Lawful) {closing : Token.Kind} {hints : Bool} {ps : ParamList}
    (h : ps.IsLawful) : Finds (paramItem r closing hints ps) ParamList.IsLawful := by
  intro s
  unfold paramItem
  refine .skip fun t s₁ => ?_
  split
  · refine .skip fun _ s₂ => ?_
    split
    · exact .fault
    · next hslash => exact .pure (h.slash (by simp_all))
  · refine .skip fun _ s₂ => (finds_paramHead hr _ _).bind fun head hhead s₃ => ?_
    dsimp only
    split
    · exact .fault
    · exact .pure (h.setDoubleStar hhead)
  · refine .skip fun _ s₂ => ?_
    dsimp only
    split
    · exact .fault
    · refine .skip fun named s₃ => ?_
      split
      · exact (finds_paramHead hr _ _).bind fun head hhead s₄ => .pure (h.setStar hhead)
      · exact .pure ⟨h.lawful, h.parts, h.seenDefault⟩
  · exact finds_plainParam hr h s₁

instance steady_parameters (closing : Token.Kind) (hints : Bool) :
    Steady (parameters r closing hints) := by
  unfold parameters; exact .auto

theorem finds_parameters (hr : r.Lawful) (closing : Token.Kind) (hints : Bool) :
    Finds (parameters r closing hints) Params.IsLawful := by
  have hstart : ParamList.IsLawful {} :=
    ⟨⟨by simp, by simp, by simp, by simp⟩, by simp [ParamList.all], by simp⟩
  intro s
  unfold parameters
  dsimp only
  refine Finds.bind (Q := ParamList.IsLawful) ?_ fun ps hps s₁ => ?_
  · refine Finds.loop hstart fun ps hps s₁ => ?_
    refine .skip fun aborted s₂ => .skip fun closed s₃ => .skip fun eof s₄ => ?_
    split
    · exact .pure hps
    · refine (finds_paramItem hr hps).bind fun ps hps s₅ => .skip fun comma s₆ => ?_
      refine .skip fun next s₇ => ?_
      split
      · exact .skip fun _ s₈ => .fault
      · exact .skip fun comma s₈ => .pure hps
  · have hparams : Params.IsLawful (.mk ps.posOnly ps.plain ps.star ps.kwOnly ps.doubleStar) := by
      refine ⟨hps.lawful, ?_⟩
      have hparts := hps.parts
      simp only [ParamList.all, List.mem_append, or_imp, forall_and, Option.mem_toList] at hparts
      obtain ⟨⟨⟨⟨hpos, hplain⟩, hstar⟩, hkw⟩, hdouble⟩ := hparts
      refine ⟨Every.paramList_iff.mpr hpos, Every.paramList_iff.mpr hplain, ?_,
        Every.paramList_iff.mpr hkw, ?_⟩
      · cases hs : ps.star with
        | none => trivial
        | some p => exact hstar p hs
      · cases hs : ps.doubleStar with
        | none => trivial
        | some p => exact hdouble p hs
    split
    · split
      · exact .fault
      · exact .pure hparams
    · exact .pure hparams

theorem lawful_lambda {x : Extent} {ps : Params} {body : Expr} (hps : ps.IsLawful)
    (hbody : body.IsLawful) : (Expr.lambda x ps body).IsLawful := by
  cases ps
  exact ⟨hps.1, hps.2, hbody⟩

instance steady_lambda : Steady (lambda r) := by unfold lambda; exact .auto

theorem finds_lambda (hr : r.Lawful) : Finds (lambda r) Expr.IsLawful := by
  intro s
  unfold lambda
  dsimp only
  refine .skip fun first s₁ => (finds_parameters hr _ _).bind fun ps hps s₂ => ?_
  refine .bind (.expect .colon) fun colon s₃ hcolon => ?_
  rw [if_pos hcolon.1]
  refine hr.expression.bind fun body hbody s₄ => .skip fun x s₅ => .pure ?_
  exact lawful_lambda hps hbody

/-! ## Targets -/

mutual

theorem lawful_mark (ctx : Context) : ∀ {e : Expr}, e.IsLawful → (Target.mark ctx e).IsLawful
  | .name _ _ _, h => h
  | .attribute _ _ _ _, h => h
  | .subscript _ _ _ _, h => h
  | .starred x value old, h => by
    unfold Target.mark
    split
    · exact h
    · exact ⟨trivial, lawful_mark ctx h.2⟩
  | .tuple _ _ _, h => ⟨trivial, lawful_markAll ctx h.2⟩
  | .list _ _ _, h => ⟨trivial, lawful_markAll ctx h.2⟩
  | .error _, h => h
  | .boolean _ _ _, h => h
  | .named _ _ _, h => h
  | .binary _ _ _ _, h => h
  | .unary _ _ _, h => h
  | .lambda _ _ _, h => h
  | .conditional _ _ _ _, h => h
  | .dict _ _, h => h
  | .set _ _, h => h
  | .listComp _ _ _, h => h
  | .setComp _ _ _, h => h
  | .dictComp _ _ _ _, h => h
  | .generator _ _ _, h => h
  | .await _ _, h => h
  | .yield _ _, h => h
  | .yieldFrom _ _, h => h
  | .compare _ _ _ _, h => h
  | .call _ _ _ _, h => h
  | .formatted _ _ _ _, h => h
  | .joined _ _, h => h
  | .constant _ _, h => h
  | .slice _ _ _ _, h => h

theorem lawful_markAll (ctx : Context) :
    ∀ {es : List Expr}, Every.exprs Node.Lawful es → Every.exprs Node.Lawful (Target.markAll ctx es)
  | [], _ => trivial
  | _ :: _, h => ⟨lawful_mark ctx h.1, lawful_markAll ctx h.2⟩

end

instance steady_starTarget : Steady (starTarget r) := by unfold starTarget; exact .auto

instance steady_starTargets : Steady (starTargets r) := by unfold starTargets; exact .auto

instance steady_markTarget (ctx : Context) (code : Diagnostic.Code) (e : Expr) (span : Span) :
    Steady (markTarget ctx code e span) := by
  unfold markTarget; exact .auto

theorem finds_markTarget {ctx : Context} {code : Diagnostic.Code} {e : Expr} {span : Span}
    (h : e.IsLawful) : Finds (markTarget ctx code e span) Expr.IsLawful := by
  intro s
  unfold markTarget
  split
  · exact .fault
  · exact .pure (lawful_mark ctx h)

theorem finds_starTarget (hr : r.Lawful) : Finds (starTarget r) Expr.IsLawful :=
  finds_starredOr hr (hr.arithmetic 0)

theorem finds_starTargets (hr : r.Lawful) : Finds (starTargets r) Expr.IsLawful := by
  intro s
  unfold starTargets
  refine .skip fun first s₁ => (finds_starTarget hr).bind fun head hhead s₂ => ?_
  refine .skip fun comma s₃ => ?_
  split
  · refine (Finds.collectCommas (by simpa using hhead) (finds_starTarget hr)).bind
      fun elts helts s₄ => .skip fun x s₅ => .pure ?_
    exact ⟨trivial, Every.exprs_iff.mpr helts⟩
  · exact .pure hhead

/-! ## Comprehensions -/

instance steady_atComprehension : Steady atComprehension := by unfold atComprehension; exact .auto

instance steady_comprehension : Steady (comprehension r) := by unfold comprehension; exact .auto

theorem finds_comprehension (hr : r.Lawful) :
    Finds (comprehension r) fun g => Every.comprehensions Node.Lawful [g] := by
  intro s
  unfold comprehension
  dsimp only
  refine .skip fun isAsync s₁ => .skip fun _ s₂ => .skip fun first s₃ => ?_
  refine (finds_starTargets hr).bind fun target htarget s₄ => ?_
  refine (finds_markTarget htarget).bind fun target htarget s₅ => ?_
  refine .bind (.expect .kwIn) fun isIn s₆ hin => ?_
  rw [if_pos hin.1]
  refine hr.disjunction.bind fun iter hiter s₇ => ?_
  refine (Finds.collectAfter (by simp) hr.disjunction).bind fun conditions hconditions s₈ => ?_
  exact .pure ⟨htarget, hiter, Every.exprs_iff.mpr hconditions, trivial⟩

instance steady_comprehensions : Steady (comprehensions r) := by unfold comprehensions; exact .auto

theorem finds_comprehensions (hr : r.Lawful) :
    Finds (comprehensions r) (Every.comprehensions Node.Lawful) := by
  refine Finds.mono (Finds.collect (by simp) fun s => ?_)
    fun gs hgs => Every.comprehensions_iff.mpr hgs
  refine .skip fun aborted s₁ => .skip fun isComprehension s₂ => ?_
  split
  · exact (finds_comprehension hr).bind fun g hg s₃ => .pure (by simpa using hg)
  · exact .pure (by simp)

/-! ## Atoms -/

instance steady_number : Steady number := by unfold number; exact .auto

theorem finds_number : Finds number Expr.IsLawful := by
  intro s
  unfold number
  refine .skip fun t s₁ => ?_
  split
  · split
    · exact .skip fun x s₂ => .pure ⟨trivial, trivial⟩
    · exact .fault
  · exact .skip fun x s₂ => .pure ⟨trivial, trivial⟩
  · exact .skip fun x s₂ => .pure ⟨trivial, trivial⟩

instance steady_parenthesized : Steady (parenthesized r) := by unfold parenthesized; exact .auto

theorem finds_parenthesized (hr : r.Lawful) : Finds (parenthesized r) Expr.IsLawful := by
  intro s
  unfold parenthesized
  refine .skip fun first s₁ => .skip fun empty s₂ => ?_
  split
  · exact .skip fun x s₃ => .pure ⟨trivial, trivial⟩
  · refine .skip fun isYield s₃ => ?_
    split
    · exact (finds_yieldExpr hr).bind fun e he s₄ => .skip fun _ s₅ => .pure he
    · refine (finds_starNamed hr).bind fun head hhead s₄ => .skip fun isGenerator s₅ => ?_
      split
      · refine (finds_comprehensions hr).bind fun gens hgens s₆ => .skip fun _ s₇ => ?_
        exact .skip fun x s₈ => .pure ⟨trivial, hhead, hgens⟩
      · refine .skip fun comma s₆ => ?_
        split
        · refine (Finds.collectCommas (by simpa using hhead) (finds_starNamed hr)).bind
            fun elts helts s₇ => .skip fun _ s₈ => .skip fun x s₉ => .pure ?_
          exact ⟨trivial, Every.exprs_iff.mpr helts⟩
        · exact .skip fun _ s₇ => .pure hhead

instance steady_listDisplay : Steady (listDisplay r) := by unfold listDisplay; exact .auto

theorem finds_listDisplay (hr : r.Lawful) : Finds (listDisplay r) Expr.IsLawful := by
  intro s
  unfold listDisplay
  refine .skip fun first s₁ => .skip fun empty s₂ => ?_
  split
  · exact .skip fun x s₃ => .pure ⟨trivial, trivial⟩
  · refine (finds_starNamed hr).bind fun head hhead s₃ => .skip fun isComprehension s₄ => ?_
    split
    · refine (finds_comprehensions hr).bind fun gens hgens s₅ => .skip fun _ s₆ => ?_
      exact .skip fun x s₇ => .pure ⟨trivial, hhead, hgens⟩
    · refine (Finds.collectCommas (by simpa using hhead) (finds_starNamed hr)).bind
        fun elts helts s₅ => .skip fun _ s₆ => .skip fun x s₇ => .pure ?_
      exact ⟨trivial, Every.exprs_iff.mpr helts⟩

instance steady_dictEntry : Steady (dictEntry r) := by unfold dictEntry; exact .auto

theorem finds_dictEntry (hr : r.Lawful) :
    Finds (dictEntry r) fun e => Every.entries Node.Lawful [e] := by
  intro s
  unfold dictEntry
  refine .skip fun unpack s₁ => ?_
  split
  · exact (hr.arithmetic 0).bind fun value hvalue s₂ => .pure ⟨hvalue, trivial⟩
  · refine hr.expression.bind fun key hkey s₂ => .bind (.expect .colon) fun colon s₃ hcolon => ?_
    rw [if_pos hcolon.1]
    exact hr.expression.bind fun value hvalue s₄ => .pure ⟨hkey, hvalue, trivial⟩

instance steady_dictRest (head : Entry) : Steady (dictRest r head) := by
  unfold dictRest; exact .auto

theorem finds_dictRest (hr : r.Lawful) {head : Entry} (h : Every.entries Node.Lawful [head]) :
    Finds (dictRest r head) (Every.entries Node.Lawful) :=
  (Finds.collectCommas (by simpa using h) (finds_dictEntry hr)).mono
    fun es hes => Every.entries_iff.mpr hes

instance steady_braceDisplay : Steady (braceDisplay r) := by unfold braceDisplay; exact .auto

theorem finds_braceDisplay (hr : r.Lawful) : Finds (braceDisplay r) Expr.IsLawful := by
  intro s
  unfold braceDisplay
  refine .skip fun first s₁ => .skip fun empty s₂ => ?_
  split
  · exact .skip fun x s₃ => .pure ⟨trivial, trivial⟩
  · refine .skip fun unpack s₃ => ?_
    split
    · refine (hr.arithmetic 0).bind fun value hvalue s₄ => ?_
      have hentry : Every.entries Node.Lawful [.unpack value] := ⟨hvalue, trivial⟩
      refine (finds_dictRest hr hentry).bind fun entries hentries s₅ => ?_
      exact .skip fun _ s₆ => .skip fun x s₇ => .pure ⟨trivial, hentries⟩
    · refine (finds_starNamed hr).bind fun head hhead s₄ => .skip fun colon s₅ => ?_
      split
      · refine hr.expression.bind fun value hvalue s₆ => .skip fun isComprehension s₇ => ?_
        split
        · refine (finds_comprehensions hr).bind fun gens hgens s₈ => .skip fun _ s₉ => ?_
          exact .skip fun x s₁₀ => .pure ⟨trivial, hhead, hvalue, hgens⟩
        · have hentry : Every.entries Node.Lawful [.pair head value] := ⟨hhead, hvalue, trivial⟩
          refine (finds_dictRest hr hentry).bind fun entries hentries s₈ => ?_
          exact .skip fun _ s₉ => .skip fun x s₁₀ => .pure ⟨trivial, hentries⟩
      · refine .skip fun isComprehension s₆ => ?_
        split
        · refine (finds_comprehensions hr).bind fun gens hgens s₇ => .skip fun _ s₈ => ?_
          exact .skip fun x s₉ => .pure ⟨trivial, hhead, hgens⟩
        · refine (Finds.collectCommas (by simpa using hhead) (finds_starNamed hr)).bind
            fun elts helts s₇ => .skip fun _ s₈ => .skip fun x s₉ => .pure ?_
          exact ⟨trivial, Every.exprs_iff.mpr helts⟩

theorem lawful_constantOf? {k : Token.Kind} {value : Constant} (h : constantOf? k = some value) :
    value.Lawful := by
  unfold constantOf? at h
  split at h
  all_goals first
    | (obtain rfl := Option.some.inj h; trivial)
    | exact absurd h (by simp)

instance steady_atom : Steady (atom r) := by unfold atom; exact .auto

theorem finds_atom (hr : r.Lawful) : Finds (atom r) Expr.IsLawful := by
  intro s
  unfold atom
  refine .bind (.peek 0) fun t s₁ ht => ?_
  obtain ⟨rfl, -, ht⟩ := ht
  split
  · next value hvalue =>
    exact .skip fun _ s₂ => .skip fun x s₃ => .pure ⟨lawful_constantOf? hvalue, trivial⟩
  · split
    · next hident =>
      exact .skip fun _ s₂ => .skip fun x s₃ => .pure ⟨ht.ident hident, trivial⟩
    · exact finds_number s₁
    · exact finds_number s₁
    · exact finds_number s₁
    · exact finds_strings hr s₁
    · exact finds_parenthesized hr s₁
    · exact finds_listDisplay hr s₁
    · exact finds_braceDisplay hr s₁
    · exact .report_abort
    · exact .fault

/-! ## Calls, subscripts and attributes -/

/-- The arguments read so far are lawful. -/
structure Arguments.IsLawful (a : Arguments) : Prop where
  args : ∀ e ∈ a.args, e.IsLawful
  keywords : ∀ k ∈ a.keywords, Every.keywords Node.Lawful [k] ∧ ∀ id ∈ k.arg, id.IsWord

theorem Arguments.IsLawful.addArg {a : Arguments} {e : Expr} (h : a.IsLawful) (he : e.IsLawful) :
    (a.addArg e).IsLawful :=
  ⟨List.forall_mem_cons.mpr ⟨he, h.args⟩, h.keywords⟩

theorem Arguments.IsLawful.addKeyword {a : Arguments} {id : Option Text} {value : Expr}
    (h : a.IsLawful) (hid : ∀ t ∈ id, t.IsWord) (hvalue : value.IsLawful) :
    (a.addKeyword (.mk id value)).IsLawful :=
  ⟨h.args, List.forall_mem_cons.mpr ⟨⟨⟨hvalue, trivial⟩, hid⟩, h.keywords⟩⟩

instance steady_argument (t : Token) (a : Arguments) : Steady (argument r t a) := by
  unfold argument; exact .auto

theorem finds_argument (hr : r.Lawful) {t : Token} (ht : t.Lawful) {a : Arguments}
    (h : a.IsLawful) : Finds (argument r t a) Arguments.IsLawful := by
  intro s
  unfold argument
  dsimp only
  split
  · refine .skip fun _ s₁ => hr.expression.bind fun value hvalue s₂ => ?_
    split
    · exact .fault
    · exact .skip fun x s₃ => .pure (h.addArg ⟨trivial, hvalue⟩)
  · split
    · refine .skip fun _ s₁ => hr.expression.bind fun value hvalue s₂ => .pure ?_
      exact ⟨h.args, (h.addKeyword (by simp) hvalue).keywords⟩
    · refine .skip fun next s₁ => ?_
      split
      · next hcond =>
        rw [Bool.and_eq_true, decide_eq_true_eq] at hcond
        refine .skip fun _ s₂ => .skip fun _ s₃ => hr.expression.bind fun value hvalue s₄ => ?_
        refine .pure ⟨h.args, (h.addKeyword ?_ hvalue).keywords⟩
        simpa using ht.ident hcond.1
      · refine (finds_named hr).bind fun value hvalue s₂ => .skip fun isGenerator s₃ => ?_
        split
        · refine (finds_comprehensions hr).bind fun gens hgens s₄ => .skip fun x s₅ => .pure ?_
          exact h.addArg ⟨trivial, hvalue, hgens⟩
        · split
          · exact .fault
          · exact .pure (h.addArg hvalue)

/-- Positional and keyword arguments are lawful. -/
def ArgumentLists.IsLawful (found : List Expr × List Keyword) : Prop :=
  Every.exprs Node.Lawful found.1 ∧ Every.keywords Node.Lawful found.2 ∧
    ∀ k ∈ found.2, ∀ id ∈ k.arg, id.IsWord

instance steady_arguments : Steady (arguments r) := by unfold arguments; exact .auto

theorem finds_arguments (hr : r.Lawful) : Finds (arguments r) ArgumentLists.IsLawful := by
  intro s
  unfold arguments
  refine Finds.bind (Q := Arguments.IsLawful) ?_ fun a ha s₁ => .pure ⟨?_, ?_, ?_⟩
  · refine Finds.loop ⟨by simp, by simp⟩ fun a ha s₁ => ?_
    refine .skip fun aborted s₂ => .skip fun closed s₃ => .skip fun eof s₄ => ?_
    split
    · exact .pure ha
    · refine .bind (.peek 0) fun t s₅ ht => ?_
      exact (finds_argument hr ht.2.2 ha).bind fun a ha s₆ => .skip fun comma s₇ => .pure ha
  · exact Every.exprs_iff.mpr (by simpa using ha.args)
  · exact Every.keywords_iff.mpr fun k hk => (ha.keywords k (List.mem_reverse.mp hk)).1
  · exact fun k hk => (ha.keywords k (List.mem_reverse.mp hk)).2

instance steady_subscriptItem : Steady (subscriptItem r) := by unfold subscriptItem; exact .auto

theorem finds_subscriptItem (hr : r.Lawful) : Finds (subscriptItem r) Expr.IsLawful := by
  have hbound : Finds (do
      if [.colon, .comma, .rbracket].contains (← kind) then return none
      else return some (← r.expression)) (Every.optExpr Node.Lawful) := by
    intro s
    refine .skip fun k s₁ => ?_
    split
    · exact .pure trivial
    · exact hr.expression.bind fun e he s₂ => .pure he
  intro s
  unfold subscriptItem
  dsimp only
  refine .skip fun first s₁ => ?_
  split
  · exact finds_starExpression hr s₁
  · split
    all_goals
      refine Finds.bind (Q := Every.optExpr Node.Lawful) ?_ fun lower hlower s₂ => ?_
      · first
        | exact finds_none
        | exact finds_some (finds_named hr)
      refine .skip fun colon s₃ => ?_
      split
      · exact .pure hlower
      · refine .skip fun _ s₄ => hbound.bind fun upper hupper s₅ => .skip fun colon s₆ => ?_
        split
        · refine hbound.bind fun step hstep s₇ => .skip fun x s₈ => .pure ?_
          exact ⟨trivial, hlower, hupper, hstep⟩
        · refine finds_none.bind fun step hstep s₇ => ?_
          exact .skip fun x s₈ => .pure ⟨trivial, hlower, hupper, hstep⟩

instance steady_subscriptIndex : Steady (subscriptIndex r) := by unfold subscriptIndex; exact .auto

theorem finds_subscriptIndex (hr : r.Lawful) : Finds (subscriptIndex r) Expr.IsLawful := by
  intro s
  unfold subscriptIndex
  refine .skip fun first s₁ => (finds_subscriptItem hr).bind fun head hhead s₂ => ?_
  refine .skip fun comma s₃ => ?_
  split
  · refine (Finds.collectCommas (by simpa using hhead) (finds_subscriptItem hr)).bind
      fun elts helts s₄ => .skip fun x s₅ => .pure ?_
    exact ⟨trivial, Every.exprs_iff.mpr helts⟩
  · exact .pure hhead

instance steady_trailer (first : Token) (base : Expr) : Steady (trailer r first base) := by
  unfold trailer; exact .auto

theorem finds_trailer (hr : r.Lawful) {first : Token} {base : Expr} (hbase : base.IsLawful) :
    Finds (trailer r first base) fun found => found.1.IsLawful := by
  intro s
  unfold trailer
  refine .skip fun aborted s₁ => ?_
  split
  · exact .pure hbase
  · refine .skip fun k s₂ => ?_
    split
    · refine .skip fun _ s₃ => .identifier fun t ht s₄ => .skip fun x s₅ => .pure ?_
      exact ⟨ht, hbase⟩
    · refine .skip fun _ s₃ => (finds_arguments hr).bind fun found hfound s₄ => ?_
      obtain ⟨args, keywords⟩ := found
      refine .skip fun _ s₅ => .skip fun x s₆ => .pure ?_
      exact ⟨hfound.2.2, hbase, hfound.1, hfound.2.1⟩
    · refine .skip fun _ s₃ => (finds_subscriptIndex hr).bind fun index hindex s₄ => ?_
      exact .skip fun _ s₅ => .skip fun x s₆ => .pure ⟨trivial, hbase, hindex⟩
    · exact .pure hbase

instance steady_primary : Steady (primary r) := by unfold primary; exact .auto

theorem finds_primary (hr : r.Lawful) : Finds (primary r) Expr.IsLawful := by
  intro s
  unfold primary
  refine .skip fun first s₁ => (finds_atom hr).bind fun base hbase s₂ => ?_
  exact Finds.loop hbase (fun base hbase => finds_trailer hr hbase) (fun _ => inferInstance) s₂

/-! ## Operators -/

instance steady_awaited : Steady (awaited r) := by unfold awaited; exact .auto

theorem finds_awaited (hr : r.Lawful) : Finds (awaited r) Expr.IsLawful := by
  intro s
  unfold awaited
  refine .skip fun isAwait s₁ => ?_
  split
  · refine .skip fun first s₂ => (finds_primary hr).bind fun value hvalue s₃ => ?_
    exact .skip fun x s₄ => .pure ⟨trivial, hvalue⟩
  · exact finds_primary hr s₁

instance steady_power : Steady (power r) := by unfold power; exact .auto

theorem finds_power (hr : r.Lawful) : Finds (power r) Expr.IsLawful := by
  intro s
  unfold power
  refine .skip fun first s₁ => (finds_awaited hr).bind fun base hbase s₂ => ?_
  refine .skip fun isPower s₃ => ?_
  split
  · refine hr.factor.bind fun exponent hexponent s₄ => .skip fun x s₅ => .pure ?_
    exact ⟨trivial, hbase, hexponent⟩
  · exact .pure hbase

instance steady_factor : Steady (factor r) := by unfold factor; exact .auto

theorem finds_factor (hr : r.Lawful) : Finds (factor r) Expr.IsLawful := by
  intro s
  unfold factor
  refine .skip fun first s₁ => ?_
  split
  · refine .skip fun _ s₂ => hr.factor.bind fun operand hoperand s₃ => ?_
    exact .skip fun x s₄ => .pure ⟨trivial, hoperand⟩
  · exact finds_power hr s₁

instance steady_arithmetic (floor : Nat) : Steady (arithmetic r floor) := by
  unfold arithmetic; exact .auto

theorem finds_arithmetic (hr : r.Lawful) (floor : Nat) :
    Finds (arithmetic r floor) Expr.IsLawful := by
  intro s
  unfold arithmetic
  refine .skip fun first s₁ => .skip fun aborted s₂ => ?_
  split
  · exact .pure ⟨trivial, trivial⟩
  · refine (finds_factor hr).bind fun left hleft s₃ => ?_
    refine Finds.loop hleft (fun left hleft s₄ => ?_) (fun _ => .auto) s₃
    refine .skip fun k s₅ => .skip fun aborted s₆ => ?_
    split
    · refine .skip fun _ s₇ => (hr.arithmetic _).bind fun right hright s₈ => ?_
      exact .skip fun x s₉ => .pure ⟨trivial, hleft, hright⟩
    · exact .pure hleft

instance steady_comparison : Steady (comparison r) := by unfold comparison; exact .auto

theorem finds_comparison (hr : r.Lawful) : Finds (comparison r) Expr.IsLawful := by
  intro s
  unfold comparison
  dsimp only
  refine .skip fun first s₁ => (finds_arithmetic hr 0).bind fun left hleft s₂ => ?_
  refine Finds.bind (Q := fun rest => ∀ c ∈ rest, Expr.IsLawful c.2) ?_ fun rest hrest s₃ => ?_
  · refine Finds.collect (by simp) fun s => ?_
    refine .skip fun k s₁ => .skip fun next s₂ => .skip fun aborted s₃ => ?_
    have hpair (op : CompareOp) (s : State) :
        Gives s (do return ([(op, ← arithmetic r 0)], true)) fun found _ =>
          ∀ c ∈ found.1, Expr.IsLawful c.2 :=
      (finds_arithmetic hr 0).bind fun e he _ => .pure (by simpa using he)
    split
    · refine .skip fun _ s₄ => ?_
      split
      · exact .skip fun _ s₅ => hpair _ s₅
      · exact hpair _ s₄
    · exact .pure (by simp)
  · split
    · exact .pure hleft
    · refine .skip fun x s₄ => .pure ⟨trivial, hleft, Every.exprs_iff.mpr fun e he => ?_⟩
      obtain ⟨c, hc, rfl⟩ := List.mem_map.mp he
      exact hrest c hc

instance steady_inversion : Steady (inversion r) := by unfold inversion; exact .auto

theorem finds_inversion (hr : r.Lawful) : Finds (inversion r) Expr.IsLawful := by
  intro s
  unfold inversion
  refine .skip fun isNot s₁ => ?_
  split
  · refine .skip fun first s₂ => hr.inversion.bind fun operand hoperand s₃ => ?_
    exact .skip fun x s₄ => .pure ⟨trivial, hoperand⟩
  · exact finds_comparison hr s₁

instance steady_boolean (op : BoolOp) (word : Token.Kind) (operand : Parser Expr) [Steady operand] :
    Steady (boolean op word operand) := by
  unfold boolean; exact .auto

theorem finds_boolean {op : BoolOp} {word : Token.Kind} {operand : Parser Expr} [Steady operand]
    (h : Finds operand Expr.IsLawful) : Finds (boolean op word operand) Expr.IsLawful := by
  intro s
  unfold boolean
  refine .skip fun first s₁ => h.bind fun head hhead s₂ => .skip fun more s₃ => ?_
  split
  · refine (Finds.collectAfter (by simpa using hhead) h).bind fun values hvalues s₄ => ?_
    exact .skip fun x s₅ => .pure ⟨trivial, Every.exprs_iff.mpr hvalues⟩
  · exact .pure hhead

instance steady_conjunction : Steady (conjunction r) := by unfold conjunction; exact .auto

instance steady_disjunction : Steady (disjunction r) := by unfold disjunction; exact .auto

theorem finds_disjunction (hr : r.Lawful) : Finds (disjunction r) Expr.IsLawful :=
  finds_boolean (finds_boolean (finds_inversion hr))

instance steady_expression : Steady (expression r) := by unfold expression; exact .auto

theorem finds_expression (hr : r.Lawful) : Finds (expression r) Expr.IsLawful := by
  intro s
  unfold expression
  dsimp only
  refine .skip fun first s₁ => .skip fun aborted s₂ => ?_
  split
  · exact .pure ⟨trivial, trivial⟩
  · split
    · exact finds_lambda hr s₂
    · refine (finds_disjunction hr).bind fun body hbody s₃ => .skip fun isIf s₄ => ?_
      split
      · refine (finds_disjunction hr).bind fun test htest s₅ => ?_
        refine .bind (.expect .kwElse) fun isElse s₆ helse => ?_
        rw [if_pos helse.1]
        refine hr.expression.bind fun orelse horelse s₇ => .skip fun x s₈ => .pure ?_
        exact ⟨trivial, htest, hbody, horelse⟩
      · exact .pure hbody

end CloneScout.Grammar
