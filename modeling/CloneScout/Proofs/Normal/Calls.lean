import CloneScout.Normal.Basic
import CloneScout.Proofs.Tree.Callee
import CloneScout.Proofs.Tree.Readable

/-!
# Calls and their normal forms

The normal form of a call that stands in a tree is a call that stands in the normal form of the
tree, unless the call stands in an annotation and annotations are irrelevant.
-/

namespace CloneScout

open Walk

def Param.hint : Param → Option Expr
  | .mk _ hint _ => hint

/-- The annotations of parameters and results at the node itself. -/
def Node.hints : Node → List Expr
  | .stmt (.function _ _ _ ps _ _ returns) => ps.all.filterMap Param.hint ++ returns.toList
  | .expr (.lambda _ ps _) => ps.all.filterMap Param.hint
  | _ => []

/-- The property of calls as one of nodes. -/
@[simp]
def Node.OfCall (R : Expr → Prop) : Node → Prop
  | .expr (.call x func args kws) => R (.call x func args kws)
  | _ => True

/-- The calls that a walk enters. -/
def Walk.calls (vs : List Visit) : List Expr :=
  vs.filterMap fun v =>
    match v.node with
    | .expr (.call x func args kws) => some (.call x func args kws)
    | _ => none

theorem Walk.mem_calls {vs : List Visit} {e : Expr} :
    e ∈ Walk.calls vs ↔ e.callee?.isSome = true ∧ ∃ v ∈ vs, v.node = .expr e := by
  rw [Walk.calls, List.mem_filterMap]
  constructor
  · rintro ⟨v, hv, hcall⟩
    split at hcall
    · rename_i hnode
      obtain rfl := Option.some.inj hcall
      exact ⟨rfl, v, hv, hnode⟩
    · cases hcall
  · rintro ⟨hcall, v, hv, hnode⟩
    refine ⟨v, hv, ?_⟩
    rw [hnode]
    cases e <;> first | rfl | cases hcall

theorem Walk.all_ofCall {R : Expr → Prop} {vs : List Visit} :
    All (Node.OfCall R) vs ↔ ∀ c ∈ Walk.calls vs, R c := by
  constructor
  · intro h c hc
    obtain ⟨hcall, v, hv, hnode⟩ := Walk.mem_calls.mp hc
    have hv := h v hv
    rw [hnode] at hv
    cases c <;> first | exact hv | cases hcall
  · intro h v hv
    cases hnode : v.node with
    | expr e =>
      cases e
      case call => exact h _ (Walk.mem_calls.mpr ⟨rfl, v, hv, hnode⟩)
      all_goals trivial
    | _ => trivial

namespace Normal

open Node (OfCall)

/-- The calls in annotations at the node have the property, where annotations are irrelevant. -/
def Dropped (cfg : Config) (A : Expr → Prop) (n : Node) : Prop :=
  cfg.ignoreHints = true → ∀ e ∈ n.hints, All (OfCall A) (Walk.expr 0 e)

/-- The call is in an annotation, or its normal form has the property. -/
def Kept (cfg : Config) (A R : Expr → Prop) (c : Expr) : Prop := A c ∨ R (expr cfg false c)

variable {cfg : Config} {A R : Expr → Prop}

/-! ## Single steps -/

theorem all_binary {x : Extent} {op : BinaryOp} {left right normalLeft normalRight : Expr}
    (h : All (OfCall R) (Walk.expr 0 (binary x op left right normalLeft normalRight))) :
    All (OfCall R) (Walk.expr 0 normalLeft) ∧ All (OfCall R) (Walk.expr 0 normalRight) := by
  unfold binary at h
  split at h
  · simp only [Walk.expr, expr_succ, all_cons, all_append, all_map_deeper] at h
    exact ⟨h.2.2, h.2.1⟩
  · simp only [Walk.expr, expr_succ, all_cons, all_append, all_map_deeper] at h
    exact h.2

theorem all_unary {x : Extent} {op : UnaryOp} {operand : Expr}
    (h : All (OfCall R) (Walk.expr 0 (unary x op operand))) :
    All (OfCall R) (Walk.expr 0 operand) := by
  unfold unary at h
  split at h
  · split at h
    · simpa [Walk.expr] using h
    · rw [Walk.expr, expr_succ, all_cons, all_map_deeper] at h
      exact h.2
  · rw [Walk.expr, expr_succ, all_cons, all_map_deeper] at h
    exact h.2

/-- A docstring holds no calls. -/
theorem all_body {body : List Stmt}
    (h : All (OfCall R) (Walk.stmts 0 (if cfg.ignoreDocstrings && startsWithDocstring body then
      (stmts cfg body).drop 1 else stmts cfg body))) :
    All (OfCall R) (Walk.stmts 0 (stmts cfg body)) := by
  split at h
  · rename_i hdoc
    have hfirst : startsWithDocstring body = true := (Bool.and_eq_true _ _ ▸ hdoc).2
    unfold startsWithDocstring at hfirst
    split at hfirst
    · simpa [stmts, stmt, expr, Walk.stmts, Walk.stmt, Walk.expr] using h
    · cases hfirst
  · exact h

theorem all_hint {hint : Option Expr}
    (hdropped : cfg.ignoreHints = true → ∀ e ∈ hint, All (OfCall A) (Walk.expr 0 e))
    (hkept : All (OfCall R) (Walk.optExpr 0 (optExpr cfg hint)) →
      All (OfCall (Kept cfg A R)) (Walk.optExpr 0 hint))
    (h : All (OfCall R) (Walk.optExpr 0 (if cfg.ignoreHints then none else optExpr cfg hint))) :
    All (OfCall (Kept cfg A R)) (Walk.optExpr 0 hint) := by
  split at h
  · rename_i hcfg
    cases hint with
    | none => exact all_nil
    | some e =>
      rw [Walk.optExpr, all_ofCall]
      exact fun c hc => .inl (all_ofCall.mp (hdropped hcfg e rfl) c hc)
  · exact hkept h

/-! ## Expressions -/

mutual

theorem kept_expr (target : Bool) {e : Expr} (hin : All (Dropped cfg A) (Walk.expr 0 e))
    (h : All (OfCall R) (Walk.expr 0 (expr cfg target e))) :
    All (OfCall (Kept cfg A R)) (Walk.expr 0 e) := by
  cases e with
  | binary x left op right =>
    simp only [Walk.expr, expr_succ, all_cons, all_append, all_map_deeper] at hin
    obtain ⟨hleft, hright⟩ := all_binary h
    simp [Walk.expr, expr_succ, kept_expr false hin.2.1 hleft, kept_expr false hin.2.2 hright]
  | unary x op operand =>
    simp only [Walk.expr, expr_succ, all_cons, all_map_deeper] at hin
    simp [Walk.expr, expr_succ, kept_expr false hin.2 (all_unary h)]
  | lambda x ps body =>
    simp only [Walk.expr, expr_succ, params_succ, all_cons, all_append, all_map_deeper] at hin
    simp only [expr, Walk.expr, expr_succ, params_succ, all_cons, all_append, all_map_deeper] at h
    have hps := kept_params (fun hcfg e he => hin.1 hcfg e he) hin.2.1 h.2.1
    simp [Walk.expr, expr_succ, params_succ, hps, kept_expr false hin.2.2 h.2.2]
  | call x func args kws =>
    simp only [Walk.expr, expr_succ, exprs_succ, keywords_succ, all_cons, all_append,
      all_map_deeper] at hin
    simp only [expr, Walk.expr, expr_succ, exprs_succ, keywords_succ, all_cons, all_append,
      all_map_deeper] at h
    -- whether a call is addressed to this one makes no difference to its normal form
    have hcall : Kept cfg A R (.call x func args kws) := .inr h.1
    simp [Walk.expr, expr_succ, exprs_succ, keywords_succ, hcall, kept_expr true hin.2.1.1 h.2.1.1,
      kept_exprs hin.2.1.2 h.2.1.2, kept_keywords hin.2.2 h.2.2]
  | «attribute» x value id ctx =>
    simp only [Walk.expr, expr_succ, all_cons, all_map_deeper] at hin
    simp only [expr, Walk.expr, expr_succ, all_cons, all_map_deeper] at h
    simp [Walk.expr, expr_succ, kept_expr target hin.2 h.2]
  | _ =>
    simp only [Walk.expr, all_cons, all_append, expr_succ, exprs_succ, optExpr_succ, keys_succ,
      values_succ, comprehensions_succ, all_map_deeper] at hin
    simp only [expr, Walk.expr, all_cons, all_append, expr_succ, exprs_succ, optExpr_succ,
      keys_succ, values_succ, comprehensions_succ, all_map_deeper] at h
    simp [Walk.expr, expr_succ, exprs_succ, optExpr_succ, keys_succ, values_succ,
      comprehensions_succ, hin, h, kept_expr false, kept_exprs, kept_optExpr, kept_keys,
      kept_values, kept_comprehensions]

theorem kept_exprs {es : List Expr} (hin : All (Dropped cfg A) (Walk.exprs 0 es))
    (h : All (OfCall R) (Walk.exprs 0 (exprs cfg es))) :
    All (OfCall (Kept cfg A R)) (Walk.exprs 0 es) := by
  cases es with
  | nil => exact all_nil
  | cons e rest =>
    rw [Walk.exprs, all_append] at hin ⊢
    rw [exprs, Walk.exprs, all_append] at h
    exact ⟨kept_expr false hin.1 h.1, kept_exprs hin.2 h.2⟩

theorem kept_optExpr {e : Option Expr} (hin : All (Dropped cfg A) (Walk.optExpr 0 e))
    (h : All (OfCall R) (Walk.optExpr 0 (optExpr cfg e))) :
    All (OfCall (Kept cfg A R)) (Walk.optExpr 0 e) := by
  cases e with
  | none => exact all_nil
  | some e => exact kept_expr false hin h

theorem kept_keys : ∀ {es : List Entry}, All (Dropped cfg A) (Walk.keys 0 es) →
    All (OfCall R) (Walk.keys 0 (dictEntries cfg es)) →
    All (OfCall (Kept cfg A R)) (Walk.keys 0 es)
  | [], _, _ => all_nil
  | .pair key value :: rest, hin, h => by
    rw [Walk.keys, all_append] at hin ⊢
    rw [dictEntries, Walk.keys, all_append] at h
    exact ⟨kept_expr false hin.1 h.1, kept_keys hin.2 h.2⟩
  | .unpack value :: rest, hin, h => by
    rw [Walk.keys] at hin ⊢
    rw [dictEntries, Walk.keys] at h
    exact kept_keys hin h

theorem kept_values : ∀ {es : List Entry}, All (Dropped cfg A) (Walk.values 0 es) →
    All (OfCall R) (Walk.values 0 (dictEntries cfg es)) →
    All (OfCall (Kept cfg A R)) (Walk.values 0 es)
  | [], _, _ => all_nil
  | .pair key value :: rest, hin, h => by
    rw [Walk.values, all_append] at hin ⊢
    rw [dictEntries, Walk.values, all_append] at h
    exact ⟨kept_expr false hin.1 h.1, kept_values hin.2 h.2⟩
  | .unpack value :: rest, hin, h => by
    rw [Walk.values, all_append] at hin ⊢
    rw [dictEntries, Walk.values, all_append] at h
    exact ⟨kept_expr false hin.1 h.1, kept_values hin.2 h.2⟩

theorem kept_keywords : ∀ {ks : List Keyword}, All (Dropped cfg A) (Walk.keywords 0 ks) →
    All (OfCall R) (Walk.keywords 0 (keywords cfg ks)) →
    All (OfCall (Kept cfg A R)) (Walk.keywords 0 ks)
  | [], _, _ => all_nil
  | .mk arg value :: rest, hin, h => by
    rw [Walk.keywords, all_append] at hin ⊢
    rw [keywords, Walk.keywords, all_append] at h
    exact ⟨kept_expr false hin.1 h.1, kept_keywords hin.2 h.2⟩

theorem kept_comprehensions : ∀ {gs : List Comprehension},
    All (Dropped cfg A) (Walk.comprehensions 0 gs) →
    All (OfCall R) (Walk.comprehensions 0 (comprehensions cfg gs)) →
    All (OfCall (Kept cfg A R)) (Walk.comprehensions 0 gs)
  | [], _, _ => all_nil
  | .mk target iter conditions isAsync :: rest, hin, h => by
    simp only [Walk.comprehensions, all_append] at hin ⊢
    simp only [comprehensions, Walk.comprehensions, all_append] at h
    exact ⟨⟨⟨kept_expr false hin.1.1.1 h.1.1.1, kept_expr false hin.1.1.2 h.1.1.2⟩,
      kept_exprs hin.1.2 h.1.2⟩, kept_comprehensions hin.2 h.2⟩

theorem kept_hints : ∀ {ps : List Param},
    (cfg.ignoreHints = true → ∀ p ∈ ps, ∀ e ∈ p.hint, All (OfCall A) (Walk.expr 0 e)) →
    All (Dropped cfg A) (Walk.hints 0 ps) → All (OfCall R) (Walk.hints 0 (paramList cfg ps)) →
    All (OfCall (Kept cfg A R)) (Walk.hints 0 ps)
  | [], _, _, _ => all_nil
  | .mk id hint value :: rest, hdropped, hin, h => by
    rw [Walk.hints, all_append] at hin ⊢
    rw [paramList, param, Walk.hints, all_append] at h
    exact ⟨all_hint (fun hcfg => hdropped hcfg _ List.mem_cons_self) (kept_optExpr hin.1) h.1,
      kept_hints (fun hcfg p hp => hdropped hcfg p (List.mem_cons_of_mem _ hp)) hin.2 h.2⟩

theorem kept_optHint : ∀ {p : Option Param},
    (cfg.ignoreHints = true → ∀ q ∈ p, ∀ e ∈ q.hint, All (OfCall A) (Walk.expr 0 e)) →
    All (Dropped cfg A) (Walk.optHint 0 p) → All (OfCall R) (Walk.optHint 0 (optParam cfg p)) →
    All (OfCall (Kept cfg A R)) (Walk.optHint 0 p)
  | none, _, _, _ => all_nil
  | some (.mk _ _ _), hdropped, hin, h =>
    all_hint (fun hcfg => hdropped hcfg _ rfl) (kept_optExpr hin) h

theorem kept_defaults : ∀ {ps : List Param}, All (Dropped cfg A) (Walk.defaults 0 ps) →
    All (OfCall R) (Walk.defaults 0 (paramList cfg ps)) →
    All (OfCall (Kept cfg A R)) (Walk.defaults 0 ps)
  | [], _, _ => all_nil
  | .mk id hint value :: rest, hin, h => by
    rw [Walk.defaults, all_append] at hin ⊢
    rw [paramList, param, Walk.defaults, all_append] at h
    exact ⟨kept_optExpr hin.1 h.1, kept_defaults hin.2 h.2⟩

theorem kept_params : ∀ {ps : Params},
    (cfg.ignoreHints = true → ∀ e ∈ ps.all.filterMap Param.hint,
      All (OfCall A) (Walk.expr 0 e)) →
    All (Dropped cfg A) (Walk.params 0 ps) → All (OfCall R) (Walk.params 0 (params cfg ps)) →
    All (OfCall (Kept cfg A R)) (Walk.params 0 ps)
  | .mk posOnly plain star kwOnly doubleStar, hdropped, hin, h => by
    have hparams (hcfg : cfg.ignoreHints = true) (p : Param)
        (hp : p ∈ Params.all (.mk posOnly plain star kwOnly doubleStar)) :
        ∀ e ∈ p.hint, All (OfCall A) (Walk.expr 0 e) :=
      fun e he => hdropped hcfg e (List.mem_filterMap.mpr ⟨p, hp, he⟩)
    simp only [Params.all, List.mem_append, Option.mem_toList, or_imp, forall_and] at hparams
    obtain ⟨⟨⟨⟨hposOnly, hplain⟩, hstar⟩, hkwOnly⟩, hdoubleStar⟩ := hparams
    simp only [Walk.params, all_append] at hin
    simp only [params, Walk.params, all_append] at h
    simp [Walk.params, hin, h, kept_hints hposOnly, kept_hints hplain, kept_optHint hstar,
      kept_hints hkwOnly, kept_optHint hdoubleStar, kept_defaults]

end

/-! ## Patterns -/

mutual

theorem kept_pattern {p : Pattern} (hin : All (Dropped cfg A) (Walk.pattern 0 p))
    (h : All (OfCall R) (Walk.pattern 0 (pattern cfg p))) :
    All (OfCall (Kept cfg A R)) (Walk.pattern 0 p) := by
  cases p with
  | _ =>
    simp only [Walk.pattern, all_cons, all_append, expr_succ, patterns_succ, optPattern_succ,
      patternKeys_succ, patternValues_succ, keywordPatterns_succ, all_map_deeper] at hin
    simp only [pattern, Walk.pattern, all_cons, all_append, expr_succ, patterns_succ,
      optPattern_succ, patternKeys_succ, patternValues_succ, keywordPatterns_succ,
      all_map_deeper] at h
    simp [Walk.pattern, expr_succ, patterns_succ, optPattern_succ, patternKeys_succ,
      patternValues_succ, keywordPatterns_succ, hin, h, kept_expr false, kept_patterns,
      kept_optPattern, kept_patternKeys, kept_patternValues, kept_keywordPatterns]

theorem kept_patterns {ps : List Pattern} (hin : All (Dropped cfg A) (Walk.patterns 0 ps))
    (h : All (OfCall R) (Walk.patterns 0 (patterns cfg ps))) :
    All (OfCall (Kept cfg A R)) (Walk.patterns 0 ps) := by
  cases ps with
  | nil => exact all_nil
  | cons p rest =>
    rw [Walk.patterns, all_append] at hin ⊢
    rw [patterns, Walk.patterns, all_append] at h
    exact ⟨kept_pattern hin.1 h.1, kept_patterns hin.2 h.2⟩

theorem kept_optPattern {p : Option Pattern} (hin : All (Dropped cfg A) (Walk.optPattern 0 p))
    (h : All (OfCall R) (Walk.optPattern 0 (optPattern cfg p))) :
    All (OfCall (Kept cfg A R)) (Walk.optPattern 0 p) := by
  cases p with
  | none => exact all_nil
  | some p => exact kept_pattern hin h

theorem kept_patternKeys : ∀ {es : List PatternEntry},
    All (Dropped cfg A) (Walk.patternKeys 0 es) →
    All (OfCall R) (Walk.patternKeys 0 (patternEntries cfg es)) →
    All (OfCall (Kept cfg A R)) (Walk.patternKeys 0 es)
  | [], _, _ => all_nil
  | .mk key p :: rest, hin, h => by
    rw [Walk.patternKeys, all_append] at hin ⊢
    rw [patternEntries, Walk.patternKeys, all_append] at h
    exact ⟨kept_expr false hin.1 h.1, kept_patternKeys hin.2 h.2⟩

theorem kept_patternValues : ∀ {es : List PatternEntry},
    All (Dropped cfg A) (Walk.patternValues 0 es) →
    All (OfCall R) (Walk.patternValues 0 (patternEntries cfg es)) →
    All (OfCall (Kept cfg A R)) (Walk.patternValues 0 es)
  | [], _, _ => all_nil
  | .mk key p :: rest, hin, h => by
    rw [Walk.patternValues, all_append] at hin ⊢
    rw [patternEntries, Walk.patternValues, all_append] at h
    exact ⟨kept_pattern hin.1 h.1, kept_patternValues hin.2 h.2⟩

theorem kept_keywordPatterns : ∀ {ks : List PatternKeyword},
    All (Dropped cfg A) (Walk.keywordPatterns 0 ks) →
    All (OfCall R) (Walk.keywordPatterns 0 (patternKeywords cfg ks)) →
    All (OfCall (Kept cfg A R)) (Walk.keywordPatterns 0 ks)
  | [], _, _ => all_nil
  | .mk attr p :: rest, hin, h => by
    rw [Walk.keywordPatterns, all_append] at hin ⊢
    rw [patternKeywords, Walk.keywordPatterns, all_append] at h
    exact ⟨kept_pattern hin.1 h.1, kept_keywordPatterns hin.2 h.2⟩

end

/-! ## Statements -/

theorem kept_withItems {ws : List WithItem}
    (hin : All (Dropped cfg A) (ws.flatMap (Walk.withItem 0)))
    (h : All (OfCall R) ((ws.map (withItem cfg)).flatMap (Walk.withItem 0))) :
    All (OfCall (Kept cfg A R)) (ws.flatMap (Walk.withItem 0)) := by
  induction ws with
  | nil => exact all_nil
  | cons w ws ih =>
    simp only [List.flatMap_cons, Walk.withItem, all_append] at hin ⊢
    simp only [List.map_cons, List.flatMap_cons, withItem, Walk.withItem, all_append] at h
    exact ⟨⟨kept_expr false hin.1.1 h.1.1, kept_optExpr hin.1.2 h.1.2⟩, ih hin.2 h.2⟩

mutual

theorem kept_stmt {s : Stmt} (hin : All (Dropped cfg A) (Walk.stmt 0 s))
    (h : All (OfCall R) (Walk.stmt 0 (stmt cfg s))) :
    All (OfCall (Kept cfg A R)) (Walk.stmt 0 s) := by
  cases s with
  | function x isAsync id ps body decorators returns =>
    simp only [Walk.stmt, all_cons, all_append, params_succ, stmts_succ, exprs_succ, optExpr_succ,
      all_map_deeper] at hin
    simp only [stmt, Walk.stmt, all_cons, all_append, params_succ, stmts_succ, exprs_succ,
      optExpr_succ, all_map_deeper] at h
    obtain ⟨hhints, ⟨⟨hps, hbody⟩, hdecorators⟩, hreturns⟩ := hin
    have hkeptParams : All (OfCall (Kept cfg A R)) (Walk.params 0 ps) :=
      kept_params (fun hcfg e he => hhints hcfg e (List.mem_append_left _ he)) hps h.2.1.1.1
    have hkeptBody : All (OfCall (Kept cfg A R)) (Walk.stmts 0 body) :=
      kept_stmts hbody (all_body h.2.1.1.2)
    have hkeptReturns : All (OfCall (Kept cfg A R)) (Walk.optExpr 0 returns) :=
      all_hint (fun hcfg e he => hhints hcfg e
        (List.mem_append_right _ (Option.mem_toList.mpr he))) (kept_optExpr hreturns) h.2.2
    simp [Walk.stmt, params_succ, stmts_succ, exprs_succ, optExpr_succ, hkeptParams, hkeptBody,
      hkeptReturns, kept_exprs hdecorators h.2.1.2]
  | augAssign x target op value =>
    simp only [Walk.stmt, all_cons, all_append, expr_succ, all_map_deeper] at hin
    simp only [stmt, Walk.stmt, Walk.exprs, all_cons, all_append, expr_succ, all_map_deeper] at h
    -- the target is entered twice, and once is enough
    have hvalue := (all_binary h.2.2).2
    simp [Walk.stmt, expr_succ, kept_expr false hin.2.1 h.2.1.1, kept_expr false hin.2.2 hvalue]
  | _ =>
    simp only [Walk.stmt, all_cons, all_append, expr_succ, exprs_succ, optExpr_succ,
      keywords_succ, withItems_succ, stmts_succ, handlers_succ, cases_succ, all_map_deeper] at hin
    simp only [stmt, Walk.stmt, all_cons, all_append, expr_succ, exprs_succ, optExpr_succ,
      keywords_succ, withItems_succ, stmts_succ, handlers_succ, cases_succ, all_map_deeper] at h
    simp [Walk.stmt, expr_succ, exprs_succ, optExpr_succ, keywords_succ, withItems_succ,
      stmts_succ, handlers_succ, cases_succ, hin, h, kept_expr false, kept_exprs, kept_optExpr,
      kept_keywords, kept_withItems, kept_stmts, kept_handlers, kept_cases]

theorem kept_stmts {ss : List Stmt} (hin : All (Dropped cfg A) (Walk.stmts 0 ss))
    (h : All (OfCall R) (Walk.stmts 0 (stmts cfg ss))) :
    All (OfCall (Kept cfg A R)) (Walk.stmts 0 ss) := by
  cases ss with
  | nil => exact all_nil
  | cons s rest =>
    rw [Walk.stmts, all_append] at hin ⊢
    rw [stmts, Walk.stmts, all_append] at h
    exact ⟨kept_stmt hin.1 h.1, kept_stmts hin.2 h.2⟩

theorem kept_handlers : ∀ {hs : List Handler}, All (Dropped cfg A) (Walk.handlers 0 hs) →
    All (OfCall R) (Walk.handlers 0 (handlers cfg hs)) →
    All (OfCall (Kept cfg A R)) (Walk.handlers 0 hs)
  | [], _, _ => all_nil
  | .mk type id body :: rest, hin, h => by
    simp only [Walk.handlers, all_append] at hin ⊢
    simp only [handlers, Walk.handlers, all_append] at h
    exact ⟨⟨kept_optExpr hin.1.1 h.1.1, kept_stmts hin.1.2 h.1.2⟩, kept_handlers hin.2 h.2⟩

theorem kept_cases : ∀ {cs : List MatchCase}, All (Dropped cfg A) (Walk.cases 0 cs) →
    All (OfCall R) (Walk.cases 0 (cases cfg cs)) →
    All (OfCall (Kept cfg A R)) (Walk.cases 0 cs)
  | [], _, _ => all_nil
  | .mk p guard body :: rest, hin, h => by
    simp only [Walk.cases, all_append] at hin ⊢
    simp only [cases, Walk.cases, all_append] at h
    exact ⟨⟨⟨kept_pattern hin.1.1.1 h.1.1.1, kept_optExpr hin.1.1.2 h.1.1.2⟩,
      kept_stmts hin.1.2 h.1.2⟩, kept_cases hin.2 h.2⟩

end

end Normal

/-- The calls of a statement that stand in annotations of parameters or results. -/
def Stmt.hintCalls (s : Stmt) : List Expr :=
  (Walk.stmt 0 s).flatMap fun v => v.node.hints.flatMap fun e => Walk.calls (Walk.expr 0 e)

/-- The normal form of a call is a call of the normal form. -/
theorem Normal.mem_calls (cfg : Normal.Config) {s : Stmt} {c : Expr}
    (hc : c ∈ Walk.calls (Walk.stmt 0 s)) :
    cfg.ignoreHints = true ∧ c ∈ s.hintCalls ∨
      expr cfg false c ∈ Walk.calls (Walk.stmt 0 (stmt cfg s)) := by
  have hin : All (Dropped cfg fun c => cfg.ignoreHints = true ∧ c ∈ s.hintCalls)
      (Walk.stmt 0 s) := by
    intro v hv hcfg e he
    rw [all_ofCall]
    intro c hc
    exact ⟨hcfg, List.mem_flatMap.mpr ⟨v, hv, List.mem_flatMap.mpr ⟨e, he, hc⟩⟩⟩
  exact all_ofCall.mp (kept_stmt hin (all_ofCall.mpr fun _ => id)) c hc

end CloneScout
