import CloneScout.Proofs.Tree.Outline

/-!
# Outlines of outlines

An outline of an outline of a tree is an outline of the tree. Only operations whose operands change
places need a look at their operands.
-/

namespace CloneScout.Outline

/-- Behind `o` the outline `o'` shows what `o''` shows at once. -/
structure Composes (o o' o'' : Outline) : Prop where
  name (p : Place) (id : Text) : o'.name p (o.name p id) = o''.name p id
  constant (c : Constant) : o'.constant (o.constant c) = o''.constant c
  hints : o''.hints = (o.hints && o'.hints)
  binary (p : Place) (x : Extent) (left : Expr) (op : BinaryOp) (right : Expr)
    (hl : o'.expr p.inner (o.expr p.inner left) = o''.expr p.inner left)
    (hr : o'.expr p.inner (o.expr p.inner right) = o''.expr p.inner right) :
    o'.expr p (o.expr p (.binary x left op right)) = o''.expr p (.binary x left op right)

variable {o o' o'' : Outline}

theorem Composes.hint (h : Composes o o' o'') {p : Place} {hint : Option Expr}
    (hhint : o'.optExpr p (o.optExpr p hint) = o''.optExpr p hint) :
    (if o'.hints then o'.optExpr p (if o.hints then o.optExpr p hint else none) else none) =
      if o''.hints then o''.optExpr p hint else none := by
  rw [h.hints]
  cases o.hints <;> cases o'.hints <;> simp [optExpr, hhint]

mutual

theorem expr_expr (h : Composes o o' o'') (p : Place) (e : Expr) :
    o'.expr p (o.expr p e) = o''.expr p e := by
  cases e
  case binary x left op right =>
    exact h.binary p x left op right (expr_expr h p.inner left) (expr_expr h p.inner right)
  all_goals simp [expr, h.name, h.constant, expr_expr h, exprs_exprs h, optExpr_optExpr h,
    entries_entries h, keywords_keywords h, comprehensions_comprehensions h, params_params h]

theorem exprs_exprs (h : Composes o o' o'') (p : Place) (es : List Expr) :
    o'.exprs p (o.exprs p es) = o''.exprs p es := by
  cases es <;> simp [exprs, expr_expr h, exprs_exprs h]

theorem optExpr_optExpr (h : Composes o o' o'') (p : Place) (e : Option Expr) :
    o'.optExpr p (o.optExpr p e) = o''.optExpr p e := by
  cases e <;> simp [optExpr, expr_expr h]

theorem entries_entries (h : Composes o o' o'') (p : Place) :
    ∀ es : List Entry, o'.entries p (o.entries p es) = o''.entries p es
  | [] => rfl
  | .pair _ _ :: _ => by simp [entries, expr_expr h, entries_entries h]
  | .unpack _ :: _ => by simp [entries, expr_expr h, entries_entries h]

theorem keywords_keywords (h : Composes o o' o'') (p : Place) :
    ∀ ks : List Keyword, o'.keywords p (o.keywords p ks) = o''.keywords p ks
  | [] => rfl
  | .mk _ _ :: _ => by simp [keywords, expr_expr h, keywords_keywords h]

theorem comprehensions_comprehensions (h : Composes o o' o'') (p : Place) :
    ∀ gs : List Comprehension,
      o'.comprehensions p (o.comprehensions p gs) = o''.comprehensions p gs
  | [] => rfl
  | .mk _ _ _ _ :: _ => by
    simp [comprehensions, expr_expr h, exprs_exprs h, comprehensions_comprehensions h]

theorem param_param (h : Composes o o' o'') (p : Place) :
    ∀ q : Param, o'.param p (o.param p q) = o''.param p q
  | .mk _ hint _ => by
    rw [param, param, param, h.hint (optExpr_optExpr h p hint), optExpr_optExpr h]

theorem optParam_optParam (h : Composes o o' o'') (p : Place) (q : Option Param) :
    o'.optParam p (o.optParam p q) = o''.optParam p q := by
  cases q <;> simp [optParam, param_param h]

theorem paramList_paramList (h : Composes o o' o'') (p : Place) (qs : List Param) :
    o'.paramList p (o.paramList p qs) = o''.paramList p qs := by
  cases qs <;> simp [paramList, param_param h, paramList_paramList h]

theorem params_params (h : Composes o o' o'') (p : Place) :
    ∀ ps : Params, o'.params p (o.params p ps) = o''.params p ps
  | .mk _ _ _ _ _ => by simp [params, paramList_paramList h, optParam_optParam h]

end

mutual

theorem pattern_pattern (h : Composes o o' o'') (p : Pattern) :
    o'.pattern (o.pattern p) = o''.pattern p := by
  cases p <;> simp [pattern, expr_expr h, patterns_patterns h, optPattern_optPattern h,
    patternEntries_patternEntries h, patternKeywords_patternKeywords h]

theorem patterns_patterns (h : Composes o o' o'') (ps : List Pattern) :
    o'.patterns (o.patterns ps) = o''.patterns ps := by
  cases ps <;> simp [patterns, pattern_pattern h, patterns_patterns h]

theorem optPattern_optPattern (h : Composes o o' o'') (p : Option Pattern) :
    o'.optPattern (o.optPattern p) = o''.optPattern p := by
  cases p <;> simp [optPattern, pattern_pattern h]

theorem patternEntries_patternEntries (h : Composes o o' o'') :
    ∀ es : List PatternEntry, o'.patternEntries (o.patternEntries es) = o''.patternEntries es
  | [] => rfl
  | .mk _ _ :: _ => by
    simp [patternEntries, expr_expr h, pattern_pattern h, patternEntries_patternEntries h]

theorem patternKeywords_patternKeywords (h : Composes o o' o'') :
    ∀ ks : List PatternKeyword, o'.patternKeywords (o.patternKeywords ks) = o''.patternKeywords ks
  | [] => rfl
  | .mk _ _ :: _ => by
    simp [patternKeywords, pattern_pattern h, patternKeywords_patternKeywords h]

end

theorem withItem_comp_withItem (h : Composes o o' o'') :
    o'.withItem ∘ o.withItem = o''.withItem := by
  funext w
  simp [withItem, expr_expr h, optExpr_optExpr h]

mutual

theorem stmt_stmt (h : Composes o o' o'') (s : Stmt) : o'.stmt (o.stmt s) = o''.stmt s := by
  cases s
  case function x isAsync id ps body decorators returns =>
    rw [stmt, stmt, stmt, h.hint (optExpr_optExpr h .free returns), params_params h, stmts_stmts h,
      exprs_exprs h]
  all_goals simp [stmt, expr_expr h, exprs_exprs h, optExpr_optExpr h, keywords_keywords h,
    withItem_comp_withItem h, stmts_stmts h, handlers_handlers h, cases_cases h]

theorem stmts_stmts (h : Composes o o' o'') (ss : List Stmt) :
    o'.stmts (o.stmts ss) = o''.stmts ss := by
  cases ss <;> simp [stmts, stmt_stmt h, stmts_stmts h]

theorem handlers_handlers (h : Composes o o' o'') :
    ∀ hs : List Handler, o'.handlers (o.handlers hs) = o''.handlers hs
  | [] => rfl
  | .mk _ _ _ :: _ => by simp [handlers, optExpr_optExpr h, stmts_stmts h, handlers_handlers h]

theorem cases_cases (h : Composes o o' o'') :
    ∀ cs : List MatchCase, o'.cases (o.cases cs) = o''.cases cs
  | [] => rfl
  | .mk _ _ _ :: _ => by
    simp [cases, pattern_pattern h, optExpr_optExpr h, stmts_stmts h, cases_cases h]

end

end CloneScout.Outline
