import CloneScout.Proofs.Normal.Faithful
import CloneScout.Proofs.Normal.Order
import CloneScout.Proofs.Normal.Outline

/-!
# Normal forms of normal forms

Fixed words stay the fixed words they are, and what is left out is not there to be left out again.
Two things can still happen to a normal form: a function whose body starts with a text loses that
too, and operands of a commutative operator change places when their own operands have done so. A
normal form is its own normal form if and only if neither happens.
-/

namespace CloneScout

/-- Normalization neither takes the first statement of a function away here nor exchanges the
operands of an operation. -/
def Node.Settled (cfg : Normal.Config) : Node → Prop
  | .expr (.binary _ left op right) => Normal.swaps op left right = false
  | .stmt (.function _ _ _ _ body _ _) => (cfg.ignoreDocstrings && startsWithDocstring body) = false
  | _ => True

namespace Normal

variable {cfg : Config}

/-! ## Single nodes -/

theorem name_name (target : Bool) (id : Text) :
    name cfg target (name cfg target id) = name cfg target id := by
  have hword : isMeta variableWord = false := by decide
  unfold name
  split
  next h => rw [hword, if_pos (by simp_all)]
  next h => rfl

theorem attr_attr (target : Bool) (id : Text) :
    attr cfg target (attr cfg target id) = attr cfg target id := by
  unfold attr
  split
  next h => rfl
  next h => rfl

theorem constant_constant (c : Constant) : constant cfg (constant cfg c) = constant cfg c := by
  unfold constant
  split
  next => cases c <;> rfl
  next => rfl

/-- A settled operation keeps its operands where they are. -/
theorem expr_binary_of_settled {target : Bool} {x : Extent} {op : BinaryOp} {left right : Expr}
    (h : Node.Settled cfg (.expr (.binary x left op right)))
    (hl : expr cfg false left = left) (hr : expr cfg false right = right) :
    expr cfg target (.binary x left op right) = .binary x left op right := by
  have hstay : swaps op left right = false := h
  rw [expr, binary, hstay, if_neg (by decide), hl, hr]

/-- A negated test that has been turned into the opposite test, or could not be, stays as it is. -/
theorem expr_unary {target : Bool} {x : Extent} {op : UnaryOp} {operand : Expr}
    (h : expr cfg false operand = operand) :
    expr cfg target (unary x op operand) = unary x op operand := by
  fun_cases unary x op operand with
  | case1 x' left test comparators test' htest =>
    rw [expr, Expr.compare.injEq] at h
    rw [expr, h.2.1, h.2.2.2]
  | case2 x' left test comparators htest =>
    rw [expr, h, unary, htest]
  | case3 =>
    rename_i hother
    rw [expr, h, unary.eq_2 x op operand hother]

theorem expr_load {target : Bool} {e : Expr} (h : expr cfg target e = e) :
    expr cfg target (load e) = load e := by
  cases e with
  | name x id ctx =>
    rw [expr, Expr.name.injEq] at h
    rw [load, expr, h.2.1]
  | «attribute» x value id ctx =>
    rw [expr, Expr.attribute.injEq] at h
    rw [load, expr, h.2.1, h.2.2.1]
  | subscript x value index ctx =>
    rw [expr, Expr.subscript.injEq] at h
    rw [load, expr, h.2.1, h.2.2.1]
  | starred x value ctx =>
    rw [expr, Expr.starred.injEq] at h
    rw [load, expr, h.2.1]
  | list x elts ctx =>
    rw [expr, Expr.list.injEq] at h
    rw [load, expr, h.2.1]
  | tuple x elts ctx =>
    rw [expr, Expr.tuple.injEq] at h
    rw [load, expr, h.2.1]
  | _ => exact h

/-! ## Expressions -/

/-- All nodes of a unary operation that stay behind belong to its operand. -/
theorem settled_of_unary {x : Extent} {op : UnaryOp} {operand : Expr}
    (h : Every.expr (Node.Settled cfg) (unary x op operand)) :
    Every.expr (Node.Settled cfg) operand := by
  revert h
  fun_cases unary x op operand with
  | case1 x' left test comparators test' htest => exact id
  | case2 x' left test comparators htest => exact And.right
  | case3 => exact And.right

theorem settled_of_binary {x : Extent} {op : BinaryOp} {left right left' right' : Expr}
    (h : Every.expr (Node.Settled cfg) (binary x op left right left' right')) :
    Every.expr (Node.Settled cfg) left' ∧ Every.expr (Node.Settled cfg) right' := by
  unfold binary at h
  split at h
  · exact h.2.symm
  · exact h.2

theorem expr_binary {target : Bool} {x : Extent} {op : BinaryOp} {left right left' right' : Expr}
    (h : Every.expr (Node.Settled cfg) (binary x op left right left' right'))
    (hl : expr cfg false left' = left') (hr : expr cfg false right' = right') :
    expr cfg target (binary x op left right left' right') =
      binary x op left right left' right' := by
  unfold binary at h ⊢
  split at h
  next hswap => rw [if_pos hswap, expr_binary_of_settled h.1 hr hl]
  next hswap => rw [if_neg hswap, expr_binary_of_settled h.1 hl hr]

/-- Leaving out a hint twice leaves out no more than leaving it out once. -/
theorem hint_hint {hint : Option Expr}
    (h : Every.optExpr (Node.Settled cfg) (if cfg.ignoreHints then none else optExpr cfg hint))
    (hagain : Every.optExpr (Node.Settled cfg) (optExpr cfg hint) →
      optExpr cfg (optExpr cfg hint) = optExpr cfg hint) :
    (if cfg.ignoreHints then none
      else optExpr cfg (if cfg.ignoreHints then none else optExpr cfg hint)) =
      if cfg.ignoreHints then none else optExpr cfg hint := by
  split
  next => rfl
  next hkept =>
    rw [if_neg hkept] at h
    exact hagain h

mutual

theorem expr_expr (target : Bool) {e : Expr}
    (h : Every.expr (Node.Settled cfg) (expr cfg target e)) :
    expr cfg target (expr cfg target e) = expr cfg target e := by
  cases e with
  | binary x left op right =>
    rw [expr] at h
    obtain ⟨hl, hr⟩ := settled_of_binary h
    rw [expr, expr_binary h (expr_expr false hl) (expr_expr false hr)]
  | unary x op operand =>
    rw [expr] at h
    rw [expr, expr_unary (expr_expr false (settled_of_unary h))]
  | _ =>
    simp only [expr, Every.expr] at h
    simp [expr, h, name_name, attr_attr, constant_constant, expr_expr, exprs_exprs, optExpr_optExpr,
      dictEntries_dictEntries, keywords_keywords, comprehensions_comprehensions, params_params]

theorem exprs_exprs {es : List Expr} (h : Every.exprs (Node.Settled cfg) (exprs cfg es)) :
    exprs cfg (exprs cfg es) = exprs cfg es := by
  cases es with
  | nil => rfl
  | cons e es => rw [exprs, exprs, expr_expr false h.1, exprs_exprs h.2]

theorem optExpr_optExpr {e : Option Expr} (h : Every.optExpr (Node.Settled cfg) (optExpr cfg e)) :
    optExpr cfg (optExpr cfg e) = optExpr cfg e := by
  cases e with
  | none => rfl
  | some e => exact congrArg some (expr_expr false h)

theorem dictEntries_dictEntries : ∀ {es : List Entry},
    Every.entries (Node.Settled cfg) (dictEntries cfg es) →
    dictEntries cfg (dictEntries cfg es) = dictEntries cfg es
  | [], _ => rfl
  | .pair _ _ :: _, h => by
    rw [dictEntries, dictEntries, expr_expr false h.1, expr_expr false h.2.1,
      dictEntries_dictEntries h.2.2]
  | .unpack _ :: _, h => by
    rw [dictEntries, dictEntries, expr_expr false h.1, dictEntries_dictEntries h.2]

theorem keywords_keywords : ∀ {ks : List Keyword},
    Every.keywords (Node.Settled cfg) (keywords cfg ks) →
    keywords cfg (keywords cfg ks) = keywords cfg ks
  | [], _ => rfl
  | .mk _ _ :: _, h => by
    rw [keywords, keywords, expr_expr false h.1, keywords_keywords h.2]

theorem comprehensions_comprehensions : ∀ {gs : List Comprehension},
    Every.comprehensions (Node.Settled cfg) (comprehensions cfg gs) →
    comprehensions cfg (comprehensions cfg gs) = comprehensions cfg gs
  | [], _ => rfl
  | .mk _ _ _ _ :: _, h => by
    rw [comprehensions, comprehensions, expr_expr false h.1, expr_expr false h.2.1,
      exprs_exprs h.2.2.1, comprehensions_comprehensions h.2.2.2]

theorem param_param : ∀ {q : Param}, Every.param (Node.Settled cfg) (param cfg q) →
    param cfg (param cfg q) = param cfg q
  | .mk _ _ _, h => by
    rw [param, param, hint_hint h.1 optExpr_optExpr, optExpr_optExpr h.2]

theorem optParam_optParam {q : Option Param}
    (h : Every.optParam (Node.Settled cfg) (optParam cfg q)) :
    optParam cfg (optParam cfg q) = optParam cfg q := by
  cases q with
  | none => rfl
  | some q => exact congrArg some (param_param h)

theorem paramList_paramList {qs : List Param}
    (h : Every.paramList (Node.Settled cfg) (paramList cfg qs)) :
    paramList cfg (paramList cfg qs) = paramList cfg qs := by
  cases qs with
  | nil => rfl
  | cons q qs => rw [paramList, paramList, param_param h.1, paramList_paramList h.2]

theorem params_params : ∀ {ps : Params}, Every.params (Node.Settled cfg) (params cfg ps) →
    params cfg (params cfg ps) = params cfg ps
  | .mk _ _ _ _ _, h => by
    rw [params, params, paramList_paramList h.1, paramList_paramList h.2.1,
      optParam_optParam h.2.2.1, paramList_paramList h.2.2.2.1, optParam_optParam h.2.2.2.2]

end

/-! ## Patterns and statements -/

mutual

theorem pattern_pattern {p : Pattern} (h : Every.pattern (Node.Settled cfg) (pattern cfg p)) :
    pattern cfg (pattern cfg p) = pattern cfg p := by
  cases p <;> simp only [pattern, Every.pattern] at h ⊢ <;>
    simp [h, expr_expr, patterns_patterns, optPattern_optPattern,
      patternEntries_patternEntries, patternKeywords_patternKeywords]

theorem patterns_patterns {ps : List Pattern}
    (h : Every.patterns (Node.Settled cfg) (patterns cfg ps)) :
    patterns cfg (patterns cfg ps) = patterns cfg ps := by
  cases ps with
  | nil => rfl
  | cons p ps => rw [patterns, patterns, pattern_pattern h.1, patterns_patterns h.2]

theorem optPattern_optPattern {p : Option Pattern}
    (h : Every.optPattern (Node.Settled cfg) (optPattern cfg p)) :
    optPattern cfg (optPattern cfg p) = optPattern cfg p := by
  cases p with
  | none => rfl
  | some p => exact congrArg some (pattern_pattern h)

theorem patternEntries_patternEntries : ∀ {es : List PatternEntry},
    Every.patternEntries (Node.Settled cfg) (patternEntries cfg es) →
    patternEntries cfg (patternEntries cfg es) = patternEntries cfg es
  | [], _ => rfl
  | .mk _ _ :: _, h => by
    rw [patternEntries, patternEntries, expr_expr false h.1, pattern_pattern h.2.1,
      patternEntries_patternEntries h.2.2]

theorem patternKeywords_patternKeywords : ∀ {ks : List PatternKeyword},
    Every.patternKeywords (Node.Settled cfg) (patternKeywords cfg ks) →
    patternKeywords cfg (patternKeywords cfg ks) = patternKeywords cfg ks
  | [], _ => rfl
  | .mk _ _ :: _, h => by
    rw [patternKeywords, patternKeywords, pattern_pattern h.1, patternKeywords_patternKeywords h.2]

end

theorem withItems_withItems {ws : List WithItem}
    (h : Every.withItems (Node.Settled cfg) (ws.map (withItem cfg))) :
    (ws.map (withItem cfg)).map (withItem cfg) = ws.map (withItem cfg) := by
  rw [List.map_map]
  refine List.map_congr_left fun w hw => ?_
  have hitem := h _ (List.mem_map_of_mem hw)
  rw [Function.comp_apply, withItem, withItem, expr_expr false hitem.1, optExpr_optExpr hitem.2]

mutual

theorem stmt_stmt {s : Stmt} (h : Every.stmt (Node.Settled cfg) (stmt cfg s)) :
    stmt cfg (stmt cfg s) = stmt cfg s := by
  cases s with
  | function x isAsync id ps body decorators returns =>
    rw [stmt] at h
    obtain ⟨hfirst, hps, hrest, hdecorators, hreturns⟩ := h
    rw [stmt, stmt, params_params hps, exprs_exprs hdecorators,
      hint_hint hreturns optExpr_optExpr, if_neg (Bool.eq_false_iff.mp hfirst)]
    split at hrest
    next hdoc => rw [if_pos hdoc, drop_stmts 1 hrest]
    next hdoc => rw [if_neg hdoc, stmts_stmts hrest]
  | augAssign x target op value =>
    obtain ⟨-, ⟨htarget, -⟩, hvalue⟩ := h
    obtain ⟨-, hright⟩ := settled_of_binary hvalue
    have hagain := expr_expr false htarget
    rw [stmt, stmt, exprs, exprs, hagain,
      expr_binary hvalue (expr_load hagain) (expr_expr false hright)]
  | withBlock x isAsync items body =>
    obtain ⟨-, hitems, hbody⟩ := h
    rw [stmt, stmt, withItems_withItems hitems, stmts_stmts hbody]
  | _ =>
    simp only [stmt, Every.stmt] at h
    simp [stmt, h, expr_expr, exprs_exprs, optExpr_optExpr, keywords_keywords, stmts_stmts,
      handlers_handlers, cases_cases]

/-- A function without its docstring has the last statements of its body. -/
theorem drop_stmts {ss : List Stmt} (n : Nat)
    (h : Every.stmts (Node.Settled cfg) ((stmts cfg ss).drop n)) :
    stmts cfg ((stmts cfg ss).drop n) = (stmts cfg ss).drop n := by
  cases ss with
  | nil => cases n <;> rfl
  | cons s ss =>
    cases n with
    | zero => rw [List.drop_zero, stmts, stmts, stmt_stmt h.1, stmts_stmts h.2]
    | succ n => exact drop_stmts n h

theorem stmts_stmts {ss : List Stmt} (h : Every.stmts (Node.Settled cfg) (stmts cfg ss)) :
    stmts cfg (stmts cfg ss) = stmts cfg ss := by
  cases ss with
  | nil => rfl
  | cons s ss => rw [stmts, stmts, stmt_stmt h.1, stmts_stmts h.2]

theorem handlers_handlers : ∀ {hs : List Handler},
    Every.handlers (Node.Settled cfg) (handlers cfg hs) →
    handlers cfg (handlers cfg hs) = handlers cfg hs
  | [], _ => rfl
  | .mk _ _ _ :: _, h => by
    rw [handlers, handlers, optExpr_optExpr h.1, stmts_stmts h.2.1, handlers_handlers h.2.2]

theorem cases_cases : ∀ {cs : List MatchCase}, Every.cases (Node.Settled cfg) (cases cfg cs) →
    cases cfg (cases cfg cs) = cases cfg cs
  | [], _ => rfl
  | .mk _ _ _ :: _, h => by
    rw [cases, cases, pattern_pattern h.1, optExpr_optExpr h.2.1, stmts_stmts h.2.2.1,
      cases_cases h.2.2.2]

end

/-! ## Trees that normalization does not change -/

open Outline (spelled)

section

variable {f : Text → Text}

theorem constant_eq_of_spelled {op : BinaryOp} {c c' : Constant} (hc' : isNumber op c' = true)
    (h : c.spelled f = c'.spelled f) : isNumber op c = true ∧ Dump.constant c = Dump.constant c' ∧
      Dump.mark c = Dump.mark c' := by
  cases c' <;> cases c <;> simp_all [isNumber, Constant.spelled, Dump.constant, Dump.mark]

/-- What is shown like a numeric expression is one with the same text. -/
theorem fullText_eq_of_spelled {op : BinaryOp} {e e' : Expr} {p : Place}
    (he' : isNumeric op e' = true) (h : (spelled f).expr p e = (spelled f).expr p e') :
    isNumeric op e = true ∧ fullText e = fullText e' := by
  induction e', he' using isNumeric_induction generalizing e p with
  | number x' c' hc' =>
    cases e <;> simp [Outline.expr] at h
    obtain ⟨hnumber, hvalue, hmark⟩ := constant_eq_of_spelled hc' h
    exact ⟨hnumber, by rw [fullText, fullText, Dump.expr, Dump.expr, hvalue, hmark]⟩
  | operation x' left' right' hl' hr' ihl ihr =>
    cases e <;> simp [Outline.expr] at h
    obtain ⟨hl, rfl, hr⟩ := h
    have hleft := ihl hl
    have hright := ihr hr
    simp [isNumeric, hleft.1, hright.1, fullText_binary, hleft.2, hright.2]

/-- Operands that change places leave another operation behind. -/
theorem swaps_eq_false_of_spelled {p : Place} {target : Bool} {x : Extent} {op : BinaryOp}
    {left right : Expr}
    (h : (spelled f).expr p (expr cfg target (.binary x left op right)) =
      (spelled f).expr p (.binary x left op right)) : swaps op left right = false := by
  rw [Bool.eq_false_iff]
  intro hswap
  rw [expr, binary, if_pos hswap] at h
  have hplace : (spelled f).expr p.inner (expr cfg false right) = (spelled f).expr p.inner left :=
    (Expr.binary.inj h).2.1
  have hnumeric : isNumeric op left = true := by
    simp only [swaps, Bool.and_eq_true] at hswap
    exact hswap.1.1.2
  obtain ⟨hn, hsame⟩ := fullText_eq_of_spelled hnumeric hplace
  exact fullText_ne_of_swaps false hswap hn hsame

/-- A negated test that becomes the opposite test is no negation any more. -/
theorem operand_eq_of_spelled {p : Place} {x : Extent} {op : UnaryOp} {operand operand' : Expr}
    (h : (spelled f).expr p (unary x op operand) = (spelled f).expr p (.unary x op operand')) :
    (spelled f).expr p.inner operand = (spelled f).expr p.inner operand' := by
  revert h
  fun_cases unary x op operand with
  | case1 => intro h; cases h
  | case2 => exact fun h => (Expr.unary.inj h).2.2
  | case3 => exact fun h => (Expr.unary.inj h).2.2

theorem hint_eq_of_spelled {p : Place} {hint : Option Expr}
    (h : (spelled f).optExpr p (if cfg.ignoreHints then none else optExpr cfg hint) =
      (spelled f).optExpr p hint) :
    (spelled f).optExpr p (optExpr cfg hint) = (spelled f).optExpr p hint := by
  split at h
  next =>
    cases hint with
    | none => rfl
    | some e => nomatch h
  next => exact h

mutual

theorem settled_expr {p : Place} {target : Bool} {e : Expr}
    (h : (spelled f).expr p (expr cfg target e) = (spelled f).expr p e) :
    Every.expr (Node.Settled cfg) e := by
  cases e with
  | binary x left op right =>
    have hstay := swaps_eq_false_of_spelled h
    rw [expr, binary, if_neg (Bool.eq_false_iff.mp hstay)] at h
    obtain ⟨-, hl, -, hr⟩ := Expr.binary.inj h
    exact ⟨hstay, settled_expr hl, settled_expr hr⟩
  | unary x op operand => exact ⟨trivial, settled_expr (operand_eq_of_spelled h)⟩
  | error x => exact ⟨trivial, trivial⟩
  | name x id ctx => exact ⟨trivial, trivial⟩
  | constant x c => exact ⟨trivial, trivial⟩
  | boolean x op values => exact ⟨trivial, settled_exprs (Expr.boolean.inj h).2.2⟩
  | named x e value =>
    obtain ⟨-, he, hvalue⟩ := Expr.named.inj h
    exact ⟨trivial, settled_expr he, settled_expr hvalue⟩
  | lambda x ps body =>
    obtain ⟨-, hps, hbody⟩ := Expr.lambda.inj h
    exact ⟨trivial, settled_params hps, settled_expr hbody⟩
  | conditional x test body orelse =>
    obtain ⟨-, htest, hbody, helse⟩ := Expr.conditional.inj h
    exact ⟨trivial, settled_expr htest, settled_expr hbody, settled_expr helse⟩
  | dict x es => exact ⟨trivial, settled_entries (Expr.dict.inj h).2⟩
  | set x elts => exact ⟨trivial, settled_exprs (Expr.set.inj h).2⟩
  | listComp x elt gens =>
    obtain ⟨-, helt, hgens⟩ := Expr.listComp.inj h
    exact ⟨trivial, settled_expr helt, settled_comprehensions hgens⟩
  | setComp x elt gens =>
    obtain ⟨-, helt, hgens⟩ := Expr.setComp.inj h
    exact ⟨trivial, settled_expr helt, settled_comprehensions hgens⟩
  | dictComp x key value gens =>
    obtain ⟨-, hkey, hvalue, hgens⟩ := Expr.dictComp.inj h
    exact ⟨trivial, settled_expr hkey, settled_expr hvalue, settled_comprehensions hgens⟩
  | generator x elt gens =>
    obtain ⟨-, helt, hgens⟩ := Expr.generator.inj h
    exact ⟨trivial, settled_expr helt, settled_comprehensions hgens⟩
  | await x value => exact ⟨trivial, settled_expr (Expr.await.inj h).2⟩
  | yield x value => exact ⟨trivial, settled_optExpr (Expr.yield.inj h).2⟩
  | yieldFrom x value => exact ⟨trivial, settled_expr (Expr.yieldFrom.inj h).2⟩
  | compare x left ops comparators =>
    obtain ⟨-, hleft, -, hrest⟩ := Expr.compare.inj h
    exact ⟨trivial, settled_expr hleft, settled_exprs hrest⟩
  | call x func args kws =>
    obtain ⟨-, hfunc, hargs, hkws⟩ := Expr.call.inj h
    exact ⟨trivial, settled_expr hfunc, settled_exprs hargs, settled_keywords hkws⟩
  | formatted x value conv spec =>
    obtain ⟨-, hvalue, -, hspec⟩ := Expr.formatted.inj h
    exact ⟨trivial, settled_expr hvalue, settled_optExpr hspec⟩
  | joined x values => exact ⟨trivial, settled_exprs (Expr.joined.inj h).2⟩
  | «attribute» x value id ctx => exact ⟨trivial, settled_expr (Expr.attribute.inj h).2.1⟩
  | subscript x value index ctx =>
    obtain ⟨-, hvalue, hindex, -⟩ := Expr.subscript.inj h
    exact ⟨trivial, settled_expr hvalue, settled_expr hindex⟩
  | starred x value ctx => exact ⟨trivial, settled_expr (Expr.starred.inj h).2.1⟩
  | list x elts ctx => exact ⟨trivial, settled_exprs (Expr.list.inj h).2.1⟩
  | tuple x elts ctx => exact ⟨trivial, settled_exprs (Expr.tuple.inj h).2.1⟩
  | slice x lower upper step =>
    obtain ⟨-, hlower, hupper, hstep⟩ := Expr.slice.inj h
    exact ⟨trivial, settled_optExpr hlower, settled_optExpr hupper, settled_optExpr hstep⟩

theorem settled_exprs {p : Place} {es : List Expr}
    (h : (spelled f).exprs p (exprs cfg es) = (spelled f).exprs p es) :
    Every.exprs (Node.Settled cfg) es := by
  cases es with
  | nil => trivial
  | cons e es => exact ⟨settled_expr (List.cons.inj h).1, settled_exprs (List.cons.inj h).2⟩

theorem settled_optExpr {p : Place} {e : Option Expr}
    (h : (spelled f).optExpr p (optExpr cfg e) = (spelled f).optExpr p e) :
    Every.optExpr (Node.Settled cfg) e := by
  cases e with
  | none => trivial
  | some e => exact settled_expr (Option.some.inj h)

theorem settled_entries {p : Place} : ∀ {es : List Entry},
    (spelled f).entries p (dictEntries cfg es) = (spelled f).entries p es →
    Every.entries (Node.Settled cfg) es
  | [], _ => trivial
  | .pair _ _ :: _, h => by
    obtain ⟨hfirst, hrest⟩ := List.cons.inj h
    obtain ⟨hkey, hvalue⟩ := Entry.pair.inj hfirst
    exact ⟨settled_expr hkey, settled_expr hvalue, settled_entries hrest⟩
  | .unpack _ :: _, h => by
    obtain ⟨hfirst, hrest⟩ := List.cons.inj h
    exact ⟨settled_expr (Entry.unpack.inj hfirst), settled_entries hrest⟩

theorem settled_keywords {p : Place} : ∀ {ks : List Keyword},
    (spelled f).keywords p (keywords cfg ks) = (spelled f).keywords p ks →
    Every.keywords (Node.Settled cfg) ks
  | [], _ => trivial
  | .mk _ _ :: _, h => by
    obtain ⟨hfirst, hrest⟩ := List.cons.inj h
    exact ⟨settled_expr (Keyword.mk.inj hfirst).2, settled_keywords hrest⟩

theorem settled_comprehensions {p : Place} : ∀ {gs : List Comprehension},
    (spelled f).comprehensions p (comprehensions cfg gs) = (spelled f).comprehensions p gs →
    Every.comprehensions (Node.Settled cfg) gs
  | [], _ => trivial
  | .mk _ _ _ _ :: _, h => by
    obtain ⟨hfirst, hrest⟩ := List.cons.inj h
    obtain ⟨htarget, hiter, hconditions, -⟩ := Comprehension.mk.inj hfirst
    exact ⟨settled_expr htarget, settled_expr hiter, settled_exprs hconditions,
      settled_comprehensions hrest⟩

theorem settled_param {p : Place} : ∀ {q : Param},
    (spelled f).param p (param cfg q) = (spelled f).param p q → Every.param (Node.Settled cfg) q
  | .mk _ _ _, h => by
    obtain ⟨-, hhint, hvalue⟩ := Param.mk.inj h
    exact ⟨settled_optExpr (hint_eq_of_spelled hhint), settled_optExpr hvalue⟩

theorem settled_optParam {p : Place} {q : Option Param}
    (h : (spelled f).optParam p (optParam cfg q) = (spelled f).optParam p q) :
    Every.optParam (Node.Settled cfg) q := by
  cases q with
  | none => trivial
  | some q => exact settled_param (Option.some.inj h)

theorem settled_paramList {p : Place} {qs : List Param}
    (h : (spelled f).paramList p (paramList cfg qs) = (spelled f).paramList p qs) :
    Every.paramList (Node.Settled cfg) qs := by
  cases qs with
  | nil => trivial
  | cons q qs => exact ⟨settled_param (List.cons.inj h).1, settled_paramList (List.cons.inj h).2⟩

theorem settled_params {p : Place} : ∀ {ps : Params},
    (spelled f).params p (params cfg ps) = (spelled f).params p ps →
    Every.params (Node.Settled cfg) ps
  | .mk _ _ _ _ _, h => by
    obtain ⟨hposOnly, hplain, hstar, hkwOnly, hdoubleStar⟩ := Params.mk.inj h
    exact ⟨settled_paramList hposOnly, settled_paramList hplain, settled_optParam hstar,
      settled_paramList hkwOnly, settled_optParam hdoubleStar⟩

end

mutual

theorem settled_pattern {p : Pattern}
    (h : (spelled f).pattern (pattern cfg p) = (spelled f).pattern p) :
    Every.pattern (Node.Settled cfg) p := by
  cases p with
  | error x => exact ⟨trivial, trivial⟩
  | value x value => exact ⟨trivial, settled_expr (Pattern.value.inj h).2⟩
  | singleton x value => exact ⟨trivial, trivial⟩
  | sequence x ps => exact ⟨trivial, settled_patterns (Pattern.sequence.inj h).2⟩
  | mapping x es rest => exact ⟨trivial, settled_patternEntries (Pattern.mapping.inj h).2.1⟩
  | cls x cls ps kws =>
    obtain ⟨-, hcls, hps, hkws⟩ := Pattern.cls.inj h
    exact ⟨trivial, settled_expr hcls, settled_patterns hps, settled_patternKeywords hkws⟩
  | star x id => exact ⟨trivial, trivial⟩
  | as x p id => exact ⟨trivial, settled_optPattern (Pattern.as.inj h).2.1⟩
  | or x ps => exact ⟨trivial, settled_patterns (Pattern.or.inj h).2⟩

theorem settled_patterns {ps : List Pattern}
    (h : (spelled f).patterns (patterns cfg ps) = (spelled f).patterns ps) :
    Every.patterns (Node.Settled cfg) ps := by
  cases ps with
  | nil => trivial
  | cons p ps => exact ⟨settled_pattern (List.cons.inj h).1, settled_patterns (List.cons.inj h).2⟩

theorem settled_optPattern {p : Option Pattern}
    (h : (spelled f).optPattern (optPattern cfg p) = (spelled f).optPattern p) :
    Every.optPattern (Node.Settled cfg) p := by
  cases p with
  | none => trivial
  | some p => exact settled_pattern (Option.some.inj h)

theorem settled_patternEntries : ∀ {es : List PatternEntry},
    (spelled f).patternEntries (patternEntries cfg es) = (spelled f).patternEntries es →
    Every.patternEntries (Node.Settled cfg) es
  | [], _ => trivial
  | .mk _ _ :: _, h => by
    obtain ⟨hfirst, hrest⟩ := List.cons.inj h
    obtain ⟨hkey, hpattern⟩ := PatternEntry.mk.inj hfirst
    exact ⟨settled_expr hkey, settled_pattern hpattern, settled_patternEntries hrest⟩

theorem settled_patternKeywords : ∀ {ks : List PatternKeyword},
    (spelled f).patternKeywords (patternKeywords cfg ks) = (spelled f).patternKeywords ks →
    Every.patternKeywords (Node.Settled cfg) ks
  | [], _ => trivial
  | .mk _ _ :: _, h => by
    obtain ⟨hfirst, hrest⟩ := List.cons.inj h
    exact ⟨settled_pattern (PatternKeyword.mk.inj hfirst).2, settled_patternKeywords hrest⟩

end

theorem settled_withItems {ws : List WithItem}
    (h : (ws.map (withItem cfg)).map (spelled f).withItem = ws.map (spelled f).withItem) :
    Every.withItems (Node.Settled cfg) ws := by
  rw [List.map_map, List.map_inj_left] at h
  intro w hw
  obtain ⟨hcontext, htarget⟩ := WithItem.mk.inj (h w hw)
  exact ⟨settled_expr hcontext, settled_optExpr htarget⟩

theorem length_stmts (cfg : Config) (ss : List Stmt) : (stmts cfg ss).length = ss.length := by
  induction ss with
  | nil => rfl
  | cons s ss ih => rw [stmts, List.length_cons, ih, List.length_cons]

/-- A body without its first statement is shorter. -/
theorem body_eq_of_spelled {body : List Stmt}
    (h : (spelled f).stmts (if cfg.ignoreDocstrings && startsWithDocstring body then
      (stmts cfg body).drop 1 else stmts cfg body) = (spelled f).stmts body) :
    (cfg.ignoreDocstrings && startsWithDocstring body) = false ∧
      (spelled f).stmts (stmts cfg body) = (spelled f).stmts body := by
  split at h
  next hdoc =>
    have hlength := congrArg List.length h
    simp only [Outline.stmts_eq_map, List.length_map, List.length_drop, length_stmts] at hlength
    cases body with
    | nil => simp [startsWithDocstring] at hdoc
    | cons s body =>
      rw [List.length_cons] at hlength
      omega
  next hdoc => exact ⟨Bool.eq_false_iff.mpr hdoc, h⟩

mutual

theorem settled_stmt {s : Stmt} (h : (spelled f).stmt (stmt cfg s) = (spelled f).stmt s) :
    Every.stmt (Node.Settled cfg) s := by
  cases s with
  | function x isAsync id ps body decorators returns =>
    obtain ⟨-, -, -, hps, hbody, hdecorators, hreturns⟩ := Stmt.function.inj h
    obtain ⟨hdoc, hbody⟩ := body_eq_of_spelled hbody
    exact ⟨hdoc, settled_params hps, settled_stmts hbody, settled_exprs hdecorators,
      settled_optExpr (hint_eq_of_spelled hreturns)⟩
  | classDef x id bases kws body decorators =>
    obtain ⟨-, -, hbases, hkws, hbody, hdecorators⟩ := Stmt.classDef.inj h
    exact ⟨trivial, settled_exprs hbases, settled_keywords hkws, settled_stmts hbody,
      settled_exprs hdecorators⟩
  | ret x value => exact ⟨trivial, settled_optExpr (Stmt.ret.inj h).2⟩
  | delete x targets => exact ⟨trivial, settled_exprs (Stmt.delete.inj h).2⟩
  | assign x targets value =>
    obtain ⟨-, htargets, hvalue⟩ := Stmt.assign.inj h
    exact ⟨trivial, settled_exprs htargets, settled_expr hvalue⟩
  | augAssign x target op value => nomatch h
  | annAssign x target hint value simple =>
    obtain ⟨-, htarget, hhint, hvalue, -⟩ := Stmt.annAssign.inj h
    exact ⟨trivial, settled_expr htarget, settled_expr hhint, settled_optExpr hvalue⟩
  | forLoop x isAsync target iter body orelse =>
    obtain ⟨-, -, htarget, hiter, hbody, helse⟩ := Stmt.forLoop.inj h
    exact ⟨trivial, settled_expr htarget, settled_expr hiter, settled_stmts hbody,
      settled_stmts helse⟩
  | whileLoop x test body orelse =>
    obtain ⟨-, htest, hbody, helse⟩ := Stmt.whileLoop.inj h
    exact ⟨trivial, settled_expr htest, settled_stmts hbody, settled_stmts helse⟩
  | branch x test body orelse =>
    obtain ⟨-, htest, hbody, helse⟩ := Stmt.branch.inj h
    exact ⟨trivial, settled_expr htest, settled_stmts hbody, settled_stmts helse⟩
  | withBlock x isAsync items body =>
    obtain ⟨-, -, hitems, hbody⟩ := Stmt.withBlock.inj h
    exact ⟨trivial, settled_withItems hitems, settled_stmts hbody⟩
  | matchBlock x subject cs =>
    obtain ⟨-, hsubject, hcases⟩ := Stmt.matchBlock.inj h
    exact ⟨trivial, settled_expr hsubject, settled_cases hcases⟩
  | raise x exc cause =>
    obtain ⟨-, hexc, hcause⟩ := Stmt.raise.inj h
    exact ⟨trivial, settled_optExpr hexc, settled_optExpr hcause⟩
  | tryBlock x isStar body hs orelse finalbody =>
    obtain ⟨-, -, hbody, hhs, helse, hfinal⟩ := Stmt.tryBlock.inj h
    exact ⟨trivial, settled_stmts hbody, settled_handlers hhs, settled_stmts helse,
      settled_stmts hfinal⟩
  | assertion x test message =>
    obtain ⟨-, htest, hmessage⟩ := Stmt.assertion.inj h
    exact ⟨trivial, settled_expr htest, settled_optExpr hmessage⟩
  | importNames x names => exact ⟨trivial, trivial⟩
  | importFrom x module names level => exact ⟨trivial, trivial⟩
  | global x names => exact ⟨trivial, trivial⟩
  | «nonlocal» x names => exact ⟨trivial, trivial⟩
  | expr x value => exact ⟨trivial, settled_expr (Stmt.expr.inj h).2⟩
  | pass x => exact ⟨trivial, trivial⟩
  | breakLoop x => exact ⟨trivial, trivial⟩
  | continueLoop x => exact ⟨trivial, trivial⟩

theorem settled_stmts {ss : List Stmt}
    (h : (spelled f).stmts (stmts cfg ss) = (spelled f).stmts ss) :
    Every.stmts (Node.Settled cfg) ss := by
  cases ss with
  | nil => trivial
  | cons s ss => exact ⟨settled_stmt (List.cons.inj h).1, settled_stmts (List.cons.inj h).2⟩

theorem settled_handlers : ∀ {hs : List Handler},
    (spelled f).handlers (handlers cfg hs) = (spelled f).handlers hs →
    Every.handlers (Node.Settled cfg) hs
  | [], _ => trivial
  | .mk _ _ _ :: _, h => by
    obtain ⟨hfirst, hrest⟩ := List.cons.inj h
    obtain ⟨htype, -, hbody⟩ := Handler.mk.inj hfirst
    exact ⟨settled_optExpr htype, settled_stmts hbody, settled_handlers hrest⟩

theorem settled_cases : ∀ {cs : List MatchCase},
    (spelled f).cases (cases cfg cs) = (spelled f).cases cs → Every.cases (Node.Settled cfg) cs
  | [], _ => trivial
  | .mk _ _ _ :: _, h => by
    obtain ⟨hfirst, hrest⟩ := List.cons.inj h
    obtain ⟨hpattern, hguard, hbody⟩ := MatchCase.mk.inj hfirst
    exact ⟨settled_pattern hpattern, settled_optExpr hguard, settled_stmts hbody,
      settled_cases hrest⟩

end

end

end Normal

/-- Normalizing the normal form of a statement of a faultless source leaves its text as it is if and
only if in this normal form no function body starts with a text that is to be left out and no
operands are to change places. -/
theorem stmtText_stmt_iff {cfg : Normal.Config} {source : Text} {maxErrors d : Nat} {s : Stmt}
    (hok : (Parsed.ofSource source maxErrors).ok = true)
    (hs : ⟨d, .stmt s⟩ ∈ Walk.module (Parsed.ofSource source maxErrors).module) :
    Normal.stmtText cfg (Normal.stmt cfg s) = Normal.stmtText cfg s ↔
      Every.stmt (Node.Settled cfg) (Normal.stmt cfg s) := by
  have hlawful : Every.stmt Node.Lawful s := Every.node_of_mem_walk (Parsed.lawful_module hok) hs
  have hn := Normal.lawful_stmt cfg hlawful
  have hnn := Normal.lawful_stmt cfg hn
  constructor
  · intro h
    have hshown := Document.shown_eq_of_pruned_eq (Dump.readable_stmt hnn) (Dump.readable_stmt hn) h
    exact Normal.settled_stmt (Dump.stmt_eq Normal.keepsNames_pruned hnn hn hshown)
  · intro hsettled
    rw [Normal.stmtText, Normal.stmtText, Normal.stmt_stmt hsettled]

/-- A function with a docstring, an augmented assignment and a negated test is settled once it is
normal. -/
theorem stmtText_stmt_docstring :
    let m := (Parsed.ofSource
      (utf8 "def f(a):\n    'text'\n    a += 1 + 2\n    return not a in b\n") 64).module
    ∃ s, m.body = [s] ∧ Every.stmt (Node.Settled {}) (Normal.stmt {} s) := by
  intro m
  obtain ⟨s, hbody⟩ := List.length_eq_one_iff.mp (by decide +kernel : m.body.length = 1)
  have htext : ∀ s ∈ m.body,
      Normal.stmtText {} (Normal.stmt {} s) = Normal.stmtText {} s := by
    decide +kernel
  have hmem : ⟨1, .stmt s⟩ ∈ Walk.module m := by
    rw [Walk.module, hbody, Walk.stmts]
    cases s <;> simp [Walk.stmt]
  exact ⟨s, hbody, (stmtText_stmt_iff (by decide +kernel) hmem).mp (htext s (by simp [hbody]))⟩

/-- An ellipsis becomes a text, and is left out the second time. -/
theorem stmtText_stmt_ne_ellipsis :
    let p := Parsed.ofSource (utf8 "def f():\n    ...\n") 64
    p.ok = true ∧
      p.module.body.map (fun s => Normal.stmtText {} (Normal.stmt {} s)) ≠
        p.module.body.map (Normal.stmtText {}) := by
  decide +kernel

end CloneScout
