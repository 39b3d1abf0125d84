import CloneScout.Tree.Walk

/-!
# What calls are addressed to

A call is addressed to the attributes in front of its arguments and to the name at their bottom, if
there is one. A walk enters them directly after the call, so one pass over a walk tells which of its
nodes a call is addressed to.
-/

namespace CloneScout

/-- Attributes, the last one first, and the name that they are taken from, if it is a name. -/
structure Callee where
  attrs : List Text
  name : Option Text
  deriving DecidableEq, Repr

def Expr.chain : Expr → Callee
  | .attribute _ value attr _ => ⟨attr :: value.chain.attrs, value.chain.name⟩
  | .name _ id _ => ⟨[], some id⟩
  | _ => ⟨[], none⟩

/-- What the call is addressed to. -/
def Expr.callee? : Expr → Option Callee
  | .call _ func _ _ => some func.chain
  | _ => none

/-- A node, and whether a call is addressed to it. -/
structure Site where
  addressed : Bool
  node : Node

namespace Walk

/-- Whether a call is addressed to the node that a walk enters next: it goes from a call to what
this is addressed to, and from an attribute to what it is taken from. -/
@[simp]
def next (addressed : Bool) : Node → Bool
  | .expr (.call ..) => true
  | .expr (.attribute ..) => addressed
  | _ => false

/-- The nodes of a walk; `addressed` holds if a call is addressed to the first one. -/
def sites : (addressed : Bool) → List Visit → List Site
  | _, [] => []
  | a, v :: vs => ⟨a, v.node⟩ :: sites (next a v.node) vs

/-- Whether a call is addressed to the node behind the walk. -/
@[simp]
def after : (addressed : Bool) → List Visit → Bool
  | a, [] => a
  | a, v :: vs => after (next a v.node) vs

theorem sites_append (a : Bool) (vs ws : List Visit) :
    sites a (vs ++ ws) = sites a vs ++ sites (after a vs) ws := by
  induction vs generalizing a with
  | nil => rfl
  | cons v vs ih => rw [List.cons_append, sites, ih, sites, after, List.cons_append]

@[simp]
theorem after_append (a : Bool) (vs ws : List Visit) :
    after a (vs ++ ws) = after (after a vs) ws := by
  induction vs generalizing a with
  | nil => rfl
  | cons v vs ih => rw [List.cons_append, after, ih, after]

theorem node_sites (a : Bool) (vs : List Visit) :
    (sites a vs).map Site.node = vs.map Visit.node := by
  induction vs generalizing a with
  | nil => rfl
  | cons v vs ih => rw [sites, List.map_cons, ih, List.map_cons]

/-! ## Properties of visited nodes -/

/-- Every visited node has the property. -/
def All (Q : Node → Prop) (vs : List Visit) : Prop := ∀ v ∈ vs, Q v.node

/-- Every visited node has the property at its site. -/
def AtSites (P : Bool → Node → Prop) (a : Bool) (vs : List Visit) : Prop :=
  ∀ s ∈ sites a vs, P s.addressed s.node

section

variable {P : Bool → Node → Prop} {Q : Node → Prop}

@[simp]
theorem all_nil : All Q [] := by simp [All]

@[simp]
theorem all_cons {v : Visit} {vs : List Visit} : All Q (v :: vs) ↔ Q v.node ∧ All Q vs := by
  simp [All]

@[simp]
theorem all_append {vs ws : List Visit} : All Q (vs ++ ws) ↔ All Q vs ∧ All Q ws := by
  simp [All, or_imp, forall_and]

@[simp]
theorem atSites_nil (a : Bool) : AtSites P a [] := by simp [AtSites, sites]

@[simp]
theorem atSites_cons {a : Bool} {v : Visit} {vs : List Visit} :
    AtSites P a (v :: vs) ↔ P a v.node ∧ AtSites P (next a v.node) vs := by
  simp [AtSites, sites]

@[simp]
theorem atSites_append {a : Bool} {vs ws : List Visit} :
    AtSites P a (vs ++ ws) ↔ AtSites P a vs ∧ AtSites P (after a vs) ws := by
  simp [AtSites, sites_append, or_imp, forall_and]

end

/-! ## Depths do not matter -/

/-- The same node one step further down. -/
@[simp]
def deeper (v : Visit) : Visit := ⟨v.depth + 1, v.node⟩

@[simp]
theorem all_map_deeper {Q : Node → Prop} {vs : List Visit} :
    All Q (vs.map deeper) ↔ All Q vs := by
  simp [All]

mutual

theorem expr_succ (d : Nat) (e : Expr) : expr (d + 1) e = (expr d e).map deeper := by
  cases e <;> simp [expr, expr_succ, exprs_succ, optExpr_succ, keys_succ, values_succ,
    keywords_succ, comprehensions_succ, params_succ]

theorem exprs_succ (d : Nat) (es : List Expr) : exprs (d + 1) es = (exprs d es).map deeper := by
  cases es <;> simp [exprs, expr_succ, exprs_succ]

theorem optExpr_succ (d : Nat) (e : Option Expr) :
    optExpr (d + 1) e = (optExpr d e).map deeper := by
  cases e <;> simp [optExpr, expr_succ]

theorem keys_succ (d : Nat) : ∀ es : List Entry, keys (d + 1) es = (keys d es).map deeper
  | [] => rfl
  | .pair _ _ :: _ => by simp [keys, expr_succ, keys_succ]
  | .unpack _ :: _ => by simp [keys, keys_succ]

theorem values_succ (d : Nat) : ∀ es : List Entry, values (d + 1) es = (values d es).map deeper
  | [] => rfl
  | .pair _ _ :: _ => by simp [values, expr_succ, values_succ]
  | .unpack _ :: _ => by simp [values, expr_succ, values_succ]

theorem keywords_succ (d : Nat) :
    ∀ ks : List Keyword, keywords (d + 1) ks = (keywords d ks).map deeper
  | [] => rfl
  | .mk _ _ :: _ => by simp [keywords, expr_succ, keywords_succ]

theorem comprehensions_succ (d : Nat) :
    ∀ gs : List Comprehension, comprehensions (d + 1) gs = (comprehensions d gs).map deeper
  | [] => rfl
  | .mk _ _ _ _ :: _ => by simp [comprehensions, expr_succ, exprs_succ, comprehensions_succ]

theorem hints_succ (d : Nat) : ∀ ps : List Param, hints (d + 1) ps = (hints d ps).map deeper
  | [] => rfl
  | .mk _ _ _ :: _ => by simp [hints, optExpr_succ, hints_succ]

theorem optHint_succ (d : Nat) :
    ∀ p : Option Param, optHint (d + 1) p = (optHint d p).map deeper
  | none => rfl
  | some (.mk _ _ _) => by simp [optHint, optExpr_succ]

theorem defaults_succ (d : Nat) :
    ∀ ps : List Param, defaults (d + 1) ps = (defaults d ps).map deeper
  | [] => rfl
  | .mk _ _ _ :: _ => by simp [defaults, optExpr_succ, defaults_succ]

theorem params_succ (d : Nat) : ∀ ps : Params, params (d + 1) ps = (params d ps).map deeper
  | .mk _ _ _ _ _ => by simp [params, hints_succ, optHint_succ, defaults_succ]

end

mutual

theorem pattern_succ (d : Nat) (p : Pattern) : pattern (d + 1) p = (pattern d p).map deeper := by
  cases p <;> simp [pattern, expr_succ, patterns_succ, optPattern_succ, patternKeys_succ,
    patternValues_succ, keywordPatterns_succ]

theorem patterns_succ (d : Nat) (ps : List Pattern) :
    patterns (d + 1) ps = (patterns d ps).map deeper := by
  cases ps <;> simp [patterns, pattern_succ, patterns_succ]

theorem optPattern_succ (d : Nat) (p : Option Pattern) :
    optPattern (d + 1) p = (optPattern d p).map deeper := by
  cases p <;> simp [optPattern, pattern_succ]

theorem patternKeys_succ (d : Nat) :
    ∀ es : List PatternEntry, patternKeys (d + 1) es = (patternKeys d es).map deeper
  | [] => rfl
  | .mk _ _ :: _ => by simp [patternKeys, expr_succ, patternKeys_succ]

theorem patternValues_succ (d : Nat) :
    ∀ es : List PatternEntry, patternValues (d + 1) es = (patternValues d es).map deeper
  | [] => rfl
  | .mk _ _ :: _ => by simp [patternValues, pattern_succ, patternValues_succ]

theorem keywordPatterns_succ (d : Nat) :
    ∀ ks : List PatternKeyword, keywordPatterns (d + 1) ks = (keywordPatterns d ks).map deeper
  | [] => rfl
  | .mk _ _ :: _ => by simp [keywordPatterns, pattern_succ, keywordPatterns_succ]

end

theorem withItems_succ (d : Nat) (ws : List WithItem) :
    ws.flatMap (withItem (d + 1)) = (ws.flatMap (withItem d)).map deeper := by
  induction ws with
  | nil => rfl
  | cons w ws ih => simp [withItem, expr_succ, optExpr_succ, ih]

mutual

theorem stmt_succ (d : Nat) (s : Stmt) : stmt (d + 1) s = (stmt d s).map deeper := by
  cases s <;> simp [stmt, expr_succ, exprs_succ, optExpr_succ, keywords_succ, params_succ,
    withItems_succ, stmts_succ, handlers_succ, cases_succ]

theorem stmts_succ (d : Nat) (ss : List Stmt) : stmts (d + 1) ss = (stmts d ss).map deeper := by
  cases ss <;> simp [stmts, stmt_succ, stmts_succ]

theorem handlers_succ (d : Nat) :
    ∀ hs : List Handler, handlers (d + 1) hs = (handlers d hs).map deeper
  | [] => rfl
  | .mk _ _ _ :: _ => by simp [handlers, optExpr_succ, stmts_succ, handlers_succ]

theorem cases_succ (d : Nat) :
    ∀ cs : List MatchCase, cases (d + 1) cs = (cases d cs).map deeper
  | [] => rfl
  | .mk _ _ _ :: _ => by simp [cases, pattern_succ, optExpr_succ, stmts_succ, cases_succ]

end

/-! ## Behind a tree nothing is addressed -/

mutual

theorem after_expr (a : Bool) (d : Nat) (e : Expr) : after a (expr d e) = false := by
  cases e <;> simp [expr, after_expr, after_exprs, after_optExpr, after_keys, after_values,
    after_keywords, after_comprehensions, after_params]

theorem after_exprs (d : Nat) (es : List Expr) : after false (exprs d es) = false := by
  cases es <;> simp [exprs, after_expr, after_exprs]

theorem after_optExpr (d : Nat) (e : Option Expr) : after false (optExpr d e) = false := by
  cases e <;> simp [optExpr, after_expr]

theorem after_keys (d : Nat) : ∀ es : List Entry, after false (keys d es) = false
  | [] => rfl
  | .pair _ _ :: _ => by simp [keys, after_expr, after_keys]
  | .unpack _ :: _ => by simp [keys, after_keys]

theorem after_values (d : Nat) : ∀ es : List Entry, after false (values d es) = false
  | [] => rfl
  | .pair _ _ :: _ => by simp [values, after_expr, after_values]
  | .unpack _ :: _ => by simp [values, after_expr, after_values]

theorem after_keywords (d : Nat) : ∀ ks : List Keyword, after false (keywords d ks) = false
  | [] => rfl
  | .mk _ _ :: _ => by simp [keywords, after_expr, after_keywords]

theorem after_comprehensions (d : Nat) :
    ∀ gs : List Comprehension, after false (comprehensions d gs) = false
  | [] => rfl
  | .mk _ _ _ _ :: _ => by
    simp [comprehensions, after_expr, after_exprs, after_comprehensions]

theorem after_hints (d : Nat) : ∀ ps : List Param, after false (hints d ps) = false
  | [] => rfl
  | .mk _ _ _ :: _ => by simp [hints, after_optExpr, after_hints]

theorem after_optHint (d : Nat) : ∀ p : Option Param, after false (optHint d p) = false
  | none => rfl
  | some (.mk _ _ _) => by simp [optHint, after_optExpr]

theorem after_defaults (d : Nat) : ∀ ps : List Param, after false (defaults d ps) = false
  | [] => rfl
  | .mk _ _ _ :: _ => by simp [defaults, after_optExpr, after_defaults]

theorem after_params (d : Nat) : ∀ ps : Params, after false (params d ps) = false
  | .mk _ _ _ _ _ => by simp [params, after_hints, after_optHint, after_defaults]

end

mutual

theorem after_pattern (d : Nat) (p : Pattern) : after false (pattern d p) = false := by
  cases p <;> simp [pattern, after_expr, after_patterns, after_optPattern, after_patternKeys,
    after_patternValues, after_keywordPatterns]

theorem after_patterns (d : Nat) (ps : List Pattern) : after false (patterns d ps) = false := by
  cases ps <;> simp [patterns, after_pattern, after_patterns]

theorem after_optPattern (d : Nat) (p : Option Pattern) :
    after false (optPattern d p) = false := by
  cases p <;> simp [optPattern, after_pattern]

theorem after_patternKeys (d : Nat) :
    ∀ es : List PatternEntry, after false (patternKeys d es) = false
  | [] => rfl
  | .mk _ _ :: _ => by simp [patternKeys, after_expr, after_patternKeys]

theorem after_patternValues (d : Nat) :
    ∀ es : List PatternEntry, after false (patternValues d es) = false
  | [] => rfl
  | .mk _ _ :: _ => by simp [patternValues, after_pattern, after_patternValues]

theorem after_keywordPatterns (d : Nat) :
    ∀ ks : List PatternKeyword, after false (keywordPatterns d ks) = false
  | [] => rfl
  | .mk _ _ :: _ => by simp [keywordPatterns, after_pattern, after_keywordPatterns]

end

theorem after_withItems (d : Nat) (ws : List WithItem) :
    after false (ws.flatMap (withItem d)) = false := by
  induction ws with
  | nil => rfl
  | cons w ws ih => simp [withItem, after_expr, after_optExpr, ih]

mutual

theorem after_stmt (d : Nat) (s : Stmt) : after false (stmt d s) = false := by
  cases s <;> simp [stmt, after_expr, after_exprs, after_optExpr, after_keywords, after_params,
    after_withItems, after_stmts, after_handlers, after_cases]

theorem after_stmts (d : Nat) (ss : List Stmt) : after false (stmts d ss) = false := by
  cases ss <;> simp [stmts, after_stmt, after_stmts]

theorem after_handlers (d : Nat) : ∀ hs : List Handler, after false (handlers d hs) = false
  | [] => rfl
  | .mk _ _ _ :: _ => by simp [handlers, after_optExpr, after_stmts, after_handlers]

theorem after_cases (d : Nat) : ∀ cs : List MatchCase, after false (cases d cs) = false
  | [] => rfl
  | .mk _ _ _ :: _ => by simp [cases, after_pattern, after_optExpr, after_stmts, after_cases]

end

end Walk

end CloneScout
