import CloneScout.Normal.Basic
import CloneScout.Proofs.Tree.Callee

/-!
# Where the nodes of a normal form come from

Every node of a normal form is the normal form of a node of the tree, taken as what a call is
addressed to exactly if a call of the normal form is addressed to it. An augmented assignment counts
as the plain assignment that it stands for.
-/

namespace CloneScout.Normal

open Walk

/-- The normal form of a node; `target` holds for what a call is addressed to. -/
def node (cfg : Config) (target : Bool) : Node → Node
  | .module m => .module (module cfg m)
  | .stmt s => .stmt (stmt cfg s)
  | .pattern p => .pattern (pattern cfg p)
  | .expr e => .expr (expr cfg target e)

/-- The node is the normal form of one with the property. -/
def Origin (cfg : Config) (Q : Node → Prop) (target : Bool) (n : Node) : Prop :=
  ∃ m, Q m ∧ n = node cfg target m

/-- The property also holds of what an augmented assignment reads and computes. -/
structure Spelt (Q : Node → Prop) : Prop where
  load {e : Expr} : Q (.expr e) → Q (.expr (load e))
  sum {x : Extent} {target : Expr} {op : BinaryOp} {value : Expr} :
    Q (.stmt (.augAssign x target op value)) → Q (.expr (.binary x (Normal.load target) op value))

variable {cfg : Config} {Q : Node → Prop}

theorem Origin.expr {e : Expr} (h : Q (.expr e)) (target : Bool) :
    Origin cfg Q target (.expr (expr cfg target e)) := ⟨_, h, rfl⟩

theorem Origin.pattern {p : Pattern} (h : Q (.pattern p)) :
    Origin cfg Q false (.pattern (pattern cfg p)) := ⟨_, h, rfl⟩

theorem Origin.stmt {s : Stmt} (h : Q (.stmt s)) :
    Origin cfg Q false (.stmt (stmt cfg s)) := ⟨_, h, rfl⟩

/-! ## Single steps -/

/-- A binary operation stays one, whether or not its operands change places. -/
theorem of_binary {P : Expr → Prop} {x : Extent} {op : BinaryOp}
    {left right normalLeft normalRight : Expr} (h : ∀ a b, P (.binary x a op b)) :
    P (binary x op left right normalLeft normalRight) := by
  unfold binary
  split
  · exact h normalRight normalLeft
  · exact h normalLeft normalRight

/-- A unary operation stays one or becomes a single test. -/
theorem of_unary {P : Expr → Prop} {x : Extent} {op : UnaryOp} {operand : Expr}
    (hunary : P (.unary x op operand))
    (hcompare : ∀ left test comparators, P (.compare x left [test] comparators)) :
    P (unary x op operand) := by
  unfold unary
  split
  · split
    · exact hcompare _ _ _
    · exact hunary
  · exact hunary

theorem expr_load_eq (target : Bool) (e : Expr) :
    expr cfg target (load e) = load (expr cfg target e) := by
  cases e
  case binary => exact (of_binary (P := fun e => load e = e) fun _ _ => rfl).symm
  case unary => exact (of_unary (P := fun e => load e = e) rfl fun _ _ _ => rfl).symm
  all_goals rfl

theorem walk_load (d : Nat) (e : Expr) :
    Walk.expr d (load e) = ⟨d, .expr (load e)⟩ :: (Walk.expr d e).tail := by
  cases e <;> rfl

theorem next_load (a : Bool) (e : Expr) : next a (.expr (load e)) = next a (.expr e) := by
  cases e <;> rfl

theorem atSites_load {P : Bool → Node → Prop} {a : Bool} {d : Nat} {e : Expr}
    (h : AtSites P a (Walk.expr d e)) (hload : P a (.expr (load e))) :
    AtSites P a (Walk.expr d (load e)) := by
  have hwalk : Walk.expr d e = ⟨d, .expr e⟩ :: (Walk.expr d e).tail := by cases e <;> rfl
  rw [hwalk, atSites_cons] at h
  rw [walk_load, atSites_cons, next_load]
  exact ⟨hload, h.2⟩

/-- The operands of an operation are entered in either order. -/
theorem atSites_binary {P : Bool → Node → Prop} {a : Bool} {d : Nat} {x : Extent} {op : BinaryOp}
    {left right normalLeft normalRight : Expr}
    (htop : P a (.expr (binary x op left right normalLeft normalRight)))
    (hleft : AtSites P false (Walk.expr (d + 1) normalLeft))
    (hright : AtSites P false (Walk.expr (d + 1) normalRight)) :
    AtSites P a (Walk.expr d (binary x op left right normalLeft normalRight)) := by
  unfold binary at htop ⊢
  by_cases hswaps : swaps op left right = true
  · rw [if_pos hswaps] at htop ⊢
    simp [Walk.expr, after_expr, htop, hleft, hright]
  · rw [if_neg hswaps] at htop ⊢
    simp [Walk.expr, after_expr, htop, hleft, hright]

/-- A negation that goes into its test leaves the parts of the test where they are. -/
theorem atSites_unary {P : Bool → Node → Prop} {a : Bool} {d : Nat} {x : Extent} {op : UnaryOp}
    {operand : Expr} (htop : P a (.expr (unary x op operand)))
    (hoperand : ∀ d, AtSites P false (Walk.expr d operand)) :
    AtSites P a (Walk.expr d (unary x op operand)) := by
  unfold unary at htop ⊢
  split at htop
  · split at htop
    · have hparts := hoperand d
      simp only [Walk.expr, atSites_cons, next] at hparts ⊢
      exact ⟨htop, hparts.2⟩
    · simpa [Walk.expr, htop] using hoperand (d + 1)
  · simpa [Walk.expr, htop] using hoperand (d + 1)

/-- Annotations that are irrelevant leave nothing behind. -/
theorem atSites_hint {P : Bool → Node → Prop} {d : Nat} {hint : Option Expr}
    (h : AtSites P false (Walk.optExpr d hint)) :
    AtSites P false (Walk.optExpr d (if cfg.ignoreHints then none else hint)) := by
  split
  · exact atSites_nil false
  · exact h

/-- Without a docstring the statements behind it stay as they are. -/
theorem atSites_body {P : Bool → Node → Prop} {d : Nat} {ss : List Stmt} (skip : Bool)
    (h : AtSites P false (Walk.stmts d ss)) :
    AtSites P false (Walk.stmts d (if skip then ss.drop 1 else ss)) := by
  split
  · cases ss with
    | nil => exact h
    | cons s rest =>
      rw [Walk.stmts, atSites_append, after_stmt] at h
      exact h.2
  · exact h

/-! ## Expressions -/

mutual

theorem origin_expr (hq : Spelt Q) (target : Bool) (d : Nat) {e : Expr}
    (h : All Q (Walk.expr 0 e)) :
    AtSites (Origin cfg Q) target (Walk.expr d (expr cfg target e)) := by
  have htop : Origin cfg Q target (.expr (expr cfg target e)) := by
    cases e <;> exact .expr (all_cons.mp h).1 target
  cases e with
  | binary x left op right =>
    simp only [Walk.expr, expr_succ, all_cons, all_append, all_map_deeper] at h
    exact atSites_binary htop (origin_expr hq false _ h.2.1) (origin_expr hq false _ h.2.2)
  | unary x op operand =>
    simp only [Walk.expr, expr_succ, all_cons, all_map_deeper] at h
    -- the operand may end up one level higher than it was
    exact atSites_unary htop fun d => origin_expr hq false d h.2
  | _ =>
    simp only [Walk.expr, all_cons, all_append, expr_succ, exprs_succ, optExpr_succ, keys_succ,
      values_succ, keywords_succ, comprehensions_succ, params_succ, all_map_deeper] at h
    simp only [expr] at htop
    simp [expr, Walk.expr, htop, h, after_expr, after_exprs, after_optExpr, after_keys,
      after_params, origin_expr hq, origin_exprs hq, origin_optExpr hq, origin_keys hq,
      origin_values hq, origin_keywords hq, origin_comprehensions hq, origin_params hq]

theorem origin_exprs (hq : Spelt Q) (d : Nat) {es : List Expr} (h : All Q (Walk.exprs 0 es)) :
    AtSites (Origin cfg Q) false (Walk.exprs d (exprs cfg es)) := by
  cases es with
  | nil => exact atSites_nil false
  | cons e rest =>
    rw [Walk.exprs, all_append] at h
    rw [exprs, Walk.exprs, atSites_append, after_expr]
    exact ⟨origin_expr hq false d h.1, origin_exprs hq d h.2⟩

theorem origin_optExpr (hq : Spelt Q) (d : Nat) {e : Option Expr}
    (h : All Q (Walk.optExpr 0 e)) :
    AtSites (Origin cfg Q) false (Walk.optExpr d (optExpr cfg e)) := by
  cases e with
  | none => exact atSites_nil false
  | some e => exact origin_expr hq false d h

theorem origin_keys (hq : Spelt Q) (d : Nat) : ∀ {es : List Entry}, All Q (Walk.keys 0 es) →
    AtSites (Origin cfg Q) false (Walk.keys d (dictEntries cfg es))
  | [], _ => atSites_nil false
  | .pair key value :: rest, h => by
    rw [Walk.keys, all_append] at h
    rw [dictEntries, Walk.keys, atSites_append, after_expr]
    exact ⟨origin_expr hq false d h.1, origin_keys hq d h.2⟩
  | .unpack value :: rest, h => by
    rw [Walk.keys] at h
    rw [dictEntries, Walk.keys]
    exact origin_keys hq d h

theorem origin_values (hq : Spelt Q) (d : Nat) : ∀ {es : List Entry}, All Q (Walk.values 0 es) →
    AtSites (Origin cfg Q) false (Walk.values d (dictEntries cfg es))
  | [], _ => atSites_nil false
  | .pair key value :: rest, h => by
    rw [Walk.values, all_append] at h
    rw [dictEntries, Walk.values, atSites_append, after_expr]
    exact ⟨origin_expr hq false d h.1, origin_values hq d h.2⟩
  | .unpack value :: rest, h => by
    rw [Walk.values, all_append] at h
    rw [dictEntries, Walk.values, atSites_append, after_expr]
    exact ⟨origin_expr hq false d h.1, origin_values hq d h.2⟩

theorem origin_keywords (hq : Spelt Q) (d : Nat) : ∀ {ks : List Keyword},
    All Q (Walk.keywords 0 ks) → AtSites (Origin cfg Q) false (Walk.keywords d (keywords cfg ks))
  | [], _ => atSites_nil false
  | .mk arg value :: rest, h => by
    rw [Walk.keywords, all_append] at h
    rw [keywords, Walk.keywords, atSites_append, after_expr]
    exact ⟨origin_expr hq false d h.1, origin_keywords hq d h.2⟩

theorem origin_comprehensions (hq : Spelt Q) (d : Nat) : ∀ {gs : List Comprehension},
    All Q (Walk.comprehensions 0 gs) →
    AtSites (Origin cfg Q) false (Walk.comprehensions d (comprehensions cfg gs))
  | [], _ => atSites_nil false
  | .mk target iter conditions isAsync :: rest, h => by
    simp only [Walk.comprehensions, all_append] at h
    simp [comprehensions, Walk.comprehensions, after_expr, after_exprs, h, origin_expr hq,
      origin_exprs hq, origin_comprehensions hq]

theorem origin_hints (hq : Spelt Q) (d : Nat) : ∀ {ps : List Param}, All Q (Walk.hints 0 ps) →
    AtSites (Origin cfg Q) false (Walk.hints d (paramList cfg ps))
  | [], _ => atSites_nil false
  | .mk id hint value :: rest, h => by
    rw [Walk.hints, all_append] at h
    rw [paramList, param, Walk.hints, atSites_append, after_optExpr]
    exact ⟨atSites_hint (origin_optExpr hq d h.1), origin_hints hq d h.2⟩

theorem origin_optHint (hq : Spelt Q) (d : Nat) : ∀ {p : Option Param},
    All Q (Walk.optHint 0 p) → AtSites (Origin cfg Q) false (Walk.optHint d (optParam cfg p))
  | none, _ => atSites_nil false
  | some (.mk _ _ _), h => atSites_hint (origin_optExpr hq d h)

theorem origin_defaults (hq : Spelt Q) (d : Nat) : ∀ {ps : List Param},
    All Q (Walk.defaults 0 ps) → AtSites (Origin cfg Q) false (Walk.defaults d (paramList cfg ps))
  | [], _ => atSites_nil false
  | .mk id hint value :: rest, h => by
    rw [Walk.defaults, all_append] at h
    rw [paramList, param, Walk.defaults, atSites_append, after_optExpr]
    exact ⟨origin_optExpr hq d h.1, origin_defaults hq d h.2⟩

theorem origin_params (hq : Spelt Q) (d : Nat) : ∀ {ps : Params}, All Q (Walk.params 0 ps) →
    AtSites (Origin cfg Q) false (Walk.params d (params cfg ps))
  | .mk posOnly plain star kwOnly doubleStar, h => by
    simp only [Walk.params, all_append] at h
    simp [params, Walk.params, after_hints, after_optHint, after_defaults, h, origin_hints hq,
      origin_optHint hq, origin_defaults hq]

end

/-! ## Patterns -/

mutual

theorem origin_pattern (hq : Spelt Q) (d : Nat) {p : Pattern} (h : All Q (Walk.pattern 0 p)) :
    AtSites (Origin cfg Q) false (Walk.pattern d (pattern cfg p)) := by
  have htop : Origin cfg Q false (.pattern (pattern cfg p)) := by
    cases p <;> exact .pattern (all_cons.mp h).1
  cases p with
  | _ =>
    simp only [Walk.pattern, all_cons, all_append, expr_succ, patterns_succ, optPattern_succ,
      patternKeys_succ, patternValues_succ, keywordPatterns_succ, all_map_deeper] at h
    simp only [pattern] at htop
    simp [pattern, Walk.pattern, htop, h, after_expr, after_patterns, after_patternKeys,
      origin_expr hq, origin_patterns hq, origin_optPattern hq, origin_patternKeys hq,
      origin_patternValues hq, origin_keywordPatterns hq]

theorem origin_patterns (hq : Spelt Q) (d : Nat) {ps : List Pattern}
    (h : All Q (Walk.patterns 0 ps)) :
    AtSites (Origin cfg Q) false (Walk.patterns d (patterns cfg ps)) := by
  cases ps with
  | nil => exact atSites_nil false
  | cons p rest =>
    rw [Walk.patterns, all_append] at h
    rw [patterns, Walk.patterns, atSites_append, after_pattern]
    exact ⟨origin_pattern hq d h.1, origin_patterns hq d h.2⟩

theorem origin_optPattern (hq : Spelt Q) (d : Nat) {p : Option Pattern}
    (h : All Q (Walk.optPattern 0 p)) :
    AtSites (Origin cfg Q) false (Walk.optPattern d (optPattern cfg p)) := by
  cases p with
  | none => exact atSites_nil false
  | some p => exact origin_pattern hq d h

theorem origin_patternKeys (hq : Spelt Q) (d : Nat) : ∀ {es : List PatternEntry},
    All Q (Walk.patternKeys 0 es) →
    AtSites (Origin cfg Q) false (Walk.patternKeys d (patternEntries cfg es))
  | [], _ => atSites_nil false
  | .mk key p :: rest, h => by
    rw [Walk.patternKeys, all_append] at h
    rw [patternEntries, Walk.patternKeys, atSites_append, after_expr]
    exact ⟨origin_expr hq false d h.1, origin_patternKeys hq d h.2⟩

theorem origin_patternValues (hq : Spelt Q) (d : Nat) : ∀ {es : List PatternEntry},
    All Q (Walk.patternValues 0 es) →
    AtSites (Origin cfg Q) false (Walk.patternValues d (patternEntries cfg es))
  | [], _ => atSites_nil false
  | .mk key p :: rest, h => by
    rw [Walk.patternValues, all_append] at h
    rw [patternEntries, Walk.patternValues, atSites_append, after_pattern]
    exact ⟨origin_pattern hq d h.1, origin_patternValues hq d h.2⟩

theorem origin_keywordPatterns (hq : Spelt Q) (d : Nat) : ∀ {ks : List PatternKeyword},
    All Q (Walk.keywordPatterns 0 ks) →
    AtSites (Origin cfg Q) false (Walk.keywordPatterns d (patternKeywords cfg ks))
  | [], _ => atSites_nil false
  | .mk attr p :: rest, h => by
    rw [Walk.keywordPatterns, all_append] at h
    rw [patternKeywords, Walk.keywordPatterns, atSites_append, after_pattern]
    exact ⟨origin_pattern hq d h.1, origin_keywordPatterns hq d h.2⟩

end

/-! ## Statements -/

theorem origin_withItems (hq : Spelt Q) (d : Nat) {ws : List WithItem}
    (h : All Q (ws.flatMap (Walk.withItem 0))) :
    AtSites (Origin cfg Q) false ((ws.map (withItem cfg)).flatMap (Walk.withItem d)) := by
  induction ws with
  | nil => exact atSites_nil false
  | cons w ws ih =>
    simp only [List.flatMap_cons, Walk.withItem, all_append] at h
    simp [Walk.withItem, withItem, after_expr, after_optExpr, h.1, ih h.2, origin_expr hq,
      origin_optExpr hq]

mutual

theorem origin_stmt (hq : Spelt Q) (d : Nat) {s : Stmt} (h : All Q (Walk.stmt 0 s)) :
    AtSites (Origin cfg Q) false (Walk.stmt d (stmt cfg s)) := by
  have htop : Origin cfg Q false (.stmt (stmt cfg s)) := by
    cases s <;> exact .stmt (all_cons.mp h).1
  cases s with
  | function x isAsync id ps body decorators returns =>
    simp only [Walk.stmt, all_cons, all_append, params_succ, stmts_succ, exprs_succ, optExpr_succ,
      all_map_deeper] at h
    have hbody : AtSites (Origin cfg Q) false (Walk.stmts (d + 1) (stmts cfg body)) :=
      origin_stmts hq _ h.2.1.1.2
    rw [stmt] at htop ⊢
    simp only [Walk.stmt, atSites_cons, atSites_append, next, after_params, after_stmts,
      after_exprs, after_append]
    exact ⟨htop, ⟨⟨origin_params hq _ h.2.1.1.1, atSites_body _ hbody⟩, origin_exprs hq _ h.2.1.2⟩,
      atSites_hint (origin_optExpr hq _ h.2.2)⟩
  | augAssign x target op value =>
    have hstmt := (all_cons.mp h).1
    simp only [Walk.stmt, all_cons, all_append, expr_succ, all_map_deeper] at h
    have htarget : All Q (Walk.expr 0 target) := h.2.1
    have hnode : Q (.expr target) := by cases target <;> exact (all_cons.mp htarget).1
    -- the target is entered a second time for its value, and the operation is new
    have hload : Origin cfg Q false (.expr (load (expr cfg false target))) := by
      rw [← expr_load_eq]
      exact .expr (hq.load hnode) false
    have hsum : Origin cfg Q false (.expr (binary x op (load target) value
        (load (expr cfg false target)) (expr cfg false value))) := by
      rw [← expr_load_eq]
      exact .expr (hq.sum hstmt) false
    have hwritten : AtSites (Origin cfg Q) false (Walk.expr (d + 1) (expr cfg false target)) :=
      origin_expr hq false _ htarget
    rw [stmt] at htop ⊢
    simp only [Walk.stmt, Walk.exprs, atSites_cons, atSites_append, next, after_expr, after_append,
      atSites_nil, after, and_true]
    exact ⟨htop, hwritten, atSites_binary hsum (atSites_load (origin_expr hq false _ htarget) hload)
      (origin_expr hq false _ h.2.2)⟩
  | _ =>
    simp only [Walk.stmt, all_cons, all_append, expr_succ, exprs_succ, optExpr_succ,
      keywords_succ, withItems_succ, stmts_succ, handlers_succ, cases_succ, all_map_deeper] at h
    simp only [stmt] at htop
    simp [stmt, Walk.stmt, htop, h, after_expr, after_exprs, after_optExpr, after_keywords,
      after_withItems, after_stmts, after_handlers, origin_expr hq, origin_exprs hq,
      origin_optExpr hq, origin_keywords hq, origin_withItems hq, origin_stmts hq,
      origin_handlers hq, origin_cases hq]

theorem origin_stmts (hq : Spelt Q) (d : Nat) {ss : List Stmt} (h : All Q (Walk.stmts 0 ss)) :
    AtSites (Origin cfg Q) false (Walk.stmts d (stmts cfg ss)) := by
  cases ss with
  | nil => exact atSites_nil false
  | cons s rest =>
    rw [Walk.stmts, all_append] at h
    rw [stmts, Walk.stmts, atSites_append, after_stmt]
    exact ⟨origin_stmt hq d h.1, origin_stmts hq d h.2⟩

theorem origin_handlers (hq : Spelt Q) (d : Nat) : ∀ {hs : List Handler},
    All Q (Walk.handlers 0 hs) → AtSites (Origin cfg Q) false (Walk.handlers d (handlers cfg hs))
  | [], _ => atSites_nil false
  | .mk type id body :: rest, h => by
    simp only [Walk.handlers, all_append] at h
    simp [handlers, Walk.handlers, after_optExpr, after_stmts, h, origin_optExpr hq,
      origin_stmts hq, origin_handlers hq]

theorem origin_cases (hq : Spelt Q) (d : Nat) : ∀ {cs : List MatchCase},
    All Q (Walk.cases 0 cs) → AtSites (Origin cfg Q) false (Walk.cases d (cases cfg cs))
  | [], _ => atSites_nil false
  | .mk p guard body :: rest, h => by
    simp only [Walk.cases, all_append] at h
    simp [cases, Walk.cases, after_pattern, after_optExpr, after_stmts, h, origin_pattern hq,
      origin_optExpr hq, origin_stmts hq, origin_cases hq]

end

end CloneScout.Normal
