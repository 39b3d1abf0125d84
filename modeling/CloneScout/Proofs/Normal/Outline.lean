import CloneScout.Proofs.Tree.Lawful
import CloneScout.Proofs.Tree.Outline

/-!
# Outlines and normal forms

An outline that hides only what a configuration declares irrelevant changes nothing in the normal
form but extents. So trees with the same outline have normal forms with the same text.
-/

namespace CloneScout

namespace Outline

open Normal (swaps)

/-! ## What normalization looks at -/

theorem stmts_eq_map (o : Outline) (ss : List Stmt) : o.stmts ss = ss.map o.stmt := by
  induction ss with
  | nil => rfl
  | cons s ss ih => rw [stmts, ih, List.map_cons]

theorem swap_plain (op : BinaryOp) (left right : Expr) : plain.swap op left right = false := rfl

/-- The outline leaves numbers and the order of operands alone. -/
structure KeepsNumbers (o : Outline) : Prop where
  constant (c : Constant) : o.constant c = c
  swap (op : BinaryOp) (left right : Expr) : o.swap op left right = false

theorem keepsNumbers_plain : plain.KeepsNumbers := ⟨fun _ => rfl, fun _ _ _ => rfl⟩

theorem KeepsNumbers.isNumeric {o : Outline} (h : o.KeepsNumbers) (op : BinaryOp) (p : Place)
    (e : Expr) : Normal.isNumeric op (o.expr p e) = Normal.isNumeric op e := by
  fun_induction Normal.isNumeric op e generalizing p with
  | case1 x c => rw [expr, Normal.isNumeric, h.constant]
  | case2 x left op' right ihl ihr => simp [expr, h.swap, Normal.isNumeric, ihl, ihr]
  | case3 e hconstant hbinary =>
    cases e <;> first | rfl | exact absurd rfl (hconstant _ _) | exact absurd rfl (hbinary _ _ _ _)

/-- Numeric expressions hold no names, so outlines that leave numbers alone agree on them. -/
theorem KeepsNumbers.expr_eq_plain {o : Outline} (h : o.KeepsNumbers) {op : BinaryOp} (p : Place)
    {e : Expr} (he : Normal.isNumeric op e = true) : o.expr p e = plain.expr p e := by
  fun_induction Normal.isNumeric op e generalizing p with
  | case1 x c => simp [expr, h.constant, plain]
  | case2 x left op' right ihl ihr =>
    simp only [Bool.and_eq_true] at he
    simp [expr, h.swap, swap_plain, ihl _ he.1.2, ihr _ he.2]
  | case3 e hconstant hbinary => simp at he

theorem isNumeric_plain (op : BinaryOp) (p : Place) (e : Expr) :
    Normal.isNumeric op (plain.expr p e) = Normal.isNumeric op e :=
  keepsNumbers_plain.isNumeric op p e

theorem stableExpr_plain (p : Place) (e : Expr) :
    Dump.stableExpr (plain.expr p e) = Dump.stableExpr e := by
  rw [Dump.stableExpr, Dump.exprText, dump_expr (silent_plain p)]
  rfl

theorem writtenBefore_plain (p : Place) (a b : Expr) :
    Normal.writtenBefore (plain.expr p a) (plain.expr p b) = Normal.writtenBefore a b := by
  have ha := stableExpr_plain p a
  have hb := stableExpr_plain p b
  cases a
  case binary => cases b <;> simp_all [expr, swap_plain, Normal.writtenBefore]
  case constant => cases b <;> simp_all [expr, swap_plain, Normal.writtenBefore]
  all_goals simp only [expr] at ha; simp [expr, Normal.writtenBefore, ha, hb]

theorem swaps_plain (op : BinaryOp) (p : Place) (left right : Expr) :
    swaps op (plain.expr p left) (plain.expr p right) = swaps op left right := by
  simp only [swaps, isNumeric_plain, writtenBefore_plain]

theorem KeepsNumbers.swaps {o : Outline} (h : o.KeepsNumbers) (op : BinaryOp) (p : Place)
    (left right : Expr) : swaps op (o.expr p left) (o.expr p right) = swaps op left right := by
  by_cases hnumeric : Normal.isNumeric op left = true ∧ Normal.isNumeric op right = true
  · rw [h.expr_eq_plain p hnumeric.1, h.expr_eq_plain p hnumeric.2, swaps_plain]
  · simp only [Bool.not_eq_true, not_and] at hnumeric
    simp only [Normal.swaps, h.isNumeric]
    cases hleft : Normal.isNumeric op left <;> simp [hleft, hnumeric]

theorem unary_plain (x : Extent) (op : UnaryOp) (p : Place) (operand : Expr) :
    plain.expr p (Normal.unary x op operand) =
      Normal.unary .blank op (plain.expr p.inner operand) := by
  fun_cases Normal.unary x op operand with
  | case1 x' left test comparators test' h => simp [expr, Normal.unary, h]
  | case2 x' left test comparators h => simp [expr, Normal.unary, h]
  | case3 =>
    rename_i hother
    rw [Normal.unary.eq_2]
    · rfl
    · intro x' left test comparators hop hoperand
      cases operand <;> simp [expr, swap_plain] at hoperand
      exact hother _ _ test _ hop (by rw [hoperand.2.2.1])

theorem binary_plain (x : Extent) (op : BinaryOp) (p : Place) (left right left' right' : Expr) :
    plain.expr p (Normal.binary x op left right left' right') =
      Normal.binary .blank op left right (plain.expr p.inner left') (plain.expr p.inner right') := by
  unfold Normal.binary
  split <;> simp [expr, swap_plain]

theorem load_plain (p : Place) (e : Expr) :
    plain.expr p (Normal.load e) = Normal.load (plain.expr p e) := by
  cases e <;> simp [Normal.load, expr, swap_plain]

theorem swaps_load_of_isSimple {op : BinaryOp} {target : Expr} (value : Expr)
    (h : Target.isSimple target = true) : swaps op (Normal.load target) value = false := by
  cases target <;> simp_all [Target.isSimple, Normal.load, swaps, Normal.isNumeric]

theorem isSimple_expr (o : Outline) (p : Place) {e : Expr} (h : Target.isSimple e = true) :
    Target.isSimple (o.expr p e) = true := by
  cases e <;> simp_all [Target.isSimple, expr]

/-! ## Outlines that a configuration does not tell apart -/

/-- The outline hides only what is irrelevant to the configuration. -/
structure Fits (o : Outline) (cfg : Normal.Config) : Prop where
  free {id : Text} (h : Normal.isMeta id = false) :
    Normal.name cfg false (o.name .free id) = Normal.name cfg false id
  kept {p : Place} (h : p ≠ .free) (id : Text) : o.name p id = id
  constant (c : Constant) : Normal.constant cfg (o.constant c) = Normal.constant cfg c
  text (c : Constant) : (∃ t m, o.constant c = .text t m) ↔ ∃ t m, c = .text t m
  hints : o.hints = true ∨ cfg.ignoreHints = true
  /-- Operands that change places do so in the normal form, and then not again. -/
  swap (op : BinaryOp) (p : Place) (left right : Expr) (h : o.swap op left right = true) :
    swaps op left right = true ∧ swaps op (o.expr p right) (o.expr p left) = false
  stay (op : BinaryOp) (p : Place) (left right : Expr) (h : o.swap op left right = false) :
    swaps op (o.expr p left) (o.expr p right) = swaps op left right

theorem fits_plain (cfg : Normal.Config) : plain.Fits cfg where
  free _ := rfl
  kept _ _ := rfl
  constant _ := rfl
  text _ := Iff.rfl
  hints := .inl rfl
  swap _ _ _ _ h := nomatch h
  stay op p left right _ := keepsNumbers_plain.swaps op p left right

end Outline

/-- The place of a name that is addressed by a call or not. -/
def Place.Suits (p : Place) (target : Bool) : Prop :=
  p = .shown ∨ p = if target then .callee else .free

namespace Outline

theorem inner_suits (p : Place) : p.inner.Suits false := by cases p <;> simp [Place.Suits, Place.inner]

theorem addressed_suits (p : Place) : p.addressed.Suits true := by
  cases p <;> simp [Place.Suits, Place.addressed]

theorem Fits.name {o : Outline} {cfg : Normal.Config} (hf : o.Fits cfg) {p : Place} {target : Bool}
    (hp : p.Suits target) {id : Text} (hid : id.IsWord) :
    Normal.name cfg target (o.name p id) = Normal.name cfg target id := by
  by_cases hfree : p = .free
  · subst hfree
    cases target
    · exact hf.free hid.isMeta_eq_false
    · simp [Place.Suits] at hp
  · rw [hf.kept hfree]

theorem Fits.binary {o : Outline} {cfg : Normal.Config} (hf : o.Fits cfg) (x : Extent)
    (op : BinaryOp) (p : Place) (target : Bool) (left right : Expr)
    (hl : Normal.expr cfg false (o.expr p.inner left) = plain.expr p.inner (Normal.expr cfg false left))
    (hr : Normal.expr cfg false (o.expr p.inner right) =
      plain.expr p.inner (Normal.expr cfg false right)) :
    Normal.expr cfg target (o.expr p (.binary x left op right)) =
      plain.expr p (Normal.expr cfg target (.binary x left op right)) := by
  rw [Normal.expr, binary_plain, expr]
  split
  next hswap =>
    obtain ⟨hnow, hthen⟩ := hf.swap op p.inner left right hswap
    rw [Normal.expr, hl, hr, Normal.binary, if_neg (by simp [hthen]), Normal.binary, if_pos hnow]
  next hswap =>
    have hstay := hf.stay op p.inner left right (by simpa using hswap)
    rw [Normal.expr, hl, hr, Normal.binary, hstay, Normal.binary]

theorem Fits.hint {o : Outline} {cfg : Normal.Config} (hf : o.Fits cfg) (p : Place)
    (hint : Option Expr)
    (h : Normal.optExpr cfg (o.optExpr p hint) = plain.optExpr p (Normal.optExpr cfg hint)) :
    (if cfg.ignoreHints then none
      else Normal.optExpr cfg (if o.hints then o.optExpr p hint else none)) =
      plain.optExpr p (if cfg.ignoreHints then none else Normal.optExpr cfg hint) := by
  rcases hf.hints with hshown | hignored
  · rw [if_pos hshown, h]
    split <;> rfl
  · rw [if_pos hignored, if_pos hignored]
    rfl

/-! ## Normal forms of outlines -/

mutual

theorem normal_expr {o : Outline} {cfg : Normal.Config} (hf : o.Fits cfg) {p : Place}
    {target : Bool} (hp : p.Suits target) {e : Expr} (h : Every.expr Node.Lawful e) :
    Normal.expr cfg target (o.expr p e) = plain.expr p (Normal.expr cfg target e) := by
  cases e
  case binary x left op right =>
    simp only [Every.expr] at h
    exact hf.binary x op p target left right (normal_expr hf (inner_suits p) h.2.1)
      (normal_expr hf (inner_suits p) h.2.2)
  case unary x op operand =>
    simp only [Every.expr] at h
    rw [Normal.expr, unary_plain, expr, Normal.expr, normal_expr hf (inner_suits p) h.2]
  case name x id ctx =>
    simp only [Every.expr, Node.Lawful] at h
    simp [expr, Normal.expr, hf.name hp h.1, plain]
  case constant x c => simp [expr, Normal.expr, hf.constant, plain]
  all_goals
    simp only [Every.expr] at h
    simp [expr, Normal.expr, h, hp, inner_suits, addressed_suits, normal_expr hf, normal_exprs hf,
      normal_optExpr hf, normal_entries hf, normal_keywords hf, normal_comprehensions hf,
      normal_params hf]

theorem normal_exprs {o : Outline} {cfg : Normal.Config} (hf : o.Fits cfg) {p : Place}
    (hp : p.Suits false) {es : List Expr} (h : Every.exprs Node.Lawful es) :
    Normal.exprs cfg (o.exprs p es) = plain.exprs p (Normal.exprs cfg es) := by
  cases es <;> simp only [Every.exprs] at h <;>
    simp [exprs, Normal.exprs, h, normal_expr hf hp, normal_exprs hf hp]

theorem normal_optExpr {o : Outline} {cfg : Normal.Config} (hf : o.Fits cfg) {p : Place}
    (hp : p.Suits false) {e : Option Expr} (h : Every.optExpr Node.Lawful e) :
    Normal.optExpr cfg (o.optExpr p e) = plain.optExpr p (Normal.optExpr cfg e) := by
  cases e <;> simp only [Every.optExpr] at h <;>
    simp [optExpr, Normal.optExpr, h, normal_expr hf hp]

theorem normal_entries {o : Outline} {cfg : Normal.Config} (hf : o.Fits cfg) {p : Place}
    (hp : p.Suits false) : ∀ {es : List Entry}, Every.entries Node.Lawful es →
      Normal.dictEntries cfg (o.entries p es) = plain.entries p (Normal.dictEntries cfg es)
  | [], _ => rfl
  | .pair _ _ :: _, h => by
    simp only [Every.entries] at h
    simp [entries, Normal.dictEntries, h, normal_expr hf hp, normal_entries hf hp]
  | .unpack _ :: _, h => by
    simp only [Every.entries] at h
    simp [entries, Normal.dictEntries, h, normal_expr hf hp, normal_entries hf hp]

theorem normal_keywords {o : Outline} {cfg : Normal.Config} (hf : o.Fits cfg) {p : Place}
    (hp : p.Suits false) : ∀ {ks : List Keyword}, Every.keywords Node.Lawful ks →
      Normal.keywords cfg (o.keywords p ks) = plain.keywords p (Normal.keywords cfg ks)
  | [], _ => rfl
  | .mk _ _ :: _, h => by
    simp only [Every.keywords] at h
    simp [keywords, Normal.keywords, h, normal_expr hf hp, normal_keywords hf hp]

theorem normal_comprehensions {o : Outline} {cfg : Normal.Config} (hf : o.Fits cfg) {p : Place}
    (hp : p.Suits false) : ∀ {gs : List Comprehension}, Every.comprehensions Node.Lawful gs →
      Normal.comprehensions cfg (o.comprehensions p gs) =
        plain.comprehensions p (Normal.comprehensions cfg gs)
  | [], _ => rfl
  | .mk _ _ _ _ :: _, h => by
    simp only [Every.comprehensions] at h
    simp [comprehensions, Normal.comprehensions, h, normal_expr hf hp, normal_exprs hf hp,
      normal_comprehensions hf hp]

theorem normal_param {o : Outline} {cfg : Normal.Config} (hf : o.Fits cfg) {p : Place}
    (hp : p.Suits false) : ∀ {q : Param}, Every.param Node.Lawful q →
      Normal.param cfg (o.param p q) = plain.param p (Normal.param cfg q)
  | .mk _ hint value, h => by
    simp only [Every.param] at h
    rw [param, Normal.param, Normal.param, param, hf.hint p hint (normal_optExpr hf hp h.1),
      normal_optExpr hf hp h.2]
    simp [plain]

theorem normal_optParam {o : Outline} {cfg : Normal.Config} (hf : o.Fits cfg) {p : Place}
    (hp : p.Suits false) {q : Option Param} (h : Every.optParam Node.Lawful q) :
    Normal.optParam cfg (o.optParam p q) = plain.optParam p (Normal.optParam cfg q) := by
  cases q <;> simp only [Every.optParam] at h <;>
    simp [optParam, Normal.optParam, h, normal_param hf hp]

theorem normal_paramList {o : Outline} {cfg : Normal.Config} (hf : o.Fits cfg) {p : Place}
    (hp : p.Suits false) {qs : List Param} (h : Every.paramList Node.Lawful qs) :
    Normal.paramList cfg (o.paramList p qs) = plain.paramList p (Normal.paramList cfg qs) := by
  cases qs <;> simp only [Every.paramList] at h <;>
    simp [paramList, Normal.paramList, h, normal_param hf hp, normal_paramList hf hp]

theorem normal_params {o : Outline} {cfg : Normal.Config} (hf : o.Fits cfg) {p : Place}
    (hp : p.Suits false) : ∀ {ps : Params}, Every.params Node.Lawful ps →
      Normal.params cfg (o.params p ps) = plain.params p (Normal.params cfg ps)
  | .mk _ _ _ _ _, h => by
    simp only [Every.params] at h
    simp [params, Normal.params, h, normal_paramList hf hp, normal_optParam hf hp]

end

mutual

theorem normal_pattern {o : Outline} {cfg : Normal.Config} (hf : o.Fits cfg) {p : Pattern}
    (h : Every.pattern Node.Lawful p) :
    Normal.pattern cfg (o.pattern p) = plain.pattern (Normal.pattern cfg p) := by
  have hshown : Place.shown.Suits false := .inl rfl
  cases p <;> simp only [Every.pattern] at h <;> simp [pattern, Normal.pattern, h,
    normal_expr hf hshown, normal_patterns hf, normal_optPattern hf, normal_patternEntries hf,
    normal_patternKeywords hf]

theorem normal_patterns {o : Outline} {cfg : Normal.Config} (hf : o.Fits cfg) {ps : List Pattern}
    (h : Every.patterns Node.Lawful ps) :
    Normal.patterns cfg (o.patterns ps) = plain.patterns (Normal.patterns cfg ps) := by
  cases ps <;> simp only [Every.patterns] at h <;>
    simp [patterns, Normal.patterns, h, normal_pattern hf, normal_patterns hf]

theorem normal_optPattern {o : Outline} {cfg : Normal.Config} (hf : o.Fits cfg)
    {p : Option Pattern} (h : Every.optPattern Node.Lawful p) :
    Normal.optPattern cfg (o.optPattern p) = plain.optPattern (Normal.optPattern cfg p) := by
  cases p <;> simp only [Every.optPattern] at h <;>
    simp [optPattern, Normal.optPattern, h, normal_pattern hf]

theorem normal_patternEntries {o : Outline} {cfg : Normal.Config} (hf : o.Fits cfg) :
    ∀ {es : List PatternEntry}, Every.patternEntries Node.Lawful es →
      Normal.patternEntries cfg (o.patternEntries es) =
        plain.patternEntries (Normal.patternEntries cfg es)
  | [], _ => rfl
  | .mk _ _ :: _, h => by
    have hshown : Place.shown.Suits false := .inl rfl
    simp only [Every.patternEntries] at h
    simp [patternEntries, Normal.patternEntries, h, normal_expr hf hshown, normal_pattern hf,
      normal_patternEntries hf]

theorem normal_patternKeywords {o : Outline} {cfg : Normal.Config} (hf : o.Fits cfg) :
    ∀ {ks : List PatternKeyword}, Every.patternKeywords Node.Lawful ks →
      Normal.patternKeywords cfg (o.patternKeywords ks) =
        plain.patternKeywords (Normal.patternKeywords cfg ks)
  | [], _ => rfl
  | .mk _ _ :: _, h => by
    simp only [Every.patternKeywords] at h
    simp [patternKeywords, Normal.patternKeywords, h, normal_pattern hf, normal_patternKeywords hf]

end

theorem free_suits : Place.free.Suits false := .inr rfl

theorem normal_withItems {o : Outline} {cfg : Normal.Config} (hf : o.Fits cfg)
    {items : List WithItem} (h : Every.withItems Node.Lawful items) :
    (items.map o.withItem).map (Normal.withItem cfg) =
      (items.map (Normal.withItem cfg)).map plain.withItem := by
  rw [List.map_map, List.map_map]
  apply List.map_congr_left
  intro w hw
  simp [withItem, Normal.withItem, normal_expr hf free_suits (h w hw).1,
    normal_optExpr hf free_suits (h w hw).2]

theorem startsWithDocstring_stmts {o : Outline} {cfg : Normal.Config} (hf : o.Fits cfg)
    (body : List Stmt) : startsWithDocstring (o.stmts body) = startsWithDocstring body := by
  rcases body with _ | ⟨s, rest⟩
  · rfl
  · cases s
    case expr x value =>
      cases value <;> simp [stmts, stmt, expr, startsWithDocstring]
      case binary x' left op right => by_cases hswap : o.swap op left right = true <;> simp [hswap]
      case constant x c =>
        have htext := hf.text c
        cases c <;> cases hc : o.constant _ <;> simp_all
    all_goals rfl

/-- The body of a function without its docstring is normalized like the whole body. -/
theorem normal_body {o : Outline} {cfg : Normal.Config} (hf : o.Fits cfg) {body : List Stmt}
    (h : Normal.stmts cfg (o.stmts body) = plain.stmts (Normal.stmts cfg body)) :
    (if cfg.ignoreDocstrings && startsWithDocstring (o.stmts body) then
        (Normal.stmts cfg (o.stmts body)).drop 1
      else Normal.stmts cfg (o.stmts body)) =
      plain.stmts (if cfg.ignoreDocstrings && startsWithDocstring body then
        (Normal.stmts cfg body).drop 1 else Normal.stmts cfg body) := by
  rw [startsWithDocstring_stmts hf, h]
  split
  · rw [stmts_eq_map, stmts_eq_map, List.map_drop]
  · rfl

mutual

theorem normal_stmt {o : Outline} {cfg : Normal.Config} (hf : o.Fits cfg) {s : Stmt}
    (h : Every.stmt Node.Lawful s) :
    Normal.stmt cfg (o.stmt s) = plain.stmt (Normal.stmt cfg s) := by
  cases s
  case function x isAsync id ps body decorators returns =>
    simp only [Every.stmt] at h
    rw [stmt, Normal.stmt, Normal.stmt, stmt, normal_body hf (normal_stmts hf h.2.2.1),
      hf.hint .free returns (normal_optExpr hf free_suits h.2.2.2.2),
      normal_params hf free_suits h.2.1, normal_exprs hf free_suits h.2.2.2.1]
    simp [plain]
  case augAssign x target op value =>
    simp only [Every.stmt, Node.Lawful] at h
    have hsimple := isSimple_expr o .free h.1
    simp [stmt, Normal.stmt, Normal.binary, swaps_load_of_isSimple _ h.1,
      swaps_load_of_isSimple _ hsimple, normal_expr hf free_suits h.2.1,
      normal_expr hf free_suits h.2.2, exprs, expr, swap_plain, load_plain, Place.inner]
  case withBlock x isAsync items body =>
    simp only [Every.stmt] at h
    rw [stmt, Normal.stmt, Normal.stmt, stmt, normal_withItems hf h.2.1, normal_stmts hf h.2.2]
  all_goals
    simp only [Every.stmt] at h
    simp [stmt, Normal.stmt, h, normal_expr hf free_suits, normal_exprs hf free_suits,
      normal_optExpr hf free_suits, normal_keywords hf free_suits, normal_stmts hf,
      normal_handlers hf, normal_cases hf]

theorem normal_stmts {o : Outline} {cfg : Normal.Config} (hf : o.Fits cfg) {ss : List Stmt}
    (h : Every.stmts Node.Lawful ss) :
    Normal.stmts cfg (o.stmts ss) = plain.stmts (Normal.stmts cfg ss) := by
  cases ss <;> simp only [Every.stmts] at h <;>
    simp [stmts, Normal.stmts, h, normal_stmt hf, normal_stmts hf]

theorem normal_handlers {o : Outline} {cfg : Normal.Config} (hf : o.Fits cfg) :
    ∀ {hs : List Handler}, Every.handlers Node.Lawful hs →
      Normal.handlers cfg (o.handlers hs) = plain.handlers (Normal.handlers cfg hs)
  | [], _ => rfl
  | .mk _ _ _ :: _, h => by
    have hshown : Place.shown.Suits false := .inl rfl
    simp only [Every.handlers] at h
    simp [handlers, Normal.handlers, h, normal_optExpr hf hshown, normal_stmts hf,
      normal_handlers hf]

theorem normal_cases {o : Outline} {cfg : Normal.Config} (hf : o.Fits cfg) :
    ∀ {cs : List MatchCase}, Every.cases Node.Lawful cs →
      Normal.cases cfg (o.cases cs) = plain.cases (Normal.cases cfg cs)
  | [], _ => rfl
  | .mk _ _ _ :: _, h => by
    simp only [Every.cases] at h
    simp [cases, Normal.cases, h, normal_pattern hf, normal_optExpr hf free_suits, normal_stmts hf,
      normal_cases hf]

end

/-! ## Texts of normal forms -/

theorem stmtText_outline {o : Outline} {cfg : Normal.Config} (hf : o.Fits cfg) {s : Stmt}
    (h : Every.stmt Node.Lawful s) : Normal.stmtText cfg (o.stmt s) = Normal.stmtText cfg s := by
  rw [Normal.stmtText, normal_stmt hf h, Dump.stableStmt, Dump.stmtText, 
    dump_stmt (silent_plain _) (silent_plain _)]
  rfl

theorem exprText_outline {o : Outline} {cfg : Normal.Config} (hf : o.Fits cfg) {e : Expr}
    (h : Every.expr Node.Lawful e) :
    Normal.exprText cfg (o.expr .free e) = Normal.exprText cfg e := by
  rw [Normal.exprText, normal_expr hf free_suits h, stableExpr_plain]
  rfl

end Outline

end CloneScout
