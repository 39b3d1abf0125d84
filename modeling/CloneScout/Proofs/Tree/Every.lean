import CloneScout.Tree.Walk

/-!
# Every node of a tree

A property of single nodes holds everywhere in a tree when it holds at the top and everywhere in the
parts. It then holds of every node that a walk through the tree enters, and everywhere below each of
these nodes too.
-/

namespace CloneScout

namespace Every

/-! ## Expressions -/

mutual

def expr (P : Node → Prop) (e : Expr) : Prop :=
  P (.expr e) ∧
    match e with
    | .error _ => True
    | .boolean _ _ values => exprs P values
    | .named _ target value => expr P target ∧ expr P value
    | .binary _ left _ right => expr P left ∧ expr P right
    | .unary _ _ operand => expr P operand
    | .lambda _ ps body => params P ps ∧ expr P body
    | .conditional _ test body orelse => expr P test ∧ expr P body ∧ expr P orelse
    | .dict _ es => entries P es
    | .set _ elts => exprs P elts
    | .listComp _ elt gens => expr P elt ∧ comprehensions P gens
    | .setComp _ elt gens => expr P elt ∧ comprehensions P gens
    | .dictComp _ key value gens => expr P key ∧ expr P value ∧ comprehensions P gens
    | .generator _ elt gens => expr P elt ∧ comprehensions P gens
    | .await _ value => expr P value
    | .yield _ value => optExpr P value
    | .yieldFrom _ value => expr P value
    | .compare _ left _ comparators => expr P left ∧ exprs P comparators
    | .call _ func args kws => expr P func ∧ exprs P args ∧ keywords P kws
    | .formatted _ value _ spec => expr P value ∧ optExpr P spec
    | .joined _ values => exprs P values
    | .constant _ _ => True
    | .attribute _ value _ _ => expr P value
    | .subscript _ value index _ => expr P value ∧ expr P index
    | .starred _ value _ => expr P value
    | .name _ _ _ => True
    | .list _ elts _ => exprs P elts
    | .tuple _ elts _ => exprs P elts
    | .slice _ lower upper step => optExpr P lower ∧ optExpr P upper ∧ optExpr P step

def exprs (P : Node → Prop) : List Expr → Prop
  | [] => True
  | e :: rest => expr P e ∧ exprs P rest

def optExpr (P : Node → Prop) : Option Expr → Prop
  | none => True
  | some e => expr P e

def entries (P : Node → Prop) : List Entry → Prop
  | [] => True
  | .pair key value :: rest => expr P key ∧ expr P value ∧ entries P rest
  | .unpack value :: rest => expr P value ∧ entries P rest

def keywords (P : Node → Prop) : List Keyword → Prop
  | [] => True
  | .mk _ value :: rest => expr P value ∧ keywords P rest

def comprehensions (P : Node → Prop) : List Comprehension → Prop
  | [] => True
  | .mk target iter conditions _ :: rest =>
    expr P target ∧ expr P iter ∧ exprs P conditions ∧ comprehensions P rest

def param (P : Node → Prop) : Param → Prop
  | .mk _ hint value => optExpr P hint ∧ optExpr P value

def optParam (P : Node → Prop) : Option Param → Prop
  | none => True
  | some p => param P p

def paramList (P : Node → Prop) : List Param → Prop
  | [] => True
  | p :: rest => param P p ∧ paramList P rest

def params (P : Node → Prop) : Params → Prop
  | .mk posOnly plain star kwOnly doubleStar =>
    paramList P posOnly ∧ paramList P plain ∧ optParam P star ∧ paramList P kwOnly ∧
      optParam P doubleStar

end

/-! ## Patterns and statements -/

mutual

def pattern (P : Node → Prop) (p : Pattern) : Prop :=
  P (.pattern p) ∧
    match p with
    | .error _ => True
    | .value _ value => expr P value
    | .singleton _ _ => True
    | .sequence _ ps => patterns P ps
    | .mapping _ entries _ => patternEntries P entries
    | .cls _ cls ps kws => expr P cls ∧ patterns P ps ∧ patternKeywords P kws
    | .star _ _ => True
    | .as _ p _ => optPattern P p
    | .or _ ps => patterns P ps

def patterns (P : Node → Prop) : List Pattern → Prop
  | [] => True
  | p :: rest => pattern P p ∧ patterns P rest

def optPattern (P : Node → Prop) : Option Pattern → Prop
  | none => True
  | some p => pattern P p

def patternEntries (P : Node → Prop) : List PatternEntry → Prop
  | [] => True
  | .mk key p :: rest => expr P key ∧ pattern P p ∧ patternEntries P rest

def patternKeywords (P : Node → Prop) : List PatternKeyword → Prop
  | [] => True
  | .mk _ p :: rest => pattern P p ∧ patternKeywords P rest

end

def withItems (P : Node → Prop) (items : List WithItem) : Prop :=
  ∀ w ∈ items, expr P w.context ∧ optExpr P w.target

mutual

def stmt (P : Node → Prop) (s : Stmt) : Prop :=
  P (.stmt s) ∧
    match s with
    | .function _ _ _ ps body decorators returns =>
      params P ps ∧ stmts P body ∧ exprs P decorators ∧ optExpr P returns
    | .classDef _ _ bases kws body decorators =>
      exprs P bases ∧ keywords P kws ∧ stmts P body ∧ exprs P decorators
    | .ret _ value => optExpr P value
    | .delete _ targets => exprs P targets
    | .assign _ targets value => exprs P targets ∧ expr P value
    | .augAssign _ target _ value => expr P target ∧ expr P value
    | .annAssign _ target hint value _ => expr P target ∧ expr P hint ∧ optExpr P value
    | .forLoop _ _ target iter body orelse =>
      expr P target ∧ expr P iter ∧ stmts P body ∧ stmts P orelse
    | .whileLoop _ test body orelse => expr P test ∧ stmts P body ∧ stmts P orelse
    | .branch _ test body orelse => expr P test ∧ stmts P body ∧ stmts P orelse
    | .withBlock _ _ items body => withItems P items ∧ stmts P body
    | .matchBlock _ subject cs => expr P subject ∧ cases P cs
    | .raise _ exc cause => optExpr P exc ∧ optExpr P cause
    | .tryBlock _ _ body hs orelse finalbody =>
      stmts P body ∧ handlers P hs ∧ stmts P orelse ∧ stmts P finalbody
    | .assertion _ test message => expr P test ∧ optExpr P message
    | .importNames _ _ => True
    | .importFrom _ _ _ _ => True
    | .global _ _ => True
    | .nonlocal _ _ => True
    | .expr _ value => expr P value
    | .pass _ => True
    | .breakLoop _ => True
    | .continueLoop _ => True

def stmts (P : Node → Prop) : List Stmt → Prop
  | [] => True
  | s :: rest => stmt P s ∧ stmts P rest

def handlers (P : Node → Prop) : List Handler → Prop
  | [] => True
  | .mk type _ body :: rest => optExpr P type ∧ stmts P body ∧ handlers P rest

def cases (P : Node → Prop) : List MatchCase → Prop
  | [] => True
  | .mk p guard body :: rest =>
    pattern P p ∧ optExpr P guard ∧ stmts P body ∧ cases P rest

end

def module (P : Node → Prop) (m : Module) : Prop := P (.module m) ∧ stmts P m.body

/-! ## Lists of parts -/

theorem exprs_iff {P : Node → Prop} {es : List Expr} : exprs P es ↔ ∀ e ∈ es, expr P e := by
  induction es with
  | nil => simp [exprs]
  | cons e es ih => simp [exprs, ih]

theorem stmts_iff {P : Node → Prop} {ss : List Stmt} : stmts P ss ↔ ∀ s ∈ ss, stmt P s := by
  induction ss with
  | nil => simp [stmts]
  | cons s ss ih => simp [stmts, ih]

theorem patterns_iff {P : Node → Prop} {ps : List Pattern} :
    patterns P ps ↔ ∀ p ∈ ps, pattern P p := by
  induction ps with
  | nil => simp [patterns]
  | cons p ps ih => simp [patterns, ih]

theorem paramList_iff {P : Node → Prop} {ps : List Param} :
    paramList P ps ↔ ∀ p ∈ ps, param P p := by
  induction ps with
  | nil => simp [paramList]
  | cons p ps ih => simp [paramList, ih]

theorem entries_iff {P : Node → Prop} {es : List Entry} :
    entries P es ↔ ∀ e ∈ es, entries P [e] := by
  induction es with
  | nil => simp [entries]
  | cons e es ih => cases e <;> simp [entries, ih, and_assoc]

theorem keywords_iff {P : Node → Prop} {ks : List Keyword} :
    keywords P ks ↔ ∀ k ∈ ks, keywords P [k] := by
  induction ks with
  | nil => simp [keywords]
  | cons k ks ih => cases k; simp [keywords, ih]

theorem comprehensions_iff {P : Node → Prop} {gs : List Comprehension} :
    comprehensions P gs ↔ ∀ g ∈ gs, comprehensions P [g] := by
  induction gs with
  | nil => simp [comprehensions]
  | cons g gs ih => cases g; simp [comprehensions, ih, and_assoc]

theorem patternEntries_iff {P : Node → Prop} {es : List PatternEntry} :
    patternEntries P es ↔ ∀ e ∈ es, patternEntries P [e] := by
  induction es with
  | nil => simp [patternEntries]
  | cons e es ih => cases e; simp [patternEntries, ih, and_assoc]

theorem patternKeywords_iff {P : Node → Prop} {ks : List PatternKeyword} :
    patternKeywords P ks ↔ ∀ k ∈ ks, patternKeywords P [k] := by
  induction ks with
  | nil => simp [patternKeywords]
  | cons k ks ih => cases k; simp [patternKeywords, ih]

theorem handlers_iff {P : Node → Prop} {hs : List Handler} :
    handlers P hs ↔ ∀ h ∈ hs, handlers P [h] := by
  induction hs with
  | nil => simp [handlers]
  | cons h hs ih => cases h; simp [handlers, ih, and_assoc]

theorem cases_iff {P : Node → Prop} {cs : List MatchCase} :
    cases P cs ↔ ∀ c ∈ cs, cases P [c] := by
  induction cs with
  | nil => simp [cases]
  | cons c cs ih => cases c; simp [cases, ih, and_assoc]

/-! ## Several properties -/

section

variable {P Q R : Node → Prop}

/-- Two properties of single nodes entail a third. -/
def Entails (P Q R : Node → Prop) : Prop := ∀ n, P n → Q n → R n

mutual

/-- What two properties entail holds everywhere where both do. -/
theorem expr_both (hn : Entails P Q R) {e : Expr} (hp : expr P e) (hq : expr Q e) : expr R e := by
  cases e <;> simp only [expr] at hp hq ⊢ <;>
    simp [hn _ hp.1 hq.1, hp, hq, expr_both hn, exprs_both hn, optExpr_both hn, entries_both hn,
      keywords_both hn, comprehensions_both hn, params_both hn]

theorem exprs_both (hn : Entails P Q R) {es : List Expr} (hp : exprs P es) (hq : exprs Q es) : exprs R es := by
  cases es with
  | nil => trivial
  | cons e es => exact ⟨expr_both hn hp.1 hq.1, exprs_both hn hp.2 hq.2⟩

theorem optExpr_both (hn : Entails P Q R) {e : Option Expr} (hp : optExpr P e)
    (hq : optExpr Q e) : optExpr R e := by
  cases e with
  | none => trivial
  | some e => exact expr_both hn (e := e) hp hq

theorem entries_both (hn : Entails P Q R) : ∀ {es : List Entry}, entries P es → entries Q es →
    entries R es
  | [], _, _ => trivial
  | .pair _ _ :: _, hp, hq =>
    ⟨expr_both hn hp.1 hq.1, expr_both hn hp.2.1 hq.2.1, entries_both hn hp.2.2 hq.2.2⟩
  | .unpack _ :: _, hp, hq => ⟨expr_both hn hp.1 hq.1, entries_both hn hp.2 hq.2⟩

theorem keywords_both (hn : Entails P Q R) : ∀ {ks : List Keyword}, keywords P ks →
    keywords Q ks → keywords R ks
  | [], _, _ => trivial
  | .mk _ _ :: _, hp, hq => ⟨expr_both hn hp.1 hq.1, keywords_both hn hp.2 hq.2⟩

theorem comprehensions_both (hn : Entails P Q R) : ∀ {gs : List Comprehension}, comprehensions P gs →
    comprehensions Q gs → comprehensions R gs
  | [], _, _ => trivial
  | .mk _ _ _ _ :: _, hp, hq =>
    ⟨expr_both hn hp.1 hq.1, expr_both hn hp.2.1 hq.2.1, exprs_both hn hp.2.2.1 hq.2.2.1,
      comprehensions_both hn hp.2.2.2 hq.2.2.2⟩

theorem param_both (hn : Entails P Q R) : ∀ {q : Param}, param P q → param Q q → param R q
  | .mk _ _ _, hp, hq => ⟨optExpr_both hn hp.1 hq.1, optExpr_both hn hp.2 hq.2⟩

theorem optParam_both (hn : Entails P Q R) {q : Option Param} (hp : optParam P q) (hq : optParam Q q) :
    optParam R q := by
  cases q with
  | none => trivial
  | some q => exact param_both hn (q := q) hp hq

theorem paramList_both (hn : Entails P Q R) {qs : List Param} (hp : paramList P qs) (hq : paramList Q qs) :
    paramList R qs := by
  cases qs with
  | nil => trivial
  | cons q qs => exact ⟨param_both hn hp.1 hq.1, paramList_both hn hp.2 hq.2⟩

theorem params_both (hn : Entails P Q R) : ∀ {ps : Params}, params P ps → params Q ps → params R ps
  | .mk _ _ _ _ _, hp, hq =>
    ⟨paramList_both hn hp.1 hq.1, paramList_both hn hp.2.1 hq.2.1, optParam_both hn hp.2.2.1 hq.2.2.1,
      paramList_both hn hp.2.2.2.1 hq.2.2.2.1, optParam_both hn hp.2.2.2.2 hq.2.2.2.2⟩

end

mutual

theorem pattern_both (hn : Entails P Q R) {p : Pattern} (hp : pattern P p) (hq : pattern Q p) : pattern R p := by
  cases p <;> simp only [pattern] at hp hq ⊢ <;>
    simp [hn _ hp.1 hq.1, hp, hq, expr_both hn, patterns_both hn, optPattern_both hn,
      patternEntries_both hn, patternKeywords_both hn]

theorem patterns_both (hn : Entails P Q R) {ps : List Pattern} (hp : patterns P ps) (hq : patterns Q ps) :
    patterns R ps := by
  cases ps with
  | nil => trivial
  | cons p ps => exact ⟨pattern_both hn hp.1 hq.1, patterns_both hn hp.2 hq.2⟩

theorem optPattern_both (hn : Entails P Q R) {p : Option Pattern} (hp : optPattern P p)
    (hq : optPattern Q p) : optPattern R p := by
  cases p with
  | none => trivial
  | some p => exact pattern_both hn (p := p) hp hq

theorem patternEntries_both (hn : Entails P Q R) : ∀ {es : List PatternEntry}, patternEntries P es →
    patternEntries Q es → patternEntries R es
  | [], _, _ => trivial
  | .mk _ _ :: _, hp, hq =>
    ⟨expr_both hn hp.1 hq.1, pattern_both hn hp.2.1 hq.2.1, patternEntries_both hn hp.2.2 hq.2.2⟩

theorem patternKeywords_both (hn : Entails P Q R) : ∀ {ks : List PatternKeyword}, patternKeywords P ks →
    patternKeywords Q ks → patternKeywords R ks
  | [], _, _ => trivial
  | .mk _ _ :: _, hp, hq => ⟨pattern_both hn hp.1 hq.1, patternKeywords_both hn hp.2 hq.2⟩

end

theorem withItems_both (hn : Entails P Q R) {ws : List WithItem} (hp : withItems P ws) (hq : withItems Q ws) :
    withItems R ws := fun w hw =>
  ⟨expr_both hn (hp w hw).1 (hq w hw).1, optExpr_both hn (hp w hw).2 (hq w hw).2⟩

mutual

theorem stmt_both (hn : Entails P Q R) {s : Stmt} (hp : stmt P s) (hq : stmt Q s) : stmt R s := by
  cases s <;> simp only [stmt] at hp hq ⊢ <;>
    simp [hn _ hp.1 hq.1, hp, hq, expr_both hn, exprs_both hn, optExpr_both hn, keywords_both hn,
      params_both hn, withItems_both hn, stmts_both hn, handlers_both hn, cases_both hn]

theorem stmts_both (hn : Entails P Q R) {ss : List Stmt} (hp : stmts P ss) (hq : stmts Q ss) : stmts R ss := by
  cases ss with
  | nil => trivial
  | cons s ss => exact ⟨stmt_both hn hp.1 hq.1, stmts_both hn hp.2 hq.2⟩

theorem handlers_both (hn : Entails P Q R) : ∀ {hs : List Handler}, handlers P hs →
    handlers Q hs → handlers R hs
  | [], _, _ => trivial
  | .mk _ _ _ :: _, hp, hq =>
    ⟨optExpr_both hn hp.1 hq.1, stmts_both hn hp.2.1 hq.2.1, handlers_both hn hp.2.2 hq.2.2⟩

theorem cases_both (hn : Entails P Q R) : ∀ {cs : List MatchCase}, cases P cs → cases Q cs → cases R cs
  | [], _, _ => trivial
  | .mk _ _ _ :: _, hp, hq =>
    ⟨pattern_both hn hp.1 hq.1, optExpr_both hn hp.2.1 hq.2.1, stmts_both hn hp.2.2.1 hq.2.2.1,
      cases_both hn hp.2.2.2 hq.2.2.2⟩

end

end

/-! ## Properties of all expressions and patterns -/

section

variable {P : Node → Prop}

mutual

/-- What holds of all expressions holds everywhere in an expression. -/
theorem expr_of_forall (he : ∀ e, P (.expr e)) (e : Expr) : expr P e := by
  cases e <;> simp [expr, he, expr_of_forall he, exprs_of_forall he, optExpr_of_forall he,
    entries_of_forall he, keywords_of_forall he, comprehensions_of_forall he, params_of_forall he]

theorem exprs_of_forall (he : ∀ e, P (.expr e)) (es : List Expr) : exprs P es := by
  cases es with
  | nil => trivial
  | cons e es => exact ⟨expr_of_forall he e, exprs_of_forall he es⟩

theorem optExpr_of_forall (he : ∀ e, P (.expr e)) (e : Option Expr) : optExpr P e := by
  cases e with
  | none => trivial
  | some e => exact expr_of_forall he e

theorem entries_of_forall (he : ∀ e, P (.expr e)) : ∀ es : List Entry, entries P es
  | [] => trivial
  | .pair key value :: rest =>
    ⟨expr_of_forall he key, expr_of_forall he value, entries_of_forall he rest⟩
  | .unpack value :: rest => ⟨expr_of_forall he value, entries_of_forall he rest⟩

theorem keywords_of_forall (he : ∀ e, P (.expr e)) : ∀ ks : List Keyword, keywords P ks
  | [] => trivial
  | .mk _ value :: rest => ⟨expr_of_forall he value, keywords_of_forall he rest⟩

theorem comprehensions_of_forall (he : ∀ e, P (.expr e)) :
    ∀ gs : List Comprehension, comprehensions P gs
  | [] => trivial
  | .mk target iter conditions _ :: rest =>
    ⟨expr_of_forall he target, expr_of_forall he iter, exprs_of_forall he conditions,
      comprehensions_of_forall he rest⟩

theorem param_of_forall (he : ∀ e, P (.expr e)) : ∀ p : Param, param P p
  | .mk _ hint value => ⟨optExpr_of_forall he hint, optExpr_of_forall he value⟩

theorem optParam_of_forall (he : ∀ e, P (.expr e)) (p : Option Param) : optParam P p := by
  cases p with
  | none => trivial
  | some p => exact param_of_forall he p

theorem paramList_of_forall (he : ∀ e, P (.expr e)) (ps : List Param) : paramList P ps := by
  cases ps with
  | nil => trivial
  | cons p ps => exact ⟨param_of_forall he p, paramList_of_forall he ps⟩

theorem params_of_forall (he : ∀ e, P (.expr e)) : ∀ ps : Params, params P ps
  | .mk posOnly plain star kwOnly doubleStar =>
    ⟨paramList_of_forall he posOnly, paramList_of_forall he plain, optParam_of_forall he star,
      paramList_of_forall he kwOnly, optParam_of_forall he doubleStar⟩

end

theorem withItems_of_forall (he : ∀ e, P (.expr e)) (items : List WithItem) :
    withItems P items := fun w _ =>
  ⟨expr_of_forall he w.context, optExpr_of_forall he w.target⟩

mutual

/-- What holds of all expressions and patterns holds everywhere in a pattern. -/
theorem pattern_of_forall (he : ∀ e, P (.expr e)) (hp : ∀ p, P (.pattern p))
    (p : Pattern) : pattern P p := by
  cases p <;> simp [pattern, hp, expr_of_forall he, patterns_of_forall he hp,
    optPattern_of_forall he hp, patternEntries_of_forall he hp, patternKeywords_of_forall he hp]

theorem patterns_of_forall (he : ∀ e, P (.expr e)) (hp : ∀ p, P (.pattern p))
    (ps : List Pattern) : patterns P ps := by
  cases ps with
  | nil => trivial
  | cons p ps => exact ⟨pattern_of_forall he hp p, patterns_of_forall he hp ps⟩

theorem optPattern_of_forall (he : ∀ e, P (.expr e)) (hp : ∀ p, P (.pattern p))
    (p : Option Pattern) : optPattern P p := by
  cases p with
  | none => trivial
  | some p => exact pattern_of_forall he hp p

theorem patternEntries_of_forall (he : ∀ e, P (.expr e)) (hp : ∀ p, P (.pattern p)) :
    ∀ es : List PatternEntry, patternEntries P es
  | [] => trivial
  | .mk key p :: rest =>
    ⟨expr_of_forall he key, pattern_of_forall he hp p, patternEntries_of_forall he hp rest⟩

theorem patternKeywords_of_forall (he : ∀ e, P (.expr e)) (hp : ∀ p, P (.pattern p)) :
    ∀ ks : List PatternKeyword, patternKeywords P ks
  | [] => trivial
  | .mk _ p :: rest => ⟨pattern_of_forall he hp p, patternKeywords_of_forall he hp rest⟩

end

end

/-! ## Walks -/

/-- The property holds at a node and everywhere below it. -/
def node (P : Node → Prop) : Node → Prop
  | .module m => module P m
  | .stmt s => stmt P s
  | .pattern p => pattern P p
  | .expr e => expr P e

/-- The property holds at every visited node and everywhere below it. -/
def visits (P : Node → Prop) (vs : List Visit) : Prop := ∀ v ∈ vs, node P v.node

@[simp]
theorem visits_nil (P : Node → Prop) : visits P [] := by simp [visits]

@[simp]
theorem visits_cons {P : Node → Prop} {v : Visit} {vs : List Visit} :
    visits P (v :: vs) ↔ node P v.node ∧ visits P vs := by
  simp [visits]

@[simp]
theorem visits_append {P : Node → Prop} {vs ws : List Visit} :
    visits P (vs ++ ws) ↔ visits P vs ∧ visits P ws := by
  simp [visits, or_imp, forall_and]

mutual

theorem visits_expr {P : Node → Prop} (d : Nat) {e : Expr} (h : expr P e) :
    visits P (Walk.expr d e) := by
  have htop : node P (.expr e) := h
  cases e <;> simp only [expr] at h <;> simp [Walk.expr, htop, h, visits_expr, visits_exprs, visits_optExpr,
    visits_keys, visits_values, visits_keywords, visits_comprehensions, visits_params]

theorem visits_exprs {P : Node → Prop} (d : Nat) {es : List Expr} (h : exprs P es) :
    visits P (Walk.exprs d es) := by
  cases es <;> simp only [exprs] at h <;> simp [Walk.exprs, h, visits_expr, visits_exprs]

theorem visits_optExpr {P : Node → Prop} (d : Nat) {e : Option Expr} (h : optExpr P e) :
    visits P (Walk.optExpr d e) := by
  cases e <;> simp only [optExpr] at h <;> simp [Walk.optExpr, h, visits_expr]

theorem visits_keys {P : Node → Prop} (d : Nat) :
    ∀ {es : List Entry}, entries P es → visits P (Walk.keys d es)
  | [], _ => by simp [Walk.keys]
  | .pair _ _ :: _, h => by
    simp only [entries] at h
    simp [Walk.keys, h, visits_expr, visits_keys]
  | .unpack _ :: _, h => by
    simp only [entries] at h
    simp [Walk.keys, h, visits_keys]

theorem visits_values {P : Node → Prop} (d : Nat) :
    ∀ {es : List Entry}, entries P es → visits P (Walk.values d es)
  | [], _ => by simp [Walk.values]
  | .pair _ _ :: _, h => by
    simp only [entries] at h
    simp [Walk.values, h, visits_expr, visits_values]
  | .unpack _ :: _, h => by
    simp only [entries] at h
    simp [Walk.values, h, visits_expr, visits_values]

theorem visits_keywords {P : Node → Prop} (d : Nat) :
    ∀ {ks : List Keyword}, keywords P ks → visits P (Walk.keywords d ks)
  | [], _ => by simp [Walk.keywords]
  | .mk _ _ :: _, h => by
    simp only [keywords] at h
    simp [Walk.keywords, h, visits_expr, visits_keywords]

theorem visits_comprehensions {P : Node → Prop} (d : Nat) :
    ∀ {gs : List Comprehension}, comprehensions P gs → visits P (Walk.comprehensions d gs)
  | [], _ => by simp [Walk.comprehensions]
  | .mk _ _ _ _ :: _, h => by
    simp only [comprehensions] at h
    simp [Walk.comprehensions, h, visits_expr, visits_exprs, visits_comprehensions]

theorem visits_hints {P : Node → Prop} (d : Nat) :
    ∀ {ps : List Param}, paramList P ps → visits P (Walk.hints d ps)
  | [], _ => by simp [Walk.hints]
  | .mk _ _ _ :: _, h => by
    simp only [paramList, param] at h
    simp [Walk.hints, h, visits_optExpr, visits_hints]

theorem visits_optHint {P : Node → Prop} (d : Nat) :
    ∀ {p : Option Param}, optParam P p → visits P (Walk.optHint d p)
  | none, _ => by simp [Walk.optHint]
  | some (.mk _ _ _), h => by
    simp only [optParam, param] at h
    simp [Walk.optHint, h, visits_optExpr]

theorem visits_defaults {P : Node → Prop} (d : Nat) :
    ∀ {ps : List Param}, paramList P ps → visits P (Walk.defaults d ps)
  | [], _ => by simp [Walk.defaults]
  | .mk _ _ _ :: _, h => by
    simp only [paramList, param] at h
    simp [Walk.defaults, h, visits_optExpr, visits_defaults]

theorem visits_params {P : Node → Prop} (d : Nat) :
    ∀ {ps : Params}, params P ps → visits P (Walk.params d ps)
  | .mk _ _ _ _ _, h => by
    simp only [params] at h
    simp [Walk.params, h, visits_hints, visits_optHint, visits_defaults]

end

mutual

theorem visits_pattern {P : Node → Prop} (d : Nat) {p : Pattern} (h : pattern P p) :
    visits P (Walk.pattern d p) := by
  have htop : node P (.pattern p) := h
  cases p <;> simp only [pattern] at h <;> simp [Walk.pattern, htop, h, visits_expr, visits_patterns,
    visits_optPattern, visits_patternKeys, visits_patternValues, visits_keywordPatterns]

theorem visits_patterns {P : Node → Prop} (d : Nat) {ps : List Pattern} (h : patterns P ps) :
    visits P (Walk.patterns d ps) := by
  cases ps <;> simp only [patterns] at h <;>
    simp [Walk.patterns, h, visits_pattern, visits_patterns]

theorem visits_optPattern {P : Node → Prop} (d : Nat) {p : Option Pattern} (h : optPattern P p) :
    visits P (Walk.optPattern d p) := by
  cases p <;> simp only [optPattern] at h <;> simp [Walk.optPattern, h, visits_pattern]

theorem visits_patternKeys {P : Node → Prop} (d : Nat) :
    ∀ {es : List PatternEntry}, patternEntries P es → visits P (Walk.patternKeys d es)
  | [], _ => by simp [Walk.patternKeys]
  | .mk _ _ :: _, h => by
    simp only [patternEntries] at h
    simp [Walk.patternKeys, h, visits_expr, visits_patternKeys]

theorem visits_patternValues {P : Node → Prop} (d : Nat) :
    ∀ {es : List PatternEntry}, patternEntries P es → visits P (Walk.patternValues d es)
  | [], _ => by simp [Walk.patternValues]
  | .mk _ _ :: _, h => by
    simp only [patternEntries] at h
    simp [Walk.patternValues, h, visits_pattern, visits_patternValues]

theorem visits_keywordPatterns {P : Node → Prop} (d : Nat) :
    ∀ {ks : List PatternKeyword}, patternKeywords P ks → visits P (Walk.keywordPatterns d ks)
  | [], _ => by simp [Walk.keywordPatterns]
  | .mk _ _ :: _, h => by
    simp only [patternKeywords] at h
    simp [Walk.keywordPatterns, h, visits_pattern, visits_keywordPatterns]

end

theorem visits_withItems {P : Node → Prop} (d : Nat) {items : List WithItem}
    (h : withItems P items) : visits P (items.flatMap (Walk.withItem d)) := by
  induction items with
  | nil => simp
  | cons w items ih =>
    simp only [withItems, List.mem_cons, forall_eq_or_imp] at h
    simp [Walk.withItem, visits_expr d h.1.1, visits_optExpr d h.1.2, ih h.2]

mutual

theorem visits_stmt {P : Node → Prop} (d : Nat) {s : Stmt} (h : stmt P s) :
    visits P (Walk.stmt d s) := by
  have htop : node P (.stmt s) := h
  cases s <;> simp only [stmt] at h <;> simp [Walk.stmt, htop, h, visits_expr, visits_exprs, visits_optExpr,
    visits_keywords, visits_params, visits_withItems, visits_stmts, visits_handlers, visits_cases]

theorem visits_stmts {P : Node → Prop} (d : Nat) {ss : List Stmt} (h : stmts P ss) :
    visits P (Walk.stmts d ss) := by
  cases ss <;> simp only [stmts] at h <;> simp [Walk.stmts, h, visits_stmt, visits_stmts]

theorem visits_handlers {P : Node → Prop} (d : Nat) :
    ∀ {hs : List Handler}, handlers P hs → visits P (Walk.handlers d hs)
  | [], _ => by simp [Walk.handlers]
  | .mk _ _ _ :: _, h => by
    simp only [handlers] at h
    simp [Walk.handlers, h, visits_optExpr, visits_stmts, visits_handlers]

theorem visits_cases {P : Node → Prop} (d : Nat) :
    ∀ {cs : List MatchCase}, cases P cs → visits P (Walk.cases d cs)
  | [], _ => by simp [Walk.cases]
  | .mk _ _ _ :: _, h => by
    simp only [cases] at h
    simp [Walk.cases, h, visits_pattern, visits_optExpr, visits_stmts, visits_cases]

end

/-- What holds everywhere in a module holds everywhere below each node of its walk. -/
theorem node_of_mem_walk {P : Node → Prop} {m : Module} {v : Visit} (h : module P m)
    (hv : v ∈ Walk.module m) : node P v.node := by
  rw [Walk.module, List.mem_cons] at hv
  rcases hv with rfl | hv
  · exact h
  · exact visits_stmts 1 h.2 v hv

end Every

end CloneScout
