import CloneScout.Grammar.Target
import CloneScout.Proofs.Tree.Every
import CloneScout.Tree.Dump
import CloneScout.Tree.Function

/-!
# Well-formed trees

A tree is well formed when it has no gap where something could not be read, when every node that
records its use records the use of its place, and when lists that belong together have matching
lengths. The use of a place is passed down: the targets of bindings are stored to, those of `del` are
deleted, a tuple, a list or a star hands its own use on to its parts, and everything else is loaded.
-/

namespace CloneScout.WellFormed

/-! ## Expressions -/

mutual

/-- The expression is well formed in a place of the given use. -/
def expr (use : Context) : Expr → Prop
  | .error _ => False
  | .boolean _ _ values => use = .load ∧ 2 ≤ values.length ∧ exprs .load values
  | .named _ target value => use = .load ∧ expr .store target ∧ expr .load value
  | .binary _ left _ right => use = .load ∧ expr .load left ∧ expr .load right
  | .unary _ _ operand => use = .load ∧ expr .load operand
  | .lambda _ ps body => use = .load ∧ params ps ∧ expr .load body
  | .conditional _ test body orelse =>
    use = .load ∧ expr .load test ∧ expr .load body ∧ expr .load orelse
  | .dict _ es =>
    use = .load ∧ (Dump.keys es).length = (Dump.values es).length ∧ entries es
  | .set _ elts => use = .load ∧ exprs .load elts
  | .listComp _ elt gens => use = .load ∧ expr .load elt ∧ comprehensions gens
  | .setComp _ elt gens => use = .load ∧ expr .load elt ∧ comprehensions gens
  | .dictComp _ key value gens =>
    use = .load ∧ expr .load key ∧ expr .load value ∧ comprehensions gens
  | .generator _ elt gens => use = .load ∧ expr .load elt ∧ comprehensions gens
  | .await _ value => use = .load ∧ expr .load value
  | .yield _ value => use = .load ∧ optExpr .load value
  | .yieldFrom _ value => use = .load ∧ expr .load value
  | .compare _ left ops comparators =>
    use = .load ∧ ops.length = comparators.length ∧ 1 ≤ ops.length ∧ expr .load left ∧
      exprs .load comparators
  | .call _ func args kws => use = .load ∧ expr .load func ∧ exprs .load args ∧ keywords kws
  | .formatted _ value _ spec => use = .load ∧ expr .load value ∧ optExpr .load spec
  | .joined _ values => use = .load ∧ exprs .load values
  | .constant _ _ => use = .load
  | .attribute _ value _ ctx => ctx = use ∧ expr .load value
  | .subscript _ value index ctx => ctx = use ∧ expr .load value ∧ expr .load index
  | .starred _ value ctx => ctx = use ∧ expr use value
  | .name _ _ ctx => ctx = use
  | .list _ elts ctx => ctx = use ∧ exprs use elts
  | .tuple _ elts ctx => ctx = use ∧ exprs use elts
  | .slice _ lower upper step =>
    use = .load ∧ optExpr .load lower ∧ optExpr .load upper ∧ optExpr .load step

def exprs (use : Context) : List Expr → Prop
  | [] => True
  | e :: rest => expr use e ∧ exprs use rest

def optExpr (use : Context) : Option Expr → Prop
  | none => True
  | some e => expr use e

def entries : List Entry → Prop
  | [] => True
  | .pair key value :: rest => expr .load key ∧ expr .load value ∧ entries rest
  | .unpack value :: rest => expr .load value ∧ entries rest

def keywords : List Keyword → Prop
  | [] => True
  | .mk _ value :: rest => expr .load value ∧ keywords rest

def comprehensions : List Comprehension → Prop
  | [] => True
  | .mk target iter conditions _ :: rest =>
    expr .store target ∧ expr .load iter ∧ exprs .load conditions ∧ comprehensions rest

def param : Param → Prop
  | .mk _ hint value => optExpr .load hint ∧ optExpr .load value

def optParam : Option Param → Prop
  | none => True
  | some p => param p

def paramList : List Param → Prop
  | [] => True
  | p :: rest => param p ∧ paramList rest

def params : Params → Prop
  | .mk posOnly plain star kwOnly doubleStar =>
    (Dump.kwDefaults kwOnly).length = kwOnly.length ∧
      (Dump.defaults posOnly ++ Dump.defaults plain).length ≤ posOnly.length + plain.length ∧
      paramList posOnly ∧ paramList plain ∧ optParam star ∧ paramList kwOnly ∧ optParam doubleStar

end

/-! ## Patterns and statements -/

mutual

def pattern : Pattern → Prop
  | .error _ => False
  | .value _ value => expr .load value
  | .singleton _ _ => True
  | .sequence _ ps => patterns ps
  | .mapping _ es _ =>
    (Dump.patternKeys es).length = (Dump.patternValues es).length ∧ patternEntries es
  | .cls _ cls ps kws =>
    (Dump.patternAttrs kws).length = (Dump.keywordPatterns kws).length ∧ expr .load cls ∧
      patterns ps ∧ patternKeywords kws
  | .star _ _ => True
  | .as _ p _ => optPattern p
  | .or _ ps => patterns ps

def patterns : List Pattern → Prop
  | [] => True
  | p :: rest => pattern p ∧ patterns rest

def optPattern : Option Pattern → Prop
  | none => True
  | some p => pattern p

def patternEntries : List PatternEntry → Prop
  | [] => True
  | .mk key p :: rest => expr .load key ∧ pattern p ∧ patternEntries rest

def patternKeywords : List PatternKeyword → Prop
  | [] => True
  | .mk _ p :: rest => pattern p ∧ patternKeywords rest

end

def withItem (w : WithItem) : Prop := expr .load w.context ∧ optExpr .store w.target

mutual

def stmt : Stmt → Prop
  | .function _ _ _ ps body decorators returns =>
    params ps ∧ stmts body ∧ exprs .load decorators ∧ optExpr .load returns
  | .classDef _ _ bases kws body decorators =>
    exprs .load bases ∧ keywords kws ∧ stmts body ∧ exprs .load decorators
  | .ret _ value => optExpr .load value
  | .delete _ targets => exprs .delete targets
  | .assign _ targets value => exprs .store targets ∧ expr .load value
  | .augAssign _ target _ value => expr .store target ∧ expr .load value
  | .annAssign _ target hint value _ =>
    expr .store target ∧ expr .load hint ∧ optExpr .load value
  | .forLoop _ _ target iter body orelse =>
    expr .store target ∧ expr .load iter ∧ stmts body ∧ stmts orelse
  | .whileLoop _ test body orelse => expr .load test ∧ stmts body ∧ stmts orelse
  | .branch _ test body orelse => expr .load test ∧ stmts body ∧ stmts orelse
  | .withBlock _ _ items body => (∀ w ∈ items, withItem w) ∧ stmts body
  | .matchBlock _ subject cs => expr .load subject ∧ cases cs
  | .raise _ exc cause => optExpr .load exc ∧ optExpr .load cause
  | .tryBlock _ _ body hs orelse finalbody =>
    stmts body ∧ handlers hs ∧ stmts orelse ∧ stmts finalbody
  | .assertion _ test message => expr .load test ∧ optExpr .load message
  | .importNames _ _ => True
  | .importFrom _ _ _ _ => True
  | .global _ _ => True
  | .nonlocal _ _ => True
  | .expr _ value => expr .load value
  | .pass _ => True
  | .breakLoop _ => True
  | .continueLoop _ => True

def stmts : List Stmt → Prop
  | [] => True
  | s :: rest => stmt s ∧ stmts rest

def handlers : List Handler → Prop
  | [] => True
  | .mk type _ body :: rest => optExpr .load type ∧ stmts body ∧ handlers rest

def cases : List MatchCase → Prop
  | [] => True
  | .mk p guard body :: rest => pattern p ∧ optExpr .load guard ∧ stmts body ∧ cases rest

end

/-- Every node of the module is well formed in its place. -/
structure Tree (m : Module) : Prop where
  body : stmts m.body

/-! ## Lists of parts -/

theorem exprs_iff {use : Context} {es : List Expr} : exprs use es ↔ ∀ e ∈ es, expr use e := by
  induction es with
  | nil => simp [exprs]
  | cons e es ih => simp [exprs, ih]

theorem stmts_iff {ss : List Stmt} : stmts ss ↔ ∀ s ∈ ss, stmt s := by
  induction ss with
  | nil => simp [stmts]
  | cons s ss ih => simp [stmts, ih]

theorem patterns_iff {ps : List Pattern} : patterns ps ↔ ∀ p ∈ ps, pattern p := by
  induction ps with
  | nil => simp [patterns]
  | cons p ps ih => simp [patterns, ih]

theorem paramList_iff {ps : List Param} : paramList ps ↔ ∀ p ∈ ps, param p := by
  induction ps with
  | nil => simp [paramList]
  | cons p ps ih => simp [paramList, ih]

theorem entries_iff {es : List Entry} : entries es ↔ ∀ e ∈ es, entries [e] := by
  induction es with
  | nil => simp [entries]
  | cons e es ih => cases e <;> simp [entries, ih, and_assoc]

theorem keywords_iff {ks : List Keyword} : keywords ks ↔ ∀ k ∈ ks, keywords [k] := by
  induction ks with
  | nil => simp [keywords]
  | cons k ks ih => cases k; simp [keywords, ih]

theorem comprehensions_iff {gs : List Comprehension} :
    comprehensions gs ↔ ∀ g ∈ gs, comprehensions [g] := by
  induction gs with
  | nil => simp [comprehensions]
  | cons g gs ih => cases g; simp [comprehensions, ih, and_assoc]

theorem patternEntries_iff {es : List PatternEntry} :
    patternEntries es ↔ ∀ e ∈ es, patternEntries [e] := by
  induction es with
  | nil => simp [patternEntries]
  | cons e es ih => cases e; simp [patternEntries, ih, and_assoc]

theorem patternKeywords_iff {ks : List PatternKeyword} :
    patternKeywords ks ↔ ∀ k ∈ ks, patternKeywords [k] := by
  induction ks with
  | nil => simp [patternKeywords]
  | cons k ks ih => cases k; simp [patternKeywords, ih]

theorem handlers_iff {hs : List Handler} : handlers hs ↔ ∀ h ∈ hs, handlers [h] := by
  induction hs with
  | nil => simp [handlers]
  | cons h hs ih => cases h; simp [handlers, ih, and_assoc]

theorem cases_iff {cs : List MatchCase} : cases cs ↔ ∀ c ∈ cs, cases [c] := by
  induction cs with
  | nil => simp [cases]
  | cons c cs ih => cases c; simp [cases, ih, and_assoc]

/-! ## Lengths -/

theorem length_keys (es : List Entry) : (Dump.keys es).length = (Dump.values es).length := by
  induction es with
  | nil => rfl
  | cons e es ih => cases e <;> simp [Dump.keys, Dump.values, ih]

theorem length_patternKeys (es : List PatternEntry) :
    (Dump.patternKeys es).length = (Dump.patternValues es).length := by
  induction es with
  | nil => rfl
  | cons e es ih => cases e; simp [Dump.patternKeys, Dump.patternValues, ih]

theorem length_patternAttrs (ks : List PatternKeyword) :
    (Dump.patternAttrs ks).length = (Dump.keywordPatterns ks).length := by
  induction ks with
  | nil => rfl
  | cons k ks ih => cases k; simp [Dump.patternAttrs, Dump.keywordPatterns, ih]

theorem length_kwDefaults (ps : List Param) : (Dump.kwDefaults ps).length = ps.length := by
  induction ps with
  | nil => rfl
  | cons p ps ih =>
    obtain ⟨id, hint, value⟩ := p
    cases value <;> simp [Dump.kwDefaults, ih]

theorem length_defaults_le (ps : List Param) : (Dump.defaults ps).length ≤ ps.length := by
  induction ps with
  | nil => exact Nat.le_refl 0
  | cons p ps ih =>
    obtain ⟨id, hint, value⟩ := p
    cases value <;> simp [Dump.defaults] <;> omega

/-! ## Targets -/

mutual

/-- What can be a target is well formed as a target once it is marked. -/
theorem expr_mark {use : Context} {e : Expr} (h : expr .load e)
    (hfault : Target.fault? use e = none) : expr use (Target.mark use e) := by
  cases e with
  | starred x value ctx =>
    simp only [Target.fault?] at hfault
    split at hfault
    · simp at hfault
    next hdelete =>
      rw [Target.mark, if_neg hdelete]
      exact ⟨rfl, expr_mark h.2 hfault⟩
  | tuple x elts ctx => exact ⟨rfl, exprs_markAll h.2 hfault⟩
  | list x elts ctx => exact ⟨rfl, exprs_markAll h.2 hfault⟩
  | name x id ctx => rfl
  | «attribute» x value attr ctx => exact ⟨rfl, h.2⟩
  | subscript x value index ctx => exact ⟨rfl, h.2⟩
  | _ => simp [Target.fault?] at hfault

theorem exprs_markAll {use : Context} {es : List Expr} (h : exprs .load es)
    (hfault : Target.firstFault? use es = none) : exprs use (Target.markAll use es) := by
  cases es with
  | nil => trivial
  | cons e es =>
    rw [Target.firstFault?, Option.or_eq_none_iff] at hfault
    exact ⟨expr_mark h.1 hfault.1, exprs_markAll h.2 hfault.2⟩

end

theorem expr_mark_of_isSimple {use : Context} {e : Expr} (h : expr .load e)
    (hsimple : Target.isSimple e = true) : expr use (Target.mark use e) := by
  refine expr_mark h ?_
  cases e <;> simp_all [Target.isSimple, Target.fault?]

/-! ## Statements of a tree -/

/-- A statement is well formed. -/
def Formed : Node → Prop
  | .stmt s => stmt s
  | _ => True

mutual

/-- Every statement in a well-formed statement is well formed. -/
theorem every_stmt {s : Stmt} (h : stmt s) : Every.stmt Formed s := by
  have he : ∀ e, Formed (.expr e) := fun _ => trivial
  cases s <;> refine ⟨h, ?_⟩ <;> simp only [stmt] at h <;>
    simp [h, Every.expr_of_forall he, Every.exprs_of_forall he, Every.optExpr_of_forall he,
      Every.keywords_of_forall he, Every.params_of_forall he, Every.withItems_of_forall he, every_stmts,
      every_handlers, every_cases]

theorem every_stmts {ss : List Stmt} (h : stmts ss) : Every.stmts Formed ss := by
  cases ss with
  | nil => trivial
  | cons s ss => exact ⟨every_stmt h.1, every_stmts h.2⟩

theorem every_handlers : ∀ {hs : List Handler}, handlers hs → Every.handlers Formed hs
  | [], _ => trivial
  | .mk _ _ _ :: _, h =>
    ⟨Every.optExpr_of_forall (fun _ => trivial) _, every_stmts h.2.1, every_handlers h.2.2⟩

theorem every_cases : ∀ {cs : List MatchCase}, cases cs → Every.cases Formed cs
  | [], _ => trivial
  | .mk _ _ _ :: _, h =>
    ⟨Every.pattern_of_forall (fun _ => trivial) (fun _ => trivial) _,
      Every.optExpr_of_forall (fun _ => trivial) _, every_stmts h.2.2.1, every_cases h.2.2.2⟩

end

/-- Every statement that a walk through a well-formed tree enters is well formed. -/
theorem Tree.stmt {m : Module} (h : Tree m) {d : Nat} {s : Stmt}
    (hs : ⟨d, .stmt s⟩ ∈ Walk.module m) : WellFormed.stmt s := by
  have hevery : Every.stmt Formed s := Every.node_of_mem_walk ⟨trivial, every_stmts h.body⟩ hs
  rw [Every.stmt.eq_def] at hevery
  exact hevery.1

theorem functionBody {f : Stmt} (h : stmt f) : stmts f.functionBody := by
  cases f with
  | function => exact h.2.1
  | _ => trivial

end CloneScout.WellFormed
