import CloneScout.Tree.Dump

/-!
# Outlines of trees

Two trees are alike in some respect when they have the same outline. An outline never shows extents;
what it shows of names, constants, annotations and the order of operands is a matter of choice. An
outline that hides nothing but extents and the spelling of constants has the document of the tree.
-/

namespace CloneScout

/-- Where a name stands: by itself, at the bottom of what a call is addressed to, or in a part of
the tree whose text is shown as it is (the type of a handler or a pattern). -/
inductive Place where
  | free
  | callee
  | shown
  deriving DecidableEq, Repr

namespace Place

/-- The place of parts that are no longer what a call is addressed to. -/
def inner : Place → Place
  | .shown => .shown
  | _ => .free

/-- The place of what a call is addressed to. -/
def addressed : Place → Place
  | .shown => .shown
  | _ => .callee

@[simp]
theorem inner_inner (p : Place) : p.inner.inner = p.inner := by cases p <;> rfl

@[simp]
theorem addressed_inner (p : Place) : p.inner.addressed = p.addressed := by cases p <;> rfl

@[simp]
theorem inner_addressed (p : Place) : p.addressed.inner = p.inner := by cases p <;> rfl

@[simp]
theorem addressed_addressed (p : Place) : p.addressed.addressed = p.addressed := by cases p <;> rfl

end Place

/-- The extent that all nodes of an outline have. -/
def Extent.blank : Extent := ⟨⟨0, 0⟩, 0, 0⟩

/-- What an outline shows. -/
structure Outline where
  name : Place → Text → Text := fun _ id => id
  constant : Constant → Constant := id
  /-- The operands change places. -/
  swap : BinaryOp → Expr → Expr → Bool := fun _ _ _ => false
  /-- Annotations of parameters and results are shown. -/
  hints : Bool := true

namespace Outline

/-- Everything but extents. -/
def plain : Outline := {}

/-! ## Outlines of expressions -/

mutual

def expr (o : Outline) (p : Place) : Expr → Expr
  | .error _ => .error .blank
  | .boolean _ op values => .boolean .blank op (exprs o p.inner values)
  | .named _ target value => .named .blank (expr o p.inner target) (expr o p.inner value)
  | .binary _ left op right =>
    if o.swap op left right then .binary .blank (expr o p.inner right) op (expr o p.inner left)
    else .binary .blank (expr o p.inner left) op (expr o p.inner right)
  | .unary _ op operand => .unary .blank op (expr o p.inner operand)
  | .lambda _ ps body => .lambda .blank (params o p.inner ps) (expr o p.inner body)
  | .conditional _ test body orelse =>
    .conditional .blank (expr o p.inner test) (expr o p.inner body) (expr o p.inner orelse)
  | .dict _ es => .dict .blank (entries o p.inner es)
  | .set _ elts => .set .blank (exprs o p.inner elts)
  | .listComp _ elt gens => .listComp .blank (expr o p.inner elt) (comprehensions o p.inner gens)
  | .setComp _ elt gens => .setComp .blank (expr o p.inner elt) (comprehensions o p.inner gens)
  | .dictComp _ key value gens =>
    .dictComp .blank (expr o p.inner key) (expr o p.inner value) (comprehensions o p.inner gens)
  | .generator _ elt gens => .generator .blank (expr o p.inner elt) (comprehensions o p.inner gens)
  | .await _ value => .await .blank (expr o p.inner value)
  | .yield _ value => .yield .blank (optExpr o p.inner value)
  | .yieldFrom _ value => .yieldFrom .blank (expr o p.inner value)
  | .compare _ left ops comparators =>
    .compare .blank (expr o p.inner left) ops (exprs o p.inner comparators)
  | .call _ func args kws =>
    .call .blank (expr o p.addressed func) (exprs o p.inner args) (keywords o p.inner kws)
  | .formatted _ value conv spec =>
    .formatted .blank (expr o p.inner value) conv (optExpr o p.inner spec)
  | .joined _ values => .joined .blank (exprs o p.inner values)
  | .constant _ c => .constant .blank (o.constant c)
  | .attribute _ value attr ctx => .attribute .blank (expr o p value) attr ctx
  | .subscript _ value index ctx =>
    .subscript .blank (expr o p.inner value) (expr o p.inner index) ctx
  | .starred _ value ctx => .starred .blank (expr o p.inner value) ctx
  | .name _ id ctx => .name .blank (o.name p id) ctx
  | .list _ elts ctx => .list .blank (exprs o p.inner elts) ctx
  | .tuple _ elts ctx => .tuple .blank (exprs o p.inner elts) ctx
  | .slice _ lower upper step =>
    .slice .blank (optExpr o p.inner lower) (optExpr o p.inner upper) (optExpr o p.inner step)

def exprs (o : Outline) (p : Place) : List Expr → List Expr
  | [] => []
  | e :: rest => expr o p e :: exprs o p rest

def optExpr (o : Outline) (p : Place) : Option Expr → Option Expr
  | none => none
  | some e => some (expr o p e)

def entries (o : Outline) (p : Place) : List Entry → List Entry
  | [] => []
  | .pair key value :: rest => .pair (expr o p key) (expr o p value) :: entries o p rest
  | .unpack value :: rest => .unpack (expr o p value) :: entries o p rest

def keywords (o : Outline) (p : Place) : List Keyword → List Keyword
  | [] => []
  | .mk arg value :: rest => .mk arg (expr o p value) :: keywords o p rest

def comprehensions (o : Outline) (p : Place) : List Comprehension → List Comprehension
  | [] => []
  | .mk target iter conditions isAsync :: rest =>
    .mk (expr o p target) (expr o p iter) (exprs o p conditions) isAsync ::
      comprehensions o p rest

def param (o : Outline) (p : Place) : Param → Param
  | .mk id hint value => .mk id (if o.hints then optExpr o p hint else none) (optExpr o p value)

def optParam (o : Outline) (p : Place) : Option Param → Option Param
  | none => none
  | some q => some (param o p q)

def paramList (o : Outline) (p : Place) : List Param → List Param
  | [] => []
  | q :: rest => param o p q :: paramList o p rest

def params (o : Outline) (p : Place) : Params → Params
  | .mk posOnly plain star kwOnly doubleStar =>
    .mk (paramList o p posOnly) (paramList o p plain) (optParam o p star) (paramList o p kwOnly)
      (optParam o p doubleStar)

end

/-! ## Outlines of patterns and statements -/

mutual

/-- Patterns are shown as they are, but for extents and constants. -/
def pattern (o : Outline) : Pattern → Pattern
  | .error _ => .error .blank
  | .value _ value => .value .blank (expr o .shown value)
  | .singleton _ value => .singleton .blank value
  | .sequence _ ps => .sequence .blank (patterns o ps)
  | .mapping _ entries rest => .mapping .blank (patternEntries o entries) rest
  | .cls _ cls ps kws =>
    .cls .blank (expr o .shown cls) (patterns o ps) (patternKeywords o kws)
  | .star _ id => .star .blank id
  | .as _ p id => .as .blank (optPattern o p) id
  | .or _ ps => .or .blank (patterns o ps)

def patterns (o : Outline) : List Pattern → List Pattern
  | [] => []
  | p :: rest => pattern o p :: patterns o rest

def optPattern (o : Outline) : Option Pattern → Option Pattern
  | none => none
  | some p => some (pattern o p)

def patternEntries (o : Outline) : List PatternEntry → List PatternEntry
  | [] => []
  | .mk key p :: rest => .mk (expr o .shown key) (pattern o p) :: patternEntries o rest

def patternKeywords (o : Outline) : List PatternKeyword → List PatternKeyword
  | [] => []
  | .mk attr p :: rest => .mk attr (pattern o p) :: patternKeywords o rest

end

def withItem (o : Outline) (w : WithItem) : WithItem :=
  ⟨o.expr .free w.context, o.optExpr .free w.target⟩

mutual

def stmt (o : Outline) : Stmt → Stmt
  | .function _ isAsync id ps body decorators returns =>
    .function .blank isAsync id (o.params .free ps) (stmts o body) (o.exprs .free decorators)
      (if o.hints then o.optExpr .free returns else none)
  | .classDef _ id bases kws body decorators =>
    .classDef .blank id (o.exprs .free bases) (o.keywords .free kws) (stmts o body)
      (o.exprs .free decorators)
  | .ret _ value => .ret .blank (o.optExpr .free value)
  | .delete _ targets => .delete .blank (o.exprs .free targets)
  | .assign _ targets value => .assign .blank (o.exprs .free targets) (o.expr .free value)
  | .augAssign _ target op value =>
    .augAssign .blank (o.expr .free target) op (o.expr .free value)
  | .annAssign _ target hint value simple =>
    .annAssign .blank (o.expr .free target) (o.expr .free hint) (o.optExpr .free value) simple
  | .forLoop _ isAsync target iter body orelse =>
    .forLoop .blank isAsync (o.expr .free target) (o.expr .free iter) (stmts o body)
      (stmts o orelse)
  | .whileLoop _ test body orelse =>
    .whileLoop .blank (o.expr .free test) (stmts o body) (stmts o orelse)
  | .branch _ test body orelse =>
    .branch .blank (o.expr .free test) (stmts o body) (stmts o orelse)
  | .withBlock _ isAsync items body =>
    .withBlock .blank isAsync (items.map o.withItem) (stmts o body)
  | .matchBlock _ subject cs => .matchBlock .blank (o.expr .free subject) (cases o cs)
  | .raise _ exc cause => .raise .blank (o.optExpr .free exc) (o.optExpr .free cause)
  | .tryBlock _ isStar body hs orelse finalbody =>
    .tryBlock .blank isStar (stmts o body) (handlers o hs) (stmts o orelse) (stmts o finalbody)
  | .assertion _ test message =>
    .assertion .blank (o.expr .free test) (o.optExpr .free message)
  | .importNames _ names => .importNames .blank names
  | .importFrom _ module names level => .importFrom .blank module names level
  | .global _ names => .global .blank names
  | .nonlocal _ names => .nonlocal .blank names
  | .expr _ value => .expr .blank (o.expr .free value)
  | .pass _ => .pass .blank
  | .breakLoop _ => .breakLoop .blank
  | .continueLoop _ => .continueLoop .blank

def stmts (o : Outline) : List Stmt → List Stmt
  | [] => []
  | s :: rest => stmt o s :: stmts o rest

/-- The type of a handler is shown as it is, but for extents and constants. -/
def handlers (o : Outline) : List Handler → List Handler
  | [] => []
  | .mk type id body :: rest => .mk (o.optExpr .shown type) id (stmts o body) :: handlers o rest

def cases (o : Outline) : List MatchCase → List MatchCase
  | [] => []
  | .mk p guard body :: rest =>
    .mk (pattern o p) (o.optExpr .free guard) (stmts o body) :: cases o rest

end

def module (o : Outline) (m : Module) : Module := { extent := .blank, body := o.stmts m.body }

/-! ## Outlines with the document of the tree -/

/-- From the given place on, the outline hides nothing that the document of a tree shows. -/
structure Silent (o : Outline) (p : Place) : Prop where
  name (id : Text) : o.name p id = id
  innerName (id : Text) : o.name p.inner id = id
  addressedName (id : Text) : o.name p.addressed id = id
  constant (c : Constant) : Dump.constant (o.constant c) = Dump.constant c
  mark (c : Constant) : Dump.mark (o.constant c) = Dump.mark c
  swap (op : BinaryOp) (left right : Expr) : o.swap op left right = false
  hints : o.hints = true

theorem silent_plain (p : Place) : plain.Silent p := by
  constructor <;> intros <;> rfl

namespace Silent

theorem inner {o : Outline} {p : Place} (h : o.Silent p) : o.Silent p.inner where
  name := h.innerName
  innerName := by simpa using h.innerName
  addressedName := by simpa using h.addressedName
  constant := h.constant
  mark := h.mark
  swap := h.swap
  hints := h.hints

theorem addressed {o : Outline} {p : Place} (h : o.Silent p) : o.Silent p.addressed where
  name := h.addressedName
  innerName := by simpa using h.innerName
  addressedName := by simpa using h.addressedName
  constant := h.constant
  mark := h.mark
  swap := h.swap
  hints := h.hints

end Silent

mutual

theorem dump_expr {o : Outline} {p : Place} (h : o.Silent p) (e : Expr) :
    Dump.expr (o.expr p e) = Dump.expr e := by
  have hi := h.inner
  cases e <;> simp [expr, Dump.expr, h.name, h.constant, h.mark, h.swap, dump_expr h, dump_expr hi,
    dump_expr h.addressed, dump_exprs hi, dump_optExpr hi, dump_keys hi, dump_values hi,
    dump_keywords hi, dump_comprehensions hi, dump_params hi]

theorem dump_exprs {o : Outline} {p : Place} (h : o.Silent p) (es : List Expr) :
    Dump.exprs (o.exprs p es) = Dump.exprs es := by
  cases es <;> simp [exprs, Dump.exprs, dump_expr h, dump_exprs h]

theorem dump_optExpr {o : Outline} {p : Place} (h : o.Silent p) (e : Option Expr) :
    Dump.optExpr (o.optExpr p e) = Dump.optExpr e := by
  cases e <;> simp [optExpr, Dump.optExpr, dump_expr h]

theorem dump_keys {o : Outline} {p : Place} (h : o.Silent p) :
    ∀ es : List Entry, Dump.keys (o.entries p es) = Dump.keys es
  | [] => rfl
  | .pair _ _ :: _ => by simp [entries, Dump.keys, dump_expr h, dump_keys h]
  | .unpack _ :: _ => by simp [entries, Dump.keys, dump_keys h]

theorem dump_values {o : Outline} {p : Place} (h : o.Silent p) :
    ∀ es : List Entry, Dump.values (o.entries p es) = Dump.values es
  | [] => rfl
  | .pair _ _ :: _ => by simp [entries, Dump.values, dump_expr h, dump_values h]
  | .unpack _ :: _ => by simp [entries, Dump.values, dump_expr h, dump_values h]

theorem dump_keywords {o : Outline} {p : Place} (h : o.Silent p) :
    ∀ ks : List Keyword, Dump.keywords (o.keywords p ks) = Dump.keywords ks
  | [] => rfl
  | .mk _ _ :: _ => by simp [keywords, Dump.keywords, dump_expr h, dump_keywords h]

theorem dump_comprehensions {o : Outline} {p : Place} (h : o.Silent p) :
    ∀ gs : List Comprehension, Dump.comprehensions (o.comprehensions p gs) = Dump.comprehensions gs
  | [] => rfl
  | .mk _ _ _ _ :: _ => by
    simp [comprehensions, Dump.comprehensions, dump_expr h, dump_exprs h, dump_comprehensions h]

theorem dump_param {o : Outline} {p : Place} (h : o.Silent p) :
    ∀ q : Param, Dump.param (o.param p q) = Dump.param q
  | .mk _ _ _ => by simp [param, Dump.param, h.hints, dump_optExpr h]

theorem dump_optParam {o : Outline} {p : Place} (h : o.Silent p) (q : Option Param) :
    Dump.optParam (o.optParam p q) = Dump.optParam q := by
  cases q <;> simp [optParam, Dump.optParam, dump_param h]

theorem dump_paramList {o : Outline} {p : Place} (h : o.Silent p) (qs : List Param) :
    Dump.paramList (o.paramList p qs) = Dump.paramList qs := by
  cases qs <;> simp [paramList, Dump.paramList, dump_param h, dump_paramList h]

theorem dump_defaults {o : Outline} {p : Place} (h : o.Silent p) :
    ∀ qs : List Param, Dump.defaults (o.paramList p qs) = Dump.defaults qs
  | [] => rfl
  | .mk _ _ none :: _ => by simp [paramList, param, optExpr, Dump.defaults, dump_defaults h]
  | .mk _ _ (some _) :: _ => by
    simp [paramList, param, optExpr, Dump.defaults, dump_expr h, dump_defaults h]

theorem dump_kwDefaults {o : Outline} {p : Place} (h : o.Silent p) :
    ∀ qs : List Param, Dump.kwDefaults (o.paramList p qs) = Dump.kwDefaults qs
  | [] => rfl
  | .mk _ _ none :: _ => by simp [paramList, param, optExpr, Dump.kwDefaults, dump_kwDefaults h]
  | .mk _ _ (some _) :: _ => by
    simp [paramList, param, optExpr, Dump.kwDefaults, dump_expr h, dump_kwDefaults h]

theorem dump_params {o : Outline} {p : Place} (h : o.Silent p) :
    ∀ ps : Params, Dump.params (o.params p ps) = Dump.params ps
  | .mk _ _ _ _ _ => by
    simp [params, Dump.params, dump_paramList h, dump_optParam h, dump_kwDefaults h,
      dump_defaults h]

end

mutual

theorem dump_pattern {o : Outline} (h : o.Silent .shown) (p : Pattern) :
    Dump.pattern (o.pattern p) = Dump.pattern p := by
  cases p <;> simp [pattern, Dump.pattern, dump_expr h, dump_patterns h, dump_optPattern h,
    dump_patternKeys h, dump_patternValues h, dump_patternAttrs, dump_keywordPatterns h]

theorem dump_patterns {o : Outline} (h : o.Silent .shown) (ps : List Pattern) :
    Dump.patterns (o.patterns ps) = Dump.patterns ps := by
  cases ps <;> simp [patterns, Dump.patterns, dump_pattern h, dump_patterns h]

theorem dump_optPattern {o : Outline} (h : o.Silent .shown) (p : Option Pattern) :
    Dump.optPattern (o.optPattern p) = Dump.optPattern p := by
  cases p <;> simp [optPattern, Dump.optPattern, dump_pattern h]

theorem dump_patternKeys {o : Outline} (h : o.Silent .shown) :
    ∀ es : List PatternEntry, Dump.patternKeys (o.patternEntries es) = Dump.patternKeys es
  | [] => rfl
  | .mk _ _ :: _ => by simp [patternEntries, Dump.patternKeys, dump_expr h, dump_patternKeys h]

theorem dump_patternValues {o : Outline} (h : o.Silent .shown) :
    ∀ es : List PatternEntry, Dump.patternValues (o.patternEntries es) = Dump.patternValues es
  | [] => rfl
  | .mk _ _ :: _ => by
    simp [patternEntries, Dump.patternValues, dump_pattern h, dump_patternValues h]

theorem dump_patternAttrs {o : Outline} :
    ∀ ks : List PatternKeyword, Dump.patternAttrs (o.patternKeywords ks) = Dump.patternAttrs ks
  | [] => rfl
  | .mk _ _ :: _ => by simp [patternKeywords, Dump.patternAttrs, dump_patternAttrs]

theorem dump_keywordPatterns {o : Outline} (h : o.Silent .shown) :
    ∀ ks : List PatternKeyword,
      Dump.keywordPatterns (o.patternKeywords ks) = Dump.keywordPatterns ks
  | [] => rfl
  | .mk _ _ :: _ => by
    simp [patternKeywords, Dump.keywordPatterns, dump_pattern h, dump_keywordPatterns h]

end

theorem dump_comp_withItem {o : Outline} (h : o.Silent .free) :
    Dump.withItem ∘ o.withItem = Dump.withItem := by
  funext w
  simp [withItem, Dump.withItem, dump_expr h, dump_optExpr h]

mutual

theorem dump_stmt {o : Outline} (h : o.Silent .free) (hs : o.Silent .shown) (s : Stmt) :
    Dump.stmt (o.stmt s) = Dump.stmt s := by
  cases s <;> simp [stmt, Dump.stmt, h.hints, dump_expr h, dump_exprs h, dump_optExpr h,
    dump_keywords h, dump_params h, dump_comp_withItem h, dump_stmts h hs, dump_handlers h hs,
    dump_cases h hs]

theorem dump_stmts {o : Outline} (h : o.Silent .free) (hs : o.Silent .shown) (ss : List Stmt) :
    Dump.stmts (o.stmts ss) = Dump.stmts ss := by
  cases ss <;> simp [stmts, Dump.stmts, dump_stmt h hs, dump_stmts h hs]

theorem dump_handlers {o : Outline} (h : o.Silent .free) (hs : o.Silent .shown) :
    ∀ hdls : List Handler, Dump.handlers (o.handlers hdls) = Dump.handlers hdls
  | [] => rfl
  | .mk _ _ _ :: _ => by
    simp [handlers, Dump.handlers, dump_optExpr hs, dump_stmts h hs, dump_handlers h hs]

theorem dump_cases {o : Outline} (h : o.Silent .free) (hs : o.Silent .shown) :
    ∀ cs : List MatchCase, Dump.cases (o.cases cs) = Dump.cases cs
  | [] => rfl
  | .mk _ _ _ :: _ => by
    simp [cases, Dump.cases, dump_pattern hs, dump_optExpr h, dump_stmts h hs, dump_cases h hs]

end

end Outline

end CloneScout
