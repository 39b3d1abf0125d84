import CloneScout.Tree.Dump
import CloneScout.Tree.Function

/-!
# Normal form

Code that differs only in what a configuration declares irrelevant has the same normal form: names,
attributes and constants are replaced by fixed words, docstrings and annotations of functions go, an
augmented assignment becomes a plain one, a negated membership or identity test becomes the opposite
test, and operands of commutative operators are put in order where both are numbers. What a call
names is kept.
-/

namespace CloneScout.Normal

/-- What is irrelevant. -/
structure Config where
  ignoreDocstrings : Bool := true
  ignoreHints : Bool := true
  attributes : Bool := true
  constants : Bool := true
  names : Bool := true
  deriving DecidableEq, Repr

/-- Names that start with this mark carry information about the flow of control and are kept. -/
def metaMark : Text := utf8 "__CC_META__::"

def isMeta (name : Text) : Bool := Text.startsWith name metaMark

def variableWord : Text := utf8 "_VAR_"

def attributeWord : Text := utf8 "_ATTR_"

def constantWord : Text := utf8 "_CONST_"

/-! ## Single nodes -/

/-- A name; `target` holds for the names that a call is addressed to. -/
def name (cfg : Config) (target : Bool) (id : Text) : Text :=
  if cfg.names && !target && !isMeta id then variableWord else id

def attr (cfg : Config) (target : Bool) (id : Text) : Text :=
  if cfg.attributes && !target then attributeWord else id

/-- A constant becomes a fixed text, which keeps the mark of a text literal. -/
def constant (cfg : Config) (c : Constant) : Constant :=
  if cfg.constants then
    match c with
    | .text _ marked => .text constantWord marked
    | _ => .text constantWord false
  else c

/-- The test that holds when a membership or identity test fails. -/
def opposite? : CompareOp → Option CompareOp
  | .isIn => some .notIn
  | .is => some .isNot
  | _ => none

/-- A unary operation on a normal operand. -/
def unary (x : Extent) (op : UnaryOp) (operand : Expr) : Expr :=
  match op, operand with
  | .not, .compare _ left [test] comparators =>
    match opposite? test with
    | some test => .compare x left [test] comparators
    | none => .unary x op operand
  | _, _ => .unary x op operand

def isBitwise : BinaryOp → Bool
  | .bitOr => true
  | .bitAnd => true
  | .bitXor => true
  | _ => false

def isCommutative : BinaryOp → Bool
  | .add => true
  | .mult => true
  | op => isBitwise op

/-- A constant that is a number, and a whole number for the bitwise operators. -/
def isNumber (op : BinaryOp) : Constant → Bool
  | .int _ => true
  | .float _ => !isBitwise op
  | .imaginary _ => !isBitwise op
  | _ => false

/-- The expression is made of numbers and the operator alone. -/
def isNumeric (op : BinaryOp) : Expr → Bool
  | .constant _ c => isNumber op c
  | .binary _ left op' right => op' = op && isNumeric op left && isNumeric op right
  | _ => false

/-- The text of `a` comes before the text of `b`. An operation is written with a letter that comes
before the first letter of a constant, so those need no look at their texts. -/
def writtenBefore : (a b : Expr) → Bool
  | .binary .., .constant .. => true
  | .constant .., .binary .. => false
  | a, b => Text.cmp (Dump.stableExpr a) (Dump.stableExpr b) = .lt

/-- The operands change places: both are numeric and the second is written before the first. -/
def swaps (op : BinaryOp) (left right : Expr) : Bool :=
  isCommutative op && isNumeric op left && isNumeric op right && writtenBefore right left

/-- A binary operation, given its operands and their normal forms. -/
def binary (x : Extent) (op : BinaryOp) (left right normalLeft normalRight : Expr) : Expr :=
  if swaps op left right then .binary x normalRight op normalLeft
  else .binary x normalLeft op normalRight

/-- The same expression, used for its value. -/
def load : Expr → Expr
  | .name x id _ => .name x id .load
  | .attribute x value attr _ => .attribute x value attr .load
  | .subscript x value index _ => .subscript x value index .load
  | .starred x value _ => .starred x value .load
  | .list x elts _ => .list x elts .load
  | .tuple x elts _ => .tuple x elts .load
  | e => e

/-! ## Expressions -/

mutual

/-- The normal form of an expression; `target` holds for what a call is addressed to. -/
def expr (cfg : Config) (target : Bool) : Expr → Expr
  | .error x => .error x
  | .boolean x op values => .boolean x op (exprs cfg values)
  | .named x e value => .named x (expr cfg false e) (expr cfg false value)
  | .binary x left op right =>
    binary x op left right (expr cfg false left) (expr cfg false right)
  | .unary x op operand => unary x op (expr cfg false operand)
  | .lambda x ps body => .lambda x (params cfg ps) (expr cfg false body)
  | .conditional x test body orelse =>
    .conditional x (expr cfg false test) (expr cfg false body) (expr cfg false orelse)
  | .dict x entries => .dict x (dictEntries cfg entries)
  | .set x elts => .set x (exprs cfg elts)
  | .listComp x elt gens => .listComp x (expr cfg false elt) (comprehensions cfg gens)
  | .setComp x elt gens => .setComp x (expr cfg false elt) (comprehensions cfg gens)
  | .dictComp x key value gens =>
    .dictComp x (expr cfg false key) (expr cfg false value) (comprehensions cfg gens)
  | .generator x elt gens => .generator x (expr cfg false elt) (comprehensions cfg gens)
  | .await x value => .await x (expr cfg false value)
  | .yield x value => .yield x (optExpr cfg value)
  | .yieldFrom x value => .yieldFrom x (expr cfg false value)
  | .compare x left ops comparators =>
    .compare x (expr cfg false left) ops (exprs cfg comparators)
  | .call x func args kws => .call x (expr cfg true func) (exprs cfg args) (keywords cfg kws)
  | .formatted x value conv spec => .formatted x (expr cfg false value) conv (optExpr cfg spec)
  | .joined x values => .joined x (exprs cfg values)
  | .constant x c => .constant x (constant cfg c)
  | .attribute x value id ctx =>
    .attribute x (expr cfg target value) (attr cfg target id) ctx
  | .subscript x value index ctx =>
    .subscript x (expr cfg false value) (expr cfg false index) ctx
  | .starred x value ctx => .starred x (expr cfg false value) ctx
  | .name x id ctx => .name x (name cfg target id) ctx
  | .list x elts ctx => .list x (exprs cfg elts) ctx
  | .tuple x elts ctx => .tuple x (exprs cfg elts) ctx
  | .slice x lower upper step =>
    .slice x (optExpr cfg lower) (optExpr cfg upper) (optExpr cfg step)

def exprs (cfg : Config) : List Expr → List Expr
  | [] => []
  | e :: rest => expr cfg false e :: exprs cfg rest

def optExpr (cfg : Config) : Option Expr → Option Expr
  | none => none
  | some e => some (expr cfg false e)

def dictEntries (cfg : Config) : List Entry → List Entry
  | [] => []
  | .pair key value :: rest =>
    .pair (expr cfg false key) (expr cfg false value) :: dictEntries cfg rest
  | .unpack value :: rest => .unpack (expr cfg false value) :: dictEntries cfg rest

def keywords (cfg : Config) : List Keyword → List Keyword
  | [] => []
  | .mk arg value :: rest => .mk arg (expr cfg false value) :: keywords cfg rest

def comprehensions (cfg : Config) : List Comprehension → List Comprehension
  | [] => []
  | .mk target iter conditions isAsync :: rest =>
    .mk (expr cfg false target) (expr cfg false iter) (exprs cfg conditions) isAsync ::
      comprehensions cfg rest

def param (cfg : Config) : Param → Param
  | .mk id hint value =>
    .mk id (if cfg.ignoreHints then none else optExpr cfg hint) (optExpr cfg value)

def optParam (cfg : Config) : Option Param → Option Param
  | none => none
  | some p => some (param cfg p)

def paramList (cfg : Config) : List Param → List Param
  | [] => []
  | p :: rest => param cfg p :: paramList cfg rest

def params (cfg : Config) : Params → Params
  | .mk posOnly plain star kwOnly doubleStar =>
    .mk (paramList cfg posOnly) (paramList cfg plain) (optParam cfg star) (paramList cfg kwOnly)
      (optParam cfg doubleStar)

end

/-! ## Patterns -/

mutual

def pattern (cfg : Config) : Pattern → Pattern
  | .error x => .error x
  | .value x value => .value x (expr cfg false value)
  | .singleton x value => .singleton x value
  | .sequence x ps => .sequence x (patterns cfg ps)
  | .mapping x entries rest => .mapping x (patternEntries cfg entries) rest
  | .cls x cls ps kws => .cls x (expr cfg false cls) (patterns cfg ps) (patternKeywords cfg kws)
  | .star x id => .star x id
  | .as x p id => .as x (optPattern cfg p) id
  | .or x ps => .or x (patterns cfg ps)

def patterns (cfg : Config) : List Pattern → List Pattern
  | [] => []
  | p :: rest => pattern cfg p :: patterns cfg rest

def optPattern (cfg : Config) : Option Pattern → Option Pattern
  | none => none
  | some p => some (pattern cfg p)

def patternEntries (cfg : Config) : List PatternEntry → List PatternEntry
  | [] => []
  | .mk key p :: rest => .mk (expr cfg false key) (pattern cfg p) :: patternEntries cfg rest

def patternKeywords (cfg : Config) : List PatternKeyword → List PatternKeyword
  | [] => []
  | .mk attr p :: rest => .mk attr (pattern cfg p) :: patternKeywords cfg rest

end

/-! ## Statements -/

def withItem (cfg : Config) (w : WithItem) : WithItem :=
  ⟨expr cfg false w.context, optExpr cfg w.target⟩

mutual

def stmt (cfg : Config) : Stmt → Stmt
  | .function x isAsync id ps body decorators returns =>
    .function x isAsync id (params cfg ps)
      (if cfg.ignoreDocstrings && startsWithDocstring body then (stmts cfg body).drop 1
        else stmts cfg body)
      (exprs cfg decorators) (if cfg.ignoreHints then none else optExpr cfg returns)
  | .classDef x id bases kws body decorators =>
    .classDef x id (exprs cfg bases) (keywords cfg kws) (stmts cfg body) (exprs cfg decorators)
  | .ret x value => .ret x (optExpr cfg value)
  | .delete x targets => .delete x (exprs cfg targets)
  | .assign x targets value => .assign x (exprs cfg targets) (expr cfg false value)
  | .augAssign x target op value =>
    let normalTarget := expr cfg false target
    .assign x [normalTarget]
      (binary x op (load target) value (load normalTarget) (expr cfg false value))
  | .annAssign x target hint value simple =>
    .annAssign x (expr cfg false target) (expr cfg false hint) (optExpr cfg value) simple
  | .forLoop x isAsync target iter body orelse =>
    .forLoop x isAsync (expr cfg false target) (expr cfg false iter) (stmts cfg body)
      (stmts cfg orelse)
  | .whileLoop x test body orelse =>
    .whileLoop x (expr cfg false test) (stmts cfg body) (stmts cfg orelse)
  | .branch x test body orelse =>
    .branch x (expr cfg false test) (stmts cfg body) (stmts cfg orelse)
  | .withBlock x isAsync items body =>
    .withBlock x isAsync (items.map (withItem cfg)) (stmts cfg body)
  | .matchBlock x subject cs => .matchBlock x (expr cfg false subject) (cases cfg cs)
  | .raise x exc cause => .raise x (optExpr cfg exc) (optExpr cfg cause)
  | .tryBlock x isStar body hs orelse finalbody =>
    .tryBlock x isStar (stmts cfg body) (handlers cfg hs) (stmts cfg orelse) (stmts cfg finalbody)
  | .assertion x test message => .assertion x (expr cfg false test) (optExpr cfg message)
  | .importNames x names => .importNames x names
  | .importFrom x module names level => .importFrom x module names level
  | .global x names => .global x names
  | .nonlocal x names => .nonlocal x names
  | .expr x value => .expr x (expr cfg false value)
  | .pass x => .pass x
  | .breakLoop x => .breakLoop x
  | .continueLoop x => .continueLoop x

def stmts (cfg : Config) : List Stmt → List Stmt
  | [] => []
  | s :: rest => stmt cfg s :: stmts cfg rest

def handlers (cfg : Config) : List Handler → List Handler
  | [] => []
  | .mk type id body :: rest => .mk (optExpr cfg type) id (stmts cfg body) :: handlers cfg rest

def cases (cfg : Config) : List MatchCase → List MatchCase
  | [] => []
  | .mk p guard body :: rest =>
    .mk (pattern cfg p) (optExpr cfg guard) (stmts cfg body) :: cases cfg rest

end

def module (cfg : Config) (m : Module) : Module := { m with body := stmts cfg m.body }

/-! ## Normal forms as text -/

def exprText (cfg : Config) (e : Expr) : Text := Dump.stableExpr (expr cfg false e)

def stmtText (cfg : Config) (s : Stmt) : Text := Dump.stableStmt (stmt cfg s)

def moduleText (cfg : Config) (m : Module) : Text := Dump.stableModule (module cfg m)

/-- The texts of several statements. -/
def bodyText (cfg : Config) (body : List Stmt) : Text :=
  Text.join (utf8 ";") (body.map (stmtText cfg))

end CloneScout.Normal
