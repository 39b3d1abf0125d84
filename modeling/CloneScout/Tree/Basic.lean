import CloneScout.Source.Basic

/-!
# Syntax trees

Modules, statements, patterns and expressions of Python. Every expression, pattern and statement
carries the extent of source text that it came from; nothing but reports looks at it.
-/

namespace CloneScout

/-- Where a node stands: its bytes and its first and last line. -/
structure Extent where
  span : Span
  line : Nat
  endLine : Nat
  deriving DecidableEq, Repr

/-- What an expression is used for: its value, as the target of a binding, or of a deletion. -/
inductive Context where
  | load
  | store
  | delete
  deriving DecidableEq, Repr

inductive BoolOp where
  | and
  | or
  deriving DecidableEq, Repr

inductive BinaryOp where
  | add
  | sub
  | mult
  | matMult
  | div
  | mod
  | pow
  | shiftLeft
  | shiftRight
  | bitOr
  | bitXor
  | bitAnd
  | floorDiv
  deriving DecidableEq, Repr

inductive UnaryOp where
  | invert
  | not
  | plus
  | minus
  deriving DecidableEq, Repr

inductive CompareOp where
  | eq
  | notEq
  | lt
  | ltEq
  | gt
  | gtEq
  | is
  | isNot
  | isIn
  | notIn
  deriving DecidableEq, Repr

/-- A literal value. Floating-point and imaginary literals keep their digits as written. -/
inductive Constant where
  | none
  | true
  | false
  | ellipsis
  | int (value : Nat)
  | float (digits : Text)
  | imaginary (digits : Text)
  | text (value : Text) (marked : Bool)
  | bytes (value : Text)
  deriving DecidableEq, Repr

/-- How the value of a replacement field is turned into text. -/
inductive Conversion where
  | str
  | repr
  | ascii
  deriving DecidableEq, Repr

mutual

inductive Expr where
  /-- Stands where no expression could be read. -/
  | error (extent : Extent)
  | boolean (extent : Extent) (op : BoolOp) (values : List Expr)
  | named (extent : Extent) (target value : Expr)
  | binary (extent : Extent) (left : Expr) (op : BinaryOp) (right : Expr)
  | unary (extent : Extent) (op : UnaryOp) (operand : Expr)
  | lambda (extent : Extent) (params : Params) (body : Expr)
  | conditional (extent : Extent) (test body orelse : Expr)
  | dict (extent : Extent) (entries : List Entry)
  | set (extent : Extent) (elts : List Expr)
  | listComp (extent : Extent) (elt : Expr) (generators : List Comprehension)
  | setComp (extent : Extent) (elt : Expr) (generators : List Comprehension)
  | dictComp (extent : Extent) (key value : Expr) (generators : List Comprehension)
  | generator (extent : Extent) (elt : Expr) (generators : List Comprehension)
  | await (extent : Extent) (value : Expr)
  | yield (extent : Extent) (value : Option Expr)
  | yieldFrom (extent : Extent) (value : Expr)
  | compare (extent : Extent) (left : Expr) (ops : List CompareOp) (comparators : List Expr)
  | call (extent : Extent) (func : Expr) (args : List Expr) (keywords : List Keyword)
  | formatted (extent : Extent) (value : Expr) (conversion : Option Conversion) (spec : Option Expr)
  | joined (extent : Extent) (values : List Expr)
  | constant (extent : Extent) (value : Constant)
  | attribute (extent : Extent) (value : Expr) (attr : Text) (ctx : Context)
  | subscript (extent : Extent) (value index : Expr) (ctx : Context)
  | starred (extent : Extent) (value : Expr) (ctx : Context)
  | name (extent : Extent) (id : Text) (ctx : Context)
  | list (extent : Extent) (elts : List Expr) (ctx : Context)
  | tuple (extent : Extent) (elts : List Expr) (ctx : Context)
  | slice (extent : Extent) (lower upper step : Option Expr)

/-- An entry of a dictionary display. -/
inductive Entry where
  | pair (key value : Expr)
  | unpack (value : Expr)

/-- A keyword argument; without a name it unpacks a mapping. -/
inductive Keyword where
  | mk (arg : Option Text) (value : Expr)

/-- One `for` clause of a comprehension with its conditions. -/
inductive Comprehension where
  | mk (target iter : Expr) (conditions : List Expr) (isAsync : Bool)

/-- A parameter with its type annotation and default value. -/
inductive Param where
  | mk (name : Text) (hint default : Option Expr)

/-- The parameters of a function: positional only, positional or by keyword, the collector of
further positional arguments, keyword only, the collector of further keyword arguments. -/
inductive Params where
  | mk (posOnly plain : List Param) (star : Option Param) (kwOnly : List Param)
      (doubleStar : Option Param)

end

/-- No parameters. -/
def Params.empty : Params := .mk [] [] none [] none

/-- The value that a pattern compares by identity. -/
inductive Singleton where
  | none
  | true
  | false
  deriving DecidableEq, Repr

mutual

inductive Pattern where
  /-- Stands where no pattern could be read. -/
  | error (extent : Extent)
  | value (extent : Extent) (value : Expr)
  | singleton (extent : Extent) (value : Singleton)
  | sequence (extent : Extent) (patterns : List Pattern)
  | mapping (extent : Extent) (entries : List PatternEntry) (rest : Option Text)
  | cls (extent : Extent) (cls : Expr) (patterns : List Pattern) (keywords : List PatternKeyword)
  | star (extent : Extent) (name : Option Text)
  | as (extent : Extent) (pattern : Option Pattern) (name : Option Text)
  | or (extent : Extent) (patterns : List Pattern)

/-- A key of a mapping pattern and the pattern of its value. -/
inductive PatternEntry where
  | mk (key : Expr) (pattern : Pattern)

/-- An attribute of a class pattern and its pattern. -/
inductive PatternKeyword where
  | mk (attr : Text) (pattern : Pattern)

end

/-- An item of a `with` statement. -/
structure WithItem where
  context : Expr
  target : Option Expr

/-- An imported name. -/
structure Alias where
  name : Text
  asName : Option Text
  deriving DecidableEq, Repr

mutual

inductive Stmt where
  | function (extent : Extent) (isAsync : Bool) (name : Text) (params : Params) (body : List Stmt)
      (decorators : List Expr) (returns : Option Expr)
  | classDef (extent : Extent) (name : Text) (bases : List Expr) (keywords : List Keyword)
      (body : List Stmt) (decorators : List Expr)
  | ret (extent : Extent) (value : Option Expr)
  | delete (extent : Extent) (targets : List Expr)
  | assign (extent : Extent) (targets : List Expr) (value : Expr)
  | augAssign (extent : Extent) (target : Expr) (op : BinaryOp) (value : Expr)
  | annAssign (extent : Extent) (target hint : Expr) (value : Option Expr) (simple : Bool)
  | forLoop (extent : Extent) (isAsync : Bool) (target iter : Expr) (body orelse : List Stmt)
  | whileLoop (extent : Extent) (test : Expr) (body orelse : List Stmt)
  | branch (extent : Extent) (test : Expr) (body orelse : List Stmt)
  | withBlock (extent : Extent) (isAsync : Bool) (items : List WithItem) (body : List Stmt)
  | matchBlock (extent : Extent) (subject : Expr) (cases : List MatchCase)
  | raise (extent : Extent) (exc cause : Option Expr)
  | tryBlock (extent : Extent) (isStar : Bool) (body : List Stmt) (handlers : List Handler)
      (orelse finalbody : List Stmt)
  | assertion (extent : Extent) (test : Expr) (message : Option Expr)
  | importNames (extent : Extent) (names : List Alias)
  | importFrom (extent : Extent) (module : Option Text) (names : List Alias) (level : Nat)
  | global (extent : Extent) (names : List Text)
  | nonlocal (extent : Extent) (names : List Text)
  | expr (extent : Extent) (value : Expr)
  | pass (extent : Extent)
  | breakLoop (extent : Extent)
  | continueLoop (extent : Extent)

/-- An `except` clause. -/
inductive Handler where
  | mk (type : Option Expr) (name : Option Text) (body : List Stmt)

/-- A `case` clause. -/
inductive MatchCase where
  | mk (pattern : Pattern) (guard : Option Expr) (body : List Stmt)

end

/-- A source file as a tree. -/
structure Module where
  extent : Extent
  body : List Stmt

def Expr.extent : Expr → Extent
  | .error x => x
  | .boolean x .. => x
  | .named x .. => x
  | .binary x .. => x
  | .unary x .. => x
  | .lambda x .. => x
  | .conditional x .. => x
  | .dict x .. => x
  | .set x .. => x
  | .listComp x .. => x
  | .setComp x .. => x
  | .dictComp x .. => x
  | .generator x .. => x
  | .await x .. => x
  | .yield x .. => x
  | .yieldFrom x .. => x
  | .compare x .. => x
  | .call x .. => x
  | .formatted x .. => x
  | .joined x .. => x
  | .constant x .. => x
  | .attribute x .. => x
  | .subscript x .. => x
  | .starred x .. => x
  | .name x .. => x
  | .list x .. => x
  | .tuple x .. => x
  | .slice x .. => x

def Pattern.extent : Pattern → Extent
  | .error x => x
  | .value x .. => x
  | .singleton x .. => x
  | .sequence x .. => x
  | .mapping x .. => x
  | .cls x .. => x
  | .star x .. => x
  | .as x .. => x
  | .or x .. => x

def Stmt.extent : Stmt → Extent
  | .function x .. => x
  | .classDef x .. => x
  | .ret x .. => x
  | .delete x .. => x
  | .assign x .. => x
  | .augAssign x .. => x
  | .annAssign x .. => x
  | .forLoop x .. => x
  | .whileLoop x .. => x
  | .branch x .. => x
  | .withBlock x .. => x
  | .matchBlock x .. => x
  | .raise x .. => x
  | .tryBlock x .. => x
  | .assertion x .. => x
  | .importNames x .. => x
  | .importFrom x .. => x
  | .global x .. => x
  | .nonlocal x .. => x
  | .expr x .. => x
  | .pass x => x
  | .breakLoop x => x
  | .continueLoop x => x

/-! ## Names of operators and kinds -/

def Context.label : Context → String
  | .load => "Load"
  | .store => "Store"
  | .delete => "Del"

def BoolOp.label : BoolOp → String
  | .and => "And"
  | .or => "Or"

def BinaryOp.label : BinaryOp → String
  | .add => "Add"
  | .sub => "Sub"
  | .mult => "Mult"
  | .matMult => "MatMult"
  | .div => "Div"
  | .mod => "Mod"
  | .pow => "Pow"
  | .shiftLeft => "LShift"
  | .shiftRight => "RShift"
  | .bitOr => "BitOr"
  | .bitXor => "BitXor"
  | .bitAnd => "BitAnd"
  | .floorDiv => "FloorDiv"

def UnaryOp.label : UnaryOp → String
  | .invert => "Invert"
  | .not => "Not"
  | .plus => "UAdd"
  | .minus => "USub"

def CompareOp.label : CompareOp → String
  | .eq => "Eq"
  | .notEq => "NotEq"
  | .lt => "Lt"
  | .ltEq => "LtE"
  | .gt => "Gt"
  | .gtEq => "GtE"
  | .is => "Is"
  | .isNot => "IsNot"
  | .isIn => "In"
  | .notIn => "NotIn"

def Expr.label : Expr → String
  | .error .. => "Error"
  | .boolean .. => "BoolOp"
  | .named .. => "NamedExpr"
  | .binary .. => "BinOp"
  | .unary .. => "UnaryOp"
  | .lambda .. => "Lambda"
  | .conditional .. => "IfExp"
  | .dict .. => "Dict"
  | .set .. => "Set"
  | .listComp .. => "ListComp"
  | .setComp .. => "SetComp"
  | .dictComp .. => "DictComp"
  | .generator .. => "GeneratorExp"
  | .await .. => "Await"
  | .yield .. => "Yield"
  | .yieldFrom .. => "YieldFrom"
  | .compare .. => "Compare"
  | .call .. => "Call"
  | .formatted .. => "FormattedValue"
  | .joined .. => "JoinedStr"
  | .constant .. => "Constant"
  | .attribute .. => "Attribute"
  | .subscript .. => "Subscript"
  | .starred .. => "Starred"
  | .name .. => "Name"
  | .list .. => "List"
  | .tuple .. => "Tuple"
  | .slice .. => "Slice"

def Pattern.label : Pattern → String
  | .error .. => "Error"
  | .value .. => "MatchValue"
  | .singleton .. => "MatchSingleton"
  | .sequence .. => "MatchSequence"
  | .mapping .. => "MatchMapping"
  | .cls .. => "MatchClass"
  | .star .. => "MatchStar"
  | .as .. => "MatchAs"
  | .or .. => "MatchOr"

def Stmt.label : Stmt → String
  | .function _ isAsync .. => if isAsync then "AsyncFunctionDef" else "FunctionDef"
  | .classDef .. => "ClassDef"
  | .ret .. => "Return"
  | .delete .. => "Delete"
  | .assign .. => "Assign"
  | .augAssign .. => "AugAssign"
  | .annAssign .. => "AnnAssign"
  | .forLoop _ isAsync .. => if isAsync then "AsyncFor" else "For"
  | .whileLoop .. => "While"
  | .branch .. => "If"
  | .withBlock _ isAsync .. => if isAsync then "AsyncWith" else "With"
  | .matchBlock .. => "Match"
  | .raise .. => "Raise"
  | .tryBlock _ isStar .. => if isStar then "TryStar" else "Try"
  | .assertion .. => "Assert"
  | .importNames .. => "Import"
  | .importFrom .. => "ImportFrom"
  | .global .. => "Global"
  | .nonlocal .. => "Nonlocal"
  | .expr .. => "Expr"
  | .pass .. => "Pass"
  | .breakLoop .. => "Break"
  | .continueLoop .. => "Continue"

end CloneScout
