import CloneScout.Number.Literal
import CloneScout.Number.Shortest
import CloneScout.Tree.Basic
import CloneScout.Tree.Document

/-!
# Trees as documents

A node of a tree is a node of the document, with its kind and its fields. The document does not
depend on extents.
-/

namespace CloneScout.Dump

open Document (bare list quoted atom)

/-! ## Leaves -/

def flag (b : Bool) : Document := atom (utf8 (if b then "1" else "0"))

def words (ts : List Text) : Document := list (ts.map quoted)

def constant : Constant → Document
  | .none => atom (utf8 "None")
  | .true => atom (utf8 "True")
  | .false => atom (utf8 "False")
  | .ellipsis => atom (utf8 "Ellipsis")
  | .int value => atom (Text.ofNat value)
  | .float digits => atom (Shortest.text (FloatLiteral.value digits))
  | .imaginary digits => atom (Shortest.imaginary (FloatLiteral.value digits))
  | .text value _ => quoted value
  | .bytes value => .bytes value

/-- The mark of a text literal that was written with a `u` in front. -/
def mark : Constant → Option Document
  | .text _ true => some (quoted (utf8 "u"))
  | _ => none

def conversion : Option Conversion → Document
  | none => atom (utf8 "-1")
  | some .str => atom (utf8 "115")
  | some .repr => atom (utf8 "114")
  | some .ascii => atom (utf8 "97")

def singleton : Singleton → Document
  | .none => atom (utf8 "None")
  | .true => atom (utf8 "True")
  | .false => atom (utf8 "False")

/-! ## Expressions -/

mutual

def expr : Expr → Document
  | .error _ => bare "Error"
  | .boolean _ op values => .node "BoolOp" [("op", bare op.label), ("values", list (exprs values))]
  | .named _ target value => .node "NamedExpr" [("target", expr target), ("value", expr value)]
  | .binary _ left op right =>
    .node "BinOp" [("left", expr left), ("op", bare op.label), ("right", expr right)]
  | .unary _ op operand => .node "UnaryOp" [("op", bare op.label), ("operand", expr operand)]
  | .lambda _ ps body => .node "Lambda" [("args", params ps), ("body", expr body)]
  | .conditional _ test body orelse =>
    .node "IfExp" [("test", expr test), ("body", expr body), ("orelse", expr orelse)]
  | .dict _ entries =>
    .node "Dict" [("keys", list (keys entries)), ("values", list (values entries))]
  | .set _ elts => .node "Set" [("elts", list (exprs elts))]
  | .listComp _ elt gens =>
    .node "ListComp" [("elt", expr elt), ("generators", list (comprehensions gens))]
  | .setComp _ elt gens =>
    .node "SetComp" [("elt", expr elt), ("generators", list (comprehensions gens))]
  | .dictComp _ key value gens =>
    .node "DictComp" [("key", expr key), ("value", expr value),
      ("generators", list (comprehensions gens))]
  | .generator _ elt gens =>
    .node "GeneratorExp" [("elt", expr elt), ("generators", list (comprehensions gens))]
  | .await _ value => .node "Await" [("value", expr value)]
  | .yield _ value => .node "Yield" [("value", optExpr value)]
  | .yieldFrom _ value => .node "YieldFrom" [("value", expr value)]
  | .compare _ left ops comparators =>
    .node "Compare" [("left", expr left), ("ops", list (ops.map fun op => bare op.label)),
      ("comparators", list (exprs comparators))]
  | .call _ func args kws =>
    .node "Call" [("func", expr func), ("args", list (exprs args)),
      ("keywords", list (keywords kws))]
  | .formatted _ value conv spec =>
    .node "FormattedValue" [("value", expr value), ("conversion", conversion conv),
      ("format_spec", optExpr spec)]
  | .joined _ values => .node "JoinedStr" [("values", list (exprs values))]
  | .constant _ value => .node "Constant" [("value", constant value), ("kind", mark value)]
  | .attribute _ value attr ctx =>
    .node "Attribute" [("value", expr value), ("attr", quoted attr), ("ctx", bare ctx.label)]
  | .subscript _ value index ctx =>
    .node "Subscript" [("value", expr value), ("slice", expr index), ("ctx", bare ctx.label)]
  | .starred _ value ctx => .node "Starred" [("value", expr value), ("ctx", bare ctx.label)]
  | .name _ id ctx => .node "Name" [("id", quoted id), ("ctx", bare ctx.label)]
  | .list _ elts ctx => .node "List" [("elts", list (exprs elts)), ("ctx", bare ctx.label)]
  | .tuple _ elts ctx => .node "Tuple" [("elts", list (exprs elts)), ("ctx", bare ctx.label)]
  | .slice _ lower upper step =>
    .node "Slice" [("lower", optExpr lower), ("upper", optExpr upper), ("step", optExpr step)]

def exprs : List Expr → List Document
  | [] => []
  | e :: rest => expr e :: exprs rest

def optExpr : Option Expr → Option Document
  | none => none
  | some e => some (expr e)

/-- The keys of a dictionary display; an unpacked mapping has none. -/
def keys : List Entry → List Document
  | [] => []
  | .pair key _ :: rest => expr key :: keys rest
  | .unpack _ :: rest => atom (utf8 "None") :: keys rest

def values : List Entry → List Document
  | [] => []
  | .pair _ value :: rest => expr value :: values rest
  | .unpack value :: rest => expr value :: values rest

def keywords : List Keyword → List Document
  | [] => []
  | .mk arg value :: rest =>
    .node "keyword" [("arg", arg.map quoted), ("value", expr value)] :: keywords rest

def comprehensions : List Comprehension → List Document
  | [] => []
  | .mk target iter conditions isAsync :: rest =>
    .node "comprehension" [("target", expr target), ("iter", expr iter),
      ("ifs", list (exprs conditions)), ("is_async", flag isAsync)] ::
      comprehensions rest

def param : Param → Document
  | .mk id hint _ => .node "arg" [("arg", quoted id), ("annotation", optExpr hint)]

def optParam : Option Param → Option Document
  | none => none
  | some p => some (param p)

def paramList : List Param → List Document
  | [] => []
  | p :: rest => param p :: paramList rest

/-- The default values of parameters that have one. -/
def defaults : List Param → List Document
  | [] => []
  | .mk _ _ none :: rest => defaults rest
  | .mk _ _ (some value) :: rest => expr value :: defaults rest

/-- The default values of keyword-only parameters, one for each. -/
def kwDefaults : List Param → List Document
  | [] => []
  | .mk _ _ none :: rest => atom (utf8 "None") :: kwDefaults rest
  | .mk _ _ (some value) :: rest => expr value :: kwDefaults rest

def params : Params → Document
  | .mk posOnly plain star kwOnly doubleStar =>
    .node "arguments" [("posonlyargs", list (paramList posOnly)), ("args", list (paramList plain)),
      ("vararg", optParam star), ("kwonlyargs", list (paramList kwOnly)),
      ("kw_defaults", list (kwDefaults kwOnly)), ("kwarg", optParam doubleStar),
      ("defaults", list (defaults posOnly ++ defaults plain))]

end

/-! ## Patterns -/

mutual

def pattern : Pattern → Document
  | .error _ => bare "Error"
  | .value _ value => .node "MatchValue" [("value", expr value)]
  | .singleton _ value => .node "MatchSingleton" [("value", singleton value)]
  | .sequence _ ps => .node "MatchSequence" [("patterns", list (patterns ps))]
  | .mapping _ entries rest =>
    .node "MatchMapping"
      [("keys", list (patternKeys entries)), ("patterns", list (patternValues entries)),
        ("rest", rest.map quoted)]
  | .cls _ cls ps kws =>
    .node "MatchClass" [("cls", expr cls), ("patterns", list (patterns ps)),
      ("kwd_attrs", words (patternAttrs kws)), ("kwd_patterns", list (keywordPatterns kws))]
  | .star _ id => .node "MatchStar" [("name", id.map quoted)]
  | .as _ p id => .node "MatchAs" [("pattern", optPattern p), ("name", id.map quoted)]
  | .or _ ps => .node "MatchOr" [("patterns", list (patterns ps))]

def patterns : List Pattern → List Document
  | [] => []
  | p :: rest => pattern p :: patterns rest

def optPattern : Option Pattern → Option Document
  | none => none
  | some p => some (pattern p)

def patternKeys : List PatternEntry → List Document
  | [] => []
  | .mk key _ :: rest => expr key :: patternKeys rest

def patternValues : List PatternEntry → List Document
  | [] => []
  | .mk _ p :: rest => pattern p :: patternValues rest

def patternAttrs : List PatternKeyword → List Text
  | [] => []
  | .mk attr _ :: rest => attr :: patternAttrs rest

def keywordPatterns : List PatternKeyword → List Document
  | [] => []
  | .mk _ p :: rest => pattern p :: keywordPatterns rest

end

/-! ## Statements -/

def withItem (w : WithItem) : Document :=
  .node "withitem" [("context_expr", expr w.context), ("optional_vars", optExpr w.target)]

def importedName (a : Alias) : Document :=
  .node "alias" [("name", quoted a.name), ("asname", a.asName.map quoted)]

mutual

def stmt : Stmt → Document
  | .function _ isAsync id ps body decorators returns =>
    .node (if isAsync then "AsyncFunctionDef" else "FunctionDef")
      [("name", quoted id), ("args", params ps), ("body", list (stmts body)),
        ("decorator_list", list (exprs decorators)), ("returns", optExpr returns)]
  | .classDef _ id bases kws body decorators =>
    .node "ClassDef" [("name", quoted id), ("bases", list (exprs bases)),
      ("keywords", list (keywords kws)), ("body", list (stmts body)),
      ("decorator_list", list (exprs decorators))]
  | .ret _ value => .node "Return" [("value", optExpr value)]
  | .delete _ targets => .node "Delete" [("targets", list (exprs targets))]
  | .assign _ targets value =>
    .node "Assign" [("targets", list (exprs targets)), ("value", expr value)]
  | .augAssign _ target op value =>
    .node "AugAssign" [("target", expr target), ("op", bare op.label), ("value", expr value)]
  | .annAssign _ target hint value simple =>
    .node "AnnAssign" [("target", expr target), ("annotation", expr hint),
      ("value", optExpr value), ("simple", flag simple)]
  | .forLoop _ isAsync target iter body orelse =>
    .node (if isAsync then "AsyncFor" else "For")
      [("target", expr target), ("iter", expr iter), ("body", list (stmts body)),
        ("orelse", list (stmts orelse))]
  | .whileLoop _ test body orelse =>
    .node "While" [("test", expr test), ("body", list (stmts body)),
      ("orelse", list (stmts orelse))]
  | .branch _ test body orelse =>
    .node "If" [("test", expr test), ("body", list (stmts body)), ("orelse", list (stmts orelse))]
  | .withBlock _ isAsync items body =>
    .node (if isAsync then "AsyncWith" else "With")
      [("items", list (items.map withItem)), ("body", list (stmts body))]
  | .matchBlock _ subject cs =>
    .node "Match" [("subject", expr subject), ("cases", list (cases cs))]
  | .raise _ exc cause => .node "Raise" [("exc", optExpr exc), ("cause", optExpr cause)]
  | .tryBlock _ isStar body hs orelse finalbody =>
    .node (if isStar then "TryStar" else "Try")
      [("body", list (stmts body)), ("handlers", list (handlers hs)),
        ("orelse", list (stmts orelse)), ("finalbody", list (stmts finalbody))]
  | .assertion _ test message => .node "Assert" [("test", expr test), ("msg", optExpr message)]
  | .importNames _ names => .node "Import" [("names", list (names.map importedName))]
  | .importFrom _ module names level =>
    .node "ImportFrom" [("module", module.map quoted), ("names", list (names.map importedName)),
      ("level", atom (Text.ofNat level))]
  | .global _ names => .node "Global" [("names", words names)]
  | .nonlocal _ names => .node "Nonlocal" [("names", words names)]
  | .expr _ value => .node "Expr" [("value", expr value)]
  | .pass _ => bare "Pass"
  | .breakLoop _ => bare "Break"
  | .continueLoop _ => bare "Continue"

def stmts : List Stmt → List Document
  | [] => []
  | s :: rest => stmt s :: stmts rest

def handlers : List Handler → List Document
  | [] => []
  | .mk type id body :: rest =>
    .node "ExceptHandler" [("type", optExpr type), ("name", id.map quoted),
      ("body", list (stmts body))] ::
      handlers rest

def cases : List MatchCase → List Document
  | [] => []
  | .mk p guard body :: rest =>
    .node "match_case" [("pattern", pattern p), ("guard", optExpr guard),
      ("body", list (stmts body))] ::
      cases rest

end

def module (m : Module) : Document :=
  .node "Module" [("body", list (stmts m.body)), ("type_ignores", list [])]

/-! ## Texts -/

def exprText (named : Bool) (e : Expr) : Text := (expr e).toText named

def patternText (named : Bool) (p : Pattern) : Text := (pattern p).toText named

def stmtText (named : Bool) (s : Stmt) : Text := (stmt s).toText named

def moduleText (named : Bool) (m : Module) : Text := (module m).toText named

/-! ## Stable form

Calls and classes without keyword arguments are written without their empty list of keywords. -/

/-- Takes out every empty list of keywords, wherever it stands in the text. -/
def withoutEmptyKeywords (t : Text) : Text := Text.replaceAll (utf8 ", keywords=[]") [] t

def stableExpr (e : Expr) : Text := withoutEmptyKeywords (exprText true e)

def stableStmt (s : Stmt) : Text := withoutEmptyKeywords (stmtText true s)

def stableModule (m : Module) : Text := withoutEmptyKeywords (moduleText true m)

end CloneScout.Dump
