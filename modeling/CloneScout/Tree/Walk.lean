import CloneScout.Tree.Basic

/-!
# Walking through a tree

The nodes of a tree in the order in which a reader enters them, each with its depth: a node comes
before its children, and children come in the order of their fields. Nested functions, classes and
lambdas are walked through too.
-/

namespace CloneScout

/-- A node of a tree, of any sort. -/
inductive Node where
  | module (m : Module)
  | stmt (s : Stmt)
  | pattern (p : Pattern)
  | expr (e : Expr)

namespace Node

def extent : Node → Extent
  | .module m => m.extent
  | .stmt s => s.extent
  | .pattern p => p.extent
  | .expr e => e.extent

def label : Node → String
  | .module _ => "Module"
  | .stmt s => s.label
  | .pattern p => p.label
  | .expr e => e.label

end Node

/-- A node and how many nodes it lies in. -/
structure Visit where
  depth : Nat
  node : Node

namespace Walk

mutual

def expr (d : Nat) (e : Expr) : List Visit :=
  ⟨d, .expr e⟩ ::
    match e with
    | .error _ => []
    | .boolean _ _ values => exprs (d + 1) values
    | .named _ target value => expr (d + 1) target ++ expr (d + 1) value
    | .binary _ left _ right => expr (d + 1) left ++ expr (d + 1) right
    | .unary _ _ operand => expr (d + 1) operand
    | .lambda _ ps body => params (d + 1) ps ++ expr (d + 1) body
    | .conditional _ test body orelse =>
      expr (d + 1) test ++ expr (d + 1) body ++ expr (d + 1) orelse
    | .dict _ entries => keys (d + 1) entries ++ values (d + 1) entries
    | .set _ elts => exprs (d + 1) elts
    | .listComp _ elt gens => expr (d + 1) elt ++ comprehensions (d + 1) gens
    | .setComp _ elt gens => expr (d + 1) elt ++ comprehensions (d + 1) gens
    | .dictComp _ key value gens =>
      expr (d + 1) key ++ expr (d + 1) value ++ comprehensions (d + 1) gens
    | .generator _ elt gens => expr (d + 1) elt ++ comprehensions (d + 1) gens
    | .await _ value => expr (d + 1) value
    | .yield _ value => optExpr (d + 1) value
    | .yieldFrom _ value => expr (d + 1) value
    | .compare _ left _ comparators => expr (d + 1) left ++ exprs (d + 1) comparators
    | .call _ func args kws => expr (d + 1) func ++ exprs (d + 1) args ++ keywords (d + 1) kws
    | .formatted _ value _ spec => expr (d + 1) value ++ optExpr (d + 1) spec
    | .joined _ values => exprs (d + 1) values
    | .constant _ _ => []
    | .attribute _ value _ _ => expr (d + 1) value
    | .subscript _ value index _ => expr (d + 1) value ++ expr (d + 1) index
    | .starred _ value _ => expr (d + 1) value
    | .name _ _ _ => []
    | .list _ elts _ => exprs (d + 1) elts
    | .tuple _ elts _ => exprs (d + 1) elts
    | .slice _ lower upper step =>
      optExpr (d + 1) lower ++ optExpr (d + 1) upper ++ optExpr (d + 1) step

def exprs (d : Nat) : List Expr → List Visit
  | [] => []
  | e :: rest => expr d e ++ exprs d rest

def optExpr (d : Nat) : Option Expr → List Visit
  | none => []
  | some e => expr d e

def keys (d : Nat) : List Entry → List Visit
  | [] => []
  | .pair key _ :: rest => expr d key ++ keys d rest
  | .unpack _ :: rest => keys d rest

def values (d : Nat) : List Entry → List Visit
  | [] => []
  | .pair _ value :: rest => expr d value ++ values d rest
  | .unpack value :: rest => expr d value ++ values d rest

def keywords (d : Nat) : List Keyword → List Visit
  | [] => []
  | .mk _ value :: rest => expr d value ++ keywords d rest

def comprehensions (d : Nat) : List Comprehension → List Visit
  | [] => []
  | .mk target iter conditions _ :: rest =>
    expr d target ++ expr d iter ++ exprs d conditions ++ comprehensions d rest

/-- The annotations of parameters. -/
def hints (d : Nat) : List Param → List Visit
  | [] => []
  | .mk _ hint _ :: rest => optExpr d hint ++ hints d rest

def optHint (d : Nat) : Option Param → List Visit
  | none => []
  | some (.mk _ hint _) => optExpr d hint

/-- The default values of parameters. -/
def defaults (d : Nat) : List Param → List Visit
  | [] => []
  | .mk _ _ value :: rest => optExpr d value ++ defaults d rest

def params (d : Nat) : Params → List Visit
  | .mk posOnly plain star kwOnly doubleStar =>
    hints d posOnly ++ hints d plain ++ optHint d star ++ hints d kwOnly ++ defaults d kwOnly ++
      optHint d doubleStar ++ defaults d posOnly ++ defaults d plain

end

mutual

def pattern (d : Nat) (p : Pattern) : List Visit :=
  ⟨d, .pattern p⟩ ::
    match p with
    | .error _ => []
    | .value _ value => expr (d + 1) value
    | .singleton _ _ => []
    | .sequence _ ps => patterns (d + 1) ps
    | .mapping _ entries _ => patternKeys (d + 1) entries ++ patternValues (d + 1) entries
    | .cls _ cls ps kws =>
      expr (d + 1) cls ++ patterns (d + 1) ps ++ keywordPatterns (d + 1) kws
    | .star _ _ => []
    | .as _ p _ => optPattern (d + 1) p
    | .or _ ps => patterns (d + 1) ps

def patterns (d : Nat) : List Pattern → List Visit
  | [] => []
  | p :: rest => pattern d p ++ patterns d rest

def optPattern (d : Nat) : Option Pattern → List Visit
  | none => []
  | some p => pattern d p

def patternKeys (d : Nat) : List PatternEntry → List Visit
  | [] => []
  | .mk key _ :: rest => expr d key ++ patternKeys d rest

def patternValues (d : Nat) : List PatternEntry → List Visit
  | [] => []
  | .mk _ p :: rest => pattern d p ++ patternValues d rest

def keywordPatterns (d : Nat) : List PatternKeyword → List Visit
  | [] => []
  | .mk _ p :: rest => pattern d p ++ keywordPatterns d rest

end

def withItem (d : Nat) (w : WithItem) : List Visit := expr d w.context ++ optExpr d w.target

mutual

def stmt (d : Nat) (s : Stmt) : List Visit :=
  ⟨d, .stmt s⟩ ::
    match s with
    | .function _ _ _ ps body decorators returns =>
      params (d + 1) ps ++ stmts (d + 1) body ++ exprs (d + 1) decorators ++ optExpr (d + 1) returns
    | .classDef _ _ bases kws body decorators =>
      exprs (d + 1) bases ++ keywords (d + 1) kws ++ stmts (d + 1) body ++ exprs (d + 1) decorators
    | .ret _ value => optExpr (d + 1) value
    | .delete _ targets => exprs (d + 1) targets
    | .assign _ targets value => exprs (d + 1) targets ++ expr (d + 1) value
    | .augAssign _ target _ value => expr (d + 1) target ++ expr (d + 1) value
    | .annAssign _ target hint value _ =>
      expr (d + 1) target ++ expr (d + 1) hint ++ optExpr (d + 1) value
    | .forLoop _ _ target iter body orelse =>
      expr (d + 1) target ++ expr (d + 1) iter ++ stmts (d + 1) body ++ stmts (d + 1) orelse
    | .whileLoop _ test body orelse =>
      expr (d + 1) test ++ stmts (d + 1) body ++ stmts (d + 1) orelse
    | .branch _ test body orelse => expr (d + 1) test ++ stmts (d + 1) body ++ stmts (d + 1) orelse
    | .withBlock _ _ items body => items.flatMap (withItem (d + 1)) ++ stmts (d + 1) body
    | .matchBlock _ subject cs => expr (d + 1) subject ++ cases (d + 1) cs
    | .raise _ exc cause => optExpr (d + 1) exc ++ optExpr (d + 1) cause
    | .tryBlock _ _ body hs orelse finalbody =>
      stmts (d + 1) body ++ handlers (d + 1) hs ++ stmts (d + 1) orelse ++ stmts (d + 1) finalbody
    | .assertion _ test message => expr (d + 1) test ++ optExpr (d + 1) message
    | .importNames _ _ => []
    | .importFrom _ _ _ _ => []
    | .global _ _ => []
    | .nonlocal _ _ => []
    | .expr _ value => expr (d + 1) value
    | .pass _ => []
    | .breakLoop _ => []
    | .continueLoop _ => []

def stmts (d : Nat) : List Stmt → List Visit
  | [] => []
  | s :: rest => stmt d s ++ stmts d rest

def handlers (d : Nat) : List Handler → List Visit
  | [] => []
  | .mk type _ body :: rest => optExpr d type ++ stmts d body ++ handlers d rest

def cases (d : Nat) : List MatchCase → List Visit
  | [] => []
  | .mk p guard body :: rest => pattern d p ++ optExpr d guard ++ stmts d body ++ cases d rest

end

def module (m : Module) : List Visit := ⟨0, .module m⟩ :: stmts 1 m.body

end Walk

end CloneScout
