import CloneScout.Tree.Walk
import CloneScout.Flow.Graph

/-!
# Flow of control through statements

The graph of a list of statements. Branches, loops, `with`, `try` and `match` open blocks of their
own; `return`, `raise`, `break` and `continue` end the current block, and what follows them in the
same list is left out. Inside `try`, control may go on to the first handler before every statement
that can raise an exception.
-/

namespace CloneScout.Flow

/-- Expressions whose evaluation can raise an exception. -/
def raises : Node → Bool
  | .expr (.call ..) => true
  | .expr (.attribute ..) => true
  | .expr (.subscript ..) => true
  | .expr (.await ..) => true
  | .expr (.yieldFrom ..) => true
  | _ => false

/-- The statement raises an exception or holds an expression that can. -/
def canRaise (s : Stmt) : Bool :=
  match s with
  | .raise .. => true
  | s => (Walk.stmt 0 s).any fun v => raises v.node

/-- Where `continue` and `break` lead. -/
structure Loop where
  again : Nat
  done : Nat

/-- A graph under construction and the block that takes the next statement. -/
structure Builder where
  graph : Graph := {}
  current : Nat := entryBlock

namespace Builder

/-- Opens `n` new blocks. -/
def create : (n : Nat) → Builder → Builder
  | 0, b => b
  | n + 1, b => create n { b with graph := b.graph.create }

/-- Goes on in the given block. -/
def goto (i : Nat) (b : Builder) : Builder := { b with current := i }

def edge (start stop : Nat) (b : Builder) : Builder := { b with graph := b.graph.edge start stop }

def append (i : Nat) (e : Entry) (b : Builder) : Builder := { b with graph := b.graph.append i e }

def isTerminated (b : Builder) : Bool := b.graph.isTerminated b.current

/-- Leads from the current block to another one unless it has ended. -/
def flowTo (i : Nat) (b : Builder) : Builder := if b.isTerminated then b else b.edge b.current i

/-- Ends the current block with a jump. -/
def jump (s : Stmt) (i : Nat) (b : Builder) : Builder :=
  let g := ((b.graph.append b.current (.stmt s)).terminate b.current).edge b.current i
  { b with graph := g }

/-- Evaluates the operands of a boolean operator from block `i` on, each but the last in front of a
new block. -/
def operands (op : BoolOp) (yes no : Nat) : (i : Nat) → List Expr → Builder → Builder
  | _, [], b => b
  | i, [e], b => ((b.append i (.expr e)).edge i yes).edge i no
  | i, e :: rest, b =>
    let next := b.graph.size
    let early := match op with
      | .and => no
      | .or => yes
    let b := (((b.append i (.expr e)).create 1).edge i next).edge i early
    operands op yes no next rest b

/-- Evaluates a condition in the current block and leads to the block `yes` or `no`. -/
def condition (test : Expr) (yes no : Nat) (b : Builder) : Builder :=
  match test with
  | .boolean _ op values => operands op yes no b.current values b
  | e => ((b.append b.current (.expr e)).edge b.current yes).edge b.current no

/-- The remarks of a handler: its number and the type it asks for. -/
def handlerRemarks (i : Nat) : Handler → List Text
  | .mk type _ _ =>
    [utf8 "TRY_HANDLER_INDEX:" ++ Text.ofNat i,
      utf8 "TRY_HANDLER_TYPE:" ++ type.elim (utf8 "BARE") (Dump.exprText false)]

def appendRemarks (i : Nat) (remarks : List Text) (b : Builder) : Builder :=
  remarks.foldl (fun b t => b.append i (.remark t)) b

/-- Fills the test blocks of handlers. The block `test` asks for handler number `i`, leads to the
block `body` and to the next test; the last one leads to `done`. -/
def handlerTests (done : Nat) :
    (i test body : Nat) → List Handler → Builder → Builder
  | _, _, _, [], b => b
  | i, test, body, h :: rest, b =>
    let next := if rest.isEmpty then done else test + 1
    handlerTests done (i + 1) (test + 1) (body + 1) rest
      (((appendRemarks test (handlerRemarks i h) b).edge test body).edge test next)

/-- The remarks of a case: its number and its pattern. -/
def caseRemarks (i : Nat) (p : Pattern) : List Text :=
  [utf8 "MATCH_CASE_INDEX:" ++ Text.ofNat i, utf8 "MATCH_PATTERN:" ++ Dump.patternText false p]

mutual

/-- Adds a statement to the current block, with further blocks where it needs them. -/
def stmt (loop : Option Loop) (s : Stmt) (b : Builder) : Builder :=
  match s with
  | .ret .. => b.jump s exitBlock
  | .raise .. => b.jump s exitBlock
  | .breakLoop .. => b.jump s (loop.elim exitBlock Loop.done)
  | .continueLoop .. => b.jump s (loop.elim exitBlock Loop.again)
  | .branch _ test body orelse =>
    let yes := b.graph.size
    let no := yes + 1
    let done := yes + 2
    let b := (b.create 3).condition test yes no
    let b := (stmts loop body (b.goto yes)).flowTo done
    let b := (stmts loop orelse (b.goto no)).flowTo done
    b.goto done
  | .whileLoop _ test body orelse =>
    let again := b.graph.size
    let inside := again + 1
    let other := again + 2
    let done := if orelse.isEmpty then again + 2 else again + 3
    let b := (b.create (done + 1 - again)).edge b.current again
    let b := (b.goto again).condition test inside (if orelse.isEmpty then done else other)
    let b := (stmts (some ⟨again, done⟩) body (b.goto inside)).flowTo again
    let b := if orelse.isEmpty then b else (stmts loop orelse (b.goto other)).flowTo done
    b.goto done
  | .forLoop _ _ _ iter body orelse =>
    let again := b.graph.size
    let inside := again + 1
    let other := again + 2
    let done := if orelse.isEmpty then again + 2 else again + 3
    let b := (b.create (done + 1 - again)).edge b.current again
    let b := ((b.append again (.expr iter)).edge again inside).edge again
      (if orelse.isEmpty then done else other)
    let b := (stmts (some ⟨again, done⟩) body (b.goto inside)).flowTo again
    let b := if orelse.isEmpty then b else (stmts loop orelse (b.goto other)).flowTo done
    b.goto done
  | .withBlock _ _ items body =>
    let inside := b.graph.size
    let done := inside + 1
    let b := items.foldl (fun b w => b.append b.current (.expr w.context)) (b.create 2)
    let b := (stmts loop body ((b.edge b.current inside).goto inside)).flowTo done
    b.goto done
  | .tryBlock _ _ body handlers orelse finalbody =>
    let start := b.graph.size
    let tests := start + 1
    let bodies := tests + handlers.length
    let other := bodies + handlers.length
    let done := if orelse.isEmpty then other else other + 1
    let b := (b.create (done + 1 - start)).edge b.current start
    let b := handlerTests done 0 tests bodies handlers (b.goto start)
    let test := if handlers.isEmpty then none else some tests
    let b := (tryStmts loop test body b).flowTo (if orelse.isEmpty then done else other)
    let b := handlerBodies loop done bodies handlers b
    let b := if orelse.isEmpty then b else (stmts loop orelse (b.goto other)).flowTo done
    stmts loop finalbody (b.goto done)
  | .matchBlock _ subject cs =>
    let b := b.append b.current (.expr subject)
    let done := b.graph.size
    (cases loop done 0 b.current cs (b.create 1)).goto done
  | s => b.append b.current (.stmt s)

/-- Adds statements until the current block has ended. -/
def stmts (loop : Option Loop) : List Stmt → Builder → Builder
  | [], b => b
  | s :: rest, b => if b.isTerminated then b else stmts loop rest (stmt loop s b)

/-- Adds the statements of a `try` body; one that can raise may lead to the first handler. -/
def tryStmts (loop : Option Loop) (test : Option Nat) : List Stmt → Builder → Builder
  | [], b => b
  | s :: rest, b =>
    if b.isTerminated then b
    else
      let b := match test with
        | some i => if canRaise s then b.edge b.current i else b
        | none => b
      tryStmts loop test rest (stmt loop s b)

/-- Adds the bodies of handlers, in blocks numbered from `i` on; each leads to `done`. -/
def handlerBodies (loop : Option Loop) (done : Nat) : (i : Nat) → List Handler → Builder → Builder
  | _, [], b => b
  | i, .mk _ _ body :: rest, b =>
    handlerBodies loop done (i + 1) rest ((stmts loop body (b.goto i)).flowTo done)

/-- Adds the cases from number `i` on. Each has a test block, which the one before leads to, and a
block for its body; the last test leads to `done`. -/
def cases (loop : Option Loop) (done : Nat) :
    (i before : Nat) → List MatchCase → Builder → Builder
  | _, before, [], b => b.edge before done
  | i, before, .mk p guard body :: rest, b =>
    let test := b.graph.size
    let inside := test + 1
    let b := appendRemarks test (caseRemarks i p) ((b.create 2).edge before test)
    let b := guard.elim b fun e => b.append test (.expr e)
    let b := (stmts loop body ((b.edge test inside).goto inside)).flowTo done
    cases loop done (i + 1) test rest b

end

end Builder

/-- The graph of a list of statements. -/
def Graph.ofBody (body : List Stmt) : Graph :=
  ((Builder.stmts none body {}).flowTo exitBlock).graph

/-- The graph of a function's body, without its docstring if that is irrelevant. -/
def Graph.ofFunction (ignoreDocstrings : Bool) (body : List Stmt) : Graph :=
  .ofBody (if ignoreDocstrings then withoutDocstring body else body)

end CloneScout.Flow
