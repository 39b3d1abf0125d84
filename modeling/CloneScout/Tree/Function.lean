import CloneScout.Tree.Basic

/-!
# Functions of a module

The functions that a module defines at its top level and in classes, with the classes they lie in.
Branches, loops and other blocks are searched; the bodies of functions are not.
-/

namespace CloneScout

/-- The statements start with a text literal on its own. -/
def startsWithDocstring : List Stmt → Bool
  | .expr _ (.constant _ (.text _ _)) :: _ => true
  | _ => false

/-- The statements without a text literal on its own in front. -/
def withoutDocstring (body : List Stmt) : List Stmt :=
  if startsWithDocstring body then body.drop 1 else body

/-- The body of a function definition. -/
def Stmt.functionBody : Stmt → List Stmt
  | .function _ _ _ _ body _ _ => body
  | _ => []

/-- A function definition, and its name behind the names of the classes around it. -/
structure Function where
  localName : Text
  definition : Stmt

namespace Function

def body (f : Function) : List Stmt := f.definition.functionBody

def line (f : Function) : Nat := f.definition.extent.line

def endLine (f : Function) : Nat := f.definition.extent.endLine

/-- The first and the last line are known and in order. -/
def isPlaced (f : Function) : Bool := f.line ≠ 0 && f.endLine ≠ 0 && f.line ≤ f.endLine

/-- The lines from the first to the last. -/
def loc (f : Function) : Nat := f.endLine - f.line + 1

/-- A name behind the names of the classes around it, the outermost first. -/
def qualify (scope : List Text) (name : Text) : Text := Text.join (utf8 ".") (scope ++ [name])

mutual

/-- The functions defined by a statement in the given classes. -/
def ofStmt (scope : List Text) : Stmt → List Function
  | .function x isAsync name params body decorators returns =>
    [⟨qualify scope name, .function x isAsync name params body decorators returns⟩]
  | .classDef _ name _ _ body _ => ofStmts (scope ++ [name]) body
  | .withBlock _ _ _ body => ofStmts scope body
  | .branch _ _ body orelse => ofStmts scope body ++ ofStmts scope orelse
  | .whileLoop _ _ body orelse => ofStmts scope body ++ ofStmts scope orelse
  | .forLoop _ _ _ _ body orelse => ofStmts scope body ++ ofStmts scope orelse
  | .tryBlock _ _ body handlers orelse finalbody =>
    ofStmts scope body ++ ofHandlers scope handlers ++ ofStmts scope orelse ++
      ofStmts scope finalbody
  | .matchBlock _ _ cases => ofCases scope cases
  | _ => []

def ofStmts (scope : List Text) : List Stmt → List Function
  | [] => []
  | s :: rest => ofStmt scope s ++ ofStmts scope rest

def ofHandlers (scope : List Text) : List Handler → List Function
  | [] => []
  | .mk _ _ body :: rest => ofStmts scope body ++ ofHandlers scope rest

def ofCases (scope : List Text) : List MatchCase → List Function
  | [] => []
  | .mk _ _ body :: rest => ofStmts scope body ++ ofCases scope rest

end

def ofModule (m : Module) : List Function := ofStmts [] m.body

end Function

end CloneScout
