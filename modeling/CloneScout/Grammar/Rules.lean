import CloneScout.Grammar.State

/-!
# Recursion of the grammar

Rules refer to each other in circles. Each rule is written over the rules that it comes back to,
which are given to it as a value; the circle is closed elsewhere, once for all rules.
-/

namespace CloneScout.Grammar

/-- What the grammar comes back to inside brackets, blocks and operands. -/
inductive Goal where
  | expression
  | disjunction
  | inversion
  /-- Operators that bind at least as tightly as `floor`. -/
  | arithmetic (floor : Nat)
  | factor
  | pattern
  | statement
  /-- An `if` statement from its `if` or `elif` on. -/
  | branch
  deriving DecidableEq, Repr

abbrev Goal.Result : Goal → Type
  | .expression => Expr
  | .disjunction => Expr
  | .inversion => Expr
  | .arithmetic _ => Expr
  | .factor => Expr
  | .pattern => Pattern
  | .statement => List Stmt
  | .branch => Stmt

/-- A reader for the replacement fields of a string token: it gets the token, the offset and the
line where the field's expression starts, and the text of the expression. -/
abbrev FieldReader := (token : Token) → (offset line : Nat) → (text : Text) → Parser Expr

/-- The rules to come back to, and the reader for replacement fields. -/
structure Rules where
  recur : (g : Goal) → Parser g.Result
  field : FieldReader

namespace Rules

abbrev expression (r : Rules) : Parser Expr := r.recur .expression

abbrev disjunction (r : Rules) : Parser Expr := r.recur .disjunction

abbrev inversion (r : Rules) : Parser Expr := r.recur .inversion

abbrev arithmetic (r : Rules) (floor : Nat) : Parser Expr := r.recur (.arithmetic floor)

abbrev factor (r : Rules) : Parser Expr := r.recur .factor

abbrev pattern (r : Rules) : Parser Pattern := r.recur .pattern

abbrev statement (r : Rules) : Parser (List Stmt) := r.recur .statement

abbrev branch (r : Rules) : Parser Stmt := r.recur .branch

end Rules

end CloneScout.Grammar
