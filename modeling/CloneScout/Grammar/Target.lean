import CloneScout.Tree.Basic

/-!
# Targets of bindings and deletions

A target is a name, an attribute, a subscript, or a tuple, list or starred expression of targets.
-/

namespace CloneScout.Target

/-- What an expression is called when it cannot be a target. -/
def describe : Expr → String
  | .call .. => "function call"
  | .constant .. => "literal"
  | .compare .. => "comparison"
  | .lambda .. => "lambda"
  | .conditional .. => "conditional expression"
  | .named .. => "named expression"
  | .dict .. => "dict literal"
  | .set .. => "set display"
  | .listComp .. => "list comprehension"
  | .setComp .. => "set comprehension"
  | .dictComp .. => "dict comprehension"
  | .generator .. => "generator expression"
  | .await .. => "await expression"
  | .yield .. => "yield expression"
  | .yieldFrom .. => "yield expression"
  | .joined .. => "f-string expression"
  | .formatted .. => "f-string expression"
  | .name .. => "name"
  | .attribute .. => "attribute"
  | .subscript .. => "subscript"
  | .starred .. => "starred"
  | .list .. => "list"
  | .tuple .. => "tuple"
  | .slice .. => "slice"
  | .error .. => "expression"
  | .boolean .. => "expression"
  | .binary .. => "expression"
  | .unary .. => "expression"

/-- A name, an attribute or a subscript. -/
def isSimple : Expr → Bool
  | .name .. => true
  | .attribute .. => true
  | .subscript .. => true
  | _ => false

mutual

/-- The first part of an expression that cannot be a target, described. -/
def fault? (ctx : Context) : Expr → Option String
  | .name .. => none
  | .attribute .. => none
  | .subscript .. => none
  | .starred _ value _ => if ctx = .delete then some "starred" else fault? ctx value
  | .tuple _ elts _ => firstFault? ctx elts
  | .list _ elts _ => firstFault? ctx elts
  | e => some (describe e)

def firstFault? (ctx : Context) : List Expr → Option String
  | [] => none
  | e :: rest => (fault? ctx e).or (firstFault? ctx rest)

end

mutual

/-- Marks an expression, and what it is made of as a target, with the context of its use. Parts that
cannot be targets stay as they are. -/
def mark (ctx : Context) : Expr → Expr
  | .name x id _ => .name x id ctx
  | .attribute x value attr _ => .attribute x value attr ctx
  | .subscript x value index _ => .subscript x value index ctx
  | .starred x value old =>
    if ctx = .delete then .starred x value old else .starred x (mark ctx value) ctx
  | .tuple x elts _ => .tuple x (markAll ctx elts) ctx
  | .list x elts _ => .list x (markAll ctx elts) ctx
  | e => e

def markAll (ctx : Context) : List Expr → List Expr
  | [] => []
  | e :: rest => mark ctx e :: markAll ctx rest

end

end CloneScout.Target
