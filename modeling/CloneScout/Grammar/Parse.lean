import CloneScout.Token.Lexer
import CloneScout.Grammar.Stmt

/-!
# Parsing a source text

The circle of rules is closed by a bound on how often they come back to each other. A rule comes
back to an expression or pattern only behind a token it has taken, and a statement to an expression
at most once before that, so twice the number of tokens is enough.
-/

namespace CloneScout.Grammar

/-- What stands where a goal could not be read. -/
def Goal.gap (t : Token) : (g : Goal) → g.Result
  | .expression => .error (tokenExtent t)
  | .disjunction => .error (tokenExtent t)
  | .inversion => .error (tokenExtent t)
  | .arithmetic _ => .error (tokenExtent t)
  | .factor => .error (tokenExtent t)
  | .pattern => .error (tokenExtent t)
  | .statement => []
  | .branch => .pass (tokenExtent t)

/-- What a goal gives when the bound is used up: a fault. -/
def exhausted (g : Goal) : Parser g.Result := do
  stall
  unexpected
  return g.gap (← peek)

/-- The rule of each goal. -/
def rule (r : Rules) : (g : Goal) → Parser g.Result
  | .expression => expression r
  | .disjunction => disjunction r
  | .inversion => inversion r
  | .arithmetic floor => arithmetic r floor
  | .factor => factor r
  | .pattern => pattern r
  | .statement => statement r
  | .branch => branchStatement r

/-- Runs the rule of a goal; rules may come back to each other `n` times. -/
def runGoal (field : FieldReader) : (n : Nat) → (g : Goal) → Parser g.Result
  | 0, g => exhausted g
  | n + 1, g => rule ⟨runGoal field n, field⟩ g

/-- The rules, with as many returns as the tokens can need. -/
def rulesFor (field : FieldReader) (c : Cursor) : Rules :=
  ⟨runGoal field (2 * c.tokens.size + 2), field⟩

/-- Reads one expression and expects the end of the tokens behind it. -/
def wholeExpression (field : FieldReader) : Parser Expr := do
  let s ← get
  let first ← peek
  if s.aborted then return .error (tokenExtent first)
  else
    let e ← yieldOrStar (rulesFor field s.cursor)
    if ← at? .eof then return e
    else
      unexpected
      return .error (tokenExtent first)

/-- The state in which the parser of a field starts. -/
def State.forField (s : State) (offset line : Nat) (text : Text) : State :=
  let (tokens, diags) := Token.lexField offset line text
  { cursor := { tokens }, maxErrors := s.maxErrors, diags := s.diags ++ diags }

/-- Takes over what the parser of a field has found. -/
def State.absorb (s sub : State) : State :=
  { s with
    diags := sub.diags
    errors := s.errors + sub.errors
    aborted := s.aborted || sub.capped
    stalled := s.stalled || sub.stalled }

/-- Reads replacement fields that lie in one another at most `depth` deep. The expression of a field
has a parser of its own, with its own count of faults. -/
def fieldReader : (depth : Nat) → FieldReader
  | 0, t, _, _, _ => do
    report .fStringUnmatchedBrace t.span [Template.openBrace]
    return .error (tokenExtent t)
  | depth + 1, _, offset, line, text => do
    let s ← get
    let found := (wholeExpression (fieldReader depth)).run (s.forField offset line text)
    set (s.absorb found.2)
    return found.1

/-- How deep replacement fields may lie in one another. -/
def fieldDepth : Nat := 8

/-- Statements up to the end of the tokens. -/
def moduleBody (r : Rules) : Parser (List Stmt) :=
  collect [] do
    if (← isAborted) || (← at? .eof) then return ([], false)
    else if (← at? .newline) || (← at? .dedent) then
      let _ ← bump
      return ([], true)
    else
      let before := (← get).cursor.pos
      let found ← r.statement
      if (← get).cursor.pos = before && !(← at? .eof) then
        unexpected
        let _ ← bump
      return (found, true)

def wholeModule : Parser Module := do
  let s ← get
  let first ← peek
  let body ← moduleBody (rulesFor (fieldReader fieldDepth) s.cursor)
  return { extent := ⟨first.span, 1, (← get).lastLine⟩, body }

end CloneScout.Grammar

namespace CloneScout

/-- What parsing a source text gives. -/
structure Parsed where
  module : Module
  diags : Array Diagnostic
  aborted : Bool

namespace Parsed

/-- The text is free of faults. -/
def ok (p : Parsed) : Bool := ({ diags := p.diags } : Bag).issueCount = 0 && !p.aborted

/-- Parses a source text and gives up after `maxErrors` faults. A text that is not valid UTF-8 is
not parsed at all. -/
def ofSource (source : Text) (maxErrors : Nat) : Parsed :=
  let (tokens, diags) := Token.lex source
  let start : Grammar.State :=
    { cursor := { tokens }, maxErrors, diags
      aborted := ({ diags } : Bag).hasCode .invalidUtf8 }
  let (module, s) := Grammar.wholeModule.run start
  ⟨module, s.diags, s.aborted⟩

end Parsed

/-- What parsing a single expression gives. -/
structure ParsedExpr where
  expr : Expr
  diags : Array Diagnostic
  aborted : Bool

/-- Parses a text as one expression, as if it stood in brackets. -/
def ParsedExpr.ofSource (source : Text) (maxErrors : Nat) : ParsedExpr :=
  let (tokens, diags) := Token.lexField 0 1 source
  let start : Grammar.State := { cursor := { tokens }, maxErrors, diags }
  let (expr, s) := (Grammar.wholeExpression (Grammar.fieldReader Grammar.fieldDepth)).run start
  ⟨expr, s.diags, s.aborted⟩

end CloneScout
