import CloneScout.Grammar.Rules
import CloneScout.Token.Template

/-!
# String expressions

Adjacent string literals make one expression: a constant, or a joined string as soon as one of them
is formatted.
-/

namespace CloneScout.Grammar

/-- A part of a string expression. -/
inductive Piece where
  | text (t : Text)
  | field (e : Expr)

/-- The values of a joined string: each run of texts, unless it is empty, makes one constant. -/
def joinedValues (x : Extent) : (run : Text) → List Piece → List Expr
  | run, [] => if run.isEmpty then [] else [.constant x (.text run false)]
  | run, .text t :: rest => joinedValues x (run ++ t) rest
  | run, .field e :: rest =>
    (if run.isEmpty then [] else [.constant x (.text run false)]) ++ e :: joinedValues x [] rest

def joined (x : Extent) (pieces : List Piece) : Expr := .joined x (joinedValues x [] pieces)

/-- The line of an offset inside a token. -/
def lineAt (t : Token) (offset : Nat) : Nat :=
  Word.wrap (t.line + (t.lexeme.take (offset - t.span.lo)).count 10)

/-- The conversion of a field. A field that shows its text without conversion and format is shown as
a literal. -/
def fieldConversion (f : Template.Field) : Option Conversion :=
  match f.conversion with
  | .letter b =>
    if b = ascii 's' then some .str else if b = ascii 'r' then some .repr else some .ascii
  | _ => if f.shown.isSome && f.format.isNone then some .repr else none

/-- A replacement field of the token `t`; the template it stands in starts at `base`. -/
def fieldPieces (r : Rules) (t : Token) (base : Nat)
    (formatPieces : Nat → Text → Parser (List Piece)) (f : Template.Field) :
    Parser (List Piece) := do
  let lo := base + f.offset
  let value ←
    if f.expr.all Text.isSpace then
      report .fStringEmptyExpr t.span
      pure (.error (tokenExtent t))
    else
      r.field t lo (lineAt t lo) f.expr
  if f.conversion = .invalid then report .unexpectedToken t.span (utf8 "!")
  let spec ←
    match f.format with
    | none => pure none
    | some (offset, format) =>
      pure (some (joined (tokenExtent t) (← formatPieces (base + offset) format)))
  unless f.closed do report .fStringUnmatchedBrace t.span [Template.openBrace]
  let formatted : Expr := .formatted (tokenExtent t) value (fieldConversion f) spec
  return (f.shown.elim [] fun shown => [.text shown]) ++ [.field formatted]

/-- The pieces of a template that starts at `base`. Formats may hold fields with formats again, up
to the given number of levels. -/
def templatePieces (r : Rules) (t : Token) (raw : Bool) :
    (levels : Nat) → (base : Nat) → Text → Parser (List Piece)
  | 0, _, _ => do
    report .fStringUnmatchedBrace t.span [Template.openBrace]
    return []
  | levels + 1, base, template => do
    let pieces ← (Template.segments raw template).mapM fun
      | .literal lit => pure [Piece.text (if raw then lit else StringLiteral.unescape false lit)]
      | .stray => do
        report .fStringUnmatchedBrace t.span [Template.closeBrace]
        return []
      | .field f => fieldPieces r t base (templatePieces r t raw levels) f
    return pieces.flatten

/-- The pieces of one string token. -/
def tokenPieces (r : Rules) (t : Token) (parts : StringLiteral.Parts) : Parser (List Piece) :=
  if parts.formatted then templatePieces r t parts.raw 3 (t.span.lo + parts.offset) parts.body
  else
    pure [.text (if parts.raw then parts.body else StringLiteral.unescape parts.bytes parts.body)]

/-- One string token after the other, each with its pieces. -/
def stringTokens (r : Rules) : Parser (List (StringLiteral.Parts × List Piece)) :=
  collect [] do
    if !(← isAborted) && (← at? .stringLit) then
      let t ← bump
      let parts := StringLiteral.parts t.lexeme
      return ([(parts, ← tokenPieces r t parts)], true)
    else return ([], false)

/-- The text of the pieces that are no fields. -/
def plainText (pieces : List Piece) : Text :=
  pieces.flatMap fun
    | .text t => t
    | .field _ => []

/-- Adjacent string literals. Bytes and text do not mix. -/
def strings (r : Rules) : Parser Expr := do
  let first ← peek
  let found ← stringTokens r
  let isBytes := found.head?.any (·.1.bytes)
  let marked := found.head?.any (·.1.marked)
  if found.any fun f => f.1.bytes != isBytes then report .unexpectedToken first.span first.lexeme
  let pieces := found.flatMap (·.2)
  let x ← extentFrom first
  if found.any (·.1.formatted) then return joined x pieces
  else if isBytes then return .constant x (.bytes (plainText pieces))
  else return .constant x (.text (plainText pieces) marked)

end CloneScout.Grammar
