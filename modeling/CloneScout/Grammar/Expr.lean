import CloneScout.Number.Radix
import CloneScout.Grammar.Strings
import CloneScout.Grammar.Target

/-!
# Expressions

The rules of expressions, from atoms up to conditional expressions. A rule comes back to another one
only behind a token that it has taken itself.
-/

namespace CloneScout.Grammar

/-- Tokens that an expression can start with. -/
def startsExpr : Token.Kind → Bool
  | .ident => true
  | .intLit => true
  | .floatLit => true
  | .imagLit => true
  | .stringLit => true
  | .kwNone => true
  | .kwTrue => true
  | .kwFalse => true
  | .kwNot => true
  | .kwLambda => true
  | .kwAwait => true
  | .kwYield => true
  | .lparen => true
  | .lbracket => true
  | .lbrace => true
  | .ellipsis => true
  | .plus => true
  | .minus => true
  | .tilde => true
  | .star => true
  | _ => false

/-! ## Named, starred and yielded expressions -/

/-- An expression, or a name bound to one. -/
def named (r : Rules) : Parser Expr := do
  if (← kind) = .ident && (← kind 1) = .walrus then
    let first ← bump
    let target : Expr := .name (← extentFrom first) first.lexeme .store
    let _ ← bump
    let value ← r.expression
    return .named (← extentFrom first) target value
  else r.expression

/-- A star and its operand, or what `plain` reads. -/
def starredOr (r : Rules) (plain : Parser Expr) : Parser Expr := do
  if ← at? .star then
    let first ← bump
    let value ← r.arithmetic 0
    return .starred (← extentFrom first) value .load
  else plain

def starExpression (r : Rules) : Parser Expr := starredOr r r.expression

def starNamed (r : Rules) : Parser Expr := starredOr r (named r)

/-- An expression, or several as a tuple. -/
def starExpressions (r : Rules) : Parser Expr := do
  let first ← peek
  let head ← starExpression r
  if ← at? .comma then
    let stops : Parser Bool := return !startsExpr (← kind) || (← kind) = .kwYield
    let elts ← collectCommas [head] stops (starExpression r)
    return .tuple (← extentFrom first) elts .load
  else return head

def yieldExpr (r : Rules) : Parser Expr := do
  let first ← bump
  if ← eat .kwFrom then
    let value ← r.expression
    return .yieldFrom (← extentFrom first) value
  else if startsExpr (← kind) && (← kind) ≠ .kwYield then
    let value ← starExpressions r
    return .yield (← extentFrom first) (some value)
  else return .yield (← extentFrom first) none

def yieldOrStar (r : Rules) : Parser Expr := do
  if ← at? .kwYield then yieldExpr r else starExpressions r

/-! ## Parameters -/

/-- Parameters read so far, and what restricts the next ones. -/
structure ParamList where
  posOnly : List Param := []
  plain : List Param := []
  star : Option Param := none
  kwOnly : List Param := []
  doubleStar : Option Param := none
  seenStar : Bool := false
  /-- Where a star without a name stands. -/
  bareStar : Option Span := none
  seenDefault : Bool := false

/-- The name of a parameter with its annotation, and the span of both. -/
structure ParamHead where
  name : Text
  hint : Option Expr
  span : Span

/-- Reads name and annotation of a parameter. The name is empty when it is missing. -/
def paramHead (r : Rules) (hints starHint : Bool) : Parser ParamHead := do
  let t ← peek
  if ← expect .ident then
    let hinted ← if hints then eat .colon else pure false
    if hinted then
      let hint ← if starHint && (← at? .star) then starExpression r else r.expression
      return ⟨t.lexeme, some hint, t.span.join hint.extent.span⟩
    else return ⟨t.lexeme, none, t.span⟩
  else return ⟨[], none, t.span⟩

/-- The default value behind an equals sign. -/
def defaultValue (r : Rules) : Parser (Option Expr) := do
  if ← eat .assign then return some (← r.expression) else return none

/-- One parameter without stars. -/
def plainParam (r : Rules) (closing : Token.Kind) (hints : Bool) (ps : ParamList) :
    Parser ParamList := do
  let head ← paramHead r hints false
  if head.name.isEmpty then
    recoverTo [.comma, closing]
    return ps
  else
    let value ← defaultValue r
    let p : Param := .mk head.name head.hint value
    if ps.seenStar then return { ps with kwOnly := ps.kwOnly ++ [p] }
    else
      if ps.seenDefault && value.isNone then report .nonDefaultAfterDefault head.span
      return { ps with plain := ps.plain ++ [p], seenDefault := ps.seenDefault || value.isSome }

/-- One parameter or separator that starts with the token `t`. -/
def paramItem (r : Rules) (closing : Token.Kind) (hints : Bool) (ps : ParamList) :
    Parser ParamList := do
  let t ← peek
  match t.kind with
  | .slash =>
    let _ ← bump
    if ps.seenStar || !ps.posOnly.isEmpty || ps.plain.isEmpty then
      report .unexpectedToken t.span t.lexeme
      return ps
    else return { ps with posOnly := ps.plain, plain := [] }
  | .starStar =>
    let _ ← bump
    let head ← paramHead r hints false
    if ps.doubleStar.isSome then report .duplicateStarParam t.span
    return { ps with doubleStar := some (.mk head.name head.hint none) }
  | .star =>
    let _ ← bump
    if ps.seenStar then report .duplicateStarParam t.span
    if ← at? .ident then
      let head ← paramHead r hints true
      return { ps with seenStar := true, star := some (.mk head.name head.hint none) }
    else return { ps with seenStar := true, bareStar := some t.span }
  | _ => plainParam r closing hints ps

/-- The parameters of a function up to its `closing` token, which is left in place. Only those of a
`def` have annotations. -/
def parameters (r : Rules) (closing : Token.Kind) (hints : Bool) : Parser Params := do
  let ps ← loop ({} : ParamList) fun ps => do
    if (← isAborted) || (← at? closing) || (← at? .eof) then return (ps, false)
    else
      let ps ← paramItem r closing hints ps
      if ps.doubleStar.isSome && (← at? .comma) && (← kind 1) ≠ closing then
        let next ← peek 1
        report .unexpectedToken next.span next.lexeme
      return (ps, ← eat .comma)
  match ps.bareStar with
  | some span => if ps.kwOnly.isEmpty then report .bareStarWithoutNamed span
  | none => pure ()
  return .mk ps.posOnly ps.plain ps.star ps.kwOnly ps.doubleStar

def lambda (r : Rules) : Parser Expr := do
  let first ← bump
  let params ← parameters r .colon false
  let body ← if ← expect .colon then r.expression else errorHere
  return .lambda (← extentFrom first) params body

/-! ## Comprehensions -/

def starTarget (r : Rules) : Parser Expr := starredOr r (r.arithmetic 0)

/-- A target, or several as a tuple. -/
def starTargets (r : Rules) : Parser Expr := do
  let first ← peek
  let head ← starTarget r
  if ← at? .comma then
    let elts ← collectCommas [head] (return !startsExpr (← kind)) (starTarget r)
    return .tuple (← extentFrom first) elts .load
  else return head

/-- Marks an expression as a target and reports it, at `span`, if it cannot be one. -/
def markTarget (ctx : Context) (code : Diagnostic.Code) (e : Expr) (span : Span) : Parser Expr := do
  match Target.fault? ctx e with
  | some fault => report code span (utf8 fault)
  | none => pure ()
  return Target.mark ctx e

def atComprehension : Parser Bool := do
  return (← kind) = .kwFor || ((← kind) = .kwAsync && (← kind 1) = .kwFor)

def comprehension (r : Rules) : Parser Comprehension := do
  let isAsync ← eat .kwAsync
  let _ ← bump
  let first ← peek
  let target ← starTargets r
  let target ← markTarget .store .invalidAssignTarget target first.span
  let iter ← if ← expect .kwIn then r.disjunction else errorHere
  let conditions ← collectAfter .kwIf [] r.disjunction
  return .mk target iter conditions isAsync

def comprehensions (r : Rules) : Parser (List Comprehension) :=
  collect [] do
    if !(← isAborted) && (← atComprehension) then return ([← comprehension r], true)
    else return ([], false)

/-! ## Atoms -/

def withoutUnderscores (t : Text) : Text := t.filter (· ≠ ascii '_')

def number : Parser Expr := do
  let t ← bump
  match t.kind with
  | .intLit =>
    match Radix.parseLiteral? t.lexeme with
    | some value => return .constant (← extentFrom t) (.int value)
    | none =>
      report .invalidNumber t.span t.lexeme
      return .error (tokenExtent t)
  | .floatLit => return .constant (← extentFrom t) (.float (withoutUnderscores t.lexeme))
  | _ => return .constant (← extentFrom t) (.imaginary (withoutUnderscores t.lexeme.dropLast))

/-- What stands in parentheses: a tuple, a generator, or an expression, which keeps its own extent.
-/
def parenthesized (r : Rules) : Parser Expr := do
  let first ← bump
  if ← eat .rparen then return .tuple (← extentFrom first) [] .load
  else if ← at? .kwYield then
    let e ← yieldExpr r
    let _ ← expect .rparen
    return e
  else
    let head ← starNamed r
    if ← atComprehension then
      let generators ← comprehensions r
      close .rparen
      return .generator (← extentFrom first) head generators
    else if ← at? .comma then
      let elts ← collectCommas [head] (at? .rparen) (starNamed r)
      close .rparen
      return .tuple (← extentFrom first) elts .load
    else
      close .rparen
      return head

def listDisplay (r : Rules) : Parser Expr := do
  let first ← bump
  if ← eat .rbracket then return .list (← extentFrom first) [] .load
  else
    let head ← starNamed r
    if ← atComprehension then
      let generators ← comprehensions r
      close .rbracket
      return .listComp (← extentFrom first) head generators
    else
      let elts ← collectCommas [head] (at? .rbracket) (starNamed r)
      close .rbracket
      return .list (← extentFrom first) elts .load

/-- An entry of a dictionary behind the first one. -/
def dictEntry (r : Rules) : Parser Entry := do
  if ← eat .starStar then return .unpack (← r.arithmetic 0)
  else
    let key ← r.expression
    if ← expect .colon then return .pair key (← r.expression)
    else
      recoverTo [.comma, .rbrace]
      return .pair key (← errorHere)

/-- The entries of a dictionary behind its first one. -/
def dictRest (r : Rules) (head : Entry) : Parser (List Entry) :=
  collectCommas [head] (at? .rbrace) (dictEntry r)

/-- A dictionary, a set, or a comprehension of either. -/
def braceDisplay (r : Rules) : Parser Expr := do
  let first ← bump
  if ← eat .rbrace then return .dict (← extentFrom first) []
  else if ← eat .starStar then
    let value ← r.arithmetic 0
    let entries ← dictRest r (.unpack value)
    close .rbrace
    return .dict (← extentFrom first) entries
  else
    let head ← starNamed r
    if ← eat .colon then
      let value ← r.expression
      if ← atComprehension then
        let generators ← comprehensions r
        close .rbrace
        return .dictComp (← extentFrom first) head value generators
      else
        let entries ← dictRest r (.pair head value)
        close .rbrace
        return .dict (← extentFrom first) entries
    else if ← atComprehension then
      let generators ← comprehensions r
      close .rbrace
      return .setComp (← extentFrom first) head generators
    else
      let elts ← collectCommas [head] (at? .rbrace) (starNamed r)
      close .rbrace
      return .set (← extentFrom first) elts

/-- A constant that is a single word or sign. -/
def constantOf? : Token.Kind → Option Constant
  | .kwNone => some .none
  | .kwTrue => some .true
  | .kwFalse => some .false
  | .ellipsis => some .ellipsis
  | _ => none

/-- A token that starts no atom is reported and left in place. -/
def atom (r : Rules) : Parser Expr := do
  let t ← peek
  match constantOf? t.kind with
  | some value =>
    let _ ← bump
    return .constant (← extentFrom t) value
  | none =>
    match t.kind with
    | .ident =>
      let _ ← bump
      return .name (← extentFrom t) t.lexeme .load
    | .intLit => number
    | .floatLit => number
    | .imagLit => number
    | .stringLit => strings r
    | .lparen => parenthesized r
    | .lbracket => listDisplay r
    | .lbrace => braceDisplay r
    | .eof =>
      report .unexpectedEof t.span (utf8 "expression")
      abort
      return .error (tokenExtent t)
    | _ =>
      report .unexpectedToken t.span t.shown
      return .error (tokenExtent t)

/-! ## Calls, subscripts and attributes -/

/-- Arguments read so far, the last one first. -/
structure Arguments where
  args : List Expr := []
  keywords : List Keyword := []
  seenKeyword : Bool := false
  seenUnpack : Bool := false

def Arguments.addArg (a : Arguments) (e : Expr) : Arguments := { a with args := e :: a.args }

def Arguments.addKeyword (a : Arguments) (k : Keyword) : Arguments :=
  { a with keywords := k :: a.keywords }

/-- One argument that starts with the token `t`. -/
def argument (r : Rules) (t : Token) (a : Arguments) : Parser Arguments := do
  if t.kind = .star then
    let _ ← bump
    let value ← r.expression
    if a.seenUnpack then report .positionalAfterKeyword t.span
    return a.addArg (.starred (← extentFrom t) value .load)
  else if t.kind = .starStar then
    let _ ← bump
    let value ← r.expression
    return { a.addKeyword (.mk none value) with seenUnpack := true }
  else if t.kind = .ident && (← kind 1) = .assign then
    let _ ← bump
    let _ ← bump
    let value ← r.expression
    return { a.addKeyword (.mk (some t.lexeme) value) with seenKeyword := true }
  else
    let value ← named r
    if ← atComprehension then
      let generators ← comprehensions r
      return a.addArg (.generator (← extentFrom t) value generators)
    else
      if a.seenKeyword || a.seenUnpack then report .positionalAfterKeyword t.span
      return a.addArg value

/-- The arguments of a call or a class up to the closing parenthesis, which is left in place. -/
def arguments (r : Rules) : Parser (List Expr × List Keyword) := do
  let a ← loop ({} : Arguments) fun a => do
    if (← isAborted) || (← at? .rparen) || (← at? .eof) then return (a, false)
    else
      let a ← argument r (← peek) a
      return (a, ← eat .comma)
  return (a.args.reverse, a.keywords.reverse)

/-- One part of a subscript: a slice or an expression. -/
def subscriptItem (r : Rules) : Parser Expr := do
  let first ← peek
  if first.kind = .star then starExpression r
  else
    let lower ← if first.kind = .colon then pure none else some <$> named r
    match lower, ← at? .colon with
    | some e, false => return e
    | _, _ =>
      let _ ← bump
      let bound : Parser (Option Expr) := do
        if [.colon, .comma, .rbracket].contains (← kind) then return none
        else return some (← r.expression)
      let upper ← bound
      let step ← if ← eat .colon then bound else pure none
      return .slice (← extentFrom first) lower upper step

/-- The subscript behind an opening bracket, several parts as a tuple. -/
def subscriptIndex (r : Rules) : Parser Expr := do
  let first ← peek
  let head ← subscriptItem r
  if ← at? .comma then
    let elts ← collectCommas [head] (at? .rbracket) (subscriptItem r)
    return .tuple (← extentFrom first) elts .load
  else return head

/-- One attribute, call or subscript behind `base`, and whether another may follow. -/
def trailer (r : Rules) (first : Token) (base : Expr) : Parser (Expr × Bool) := do
  if ← isAborted then return (base, false)
  else
    match ← kind with
    | .dot =>
      let _ ← bump
      let t ← peek
      if ← expect .ident then return (.attribute (← extentFrom first) base t.lexeme .load, true)
      else return (base, false)
    | .lparen =>
      let _ ← bump
      let (args, keywords) ← arguments r
      close .rparen
      return (.call (← extentFrom first) base args keywords, true)
    | .lbracket =>
      let _ ← bump
      let index ← subscriptIndex r
      close .rbracket
      return (.subscript (← extentFrom first) base index .load, true)
    | _ => return (base, false)

def primary (r : Rules) : Parser Expr := do
  let first ← peek
  loop (← atom r) (trailer r first)

/-! ## Operators -/

def awaited (r : Rules) : Parser Expr := do
  if ← at? .kwAwait then
    let first ← bump
    let value ← primary r
    return .await (← extentFrom first) value
  else primary r

/-- Powers bind to the right, and their exponent may have a sign. -/
def power (r : Rules) : Parser Expr := do
  let first ← peek
  let base ← awaited r
  if ← eat .starStar then
    let exponent ← r.factor
    return .binary (← extentFrom first) base .pow exponent
  else return base

def unaryOp? : Token.Kind → Option UnaryOp
  | .plus => some .plus
  | .minus => some .minus
  | .tilde => some .invert
  | _ => none

def factor (r : Rules) : Parser Expr := do
  let first ← peek
  match unaryOp? first.kind with
  | some op =>
    let _ ← bump
    let operand ← r.factor
    return .unary (← extentFrom first) op operand
  | none => power r

def binaryOp? : Token.Kind → Option BinaryOp
  | .pipe => some .bitOr
  | .caret => some .bitXor
  | .amp => some .bitAnd
  | .shiftLeft => some .shiftLeft
  | .shiftRight => some .shiftRight
  | .plus => some .add
  | .minus => some .sub
  | .star => some .mult
  | .slash => some .div
  | .slashSlash => some .floorDiv
  | .percent => some .mod
  | .at => some .matMult
  | _ => none

/-- The operator of a token if it binds at least as tightly as `floor`, and how tightly it binds. -/
def operator? (floor : Nat) (k : Token.Kind) : Option (BinaryOp × Nat) :=
  match binaryOp? k, k.precedence? with
  | some op, some p => if floor ≤ p then some (op, p) else none
  | _, _ => none

/-- Operands joined by operators that bind at least as tightly as `floor`. -/
def arithmetic (r : Rules) (floor : Nat) : Parser Expr := do
  let first ← peek
  if ← isAborted then return .error (tokenExtent first)
  else
    loop (← factor r) fun left => do
      match operator? floor (← kind), ← isAborted with
      | some (op, p), false =>
        let _ ← bump
        let right ← r.arithmetic (p + 1)
        return (.binary (← extentFrom first) left op right, true)
      | _, _ => return (left, false)

/-- The comparison that a token and the one behind it make, and of how many tokens it is made. -/
def compareOp? (k next : Token.Kind) : Option (CompareOp × Nat) :=
  match k with
  | .eqEq => some (.eq, 1)
  | .bangEq => some (.notEq, 1)
  | .lt => some (.lt, 1)
  | .ltEq => some (.ltEq, 1)
  | .gt => some (.gt, 1)
  | .gtEq => some (.gtEq, 1)
  | .kwIn => some (.isIn, 1)
  | .kwNot => if next = .kwIn then some (.notIn, 2) else none
  | .kwIs => if next = .kwNot then some (.isNot, 2) else some (.is, 1)
  | _ => none

def comparison (r : Rules) : Parser Expr := do
  let first ← peek
  let left ← arithmetic r 0
  let rest ← collect [] do
    match compareOp? (← kind) (← kind 1), ← isAborted with
    | some (op, n), false =>
      let _ ← bump
      if n = 2 then
        let _ ← bump
      return ([(op, ← arithmetic r 0)], true)
    | _, _ => return ([], false)
  if rest.isEmpty then return left
  else return .compare (← extentFrom first) left (rest.map (·.1)) (rest.map (·.2))

def inversion (r : Rules) : Parser Expr := do
  if ← at? .kwNot then
    let first ← bump
    let operand ← r.inversion
    return .unary (← extentFrom first) .not operand
  else comparison r

/-- Operands joined by one and the same boolean operator. -/
def boolean (op : BoolOp) (word : Token.Kind) (operand : Parser Expr) : Parser Expr := do
  let first ← peek
  let head ← operand
  if ← at? word then
    let values ← collectAfter word [head] operand
    return .boolean (← extentFrom first) op values
  else return head

def conjunction (r : Rules) : Parser Expr := boolean .and .kwAnd (inversion r)

def disjunction (r : Rules) : Parser Expr := boolean .or .kwOr (conjunction r)

def expression (r : Rules) : Parser Expr := do
  let first ← peek
  if ← isAborted then return .error (tokenExtent first)
  else if first.kind = .kwLambda then lambda r
  else
    let body ← disjunction r
    if ← eat .kwIf then
      let test ← disjunction r
      let orelse ← if ← expect .kwElse then r.expression else errorHere
      return .conditional (← extentFrom first) test body orelse
    else return body

end CloneScout.Grammar
