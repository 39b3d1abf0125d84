import CloneScout.Grammar.Expr

/-!
# Patterns

The patterns of `case` clauses: alternatives, captures, sequences, mappings, classes and values.
-/

namespace CloneScout.Grammar

/-- The name that stands for anything. -/
def wildcard : Text := utf8 "_"

def isNumber (k : Token.Kind) : Bool := k = .intLit || k = .floatLit || k = .imagLit

/-- A name with attributes. -/
def dottedName : Parser Expr := do
  let first ← bump
  let head : Expr := .name (← extentFrom first) first.lexeme .load
  loop head fun base => do
    if ← eat .dot then
      let t ← peek
      if ← expect .ident then return (.attribute (← extentFrom first) base t.lexeme .load, true)
      else return (base, false)
    else return (base, false)

/-- A number with an optional minus sign; a token that is none is reported. -/
def signedNumber? : Parser (Option Expr) := do
  let first ← peek
  if first.kind = .minus then
    let _ ← bump
    let t ← peek
    if isNumber t.kind then
      let operand ← number
      return some (.unary (← extentFrom first) .minus operand)
    else
      report .invalidPattern t.span t.lexeme
      return none
  else if isNumber first.kind then return some (← number)
  else
    report .invalidPattern first.span first.lexeme
    return none

/-- A signed number, or the sum or difference of one and an imaginary number. -/
def complexNumber : Parser Expr := do
  let first ← peek
  match ← signedNumber? with
  | none => errorHere
  | some real =>
    let sign ← peek
    if (sign.kind = .plus || sign.kind = .minus) && (← kind 1) = .imagLit then
      let _ ← bump
      let imaginary ← number
      let op : BinaryOp := if sign.kind = .plus then .add else .sub
      return .binary (← extentFrom first) real op imaginary
    else return real

/-- A value to compare with: a string, a constant, a dotted name or a number. -/
def patternValue (r : Rules) : Parser Expr := do
  match ← kind with
  | .stringLit => strings r
  | .kwNone => atom r
  | .kwTrue => atom r
  | .kwFalse => atom r
  | .ident => dottedName
  | _ => complexNumber

/-- Patterns in brackets. A single one in parentheses without a comma is only grouped. -/
def sequencePattern (r : Rules) (first : Token) (closing : Token.Kind) : Parser Pattern := do
  let _ ← bump
  let (items, sawComma) ← loop (([], false) : List Pattern × Bool) fun (items, sawComma) => do
    if (← isAborted) || (← at? closing) || (← at? .eof) then return ((items, sawComma), false)
    else
      let p ← r.pattern
      let comma ← eat .comma
      return ((items ++ [p], sawComma || comma), comma)
  close closing
  match items, closing = .rparen && !sawComma with
  | [p], true => return p
  | _, _ => return .sequence (← extentFrom first) items

/-- One entry of a mapping pattern. -/
def mappingEntry (r : Rules) : Parser PatternEntry := do
  let key ← patternValue r
  if ← expect .colon then return .mk key (← r.pattern)
  else
    recoverTo [.comma, .rbrace]
    return .mk key (.error (← extentFrom (← peek)))

def mappingPattern (r : Rules) (first : Token) : Parser Pattern := do
  let _ ← bump
  let start : List PatternEntry × Option Text := ([], none)
  let (entries, rest) ← loop start fun (entries, rest) => do
    if (← isAborted) || (← at? .rbrace) || (← at? .eof) then return ((entries, rest), false)
    else if ← eat .starStar then
      let t ← peek
      let rest := if ← expect .ident then some t.lexeme else rest
      return ((entries, rest), ← eat .comma)
    else
      let entry ← mappingEntry r
      return ((entries ++ [entry], rest), ← eat .comma)
  close .rbrace
  return .mapping (← extentFrom first) entries rest

def classPattern (r : Rules) (first : Token) (cls : Expr) : Parser Pattern := do
  let _ ← bump
  let start : List Pattern × List PatternKeyword := ([], [])
  let (positional, keywords) ← loop start fun (positional, keywords) => do
    let t ← peek
    if (← isAborted) || t.kind = .rparen || t.kind = .eof then
      return ((positional, keywords), false)
    else if t.kind = .ident && (← kind 1) = .assign then
      let _ ← bump
      let _ ← bump
      let p ← r.pattern
      return ((positional, keywords ++ [.mk t.lexeme p]), ← eat .comma)
    else
      unless keywords.isEmpty do report .positionalAfterKeyword t.span
      let p ← r.pattern
      return ((positional ++ [p], keywords), ← eat .comma)
  close .rparen
  return .cls (← extentFrom first) cls positional keywords

/-- A name: a capture, the wildcard, a dotted value or a class. -/
def namePattern (r : Rules) (first : Token) : Parser Pattern := do
  let next ← kind 1
  if next = .dot || next = .lparen then
    let value ← patternValue r
    if ← at? .lparen then classPattern r first value
    else return .value (← extentFrom first) value
  else
    let _ ← bump
    let name := if first.lexeme = wildcard then none else some first.lexeme
    return .as (← extentFrom first) none name

def starPattern (first : Token) : Parser Pattern := do
  let _ ← bump
  let t ← peek
  let name := if ← expect .ident then if t.lexeme = wildcard then none else some t.lexeme else none
  return .star (← extentFrom first) name

def singletonPattern (first : Token) (value : Singleton) : Parser Pattern := do
  let _ ← bump
  return .singleton (← extentFrom first) value

/-- A pattern without alternatives. A token that starts none is reported and skipped with all up to
the next colon or comma. -/
def closedPattern (r : Rules) : Parser Pattern := do
  let first ← peek
  if ← isAborted then return .error (← extentFrom first)
  else
    match first.kind with
    | .kwNone => singletonPattern first .none
    | .kwTrue => singletonPattern first .true
    | .kwFalse => singletonPattern first .false
    | .star => starPattern first
    | .lparen => sequencePattern r first .rparen
    | .lbracket => sequencePattern r first .rbracket
    | .lbrace => mappingPattern r first
    | .ident => namePattern r first
    | k =>
      if isNumber k || k = .minus || k = .stringLit then
        let value ← patternValue r
        return .value (← extentFrom first) value
      else
        report .invalidPattern first.span first.shown
        recoverTo [.colon, .comma]
        return .error (← extentFrom first)

def orPattern (r : Rules) : Parser Pattern := do
  let first ← peek
  let head ← closedPattern r
  if ← at? .pipe then
    let alternatives ← collectAfter .pipe [head] (closedPattern r)
    return .or (← extentFrom first) alternatives
  else return head

/-- A pattern with an optional name for what it matches. -/
def pattern (r : Rules) : Parser Pattern := do
  let first ← peek
  let inner ← orPattern r
  if ← eat .kwAs then
    let t ← peek
    if ← expect .ident then
      if t.lexeme = wildcard then report .invalidPattern t.span t.lexeme
      return .as (← extentFrom first) (some inner) (some t.lexeme)
    else return inner
  else return inner

/-- The patterns of a `case` clause, several as a sequence. -/
def patterns (r : Rules) : Parser Pattern := do
  let first ← peek
  let head ← r.pattern
  if ← at? .comma then
    let items ← collectCommas [head] (return (← kind) = .colon || (← kind) = .kwIf) r.pattern
    return .sequence (← extentFrom first) items
  else return head

end CloneScout.Grammar
