import CloneScout.Grammar.Pattern

/-!
# Statements

Simple statements on one line, and compound statements with their blocks. After a fault in a simple
statement the rest of its line is skipped.
-/

namespace CloneScout.Grammar

/-! ## Simple statements -/

def augmentedOp? : Token.Kind → Option BinaryOp
  | .plusAssign => some .add
  | .minusAssign => some .sub
  | .starAssign => some .mult
  | .starStarAssign => some .pow
  | .slashAssign => some .div
  | .slashSlashAssign => some .floorDiv
  | .percentAssign => some .mod
  | .atAssign => some .matMult
  | .shiftLeftAssign => some .shiftLeft
  | .shiftRightAssign => some .shiftRight
  | .ampAssign => some .bitAnd
  | .pipeAssign => some .bitOr
  | .caretAssign => some .bitXor
  | _ => none

/-- Reports a target that is no name, attribute or subscript, and marks it as a target. -/
def simpleTarget (code : Diagnostic.Code) (e : Expr) : Parser Expr := do
  unless Target.isSimple e do report code e.extent.span (utf8 (Target.describe e))
  return Target.mark .store e

/-- An expression that is a name and starts with the token `first`, so that no parenthesis surrounds
it. -/
def isBareName (first : Token) : Expr → Bool
  | .name x _ _ => x.span.lo = first.span.lo
  | _ => false

/-- The rest of an assignment with annotation, from its colon on. -/
def annotated (r : Rules) (first : Token) (target : Expr) : Parser Stmt := do
  let _ ← bump
  let target ← simpleTarget .invalidAnnotatedTarget target
  let hint ← r.expression
  let value ← if ← eat .assign then some <$> yieldOrStar r else pure none
  return .annAssign (← closeStatement first) target hint value (isBareName first target)

/-- The rest of an augmented assignment, from its operator on. -/
def augmented (r : Rules) (first : Token) (target : Expr) (op : BinaryOp) : Parser Stmt := do
  let _ ← bump
  let target ← simpleTarget .invalidAugAssignTarget target
  let value ← yieldOrStar r
  return .augAssign (← closeStatement first) target op value

/-- The rest of an assignment, from its first equals sign on: all but the last expression are
targets. -/
def assignment (r : Rules) (first : Token) (target : Expr) : Parser Stmt := do
  let all ← collectAfter .assign [target] (yieldOrStar r)
  let targets ← all.dropLast.mapM fun e => markTarget .store .invalidAssignTarget e e.extent.span
  return .assign (← closeStatement first) targets (all.getLast?.getD target)

def expressionStatement (r : Rules) : Parser Stmt := do
  let first ← peek
  let e ← yieldOrStar r
  let k ← kind
  match augmentedOp? k with
  | some op => augmented r first e op
  | none =>
    if k = .colon then annotated r first e
    else if k = .assign then assignment r first e
    else return .expr (← closeStatement first) e

def returnStatement (r : Rules) : Parser Stmt := do
  let first ← bump
  let value ← if startsExpr (← kind) then some <$> starExpressions r else pure none
  return .ret (← closeStatement first) value

def raiseStatement (r : Rules) : Parser Stmt := do
  let first ← bump
  if startsExpr (← kind) then
    let exc ← r.expression
    let cause ← if ← eat .kwFrom then some <$> r.expression else pure none
    return .raise (← closeStatement first) (some exc) cause
  else return .raise (← closeStatement first) none none

def deleteStatement (r : Rules) : Parser Stmt := do
  let first ← bump
  let targets ← collect [] do
    if startsExpr (← kind) then
      let e ← r.arithmetic 0
      let e ← markTarget .delete .invalidDelTarget e e.extent.span
      return ([e], ← eat .comma)
    else return ([], false)
  if targets.isEmpty then unexpected
  return .delete (← closeStatement first) targets

def assertStatement (r : Rules) : Parser Stmt := do
  let first ← bump
  let test ← r.expression
  let message ← if ← eat .comma then some <$> r.expression else pure none
  return .assertion (← closeStatement first) test message

/-- Names with commas between them. -/
def nameList : Parser (List Text) :=
  collect [] do
    let t ← peek
    if ← expect .ident then return ([t.lexeme], ← eat .comma) else return ([], false)

/-- A module name: identifiers with dots between them, empty if there is none. -/
def moduleName : Parser Text := do
  if ← at? .ident then
    let first ← bump
    let rest ← collect [] do
      if (← kind) = .dot && (← kind 1) = .ident then
        let _ ← bump
        let t ← bump
        return ([ascii '.' :: t.lexeme], true)
      else return ([], false)
    return first.lexeme ++ rest.flatten
  else return []

/-- The new name behind `as`. -/
def asName : Parser (Option Text) := do
  if ← eat .kwAs then
    let t ← peek
    if ← expect .ident then return some t.lexeme else return none
  else return none

def importStatement : Parser Stmt := do
  let first ← bump
  let names ← collect [] do
    let t ← peek
    let name ← moduleName
    if name.isEmpty then
      report .expectedToken t.span Token.Kind.ident.text
      return ([], false)
    else
      let renamed ← asName
      return ([(⟨name, renamed⟩ : Alias)], ← eat .comma)
  return .importNames (← closeStatement first) names

/-- The dots in front of a relative module name. -/
def importLevel : Parser Nat :=
  loop 0 fun level => do
    if ← eat .dot then return (level + 1, true)
    else if ← eat .ellipsis then return (level + 3, true)
    else return (level, false)

/-- Imported names with commas between them, up to a closing parenthesis if one was opened. -/
def importedNames (inParens : Bool) : Parser (List Alias) :=
  collect [] do
    let t ← peek
    if inParens && t.kind = .rparen then return ([], false)
    else if ← expect .ident then
      let renamed ← asName
      return ([⟨t.lexeme, renamed⟩], ← eat .comma)
    else return ([], false)

def importedList : Parser (List Alias) := do
  if ← at? .star then
    let t ← bump
    return [⟨t.lexeme, none⟩]
  else
    let inParens ← eat .lparen
    let names ← importedNames inParens
    if inParens then
      let _ ← expect .rparen
    return names

def importFromStatement : Parser Stmt := do
  let first ← bump
  let level ← importLevel
  let t ← peek
  let name ← moduleName
  let source : Option Text := if name.isEmpty then none else some name
  if name.isEmpty && level = 0 then
    report .expectedToken t.span Token.Kind.ident.text
    return .importFrom (← closeStatement first) none [] 0
  else if ← expect .kwImport then
    let names ← importedList
    return .importFrom (← closeStatement first) source names level
  else return .importFrom (← closeStatement first) source [] level

/-- A statement that is a single word. -/
def wordStatement (make : Extent → Stmt) : Parser Stmt := do
  let first ← bump
  return make (← closeStatement first)

def simpleStatement (r : Rules) : Parser Stmt := do
  match ← kind with
  | .kwPass => wordStatement .pass
  | .kwBreak => wordStatement .breakLoop
  | .kwContinue => wordStatement .continueLoop
  | .kwReturn => returnStatement r
  | .kwRaise => raiseStatement r
  | .kwDel => deleteStatement r
  | .kwAssert => assertStatement r
  | .kwGlobal => do
    let first ← bump
    let names ← nameList
    return .global (← closeStatement first) names
  | .kwNonlocal => do
    let first ← bump
    let names ← nameList
    return .nonlocal (← closeStatement first) names
  | .kwImport => importStatement
  | .kwFrom => importFromStatement
  | _ => expressionStatement r

/-- How a line of simple statements ended. -/
inductive LineEnd where
  | clean
  | faulty

/-- Simple statements with semicolons between them. -/
def semicolons (r : Rules) : Parser (List Stmt × LineEnd) :=
  loop ([], .clean) fun (found, _) => do
    if ← isAborted then return ((found, .clean), false)
    else
      let before := (← get).errors
      let s ← simpleStatement r
      let found := found ++ [s]
      if (← get).errors ≠ before then return ((found, .faulty), false)
      else if ← eat .semicolon then
        return ((found, .clean), !((← kind) = .newline || (← kind) = .eof))
      else return ((found, .clean), false)

/-- A line of simple statements with its end. -/
def simpleLine (r : Rules) : Parser (List Stmt) := do
  let (found, lineEnd) ← semicolons r
  match lineEnd with
  | .faulty => recoverToNewline
  | .clean =>
    unless ← eat .newline do
      unless (← at? .eof) || (← isAborted) do
        report .expectedToken (← peek).span Token.Kind.newline.text
        recoverToNewline
  return found

/-! ## Blocks -/

/-- Statements up to the end of the block. A round that takes no token reports the next one as
unexpected and skips it. -/
def blockBody (r : Rules) : Parser (List Stmt) :=
  collect [] do
    if (← isAborted) || (← at? .dedent) || (← at? .eof) then return ([], false)
    else if ← eat .newline then return ([], true)
    else
      let before := (← get).cursor.pos
      let found ← r.statement
      if (← get).cursor.pos = before && !(← at? .eof) && !(← at? .dedent) then
        unexpected
        let _ ← bump
      return (found, true)

/-- What follows a colon: an indented block or simple statements on the same line. -/
def block (r : Rules) : Parser (List Stmt) := do
  if ← isAborted then return []
  else if ← eat .newline then
    if ← eat .indent then
      let body ← blockBody r
      let _ ← eat .dedent
      return body
    else
      report .expectedIndent (← peek).span
      return []
  else simpleLine r

/-- A colon and a block. -/
def suite (r : Rules) : Parser (List Stmt) := do
  if ← expect .colon then block r
  else
    recoverToNewline
    return []

def elseSuite (r : Rules) : Parser (List Stmt) := do
  if ← eat .kwElse then suite r else return []

/-! ## Compound statements -/

/-- An `elif` is an `if` in the `else` part. -/
def branchStatement (r : Rules) : Parser Stmt := do
  let first ← bump
  let test ← named r
  let body ← suite r
  let orelse ← if ← at? .kwElif then pure [← r.branch] else elseSuite r
  return .branch (← closeCompound first) test body orelse

def whileStatement (r : Rules) : Parser Stmt := do
  let first ← bump
  let test ← named r
  let body ← suite r
  let orelse ← elseSuite r
  return .whileLoop (← closeCompound first) test body orelse

/-- A loop whose `for` is next; `isAsync` holds the token in front of it. -/
def forStatement (r : Rules) (isAsync : Option Token) : Parser Stmt := do
  let word ← bump
  let first := isAsync.getD word
  let target ← starTargets r
  let target ← markTarget .store .invalidAssignTarget target target.extent.span
  let iter ←
    if ← expect .kwIn then starExpressions r
    else
      let e ← errorHere
      recoverTo [.colon]
      pure e
  let body ← suite r
  let orelse ← elseSuite r
  return .forLoop (← closeCompound first) isAsync.isSome target iter body orelse

/-- The bracket that is open at the head of a line of tokens closes right before a colon. -/
def closesBeforeColon : (depth : Nat) → List Token → Bool
  | _, [] => false
  | depth, t :: rest =>
    if t.kind = .eof || t.kind = .newline then false
    else if t.kind.isOpening then closesBeforeColon (depth + 1) rest
    else if t.kind.isClosing then
      if depth = 1 then rest.head?.any fun next => next.kind = .colon
      else closesBeforeColon (depth - 1) rest
    else closesBeforeColon depth rest

def withItem (r : Rules) : Parser WithItem := do
  let context ← r.expression
  if ← eat .kwAs then
    let first ← peek
    let target ← starTarget r
    let target ← markTarget .store .invalidAssignTarget target first.span
    return ⟨context, some target⟩
  else return ⟨context, none⟩

/-- The items of a `with` statement; parentheses around all of them belong to the statement. -/
def withItems (r : Rules) : Parser (List WithItem) := do
  if (← at? .lparen) && closesBeforeColon 0 (← get).cursor.upcoming then
    let _ ← bump
    let items ← collect [] do
      if (← isAborted) || (← at? .rparen) || (← at? .eof) then return ([], false)
      else
        let item ← withItem r
        return ([item], ← eat .comma)
    let _ ← expect .rparen
    return items
  else
    collect [] do
      let item ← withItem r
      if ← isAborted then return ([item], false) else return ([item], ← eat .comma)

/-- A statement whose `with` is next; `isAsync` holds the token in front of it. -/
def withStatement (r : Rules) (isAsync : Option Token) : Parser Stmt := do
  let word ← bump
  let first := isAsync.getD word
  let items ← withItems r
  let body ← suite r
  return .withBlock (← closeCompound first) isAsync.isSome items body

/-- The exception type of an `except` clause. Several without parentheses are reported and taken for
a tuple. -/
def handlerType (r : Rules) : Parser Expr := do
  let head ← r.expression
  let comma ← peek
  if comma.kind = .comma then
    let stops : Parser Bool := return (← kind) = .colon || (← kind) = .kwAs
    let elts ← collectCommas [head] stops r.expression
    report .unexpectedToken comma.span comma.lexeme
    return .tuple (← extentFrom comma) elts .load
  else return head

/-- An `except` clause, and whether it has a star. -/
def handler (r : Rules) : Parser (Handler × Bool) := do
  let _ ← bump
  let isStar ← eat .star
  if ← at? .colon then
    let body ← suite r
    return (.mk none none body, isStar)
  else
    let type ← handlerType r
    let name ← asName
    let body ← suite r
    return (.mk (some type) name body, isStar)

def tryStatement (r : Rules) : Parser Stmt := do
  let first ← bump
  let body ← suite r
  let found ← collect [] do
    if !(← isAborted) && (← at? .kwExcept) then return ([← handler r], true)
    else return ([], false)
  let orelse ← if found.isEmpty then pure [] else elseSuite r
  let finalbody ←
    if ← eat .kwFinally then suite r
    else
      if found.isEmpty then
        report .expectedToken (← peek).span Token.Kind.kwExcept.text
      pure []
  return .tryBlock (← closeCompound first) (found.any (·.2)) body (found.map (·.1)) orelse finalbody

/-- The last token outside brackets before the end of the line is a colon. -/
def endsInColon : (depth : Int) → (last : Token.Kind) → List Token → Bool
  | _, _, [] => false
  | depth, last, t :: rest =>
    if t.kind = .eof then false
    else if t.kind = .newline then last = .colon
    else
      let depth :=
        if t.kind.isOpening then depth + 1 else if t.kind.isClosing then depth - 1 else depth
      endsInColon depth (if depth = 0 then t.kind else last) rest

/-- Tokens behind `match` that make it an ordinary name. -/
def followsName (k : Token.Kind) : Bool :=
  k.isAugmented ||
    [.assign, .dot, .colon, .newline, .eof, .comma, .rparen, .semicolon].contains k

/-- The next token is a `match` that starts a statement. -/
def atMatch : Parser Bool := do
  let c := (← get).cursor
  return c.atWord (utf8 "match") && !followsName (c.kind 1) &&
    endsInColon 0 .error (c.upcoming.drop 1)

/-- What is matched, several expressions as a tuple. -/
def matchSubject (r : Rules) : Parser Expr := do
  let first ← peek
  let head ← starNamed r
  if ← at? .comma then
    let elts ← collectCommas [head] (at? .colon) (starNamed r)
    return .tuple (← extentFrom first) elts .load
  else return head

def matchCase (r : Rules) : Parser MatchCase := do
  let _ ← bump
  let p ← patterns r
  let guard ← if ← eat .kwIf then some <$> named r else pure none
  let body ← suite r
  return .mk p guard body

/-- The `case` clauses of a block. Anything else is reported and skipped. -/
def matchCases (r : Rules) : Parser (List MatchCase) :=
  collect [] do
    if (← isAborted) || (← at? .dedent) || (← at? .eof) then return ([], false)
    else if ← eat .newline then return ([], true)
    else if (← get).cursor.atWord (utf8 "case") then return ([← matchCase r], true)
    else
      report .expectedToken (← peek).span (utf8 "case")
      let before := (← get).cursor.pos
      recoverToNewline
      if (← get).cursor.pos = before then
        let _ ← bump
      return ([], true)

/-- The block of a `match` statement, behind its colon. -/
def matchBlock (r : Rules) : Parser (List MatchCase) := do
  unless ← expect .newline do recoverToNewline
  if ← eat .indent then
    let cases ← matchCases r
    let _ ← eat .dedent
    return cases
  else
    report .expectedIndent (← peek).span
    return []

def matchStatement (r : Rules) : Parser Stmt := do
  let first ← bump
  let subject ← matchSubject r
  let cases ←
    if ← expect .colon then matchBlock r
    else
      recoverToNewline
      pure []
  return .matchBlock (← closeCompound first) subject cases

/-- The name behind `def` or `class`, empty when it is missing. -/
def definedName : Parser Text := do
  let t ← peek
  if ← expect .ident then return t.lexeme else return []

/-- A function whose `def` is next; `isAsync` holds the token in front of it. -/
def functionStatement (r : Rules) (isAsync : Option Token) (decorators : List Expr) :
    Parser Stmt := do
  let word ← bump
  let first := isAsync.getD word
  let name ← definedName
  let params ←
    if ← expect .lparen then
      let params ← parameters r .rparen true
      unless ← expect .rparen do recoverTo [.colon]
      pure params
    else
      recoverTo [.colon]
      pure .empty
  let returns ← if ← eat .arrow then some <$> r.expression else pure none
  let body ← suite r
  return .function (← closeCompound first) isAsync.isSome name params body decorators returns

def classStatement (r : Rules) (decorators : List Expr) : Parser Stmt := do
  let first ← bump
  let name ← definedName
  let (bases, keywords) ←
    if ← eat .lparen then
      let found ← arguments r
      unless ← expect .rparen do recoverTo [.colon]
      pure found
    else pure ([], [])
  let body ← suite r
  return .classDef (← closeCompound first) name bases keywords body decorators

/-- A function or class behind its decorators. Anything else there is reported and its line skipped.
-/
def decoratedStatement (r : Rules) : Parser (List Stmt) := do
  let decorators ← collect [] do
    if !(← isAborted) && (← at? .at) then
      let _ ← bump
      let e ← named r
      unless ← expect .newline do recoverToNewline
      return ([e], true)
    else return ([], false)
  let t ← peek
  if t.kind = .kwDef then return [← functionStatement r none decorators]
  else if t.kind = .kwClass then return [← classStatement r decorators]
  else if t.kind = .kwAsync && (← kind 1) = .kwDef then
    let _ ← bump
    return [← functionStatement r (some t) decorators]
  else
    report .expectedToken t.span Token.Kind.kwDef.text
    recoverToNewline
    return []

/-- A statement behind `async`, which is next. -/
def asyncStatement (r : Rules) : Parser (List Stmt) := do
  let t ← peek
  match ← kind 1 with
  | .kwDef => do
    let _ ← bump
    return [← functionStatement r (some t) []]
  | .kwFor => do
    let _ ← bump
    return [← forStatement r (some t)]
  | .kwWith => do
    let _ ← bump
    return [← withStatement r (some t)]
  | _ => do
    report .unexpectedToken t.span t.lexeme
    recoverToNewline
    return []

/-- A block that is indented without reason is reported; it is read and dropped. -/
def strayBlock (r : Rules) : Parser (List Stmt) := do
  let t ← peek
  report .unexpectedIndent t.span
  let _ ← bump
  let _ ← collect ([] : List Stmt) do
    if (← isAborted) || (← at? .dedent) || (← at? .eof) then return ([], false)
    else
      let before := (← get).cursor.pos
      let _ ← r.statement
      if (← get).cursor.pos = before then
        let _ ← bump
      return ([], true)
  let _ ← eat .dedent
  return []

/-- A compound statement or a line of simple ones. -/
def statement (r : Rules) : Parser (List Stmt) := do
  if ← isAborted then return []
  else
    match ← kind with
    | .indent => strayBlock r
    | .kwIf => return [← branchStatement r]
    | .kwWhile => return [← whileStatement r]
    | .kwFor => return [← forStatement r none]
    | .kwWith => return [← withStatement r none]
    | .kwTry => return [← tryStatement r]
    | .kwDef => return [← functionStatement r none []]
    | .kwClass => return [← classStatement r []]
    | .at => decoratedStatement r
    | .kwAsync => asyncStatement r
    | _ => if ← atMatch then return [← matchStatement r] else simpleLine r

end CloneScout.Grammar
