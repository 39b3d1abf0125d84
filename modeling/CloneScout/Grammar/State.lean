import CloneScout.Diagnostic.Basic
import CloneScout.Token.Cursor
import CloneScout.Tree.Basic

/-!
# The state of a parser

A parser goes over tokens, reports what is wrong and goes on as well as it can. The same fault at
the same place is reported once, and after too many faults it gives up.
-/

namespace CloneScout.Grammar

structure State where
  cursor : Cursor
  /-- The number of faults after which the parser gives up. -/
  maxErrors : Nat
  diags : Array Diagnostic
  /-- The fingerprints of all faults so far. -/
  seen : List UInt64 := []
  /-- Offset and code of the fault reported last. -/
  latest : Option (Nat × Diagnostic.Code) := none
  errors : Nat := 0
  /-- The last line and the end of the simple statement read last. -/
  lastLine : Nat := 0
  lastOffset : Nat := 0
  /-- The parser has given up: nothing is reported any more. -/
  aborted : Bool := false
  /-- It gave up because there were too many faults. -/
  capped : Bool := false
  /-- A loop went on without taking a token, or the rules came back to each other more often than
  the tokens can need: without a bound the parser might not have ended. -/
  stalled : Bool := false

/-- A parser for values of type `α`. -/
abbrev Parser (α : Type) := StateM State α

/-! ## Faults -/

/-- Mixes a value into a fingerprint. -/
def mix (h v : UInt64) : UInt64 :=
  h ^^^ (v + 0x9e3779b97f4a7c15 + (h <<< (6 : UInt64)) + (h >>> (2 : UInt64)))

/-- The fingerprint of an error in the file under analysis. -/
def fingerprint (code : Diagnostic.Code) (span : Span) : UInt64 :=
  [0, code.index, 0, span.lo, span.hi].foldl (fun h n => mix h (UInt64.ofNat n)) 1469598103934665603

/-- Faults beyond which a parser gives up in any case. -/
def errorLimit : Nat := 1024

namespace State

def giveUp (s : State) : State := { s with aborted := true }

def stall (s : State) : State := { s with stalled := true }

/-- Gives up because of too many faults, the last of them at `span`. -/
def cap (s : State) (span : Span) : State :=
  let here := s.cursor.peek
  let place := if here.kind = .eof then span else here.span
  { s with
    capped := true
    aborted := true
    diags := s.diags.push ⟨.fatal, .tooManyErrors, some ⟨0, place⟩, []⟩ }

/-- Adds a fault that is not a repetition. -/
def addFault (s : State) (code : Diagnostic.Code) (span : Span) (arg : Text) : State :=
  let s := { s with
    latest := some (span.lo, code)
    errors := s.errors + 1
    diags := s.diags.push (.errorAt code span arg) }
  if errorLimit ≤ s.errors then s.giveUp
  else if !s.capped && s.maxErrors ≤ s.errors then s.cap span
  else s

def report (s : State) (code : Diagnostic.Code) (span : Span) (arg : Text) : State :=
  let key := fingerprint code span
  if s.aborted || s.seen.contains key then s
  else
    let s := { s with seen := key :: s.seen }
    if s.latest = some (span.lo, code) then s else s.addFault code span arg

end State

/-- Reports a fault unless it repeats an earlier one. -/
def report (code : Diagnostic.Code) (span : Span) (arg : Text := []) : Parser Unit :=
  modify fun s => s.report code span arg

def abort : Parser Unit := modify State.giveUp

def isAborted : Parser Bool := return (← get).aborted

/-! ## Tokens -/

def peek (k : Nat := 0) : Parser Token := return (← get).cursor.peek k

def kind (k : Nat := 0) : Parser Token.Kind := return (← get).cursor.kind k

def at? (k : Token.Kind) : Parser Bool := return (← kind) = k

def moveCursor (f : Cursor → Cursor) : Parser Unit :=
  modify fun s => { s with cursor := f s.cursor }

/-- Takes the next token. -/
def bump : Parser Token := do
  let t ← peek
  moveCursor Cursor.bump
  return t

/-- Takes the next token if it is of the given kind. -/
def eat (k : Token.Kind) : Parser Bool := do
  if ← at? k then
    let _ ← bump
    return true
  else return false

/-- Takes a token of the given kind or reports that it is missing. -/
def expect (k : Token.Kind) : Parser Bool := do
  if ← isAborted then return false
  else if ← eat k then return true
  else
    let got ← peek
    if got.kind = .eof then
      report .unexpectedEof got.span k.text
      abort
    else report .expectedToken got.span k.text
    return false

def recoverToNewline : Parser Unit := moveCursor Cursor.skipLine

def recoverTo (stops : List Token.Kind) : Parser Unit := moveCursor (Cursor.skipTo stops)

/-- Takes a closing bracket; when it is missing, goes on behind the next one in sight. -/
def close (k : Token.Kind) : Parser Unit := do
  unless ← expect k do
    recoverTo [k]
    let _ ← eat k

/-- Reports the next token as unexpected. -/
def unexpected : Parser Unit := do
  let t ← peek
  report .unexpectedToken t.span t.lexeme

/-! ## Extents -/

/-- The extent of a single token. -/
def tokenExtent (t : Token) : Extent := ⟨t.span, t.line, t.endLine⟩

/-- The extent from one token to another; a last token before the first one is left out. -/
def extentBetween (first last : Token) : Extent :=
  if last.span.hi < first.span.lo then tokenExtent first
  else ⟨first.span.join last.span, first.line, max last.endLine first.line⟩

/-- The extent from a token to the token read last. -/
def extentFrom (first : Token) : Parser Extent := do
  return extentBetween first (← get).cursor.prev

/-- The extent of a simple statement. The parser remembers where it ends. -/
def closeStatement (first : Token) : Parser Extent := do
  let x ← extentFrom first
  modify fun s => { s with lastLine := x.endLine, lastOffset := x.span.hi }
  return x

/-- The extent of a compound statement: it ends with the simple statement read last. -/
def closeCompound (first : Token) : Parser Extent := do
  let s ← get
  return ⟨⟨first.span.lo, max first.span.hi s.lastOffset⟩, first.line, max s.lastLine first.line⟩

/-- Stands for an expression that could not be read. -/
def errorHere : Parser Expr := return .error (tokenExtent (← peek))

/-! ## Repetition -/

/-- Records that the parser does not come to an end by itself. -/
def stall : Parser Unit := modify State.stall

/-- Runs `body` at most `n` times, until it says that nothing follows. A round that goes on has to
take a token. -/
def iterate {σ : Type} (body : σ → Parser (σ × Bool)) : (n : Nat) → σ → Parser σ
  | 0, a => do
    stall
    return a
  | n + 1, a => do
    let before ← get
    let (a, more) ← body a
    if !more then return a
    else if (← get).cursor.remaining < before.cursor.remaining then iterate body n a
    else
      stall
      return a

/-- Runs `body` until it says that nothing follows. Every round but the last takes a token, so there
are at most as many rounds as tokens, and one more. -/
def loop {σ : Type} (start : σ) (body : σ → Parser (σ × Bool)) : Parser σ := do
  iterate body ((← get).cursor.remaining + 1) start

/-- Collects what the rounds of a loop find. The loop carries the last item first. -/
def collect {α : Type} (start : List α) (body : Parser (List α × Bool)) : Parser (List α) := do
  let found ← loop start.reverse fun found => do
    let (more, go) ← body
    return (more.reverse ++ found, go)
  return found.reverse

/-- Collects one item for each token of kind `sep` in front of it. -/
def collectAfter {α : Type} (sep : Token.Kind) (start : List α) (item : Parser α) :
    Parser (List α) :=
  collect start do
    if ← eat sep then return ([← item], true) else return ([], false)

/-- Collects items behind commas. A comma that `stops` follows is the last. -/
def collectCommas {α : Type} (start : List α) (stops : Parser Bool) (item : Parser α) :
    Parser (List α) :=
  collect start do
    if ← eat .comma then
      if ← stops then return ([], false) else return ([← item], true)
    else return ([], false)

end CloneScout.Grammar
