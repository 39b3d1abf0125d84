import CloneScout.Source.Basic

/-!
# Diagnostics

What can be wrong with a source file, a configuration or a directory. A diagnostic names its cause
by a code; the wording is found elsewhere.
-/

namespace CloneScout

inductive Severity where
  | error
  | warning
  | fatal
  deriving DecidableEq, Repr

def Severity.name : Severity → String
  | .error => "error"
  | .warning => "warning"
  | .fatal => "fatal"

/-- The language of messages. -/
inductive Language where
  | english
  | korean
  deriving DecidableEq, Repr

namespace Diagnostic

inductive Code where
  | invalidUtf8
  | unterminatedString
  | invalidNumber
  | inconsistentDedent
  | unexpectedIndent
  | expectedIndent
  | unmatchedBracket
  | strayBackslash
  | expectedToken
  | unexpectedToken
  | unexpectedEof
  | tooManyErrors
  | parseTimeout
  | invalidAssignTarget
  | invalidDelTarget
  | invalidAnnotatedTarget
  | invalidAugAssignTarget
  | positionalAfterKeyword
  | nonDefaultAfterDefault
  | duplicateStarParam
  | bareStarWithoutNamed
  | fStringUnmatchedBrace
  | fStringEmptyExpr
  | invalidPattern
  | fileReadFailed
  | scanInvalidRoot
  | scanSensitiveRoot
  | scanTooManyFiles
  | configParseFailed
  | configUnknownKey
  | configInvalidValue
  deriving DecidableEq, Repr

namespace Code

def name : Code → String
  | .invalidUtf8 => "InvalidUtf8"
  | .unterminatedString => "UnterminatedString"
  | .invalidNumber => "InvalidNumber"
  | .inconsistentDedent => "InconsistentDedent"
  | .unexpectedIndent => "UnexpectedIndent"
  | .expectedIndent => "ExpectedIndent"
  | .unmatchedBracket => "UnmatchedBracket"
  | .strayBackslash => "StrayBackslash"
  | .expectedToken => "ExpectedToken"
  | .unexpectedToken => "UnexpectedToken"
  | .unexpectedEof => "UnexpectedEof"
  | .tooManyErrors => "TooManyErrors"
  | .parseTimeout => "ParseTimeout"
  | .invalidAssignTarget => "InvalidAssignTarget"
  | .invalidDelTarget => "InvalidDelTarget"
  | .invalidAnnotatedTarget => "InvalidAnnotatedTarget"
  | .invalidAugAssignTarget => "InvalidAugAssignTarget"
  | .positionalAfterKeyword => "PositionalAfterKeyword"
  | .nonDefaultAfterDefault => "NonDefaultAfterDefault"
  | .duplicateStarParam => "DuplicateStarParam"
  | .bareStarWithoutNamed => "BareStarWithoutNamed"
  | .fStringUnmatchedBrace => "FStringUnmatchedBrace"
  | .fStringEmptyExpr => "FStringEmptyExpr"
  | .invalidPattern => "InvalidPattern"
  | .fileReadFailed => "FileReadFailed"
  | .scanInvalidRoot => "ScanInvalidRoot"
  | .scanSensitiveRoot => "ScanSensitiveRoot"
  | .scanTooManyFiles => "ScanTooManyFiles"
  | .configParseFailed => "ConfigParseFailed"
  | .configUnknownKey => "ConfigUnknownKey"
  | .configInvalidValue => "ConfigInvalidValue"

/-- Every code, in the order of their declaration. -/
def all : List Code :=
  [.invalidUtf8, .unterminatedString, .invalidNumber, .inconsistentDedent, .unexpectedIndent,
    .expectedIndent, .unmatchedBracket, .strayBackslash, .expectedToken, .unexpectedToken,
    .unexpectedEof, .tooManyErrors, .parseTimeout, .invalidAssignTarget, .invalidDelTarget,
    .invalidAnnotatedTarget, .invalidAugAssignTarget, .positionalAfterKeyword,
    .nonDefaultAfterDefault, .duplicateStarParam, .bareStarWithoutNamed, .fStringUnmatchedBrace,
    .fStringEmptyExpr, .invalidPattern, .fileReadFailed, .scanInvalidRoot, .scanSensitiveRoot,
    .scanTooManyFiles, .configParseFailed, .configUnknownKey, .configInvalidValue]

/-- The place of a code in their order. -/
def index (c : Code) : Nat := all.idxOf c

end Code

/-- A span of a numbered file. -/
structure Location where
  file : Nat
  span : Span
  deriving DecidableEq, Repr

end Diagnostic

/-- A diagnostic: how bad it is, what is wrong, where (if it is about a place in a file), and the
texts that its message mentions. -/
structure Diagnostic where
  severity : Severity
  code : Diagnostic.Code
  location : Option Diagnostic.Location
  args : List Text := []
  deriving DecidableEq, Repr

namespace Diagnostic

/-- An error at a span of the file under analysis; an empty argument is left out. -/
def errorAt (code : Code) (span : Span) (arg : Text) : Diagnostic :=
  { severity := .error
    code
    location := some ⟨0, span⟩
    args := if arg.isEmpty then [] else [arg] }

/-- A diagnostic about no place in a file; a second argument that is empty is left out. -/
def general (severity : Severity) (code : Code) (arg : Text) (detail : Text := []) : Diagnostic :=
  { severity, code, location := none, args := if detail.isEmpty then [arg] else [arg, detail] }

end Diagnostic

/-- Diagnostics in the order of their discovery. -/
structure Bag where
  diags : Array Diagnostic := #[]

namespace Bag

def add (b : Bag) (d : Diagnostic) : Bag := { diags := b.diags.push d }

def append (b other : Bag) : Bag := { diags := b.diags ++ other.diags }

def count (b : Bag) (s : Severity) : Nat := (b.diags.toList.filter fun d => d.severity = s).length

def errorCount (b : Bag) : Nat := b.count .error

def fatalCount (b : Bag) : Nat := b.count .fatal

/-- Errors and fatal diagnostics; warnings do not count. -/
def issueCount (b : Bag) : Nat := b.errorCount + b.fatalCount

def hasError (b : Bag) : Bool := b.issueCount ≠ 0

def hasFatal (b : Bag) : Bool := b.fatalCount ≠ 0

def hasCode (b : Bag) (c : Diagnostic.Code) : Bool := b.diags.toList.any fun d => d.code = c

def isEmpty (b : Bag) : Bool := b.diags.isEmpty

end Bag

end CloneScout
