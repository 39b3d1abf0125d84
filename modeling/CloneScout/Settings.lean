import CloneScout.Diagnostic.Basic
import CloneScout.Normal.Basic
import CloneScout.Number.Word
import CloneScout.Toml.Document

/-!
# Settings of a run

What a run can be told about: how code is normalised, which functions are large enough, which files
are looked at, and how the report is written. A settings file changes the defaults; a value of the
wrong kind is reported and leaves its default in place.
-/

namespace CloneScout

inductive ReportFormat where
  | text
  | json
  deriving DecidableEq, Repr

/-- The times are in milliseconds; a bound of zero is no bound. -/
structure Settings where
  normal : Normal.Config := {}
  minLines : Nat := 15
  minStmts : Nat := 6
  parseTime : Nat := 5000
  excludes : List Text := []
  maxFiles : Nat := 100000
  format : ReportFormat := .text
  deriving DecidableEq, Repr

namespace Settings

open Toml (Table Value)

/-- A setting: its full key, what a value of it must be, and how such a value changes the settings.
-/
structure Key where
  name : Text
  expected : Text
  set : Value → Settings → Option Settings

/-- A setting that is on or off. -/
def Key.ofBool (name : String) (set : Bool → Normal.Config → Normal.Config) : Key where
  name := utf8 name
  expected := utf8 "a boolean"
  set
    | .bool b, s => some { s with normal := set b s.normal }
    | _, _ => none

/-- A setting that is a number of at least `least` and fits into a word. -/
def Key.ofNat (name : String) (least : Nat) (set : Nat → Settings → Settings) : Key where
  name := utf8 name
  expected := utf8 (if 0 < least then "a positive integer" else "a non-negative integer")
  set
    | .int n, s => if least ≤ n ∧ Word.fits n.toNat then some (set n.toNat s) else none
    | _, _ => none

/-- The directories that are left out, by name. -/
def Key.excludes : Key where
  name := utf8 "scan.excludes"
  expected := utf8 "an array of strings"
  set
    | .strs ts, s => some { s with excludes := ts }
    | _, _ => none

def Key.format : Key where
  name := utf8 "report.format"
  expected := utf8 "\"text\" or \"json\""
  set
    | .str t, s =>
      if t = utf8 "text" then some { s with format := .text }
      else if t = utf8 "json" then some { s with format := .json }
      else none
    | _, _ => none

/-- All settings, in the order in which they are read. -/
def keys : List Key :=
  [.ofBool "normalize.docstrings" fun b c => { c with ignoreDocstrings := b },
    .ofBool "normalize.annotations" fun b c => { c with ignoreHints := b },
    .ofBool "normalize.attributes" fun b c => { c with attributes := b },
    .ofBool "normalize.constants" fun b c => { c with constants := b },
    .ofBool "normalize.names" fun b c => { c with names := b },
    .ofNat "extract.min_loc" 1 fun n s => { s with minLines := n },
    .ofNat "extract.min_stmt" 1 fun n s => { s with minStmts := n },
    .ofNat "extract.parse_timeout_ms" 0 fun n s => { s with parseTime := n },
    .excludes,
    .ofNat "scan.max_files" 1 fun n s => { s with maxFiles := n },
    .format]

def isKnown (key : Text) : Bool := keys.any fun k => k.name = key

/-- Reads one setting from a table, if the table has it. -/
def Key.read (table : Table) (acc : Settings × List Diagnostic) (k : Key) :
    Settings × List Diagnostic :=
  match table.get? k.name with
  | none => acc
  | some v =>
    match k.set v acc.1 with
    | some s => (s, acc.2)
    | none => (acc.1, acc.2 ++ [.general .error .configInvalidValue k.name k.expected])

/-- The settings of a table on top of `s`, with an error for every value that does not fit. -/
def apply (s : Settings) (table : Table) : Settings × List Diagnostic :=
  keys.foldl (Key.read table) (s, [])

/-- A warning for every key of a table that is no setting. -/
def unknownKeys (table : Table) : List Diagnostic :=
  (table.filter fun e => !isKnown e.1).map fun e => .general .warning .configUnknownKey e.1

/-- The entries of a table that are settings. -/
def knownEntries (table : Table) : Table := table.filter fun e => isKnown e.1

end Settings

end CloneScout
