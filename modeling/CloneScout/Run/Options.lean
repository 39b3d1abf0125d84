import CloneScout.Diagnostic.Message
import CloneScout.Number.Word
import CloneScout.Settings

/-!
# Command line options

The arguments are read from left to right onto a record of options. A flag either stands alone or
takes the next argument as its value; the one argument that is no flag names the directory to look
at. Reading stops at the first fault and keeps what was set before it.
-/

namespace CloneScout.Run

/-- What the program is asked to do. -/
inductive Mode where
  | usage
  | version
  | run
  deriving DecidableEq, Repr

/-- A bound that is not given leaves the settings as they are, and zero jobs stand for the number of
processors. -/
structure Options where
  mode : Mode := .usage
  root : Text := []
  minLines : Option Nat := none
  minStmts : Option Nat := none
  json : Bool := false
  output : Text := []
  jobs : Nat := 0
  keepNames : Bool := false
  keepDocstrings : Bool := false
  keepHints : Bool := false
  keepAttributes : Bool := false
  keepConstants : Bool := false
  language : Language := .english
  context : Nat := 2
  verbose : Bool := false
  failOnClones : Bool := false
  deriving Repr

/-- Why a command line is refused. -/
inductive Refusal where
  | needsValue (flag : Text)
  | notInteger (flag : Text) (least : Nat) (value : Text)
  | badLanguage (value : Text)
  | unknownFlag (arg : Text)
  | extraArgument (arg : Text)
  | noRoot
  deriving DecidableEq, Repr

def Refusal.message : Refusal → Text
  | .needsValue flag => flag ++ utf8 " requires a value"
  | .notInteger flag least v =>
    flag ++ utf8 " expects an integer >= " ++ Text.ofNat least ++ utf8 ", got '" ++ v ++ utf8 "'"
  | .badLanguage v => utf8 "--lang expects en|ko, got '" ++ v ++ utf8 "'"
  | .unknownFlag a => utf8 "unknown option '" ++ a ++ utf8 "'"
  | .extraArgument a => utf8 "unexpected extra argument '" ++ a ++ utf8 "'"
  | .noRoot => utf8 "missing <root> directory"

/-- What a flag does: it changes the options by itself, or with the argument behind it. -/
inductive Flag where
  | switch (set : Options → Options)
  | value (set : Text → Options → Except Refusal Options)

/-- A number in decimal digits, without a sign, that fits into a word. -/
def readNumber (t : Text) : Option Nat :=
  if t ≠ [] ∧ t.all Text.isDigit ∧ Word.fits (Text.natOfDigits 0 t) then some (Text.natOfDigits 0 t)
  else none

/-- A flag whose value is a number of at least `least`. -/
def Flag.number (flag : Text) (least : Nat) (set : Nat → Options → Options) : Flag :=
  .value fun v o =>
    match readNumber v with
    | some n => if least ≤ n then .ok (set n o) else .error (.notInteger flag least v)
    | none => .error (.notInteger flag least v)

/-- A flag whose value is the code of a language. -/
def Flag.language : Flag :=
  .value fun v o =>
    if v = utf8 "en" then .ok { o with language := .english }
    else if v = utf8 "ko" then .ok { o with language := .korean }
    else .error (.badLanguage v)

/-- The flag that an argument spells. -/
def Flag.ofText (a : Text) : Option Flag :=
  if a = utf8 "--min-loc" then some (.number a 1 fun n o => { o with minLines := some n })
  else if a = utf8 "--min-stmt" then some (.number a 1 fun n o => { o with minStmts := some n })
  else if a = utf8 "--jobs" then some (.number a 1 fun n o => { o with jobs := n })
  else if a = utf8 "--context" then some (.number a 0 fun n o => { o with context := n })
  else if a = utf8 "--output" then some (.value fun v o => .ok { o with output := v })
  else if a = utf8 "--lang" then some .language
  else if a = utf8 "--json" then some (.switch fun o => { o with json := true })
  else if a = utf8 "--no-normalize-names" then some (.switch fun o => { o with keepNames := true })
  else if a = utf8 "--keep-docstrings" then
    some (.switch fun o => { o with keepDocstrings := true })
  else if a = utf8 "--keep-annotations" then some (.switch fun o => { o with keepHints := true })
  else if a = utf8 "--no-normalize-attributes" then
    some (.switch fun o => { o with keepAttributes := true })
  else if a = utf8 "--no-normalize-constants" then
    some (.switch fun o => { o with keepConstants := true })
  else if a = utf8 "--verbose" then some (.switch fun o => { o with verbose := true })
  else if a = utf8 "--fail-on-clones" then some (.switch fun o => { o with failOnClones := true })
  else none

namespace Options

/-- Reads arguments onto `o`. -/
def read (o : Options) : List Text → Options × Option Refusal
  | [] => if o.root = [] then (o, some .noRoot) else ({ o with mode := .run }, none)
  | a :: rest =>
    match Flag.ofText a with
    | some (.switch set) => (set o).read rest
    | some (.value set) =>
      match rest with
      | [] => (o, some (.needsValue a))
      | v :: rest =>
        match set v o with
        | .error e => (o, some e)
        | .ok o => o.read rest
    | none =>
      if a.head? = some (ascii '-') then (o, some (.unknownFlag a))
      else if o.root = [] then { o with root := a }.read rest
      else (o, some (.extraArgument a))

/-- The first argument that asks for the version or for help, wherever it stands. -/
def askedMode : List Text → Option Mode
  | [] => none
  | a :: rest =>
    if a = utf8 "--version" then some .version
    else if a = utf8 "--help" ∨ a = utf8 "-h" then some .usage
    else askedMode rest

/-- The options of a command line. A request for the version or for help goes before all else, and
an empty command line asks for help. -/
def ofArgs (args : List Text) : Options × Option Refusal :=
  match args with
  | [] => ({}, none)
  | _ =>
    match askedMode args with
    | some mode => ({ mode }, none)
    | none => read {} args

/-- The settings of a run: flags go before the settings file. -/
def settings (o : Options) (s : Settings) : Settings :=
  { s with
    normal :=
      { ignoreDocstrings := s.normal.ignoreDocstrings && !o.keepDocstrings
        ignoreHints := s.normal.ignoreHints && !o.keepHints
        attributes := s.normal.attributes && !o.keepAttributes
        constants := s.normal.constants && !o.keepConstants
        names := s.normal.names && !o.keepNames }
    minLines := o.minLines.getD s.minLines
    minStmts := o.minStmts.getD s.minStmts
    format := if o.json then .json else s.format }

end Options

/-- How the program is called. -/
def usage : Text := utf8
  "codeclone <root> [options]
  --version

Options:
  --min-loc N                 (minimum function size in lines, default 15)
  --min-stmt N                (minimum top-level statements, default 6)
  --json                      (emit JSON report)
  --output <file>             (write report to file instead of stdout)
  --jobs N                    (worker threads, default: hardware threads)
  --no-normalize-names
  --keep-docstrings
  --keep-annotations
  --no-normalize-attributes
  --no-normalize-constants
  --lang en|ko                (diagnostic language)
  --context N                 (source lines around a diagnostic, default 2)
  --verbose                   (per-file progress on stdout)
  --fail-on-clones            (exit 3 when any clone group is found)

Settings may also come from codeclone.toml in <root> or a parent directory.
"

/-- The name and version of the program. -/
def versionLine : Text := utf8 "codeclone v1.4.0\n"

end CloneScout.Run
