import CloneScout.Clone.Report
import CloneScout.Diagnostic.Render
import CloneScout.Run.Load
import CloneScout.Run.Options

/-!
# A run of the program

A run looks for settings, scans the root for source files, analyses each of them, groups what it
found and writes a report. Files are independent of each other: each gives a result of its own, and
the results are put together in the order of the files.

The report goes to standard output, or to a file; then the log goes to standard output instead of
standard error. Everything is computed from a disk, and the only step that changes it, writing the
report, is left to the caller.
-/

namespace CloneScout.Run

/-! ## Single files -/

/-- What the analysis of one file gives: there are no records for a file that cannot be read or
parsed. The source is kept for the diagnostics. -/
structure FileResult where
  path : Text
  source : Text := []
  diags : List Diagnostic := []
  extract : Option Extract := none

/-- Analyses the file at `path`, which belongs to the scanned directory `root`. -/
def FileResult.ofPath (d : Disk) (root : Text) (s : Settings) (path : Text) : FileResult :=
  match d.readText path with
  | .error e => { path, diags := [.general .error .fileReadFailed path e.message] }
  | .ok source =>
    let r := Extracted.ofSource s.normal { minLoc := s.minLines, minStmt := s.minStmts } path
      (d.moduleName root path) source
    { path, source, diags := r.diags.toList, extract := if r.ok then some r.extract else none }

/-- The diagnostics of a file, each with the lines around it. -/
def FileResult.diagnosticText (o : Options) (r : FileResult) : Text :=
  let m := ({} : SourceMap).add r.path r.source
  r.diags.flatMap fun d => d.renderContext o.language m o.context ++ utf8 "\n"

/-- The log line of a file. -/
def FileResult.logLine (r : FileResult) : Text :=
  match r.extract with
  | none => utf8 "[skip] " ++ r.path ++ utf8 "\n"
  | some x =>
    utf8 "[ok] " ++ r.path ++ utf8 ": units=" ++ Text.ofNat x.units.length ++
      utf8 " blocks=" ++ Text.ofNat x.blocks.length ++
      utf8 " segments=" ++ Text.ofNat x.segments.length ++ utf8 "\n"

/-! ## Output -/

/-- What was written to standard output and standard error. -/
structure Console where
  out : Text := []
  err : Text := []
  deriving DecidableEq, Repr

def Console.print (c : Console) (t : Text) : Console := { c with out := c.out ++ t }

def Console.warn (c : Console) (t : Text) : Console := { c with err := c.err ++ t }

/-- The log leaves standard output to the report if that goes there. -/
def Console.log (c : Console) (o : Options) (t : Text) : Console :=
  if o.output = [] then c.warn t else c.print t

/-- How the program ends. -/
inductive Exit where
  | ok
  | badArguments
  | badInput
  | clonesFound
  deriving DecidableEq, Repr

def Exit.code : Exit → Nat
  | .ok => 0
  | .badArguments => 1
  | .badInput => 2
  | .clonesFound => 3

structure Outcome where
  exit : Exit
  console : Console
  deriving DecidableEq, Repr

/-- A finished run, or one that has yet to write its report and goes on with the result of that. -/
inductive Step where
  | done (outcome : Outcome)
  | save (path content : Text) (next : Option Disk.WriteFault → Outcome)

/-- Why the report is not in its file. -/
def saveFaultText (path : Text) : Disk.WriteFault → Text
  | .unopened => utf8 "error: cannot open '" ++ path ++ utf8 "' for writing\n"
  | .failed => utf8 "error: failed to write '" ++ path ++ utf8 "'\n"

/-- Takes the last step of a run on a disk. -/
def Step.onDisk (d : Disk) : Step → Outcome × Disk
  | .done outcome => (outcome, d)
  | .save path content next =>
    match d.write path content with
    | .ok d => (next none, d)
    | .error e => (next (some e), d)

/-! ## Runs -/

/-- Diagnostics that belong to no place in a file. -/
def plainDiagnostics (o : Options) (ds : List Diagnostic) : Text :=
  ds.flatMap fun d => d.render o.language {}

/-- The log lines about the settings file. -/
def settingsLog (l : Loaded) : Text :=
  match l.path with
  | none => []
  | some path =>
    utf8 "config: " ++ path ++ utf8 "\n" ++
      l.table.flatMap fun e => utf8 "  " ++ e.1 ++ utf8 " = " ++ e.2.render ++ utf8 "\n"

/-- The report on the results of all files, and the clones that it shows. -/
structure Findings where
  summary : Report.Summary
  functions : Groups FunctionUnit
  blocks : Groups BlockUnit
  segments : Groups SegmentUnit

def Findings.ofResults (root : Text) (results : List FileResult) : Findings :=
  let extracts := results.filterMap FileResult.extract
  { summary :=
      { root
        filesFound := results.length
        filesAnalyzed := extracts.length
        filesSkipped := results.length - extracts.length }
    functions := functionGroups (extracts.flatMap Extract.units)
    blocks := reportBlocks (blockGroups 2 (extracts.flatMap Extract.blocks))
    segments := segmentGroups 2 (extracts.flatMap Extract.segments) }

def Findings.report (f : Findings) (format : ReportFormat) : Text :=
  let clones := Report.Clones.of f.functions f.blocks f.segments
  match format with
  | .text => Report.text f.summary clones
  | .json => Report.json f.summary clones

def Findings.groupCount (f : Findings) : Nat :=
  f.functions.length + f.blocks.length + f.segments.length

/-- The last line of the log. -/
def Findings.logLine (f : Findings) : Text :=
  utf8 "files analyzed: " ++ Text.ofNat f.summary.filesAnalyzed ++
    utf8 ", skipped: " ++ Text.ofNat f.summary.filesSkipped ++
    utf8 "; clone groups: functions=" ++ Text.ofNat f.functions.length ++
    utf8 " blocks=" ++ Text.ofNat f.blocks.length ++
    utf8 " segments=" ++ Text.ofNat f.segments.length ++ utf8 "\n"

/-- The number of jobs of a run on a machine with `processors` processors; zero processors means
that their number is not known. -/
def jobs (o : Options) (processors : Nat) : Nat :=
  if o.jobs ≠ 0 then o.jobs else if processors ≠ 0 then processors else 4

/-- Shows what the files gave, in their order. -/
def showResults (o : Options) (c : Console) (results : List FileResult) : Console :=
  results.foldl (fun c r =>
    let c := c.warn (r.diagnosticText o)
    if o.verbose then c.log o r.logLine else c) c

/-- Closes a run whose report is written. -/
def finish (o : Options) (f : Findings) (c : Console) : Outcome :=
  { exit := if o.failOnClones && f.groupCount ≠ 0 then .clonesFound else .ok
    console := c.log o f.logLine }

/-- Writes the report of a run. -/
def writeReport (o : Options) (format : ReportFormat) (f : Findings) (c : Console) : Step :=
  if o.output = [] then .done (finish o f (c.print (f.report format)))
  else
    .save o.output (f.report format) fun
      | none => finish o f c
      | some e => { exit := .badInput, console := c.warn (saveFaultText o.output e) }

/-- Reports on the files of a scan, given the results of their analysis in the order of the files. -/
def reportScan (processors : Nat) (o : Options) (s : Settings) (scan : Disk.Scan)
    (results : List FileResult) (c : Console) : Step :=
  let c :=
    if o.verbose then
      c.log o (utf8 "scanning " ++ scan.root ++ utf8 ": " ++ Text.ofNat scan.files.length ++
        utf8 " file(s), jobs=" ++ Text.ofNat (jobs o processors) ++ utf8 "\n")
    else c
  writeReport o s.format (.ofResults scan.root results) (showResults o c results)

/-- Analyses the files of a scan. -/
def analyseScan (d : Disk) (processors : Nat) (o : Options) (s : Settings) (scan : Disk.Scan)
    (c : Console) : Step :=
  reportScan processors o s scan (scan.files.map (FileResult.ofPath d scan.root s)) c

/-- Runs the program with options that name a root. -/
def start (d : Disk) (processors : Nat) (o : Options) : Step :=
  let loaded := Loaded.ofRoot d o.root
  let c : Console := if o.verbose then ({} : Console).log o (settingsLog loaded) else {}
  if !loaded.ok then .done ⟨.badInput, c.warn (plainDiagnostics o loaded.diags)⟩
  else
    let s := o.settings loaded.settings
    match d.scan o.root s.excludes s.maxFiles with
    | .error e => .done ⟨.badInput, c.warn (plainDiagnostics o (loaded.diags ++ [e]))⟩
    | .ok scan => analyseScan d processors o s scan (c.warn (plainDiagnostics o loaded.diags))

/-- Runs the program with command line arguments. Without any it says what it is and how to call
it. -/
def ofArgs (d : Disk) (processors : Nat) (args : List Text) : Step :=
  match Options.ofArgs args with
  | (_, some refusal) =>
    .done ⟨.badArguments, { err := utf8 "error: " ++ refusal.message ++ utf8 "\n" ++ usage }⟩
  | (o, none) =>
    match o.mode with
    | .usage => .done ⟨.ok, { out := (if args = [] then versionLine else []) ++ usage }⟩
    | .version => .done ⟨.ok, { out := versionLine }⟩
    | .run => start d processors o

end CloneScout.Run
