import CloneScout.Run.Basic

/-!
# The command line

A run is computed on a disk, so the program first takes a snapshot of what the run can look at: all
that is below the given directory, the links on the way to it, and the settings files above it. Then
it carries the run out: it writes the report and shows what was printed.
-/

namespace CloneScout.Snapshot

/-- A text as the file system takes it. -/
def nameOf (t : Text) : String := (String.fromUTF8? ⟨t.toArray⟩).getD ""

/-- The location of what a path leads to. -/
def locate (path : String) : IO (Option Disk.Location) := do
  try
    return some (Path.partsOf (utf8 (← IO.FS.realPath path).toString))
  catch _ => return none

/-- The path of a location. -/
def pathOf (loc : Disk.Location) : String := nameOf (Disk.pathOf loc).toText

/-- Whether a run reads a file of this name. -/
def isRead (name : Text) : Bool :=
  name = Run.settingsName || (Path.splitExtension name).2 = Disk.sourceExtension

/-- A file with its content. -/
def fileAt (path : String) : IO Disk.Node := return .file (← IO.FS.readBinFile path).toList

/-- A name that no directory holds. -/
def absentName : Text := [0]

/-- A link to what an entry leads to. One that leads nowhere has an absent target, or leads to
itself when there is no end to following it. -/
def linkAt (e : IO.FS.DirEntry) : IO Disk.Node := do
  match ← locate e.path.toString with
  | some loc => return .link (Disk.pathOf loc).toText
  | none =>
    try
      discard e.path.metadata
      return .link absentName
    catch
      | .noFileOrDirectory .. => return .link absentName
      | _ => return .link (utf8 e.fileName)

/-- The node of a directory entry with all below it. Only files that a run reads have content, and
entries that cannot be read are left out. -/
partial def capture (e : IO.FS.DirEntry) : IO (List (Text × Disk.Node)) := do
  try
    let name := utf8 e.fileName
    match (← e.path.symlinkMetadata).type with
    | .dir => return [(name, .directory (← (← e.path.readDir).toList.mapM capture).flatten)]
    | .file => return [(name, ← if isRead name then fileAt e.path.toString else pure (.file []))]
    | .symlink => return [(name, ← linkAt e)]
    | .other => return [(name, .device false)]
  catch _ => return []

/-- Puts a node into a snapshot. -/
def put (d : Disk) (loc : Disk.Location) (n : Disk.Node) : Disk :=
  { d with root := .put n loc d.root }

/-- Adds an entry of the directory at `dir` unless it is a directory itself. A file has content if a
run reads it, and so has a file that a link leads to. -/
def addEntry (d : Disk) (dir : Disk.Location) (name : Text) : IO Disk := do
  let e : IO.FS.DirEntry := ⟨pathOf dir, nameOf name⟩
  try
    match (← e.path.symlinkMetadata).type with
    | .file =>
      let n ← if isRead name then fileAt e.path.toString else pure (.file [])
      return put d (dir ++ [name]) n
    | .symlink =>
      let d := put d (dir ++ [name]) (← linkAt e)
      let some target ← locate e.path.toString | return d
      match (← e.path.metadata).type with
      | .file => return put d target (← fileAt e.path.toString)
      | .dir => return put d target (.directory [])
      | _ => return d
    | _ => return d
  catch _ => return d

/-- Adds the links on the way along an absolute path and the settings files beside it. -/
def addWay (d : Disk) (parts : List Text) : IO Disk :=
  (List.range (parts.length + 1)).foldlM (fun d n => do
    match ← locate (pathOf (parts.take n)) with
    | none => return d
    | some dir =>
      let d ← addEntry d dir Run.settingsName
      match parts[n]? with
      | some name => addEntry d dir name
      | none => return d) d

/-- Adds the directory at a location with all below it, and the content of files that only links
with a source file's name lead to. -/
def addTree (d : Disk) (loc : Disk.Location) : IO Disk := do
  let e : IO.FS.DirEntry := ⟨pathOf loc, "."⟩
  match (← capture e).head? with
  | none => return d
  | some (_, tree) =>
    let targets := (tree.contents loc).filterMap fun
      | (at_, .link target) => if at_.getLast?.any isRead then some target else none
      | _ => none
    targets.foldlM (fun d target => do
      if d.isFile target then return put d (Path.partsOf target) (← fileAt (nameOf target))
      else return d) (put d loc tree)

/-- The directory for temporary files: the first of the usual variables that is set names it. -/
def temporary : IO (Option Disk.Location) := do
  for name in ["TMPDIR", "TMP", "TEMP", "TEMPDIR"] do
    if let some path ← IO.getEnv name then return ← locate path
  locate "/tmp"

/-- The part of the file system that a run on the given directory can look at. -/
def ofRoot (root : Text) : IO Disk := do
  let current := (← locate ".").getD []
  let start : Disk := put { current, temporary := ← temporary } current (.directory [])
  let way ← addWay start (Path.ofText (start.absolute root)).parts
  match ← locate (nameOf root) with
  | none => return way
  | some loc => addTree (← addWay way loc) loc

end CloneScout.Snapshot

namespace CloneScout.Run

/-- The number of processors, or zero where it cannot be found out. -/
def processors : IO Nat := do
  try
    let lines ← IO.FS.lines "/proc/cpuinfo"
    return (lines.filter fun l => l.startsWith "processor").size
  catch _ => return 0

/-- Opens a file for writing. -/
def openFile (path : Text) : IO (Option IO.FS.Handle) := do
  try
    return some (← IO.FS.Handle.mk (Snapshot.nameOf path) .write)
  catch _ => return none

/-- Writes a report to its file. -/
def saveFile (path content : Text) : IO (Option Disk.WriteFault) := do
  let some h ← openFile path | return some .unopened
  try
    h.write ⟨content.toArray⟩
    h.flush
    return none
  catch _ => return some .failed

/-- Carries out the last step of a run. -/
def Step.perform : Step → IO Outcome
  | .done outcome => return outcome
  | .save path content next => return next (← saveFile path content)

end CloneScout.Run

open CloneScout

/-- Runs the program with the arguments of the command line. -/
def main (args : List String) : IO UInt32 := do
  let args := args.map utf8
  let (o, refusal) := Run.Options.ofArgs args
  let d ← if refusal.isNone && o.mode = .run then Snapshot.ofRoot o.root else pure {}
  let outcome ← (Run.ofArgs d (← Run.processors) args).perform
  (← IO.getStdout).write ⟨outcome.console.out.toArray⟩
  (← IO.getStderr).write ⟨outcome.console.err.toArray⟩
  return UInt32.ofNat outcome.exit.code
