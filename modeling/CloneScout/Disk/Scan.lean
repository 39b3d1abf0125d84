import CloneScout.Diagnostic.Basic
import CloneScout.Disk.Basic

/-!
# The source files below a directory

A scan collects the paths of all source files below a root directory. Directories and files with an
excluded name are left out, and so are links that lead out of the root. System directories are
refused as roots, unless they hold the temporary files.
-/

namespace CloneScout.Disk

/-- The names that a scan leaves out unless it is told otherwise. -/
def defaultExcludes : List Text :=
  [".git", ".venv", "venv", "__pycache__", "site-packages", "migrations", "alembic", "dist",
    "build", ".tox"].map utf8

/-- The directories that may not be scanned. -/
def sensitive : List Location :=
  ["/etc", "/sys", "/proc", "/dev", "/root", "/boot", "/var", "/private/var", "/usr/bin",
    "/usr/sbin", "/private/etc"].map fun s => Path.partsOf (utf8 s)

/-- Whether `loc` is `base` or below it. -/
def isUnder (loc base : Location) : Bool := base.isPrefixOf loc

def isSensitive (d : Disk) (loc : Location) : Bool :=
  !(d.temporary.elim false fun t => isUnder loc t) && sensitive.any fun s => isUnder loc s

/-- The extension of source files. -/
def sourceExtension : Text := utf8 ".py"

/-- Whether a location below `root` counts as a source file: no name on the way is excluded, the
extension fits, and the location leads to a file under the root. -/
def isSource (d : Disk) (root : Location) (excludes : List Text) (loc : Location) : Bool :=
  let rel := loc.drop root.length
  (Path.splitExtension (rel.getLast?.getD [])).2 = sourceExtension &&
    !(rel.any fun name => excludes.contains name) &&
    match d.resolve (pathOf loc).toText with
    | .error _ => false
    | .ok target =>
      isUnder target root &&
        match d.get? target with
        | some (.file _) => true
        | _ => false

/-- The source files of a scan, in increasing order of their paths. -/
structure Scan where
  root : Text
  files : List Text
  deriving DecidableEq, Repr

/-- The paths of the source files below the directory at `root`. -/
def sources (d : Disk) (root : Location) (excludes : List Text) : List Text :=
  match d.get? root with
  | none => []
  | some n =>
    let locs := ((n.contents root).map Prod.fst).filter fun loc => d.isSource root excludes loc
    (locs.map fun loc => (pathOf loc).toText).mergeSort Text.le

/-- Scans a directory. A root that is no directory, a system directory and more than `maxFiles`
files are refused. -/
def scan (d : Disk) (root : Text) (excludes : List Text) (maxFiles : Nat) :
    Except Diagnostic Scan :=
  match d.canonical root with
  | .error e => .error (.general .error .scanInvalidRoot root e.message)
  | .ok loc =>
    match d.get? loc with
    | some (.directory _) =>
      if d.isSensitive loc then .error (.general .error .scanSensitiveRoot root)
      else
        let files := d.sources loc excludes
        if maxFiles < files.length then
          .error (.general .error .scanTooManyFiles (Text.ofNat maxFiles))
        else .ok { root := (pathOf loc).toText, files }
    | _ => .error (.general .error .scanInvalidRoot root (utf8 "not a directory"))

/-! ## Module names -/

/-- The path as canonical as it can be made. -/
def settle (d : Disk) (t : Text) : Path :=
  match d.weaklyCanonical t with
  | .ok p => p
  | .error _ => .ofText t

/-- The dotted name of the module in a file: its path from the root without extension. The file that
stands for a package gives the package's name. -/
def moduleName (d : Disk) (root file : Text) : Text :=
  let rel := (d.settle file).relativeTo (d.settle root)
  let rel := if rel.isEmpty then ⟨false, [(Path.ofText file).filename]⟩ else rel
  let rel := rel.withoutExtension
  let rel := if rel.filename = utf8 "__init__" then rel.parent else rel
  Text.join (utf8 ".") (rel.parts.filter fun part => !part.isEmpty && part ≠ Path.dot)

end CloneScout.Disk
