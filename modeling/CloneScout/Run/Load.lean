import CloneScout.Disk.Scan
import CloneScout.Settings

/-!
# Finding the settings file

The settings of a run come from the first settings file in the scanned directory or above it. A file
that cannot be read as a whole gives an error; keys given twice and unknown keys give warnings.
-/

namespace CloneScout.Run

/-- The name of the settings file. -/
def settingsName : Text := utf8 "codeclone.toml"

/-- The settings file for a directory: in it, or in the nearest directory above it. -/
def settingsFile (d : Disk) (root : Text) : Option Text :=
  let start := if root = [] then (Disk.pathOf d.current).toText else root
  match d.weaklyCanonical start with
  | .error _ => none
  | .ok p =>
    let p := if d.isDirectory p.toText then p else p.parent
    (p.ancestors.map fun dir => (dir.child settingsName).toText).find? fun t => d.isFile t

/-- Reads the settings file at a path. There are no settings where there is no file. -/
def readDocument (d : Disk) (path : Text) : Except Text Toml.Document :=
  match d.node? path with
  | none => .ok {}
  | some (.file content) => .ok (.ofText content)
  | some _ => .error (utf8 "not a regular file: " ++ path)

/-- The settings found for a directory, with the file they come from and the entries it gives. -/
structure Loaded where
  ok : Bool := true
  path : Option Text := none
  table : Toml.Table := []
  settings : Settings := {}
  diags : List Diagnostic := []

/-- What a settings file says. -/
def Loaded.ofFile (d : Disk) (defaults : Settings) (path : Text) : Loaded :=
  match readDocument d path with
  | .error e =>
    { ok := false, path := some path, settings := defaults
      diags := [.general .error .configParseFailed e] }
  | .ok doc =>
    match doc.error path with
    | some e =>
      { ok := false, path := some path, table := doc.table, settings := defaults
        diags := [.general .error .configParseFailed e] }
    | none =>
      let table := Settings.knownEntries doc.table
      let (settings, faults) := defaults.apply table
      let warnings := (doc.warnings path).map fun w => .general .warning .configParseFailed w
      { ok := faults.isEmpty
        path := some path
        table
        settings
        diags := warnings ++ Settings.unknownKeys doc.table ++ faults }

/-- The settings for a directory. -/
def Loaded.ofRoot (d : Disk) (root : Text) : Loaded :=
  let defaults : Settings := { excludes := Disk.defaultExcludes }
  match settingsFile d root with
  | none => { settings := defaults }
  | some path => .ofFile d defaults path

end CloneScout.Run
