import CloneScout.Text.JsonString
import CloneScout.Clone.Group

/-!
# Reports

The groups of clones as text for readers or as JSON for programs. The order of groups and members
does not depend on the order in which records were found.
-/

namespace CloneScout.Report

/-- What is said about a run besides its groups. -/
structure Summary where
  root : Text := []
  filesFound : Nat := 0
  filesAnalyzed : Nat := 0
  filesSkipped : Nat := 0

/-- A member of a group as the reports show it: its place, its size, and what only the JSON report
shows. -/
structure Row where
  filepath : Text
  qualname : Text
  startLine : Nat
  endLine : Nat
  sizeLabel : String
  size : Nat
  counts : List Nat
  words : List Text

def Row.ofFunction (u : FunctionUnit) : Row :=
  ⟨u.filepath, u.qualname, u.startLine, u.endLine, "loc", u.loc, [u.stmtCount],
    [u.fingerprint, u.bucket]⟩

def Row.ofBlock (b : BlockUnit) : Row :=
  ⟨b.filepath, b.qualname, b.startLine, b.endLine, "size", b.size, [], []⟩

def Row.ofSegment (s : SegmentUnit) : Row :=
  ⟨s.filepath, s.qualname, s.startLine, s.endLine, "size", s.size, [], [s.hash, s.signature]⟩

/-- The groups of a report. -/
structure Clones where
  functions : Groups Row
  blocks : Groups Row
  segments : Groups Row

/-- The groups of functions, of merged blocks and of segments. -/
def Clones.of (functions : Groups FunctionUnit) (blocks : Groups BlockUnit)
    (segments : Groups SegmentUnit) : Clones :=
  ⟨functions.mapMembers (·.map Row.ofFunction), blocks.mapMembers (·.map Row.ofBlock),
    segments.mapMembers (·.map Row.ofSegment)⟩

def schemaVersion : Text := utf8 "1.1"

def version : Text := utf8 "1.4.0"

/-! ## Text -/

/-- Rows in the order of file, lines and function. -/
def Row.byLines (a b : Row) : Ordering :=
  (Text.cmp a.filepath b.filepath).then <| (natCmp a.startLine b.startLine).then <|
    (natCmp a.endLine b.endLine).then (Text.cmp a.qualname b.qualname)

/-- Larger groups come first, and groups of one size in the order of their keys. -/
def bySize (gs : Groups Row) : Groups Row :=
  gs.mergeSort fun a b => b.2.length ≤ a.2.length

def rowText (r : Row) : Text :=
  utf8 "- " ++ r.filepath ++ utf8 ":" ++ Text.ofNat r.startLine ++ utf8 "-" ++
    Text.ofNat r.endLine ++ utf8 " " ++ r.qualname ++ utf8 " " ++ utf8 r.sizeLabel ++ utf8 "=" ++
    Text.ofNat r.size ++ utf8 "\n"

/-- The text of group number `i`. -/
def groupText (i : Nat) (rows : List Row) : Text :=
  utf8 "=== Clone group #" ++ Text.ofNat i ++ utf8 " (count=" ++ Text.ofNat rows.length ++
    utf8 ") ===\n" ++
    ((rows.mergeSort fun a b => a.byLines b != .gt).map rowText).flatten

/-- The texts of groups, numbered from `i` on. -/
def groupTexts : (i : Nat) → Groups Row → List Text
  | _, [] => []
  | i, g :: rest => groupText i g.2 :: groupTexts (i + 1) rest

def sectionText (title : String) (gs : Groups Row) : Text :=
  utf8 "\n" ++ utf8 title ++ utf8 " (groups=" ++ Text.ofNat gs.length ++ utf8 ")\n" ++
    if gs.isEmpty then utf8 "(none)\n" else Text.join (utf8 "\n") (groupTexts 1 (bySize gs))

/-- The report for readers. -/
def text (s : Summary) (c : Clones) : Text :=
  utf8 "REPORT METADATA\n" ++
    utf8 "Report schema version: " ++ schemaVersion ++ utf8 "\n" ++
    utf8 "CodeClone version: " ++ version ++ utf8 "\n" ++
    utf8 "Root: " ++ (if s.root.isEmpty then utf8 "(none)" else s.root) ++ utf8 "\n" ++
    utf8 "Files found: " ++ Text.ofNat s.filesFound ++ utf8 "\n" ++
    utf8 "Files analyzed: " ++ Text.ofNat s.filesAnalyzed ++ utf8 "\n" ++
    utf8 "Files skipped: " ++ Text.ofNat s.filesSkipped ++ utf8 "\n" ++
    sectionText "FUNCTION CLONES" c.functions ++
    sectionText "BLOCK CLONES" c.blocks ++
    sectionText "SEGMENT CLONES" c.segments

/-! ## JSON -/

/-- Rows in the order of file, function and lines. -/
def Row.byFunction (a b : Row) : Ordering :=
  (Text.cmp a.filepath b.filepath).then <| (Text.cmp a.qualname b.qualname).then <|
    (natCmp a.startLine b.startLine).then (natCmp a.endLine b.endLine)

/-- Puts a text into an increasing list of texts unless it is there already. -/
def insertText (t : Text) : List Text → List Text
  | [] => [t]
  | u :: rest =>
    match Text.cmp t u with
    | .lt => t :: u :: rest
    | .eq => u :: rest
    | .gt => u :: insertText t rest

/-- The files of all rows, in increasing order. -/
def Clones.files (c : Clones) : List Text :=
  ((c.functions ++ c.blocks ++ c.segments).flatMap (·.2)).foldl
    (fun files r => insertText r.filepath files) []

/-- Lines with commas at their ends but the last. -/
def commaLines : List Text → Text
  | [] => []
  | [l] => l ++ utf8 "\n"
  | l :: m :: rest => l ++ utf8 ",\n" ++ commaLines (m :: rest)

/-- Values on one line. -/
def inline (values : List Text) : Text := utf8 "[" ++ Text.join (utf8 ", ") values ++ utf8 "]"

/-- A row as an array that starts with the number of its file. -/
def rowJson (files : List Text) (r : Row) : Text :=
  inline ([Text.ofNat (files.idxOf r.filepath), JsonString.quote r.qualname,
    Text.ofNat r.startLine, Text.ofNat r.endLine, Text.ofNat r.size] ++
    r.counts.map Text.ofNat ++ r.words.map JsonString.quote)

def groupJson (files : List Text) (g : Text × List Row) : Text :=
  let rows := g.2.mergeSort fun a b => a.byFunction b != .gt
  utf8 "      " ++ JsonString.quote g.1 ++ utf8 ": [\n" ++
    commaLines (rows.map fun r => utf8 "        " ++ rowJson files r) ++ utf8 "      ]"

def sectionJson (files : List Text) (title : String) (gs : Groups Row) : Text :=
  utf8 "    " ++ JsonString.quote (utf8 title) ++
    if gs.isEmpty then utf8 ": \x7b\x7d"
    else utf8 ": \x7b\n" ++ commaLines (gs.map (groupJson files)) ++ utf8 "    \x7d"

def layoutJson (title : String) (columns : List String) : Text :=
  utf8 "    " ++ JsonString.quote (utf8 title) ++ utf8 ": " ++
    inline (columns.map fun c => JsonString.quote (utf8 c))

def field (name : String) (value : Text) : Text :=
  JsonString.quote (utf8 name) ++ utf8 ": " ++ value

def summaryJson (s : Summary) (c : Clones) : Text :=
  commaLines ([field "codeclone_version" (JsonString.quote version),
    field "report_schema_version" (JsonString.quote schemaVersion),
    field "root" (JsonString.quote s.root),
    field "files_found" (Text.ofNat s.filesFound),
    field "files_analyzed" (Text.ofNat s.filesAnalyzed),
    field "files_skipped" (Text.ofNat s.filesSkipped),
    field "groups_counts"
      (utf8 "\x7b" ++ Text.join (utf8 ", ")
        [field "functions" (Text.ofNat c.functions.length),
          field "blocks" (Text.ofNat c.blocks.length),
          field "segments" (Text.ofNat c.segments.length)] ++ utf8 "\x7d")].map (utf8 "    " ++ ·))

def filesJson (files : List Text) : Text :=
  if files.isEmpty then utf8 "[]"
  else
    utf8 "[\n" ++ commaLines (files.map fun f => utf8 "    " ++ JsonString.quote f) ++ utf8 "  ]"

/-- The report for programs. -/
def json (s : Summary) (c : Clones) : Text :=
  let files := c.files
  utf8 "\x7b\n" ++
    utf8 "  \"meta\": \x7b\n" ++ summaryJson s c ++ utf8 "  \x7d,\n" ++
    utf8 "  \"files\": " ++ filesJson files ++ utf8 ",\n" ++
    utf8 "  \"groups\": \x7b\n" ++
    commaLines [sectionJson files "functions" c.functions, sectionJson files "blocks" c.blocks,
      sectionJson files "segments" c.segments] ++
    utf8 "  \x7d,\n" ++
    utf8 "  \"group_item_layout\": \x7b\n" ++
    commaLines
      [layoutJson "functions"
        ["file_i", "qualname", "start", "end", "loc", "stmt_count", "fingerprint", "loc_bucket"],
        layoutJson "blocks" ["file_i", "qualname", "start", "end", "size"],
        layoutJson "segments"
          ["file_i", "qualname", "start", "end", "size", "segment_hash", "segment_sig"]] ++
    utf8 "  \x7d\n" ++
    utf8 "\x7d\n"

end CloneScout.Report
