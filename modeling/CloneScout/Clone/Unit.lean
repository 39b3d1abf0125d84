import CloneScout.Flow.Builder
import CloneScout.Grammar.Parse

/-!
# Records of functions, blocks and segments

What a source file contributes to the search for clones: a record for each function, one for each
block of consecutive statements in longer functions, and one for each window that slides over the
statements of long functions.
-/

namespace CloneScout

/-- A function with the fingerprint of its normal form. -/
structure FunctionUnit where
  qualname : Text
  filepath : Text
  startLine : Nat
  endLine : Nat
  loc : Nat
  stmtCount : Nat
  fingerprint : Text
  bucket : Text
  deriving DecidableEq, Repr

/-- Consecutive statements of a function body, with the digests of their normal forms. -/
structure BlockUnit where
  hash : Text
  filepath : Text
  qualname : Text
  startLine : Nat
  endLine : Nat
  size : Nat
  deriving DecidableEq, Repr

/-- A window over a function body, with a digest that depends on the order of its statements and a
signature that does not. -/
structure SegmentUnit where
  hash : Text
  signature : Text
  filepath : Text
  qualname : Text
  startLine : Nat
  endLine : Nat
  size : Nat
  deriving DecidableEq, Repr

/-- The size class of a number of lines. -/
def sizeBucket (loc : Nat) : Text :=
  if loc < 20 then utf8 "0-19"
  else if loc < 50 then utf8 "20-49"
  else if loc < 100 then utf8 "50-99"
  else utf8 "100+"

/-! ## Fingerprints -/

/-- The body of a function as far as it is relevant. -/
def relevantBody (cfg : Normal.Config) (body : List Stmt) : List Stmt :=
  if cfg.ignoreDocstrings then withoutDocstring body else body

/-- The fingerprint of a function's flow of control. -/
def flowFingerprint (cfg : Normal.Config) (body : List Stmt) : Text :=
  (Flow.Graph.ofFunction cfg.ignoreDocstrings body).fingerprint cfg

/-- The fingerprint of a function: the digest of its normal body and of its flow of control. -/
def unitFingerprint (cfg : Normal.Config) (body : List Stmt) : Text :=
  Sha1.hex (Normal.bodyText cfg (relevantBody cfg body) ++ utf8 "|CFG:" ++ flowFingerprint cfg body)

/-- The digest of a statement's normal form. -/
def stmtHash (cfg : Normal.Config) (s : Stmt) : Text := Sha1.hex (Normal.stmtText cfg s)

/-! ## Windows -/

/-- The runs of `n` consecutive elements of a list. -/
def windows {α : Type} (n : Nat) : List α → List (List α)
  | [] => []
  | a :: rest => if n ≤ rest.length + 1 then (a :: rest).take n :: windows n rest else []

/-- Statements in a row: their digests and their lines. -/
structure Window where
  hashes : List Text
  startLine : Nat
  endLine : Nat

/-- The windows of `n` statements of a body, none for `n = 0`. -/
def Window.ofBody (cfg : Normal.Config) (n : Nat) (body : List Stmt) : List Window :=
  if n = 0 then []
  else
    let hashed := body.map fun s => (stmtHash cfg s, s.extent)
    (windows n hashed).map fun w =>
      { hashes := w.map (·.1)
        startLine := w.head?.elim 0 (·.2.line)
        endLine := w.getLast?.elim 0 (·.2.endLine) }

/-- The windows that start at least `distance` lines behind the one chosen before. -/
def spaced (distance : Nat) : (last : Option Nat) → List Window → List Window
  | _, [] => []
  | last, w :: rest =>
    if last.any fun line => w.startLine < line + distance then spaced distance last rest
    else w :: spaced distance (some w.startLine) rest

def joinHashes (hashes : List Text) : Text := Text.join (utf8 "|") hashes

/-! ## Extraction -/

/-- Which functions are recorded, and how blocks and segments are cut. -/
structure ExtractOptions where
  minLoc : Nat := 15
  minStmt : Nat := 6
  maxParseErrors : Nat := 64
  blockMinLoc : Nat := 40
  blockMinStmt : Nat := 10
  blockSize : Nat := 4
  maxBlocks : Nat := 15
  segmentMinLoc : Nat := 30
  segmentMinStmt : Nat := 12
  segmentWindow : Nat := 6
  maxSegments : Nat := 60

/-- Blocks may overlap by half, and their starts are at least three lines apart. At least one is
taken, whatever the limit. -/
def blocksOf (cfg : Normal.Config) (opt : ExtractOptions) (filepath qualname : Text)
    (body : List Stmt) : List BlockUnit :=
  let chosen := spaced (max (opt.blockSize / 2) 3) none (Window.ofBody cfg opt.blockSize body)
  (chosen.take (max 1 opt.maxBlocks)).map fun w =>
    { hash := joinHashes w.hashes
      filepath
      qualname
      startLine := w.startLine
      endLine := w.endLine
      size := opt.blockSize }

/-- One segment for each window. At least one is taken, whatever the limit. -/
def segmentsOf (cfg : Normal.Config) (opt : ExtractOptions) (filepath qualname : Text)
    (body : List Stmt) : List SegmentUnit :=
  ((Window.ofBody cfg opt.segmentWindow body).take (max 1 opt.maxSegments)).map fun w =>
    { hash := Sha1.hex (joinHashes w.hashes)
      signature := Sha1.hex (joinHashes (w.hashes.mergeSort Text.le))
      filepath
      qualname
      startLine := w.startLine
      endLine := w.endLine
      size := opt.segmentWindow }

def FunctionUnit.ofFunction (cfg : Normal.Config) (filepath module : Text) (f : Function) :
    FunctionUnit :=
  { qualname := module ++ utf8 ":" ++ f.localName
    filepath
    startLine := f.line
    endLine := f.endLine
    loc := f.loc
    stmtCount := f.body.length
    fingerprint := unitFingerprint cfg f.body
    bucket := sizeBucket f.loc }

/-- The records of one or more source files. -/
structure Extract where
  units : List FunctionUnit := []
  blocks : List BlockUnit := []
  segments : List SegmentUnit := []

namespace Extract

def append (a b : Extract) : Extract :=
  ⟨a.units ++ b.units, a.blocks ++ b.blocks, a.segments ++ b.segments⟩

/-- The records of one function. Initialisers have no blocks and segments. -/
def ofFunction (cfg : Normal.Config) (opt : ExtractOptions) (filepath module : Text)
    (f : Function) : Extract :=
  let count := f.body.length
  if !f.isPlaced || f.loc < opt.minLoc || count < opt.minStmt then {}
  else
    let unit := FunctionUnit.ofFunction cfg filepath module f
    let isInit := Text.endsWith f.localName (utf8 "__init__")
    { units := [unit]
      blocks :=
        if !isInit && opt.blockMinLoc ≤ f.loc && opt.blockMinStmt ≤ count then
          blocksOf cfg opt filepath unit.qualname f.body
        else []
      segments :=
        if !isInit && opt.segmentMinLoc ≤ f.loc && opt.segmentMinStmt ≤ count then
          segmentsOf cfg opt filepath unit.qualname f.body
        else [] }

/-- The records of a module. -/
def ofModule (cfg : Normal.Config) (opt : ExtractOptions) (filepath module : Text)
    (m : Module) : Extract :=
  (Function.ofModule m).foldl (fun acc f => acc.append (ofFunction cfg opt filepath module f)) {}

end Extract

/-- What extraction from a source text gives; there are no records unless the text is free of
faults. -/
structure Extracted where
  ok : Bool
  extract : Extract
  diags : Array Diagnostic

def Extracted.ofSource (cfg : Normal.Config) (opt : ExtractOptions)
    (filepath module source : Text) : Extracted :=
  let p := Parsed.ofSource source opt.maxParseErrors
  ⟨p.ok, if p.ok then .ofModule cfg opt filepath module p.module else {}, p.diags⟩

end CloneScout
