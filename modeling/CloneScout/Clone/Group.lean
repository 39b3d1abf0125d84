import CloneScout.Clone.Unit
import CloneScout.Number.Word

/-!
# Groups of clones

Records with the same key belong together. A group is worth reporting when it has enough members, or
members in enough functions.
-/

namespace CloneScout

/-- Groups by key, in increasing order of the keys. -/
abbrev Groups (α : Type) := List (Text × List α)

namespace Groups

/-- Adds a member to the group of its key. -/
def push {α : Type} (key : Text) (a : α) : Groups α → Groups α
  | [] => [(key, [a])]
  | (k, members) :: rest =>
    match Text.cmp key k with
    | .lt => (key, [a]) :: (k, members) :: rest
    | .eq => (k, members ++ [a]) :: rest
    | .gt => (k, members) :: push key a rest

/-- Makes `members` the group of a key, in place of an earlier one. -/
def set {α : Type} (key : Text) (members : List α) : Groups α → Groups α
  | [] => [(key, members)]
  | (k, old) :: rest =>
    match Text.cmp key k with
    | .lt => (key, members) :: (k, old) :: rest
    | .eq => (k, members) :: rest
    | .gt => (k, old) :: set key members rest

/-- The groups of a list of records; each keeps the order of the list. -/
def ofList {α : Type} (key : α → Text) (items : List α) : Groups α :=
  items.foldl (fun gs a => gs.push (key a) a) []

/-- Changes the members of every group. -/
def mapMembers {α β : Type} (f : List α → List β) (gs : Groups α) : Groups β :=
  gs.map fun g => (g.1, f g.2)

end Groups

/-! ## Functions -/

/-- Functions are clones when they have the same fingerprint and size class. -/
def FunctionUnit.groupKey (u : FunctionUnit) : Text := u.fingerprint ++ utf8 "|" ++ u.bucket

/-- Groups of at least two functions. -/
def functionGroups (units : List FunctionUnit) : Groups FunctionUnit :=
  (Groups.ofList FunctionUnit.groupKey units).filter fun g => 1 < g.2.length

/-! ## Blocks -/

/-- The number of different texts in a list. -/
def countDistinct : List Text → Nat
  | [] => 0
  | t :: rest => if rest.contains t then countDistinct rest else countDistinct rest + 1

/-- Groups of blocks that occur in at least `minFunctions` functions. -/
def blockGroups (minFunctions : Nat) (blocks : List BlockUnit) : Groups BlockUnit :=
  (Groups.ofList BlockUnit.hash blocks).filter fun g =>
    minFunctions ≤ countDistinct (g.2.map BlockUnit.qualname)

/-- Blocks in the order of file, function, first and last line. -/
def BlockUnit.cmp (a b : BlockUnit) : Ordering :=
  (Text.cmp a.filepath b.filepath).then <| (Text.cmp a.qualname b.qualname).then <|
    (natCmp a.startLine b.startLine).then (natCmp a.endLine b.endLine)

def sortBlocks (blocks : List BlockUnit) : List BlockUnit :=
  blocks.mergeSort fun a b => a.cmp b != .gt

/-- A block that has lines and no negative extent. -/
def BlockUnit.hasLines (b : BlockUnit) : Bool :=
  b.startLine ≠ 0 && b.endLine ≠ 0 && b.startLine ≤ b.endLine

/-- The size of a merged block is its number of lines. -/
def BlockUnit.resize (b : BlockUnit) : BlockUnit :=
  { b with size := max 1 (b.endLine - b.startLine + 1) }

/-- The block `b` belongs to the same function as `a` and overlaps or touches it from behind. -/
def BlockUnit.touches (a b : BlockUnit) : Bool :=
  a.filepath = b.filepath && a.qualname = b.qualname && b.startLine ≤ Word.wrap (a.endLine + 1)

/-- Merges sorted blocks into `current` as long as they touch it. -/
def mergeFrom (current : BlockUnit) : List BlockUnit → List BlockUnit
  | [] => [current]
  | b :: rest =>
    if current.touches b then
      mergeFrom { current with endLine := max current.endLine b.endLine }.resize rest
    else current :: mergeFrom b.resize rest

/-- The largest ranges of lines covered by blocks of one function; blocks without lines are left
out. -/
def mergeBlocks (blocks : List BlockUnit) : List BlockUnit :=
  match (sortBlocks blocks).filter BlockUnit.hasLines with
  | [] => []
  | b :: rest => mergeFrom b.resize rest

/-- Merges the blocks of each group. A group in which no block has lines is only sorted. -/
def reportBlocks (gs : Groups BlockUnit) : Groups BlockUnit :=
  gs.mapMembers fun blocks =>
    let merged := mergeBlocks blocks
    if merged.isEmpty then sortBlocks blocks else merged

/-! ## Segments -/

/-- Groups of segments that repeat inside one function: first by signature, then by digest, then by
function, with at least `minOccurrences` members at each step. -/
def segmentGroups (minOccurrences : Nat) (segments : List SegmentUnit) : Groups SegmentUnit :=
  let split (key : SegmentUnit → Text) (items : List SegmentUnit) : Groups SegmentUnit :=
    (Groups.ofList key items).filter fun g => minOccurrences ≤ g.2.length
  let found : Groups SegmentUnit :=
    (split SegmentUnit.signature segments).flatMap fun bySignature =>
      (split SegmentUnit.hash bySignature.2).flatMap fun byHash =>
        (split SegmentUnit.qualname byHash.2).map fun byFunction =>
          (byHash.1 ++ utf8 "|" ++ byFunction.1, byFunction.2)
  found.foldl (fun gs g => gs.set g.1 g.2) []

end CloneScout
