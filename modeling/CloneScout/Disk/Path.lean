import CloneScout.Text.Basic

/-!
# Paths as texts name them

A path is a sequence of parts, absolute or not. Repeated slashes count as one; a slash at the end is
kept as an empty last part. Everything here is about names only: nothing asks whether a file exists.
-/

namespace CloneScout

/-- A path in parts. The root directory is absolute and has no parts; the empty path is relative and
has none. -/
structure Path where
  absolute : Bool
  parts : List Text
  deriving DecidableEq, Repr

namespace Path

def slash : UInt8 := ascii '/'

def dot : Text := utf8 "."

def dotDot : Text := utf8 ".."

/-- The nonempty parts between slashes, and an empty one at the end if a slash ends the text. -/
def partsOf (t : Text) : List Text :=
  let names := (Text.splitOn slash t).filter fun part => !part.isEmpty
  if !names.isEmpty && t.getLast? = some slash then names ++ [[]] else names

def ofText (t : Text) : Path := ⟨t.head? = some slash, partsOf t⟩

def toText (p : Path) : Text :=
  (if p.absolute then [slash] else []) ++ Text.join [slash] p.parts

def isEmpty (p : Path) : Bool := !p.absolute && p.parts.isEmpty

/-- The last part; the root directory and the empty path have none. -/
def filename (p : Path) : Text := p.parts.getLast?.getD []

/-- The path without its last part. -/
def parent (p : Path) : Path := { p with parts := p.parts.dropLast }

/-- The path of a name in the directory `p`. -/
def child (p : Path) (name : Text) : Path :=
  { p with parts := (if p.parts.getLast? = some [] then p.parts.dropLast else p.parts) ++ [name] }

/-- The nonempty paths from `p` upwards. -/
def ancestors (p : Path) : List Path :=
  ((List.range (p.parts.length + 1)).reverse.map fun n => { p with parts := p.parts.take n }).filter
    fun q => !q.isEmpty

/-! ## Extensions -/

/-- A name as stem and extension. The extension starts at the last dot, unless that dot is the first
byte or the name is the parent directory. -/
def splitExtension (name : Text) : Text × Text :=
  let tail := (name.reverse.takeWhile (· ≠ ascii '.')).reverse
  let stem := name.take (name.length - tail.length - 1)
  if name = dotDot || stem.isEmpty || tail.length = name.length then (name, [])
  else (stem, ascii '.' :: tail)

/-- The path without the extension of its last part. -/
def withoutExtension (p : Path) : Path :=
  match p.parts.getLast? with
  | none => p
  | some name => { p with parts := p.parts.dropLast ++ [(splitExtension name).1] }

/-! ## Normal form -/

/-- One step of normalisation on the names so far, the last one first, and whether a slash follows
them. A dot leaves a slash; two dots take a name back and leave a slash, or stay where no name is
left to take back. -/
def normalStep (absolute : Bool) : List Text × Bool → Text → List Text × Bool
  | (names, open_), part =>
    if part = [] || part = dot then (names, true)
    else if part = dotDot then
      match names with
      | [] => if absolute then ([], open_) else ([dotDot], false)
      | name :: rest => if name = dotDot then (dotDot :: names, false) else (rest, true)
    else (part :: names, false)

/-- The path without dots, and without names that two dots take back. What would be empty becomes a
dot. -/
def normal (p : Path) : Path :=
  if p.isEmpty then p
  else
    match p.parts.foldl (normalStep p.absolute) ([], false) with
    | ([], _) => if p.absolute then ⟨true, []⟩ else ⟨false, [dot]⟩
    | (name :: rest, open_) =>
      let names := (name :: rest).reverse
      { p with parts := if open_ && name ≠ dotDot then names ++ [[]] else names }

/-! ## Relative paths -/

/-- Drops the parts that two lists share at the front. -/
def dropShared : List Text → List Text → List Text × List Text
  | a :: as, b :: bs => if a = b then dropShared as bs else (a :: as, b :: bs)
  | as, bs => (as, bs)

/-- How many steps upwards undo a list of parts; negative when it goes up itself. -/
def depth (parts : List Text) : Int :=
  parts.foldl (fun n part =>
    if part = dotDot then n - 1 else if part = [] || part = dot then n else n + 1) 0

/-- The path that leads from `base` to `p`, by names only. It is empty when there is none. -/
def relativeTo (p base : Path) : Path :=
  if p.absolute ≠ base.absolute then ⟨false, []⟩
  else
    let (down, up) := dropShared p.parts base.parts
    let n := depth up
    if n = 0 && (down.isEmpty || down.head? = some []) then ⟨false, [dot]⟩
    else if n < 0 then ⟨false, []⟩
    else ⟨false, List.replicate n.toNat dotDot ++ down⟩

end Path

end CloneScout
