import CloneScout.Disk.Path

/-!
# Disks

A disk is a tree of directories with files, symbolic links and devices, together with the current
directory and the directory for temporary files. Looking a path up follows links, at most forty of
them, and ends at a location: the names from the root directory down to a node that is no link.
-/

namespace CloneScout

namespace Disk

/-- The names from the root directory down to a node. -/
abbrev Location := List Text

/-- A device takes what is written to it and keeps nothing; a full one refuses it. -/
inductive Node where
  | file (content : Text)
  | directory (children : List (Text × Node))
  | link (target : Text)
  | device (full : Bool)

namespace Node

/-- The node of a name in a list of children. -/
def lookup (name : Text) : List (Text × Node) → Option Node
  | [] => none
  | (k, n) :: rest => if k = name then some n else lookup name rest

def child? (name : Text) : Node → Option Node
  | .directory children => lookup name children
  | _ => none

/-- The node at a location below this one. -/
def get? (n : Node) : Location → Option Node
  | [] => some n
  | name :: rest => (n.child? name).bind fun c => c.get? rest

/-- Gives a name a node, in place of an earlier one. -/
def setChild (name : Text) (new : Node) : List (Text × Node) → List (Text × Node)
  | [] => [(name, new)]
  | (k, n) :: rest => if k = name then (name, new) :: rest else (k, n) :: setChild name new rest

/-- Puts a node at a location. Directories on the way are made where they are missing. -/
def put (new : Node) : Location → Node → Node
  | [], _ => new
  | name :: rest, n =>
    let children := match n with
      | .directory children => children
      | _ => []
    let old := (lookup name children).getD (.directory [])
    .directory (setChild name (put new rest old) children)

mutual

/-- Everything below a node that is at `here`, with its location. -/
def contents (here : Location) : Node → List (Location × Node)
  | .directory children => contentsOf here children
  | _ => []

def contentsOf (here : Location) : List (Text × Node) → List (Location × Node)
  | [] => []
  | (name, n) :: rest =>
    (here ++ [name], n) :: (contents (here ++ [name]) n ++ contentsOf here rest)

end

end Node

/-- Why a path leads nowhere. -/
inductive Fault where
  | absent
  | notDirectory
  | linkLoop
  | nameTooLong
  | emptyPath
  deriving DecidableEq, Repr

namespace Fault

def message : Fault → Text
  | absent => utf8 "No such file or directory"
  | notDirectory => utf8 "Not a directory"
  | linkLoop => utf8 "Too many levels of symbolic links"
  | nameTooLong => utf8 "File name too long"
  | emptyPath => utf8 "Invalid argument"

/-- Whether the fault says that there is nothing at the path, rather than that it cannot be known.
-/
def isAbsence (f : Fault) : Bool := f = absent || f = notDirectory

end Fault

/-- Where following a path ends: at a node, or before a name that its directory does not have, with
the parts still to go. -/
inductive Arrival where
  | reached (loc : Location)
  | missing (directory : Location) (name : Text) (rest : List Text)

end Disk

structure Disk where
  root : Disk.Node := .directory []
  current : Disk.Location := []
  temporary : Option Disk.Location := none

namespace Disk

def get? (d : Disk) (loc : Location) : Option Node := d.root.get? loc

/-- Follows the parts of a path from the location `here`, through at most `links` links. A part can
be looked up only in a directory. -/
def follow (d : Disk) (links : Nat) (here : Location) (parts : List Text) :
    Except Fault Arrival :=
  match parts with
  | [] => .ok (.reached here)
  | part :: rest =>
    match d.get? here with
    | some (.directory _) =>
      if part = [] || part = Path.dot then d.follow links here rest
      else if part = Path.dotDot then d.follow links here.dropLast rest
      else if 255 < part.length then .error .nameTooLong
      else
        match d.get? (here ++ [part]) with
        | none => .ok (.missing here part rest)
        | some (.link target) =>
          match links with
          | 0 => .error .linkLoop
          | links + 1 =>
            let p := Path.ofText target
            d.follow links (if p.absolute then [] else here) (p.parts ++ rest)
        | some _ => d.follow links (here ++ [part]) rest
    | _ => .error .notDirectory
termination_by (links, parts.length)

/-- The most links that a look-up follows. -/
def maxLinks : Nat := 40

/-- The paths that the system takes are shorter than this. -/
def maxPath : Nat := 4096

/-- The system takes a path up to its first zero byte. -/
def systemPath (t : Text) : Text := t.takeWhile (· ≠ 0)

/-- Follows a path of any length but zero from the root directory or the current one. -/
def arriveAny (d : Disk) (t : Text) : Except Fault Arrival :=
  let p := Path.ofText (systemPath t)
  if p.isEmpty then .error .absent
  else d.follow maxLinks (if p.absolute then [] else d.current) p.parts

/-- Follows a path as the system does: it takes no overlong one. -/
def arrive (d : Disk) (t : Text) : Except Fault Arrival :=
  if maxPath ≤ (systemPath t).length then .error .nameTooLong else d.arriveAny t

/-- The location of what a path leads to. -/
def find (d : Disk) (t : Text) : Except Fault Location :=
  match d.arrive t with
  | .ok (.reached loc) => .ok loc
  | .ok (.missing _ _ _) => .error .absent
  | .error e => .error e

/-- The node that a path leads to. -/
def node? (d : Disk) (t : Text) : Option Node :=
  match d.find t with
  | .ok loc => d.get? loc
  | .error _ => none

def isDirectory (d : Disk) (t : Text) : Bool :=
  match d.node? t with
  | some (.directory _) => true
  | _ => false

def isFile (d : Disk) (t : Text) : Bool :=
  match d.node? t with
  | some (.file _) => true
  | _ => false

/-! ## Canonical paths -/

/-- The absolute path of a location. -/
def pathOf (loc : Location) : Path := ⟨true, loc⟩

/-- The location of an existing path, resolved name by name, so that only what is looked up in the
end may not be overlong. -/
def resolve (d : Disk) (t : Text) : Except Fault Location :=
  match d.arriveAny t with
  | .ok (.reached loc) => .ok loc
  | .ok (.missing dir name _) =>
    .error (if maxPath ≤ (pathOf (dir ++ [name])).toText.length then .nameTooLong else .absent)
  | .error e => .error e

/-- A path that does not depend on the current directory. -/
def absolute (d : Disk) (t : Text) : Text :=
  if (Path.ofText t).absolute then t else (pathOf d.current).toText ++ [Path.slash] ++ t

/-- The location of an existing path; the empty path is refused. -/
def canonical (d : Disk) (t : Text) : Except Fault Location :=
  if t = [] then .error .emptyPath else d.resolve (d.absolute t)

/-- The longest run of leading parts that leads somewhere, and the parts behind it. -/
def existing (d : Disk) (absolute : Bool) (done : List Text) :
    List Text → Except Fault (List Text × List Text)
  | [] => .ok (done, [])
  | part :: rest =>
    match d.find (Path.toText ⟨absolute, done ++ [part]⟩) with
    | .ok _ => d.existing absolute (done ++ [part]) rest
    | .error e => if e.isAbsence then .ok (done, part :: rest) else .error e

/-- The canonical path as far as a path exists, and the rest in normal form. A relative path of
which nothing exists stays relative. -/
def weaklyCanonical (d : Disk) (t : Text) : Except Fault Path :=
  match d.find t with
  | .ok _ => (d.canonical t).map pathOf
  | .error e =>
    if !e.isAbsence then .error e
    else
      let p := Path.ofText t
      match d.existing p.absolute [] p.parts with
      | .error e => .error e
      | .ok (done, rest) =>
        let start : Path := ⟨p.absolute, done⟩
        if start.isEmpty then .ok (Path.normal ⟨false, rest⟩)
        else
          match d.canonical start.toText with
          | .ok loc => .ok (Path.normal ⟨true, loc ++ rest⟩)
          | .error e => .error e

/-! ## Reading and writing -/

/-- Why a file cannot be read. A directory can be opened, but has nothing to read. -/
inductive ReadFault where
  | unopened (fault : Fault)
  | short
  deriving DecidableEq, Repr

def ReadFault.message : ReadFault → Text
  | unopened f => utf8 "cannot open file: " ++ f.message
  | short => utf8 "short read"

/-- The bytes of a file. -/
def read (d : Disk) (t : Text) : Except ReadFault Text :=
  match d.find t with
  | .error e => .error (.unopened e)
  | .ok loc =>
    match d.get? loc with
    | some (.file content) => .ok content
    | some (.device _) => .ok []
    | _ => .error .short

/-- Line ends as line feeds: a carriage return before a line feed is dropped, any other becomes a
line feed. -/
def unixLines : Text → Text
  | [] => []
  | b :: rest =>
    if b = 13 then if rest.head? = some 10 then unixLines rest else 10 :: unixLines rest
    else b :: unixLines rest

/-- The text of a file, with line feeds at the line ends. -/
def readText (d : Disk) (t : Text) : Except ReadFault Text := (d.read t).map unixLines

/-- The canonical path of a file, or the path itself if it leads nowhere. -/
def normalPath (d : Disk) (t : Text) : Text :=
  match d.resolve t with
  | .ok loc => (pathOf loc).toText
  | .error _ => t

/-- Why a file cannot be written. -/
inductive WriteFault where
  | unopened
  | failed
  deriving DecidableEq, Repr

/-- Writes a file: an old one loses its content, a new one is made in an existing directory. -/
def write (d : Disk) (t content : Text) : Except WriteFault Disk :=
  match d.arrive t with
  | .error _ => .error .unopened
  | .ok (.missing dir name rest) =>
    if rest = [] then .ok { d with root := Node.put (.file content) (dir ++ [name]) d.root }
    else .error .unopened
  | .ok (.reached loc) =>
    match d.get? loc with
    | some (.file _) => .ok { d with root := Node.put (.file content) loc d.root }
    | some (.device full) => if full then .error .failed else .ok d
    | _ => .error .unopened

end Disk

end CloneScout
