import CloneScout.Toml.Value

/-!
# Settings files

A settings file is a list of lines: section headers in brackets, entries `key = value`, comments and
empty lines. An array may run over several lines. The lines are first put together into statements,
each with the number of the line that it starts on, and the statements are then read in order. The
result maps full keys, section and key joined by a dot, to values.
-/

namespace CloneScout.Toml

/-! ## Keys -/

/-- The bytes of a bare key. -/
def isKeyByte (b : UInt8) : Bool :=
  Text.isLetter b || Text.isDigit b || b = ascii '_' || b = ascii '-'

/-- The canonical form of a dotted key: nonempty parts of letters, digits, `_` and `-`, with blanks
around a part left out. -/
def readKey (t : Text) : Option Text :=
  let parts := (Text.splitOn (ascii '.') t).map (Text.trimWith isBlank)
  if parts.all fun part => !part.isEmpty && part.all isKeyByte then
    some (Text.join (utf8 ".") parts)
  else none

/-! ## Statements -/

/-- How far a line opens more brackets than it closes, outside strings and comments. The quote is
the one of the string that the scan is in; `escaped` says that a backslash stands before the next
byte. -/
def bracketBalance : (quote : Option UInt8) → (escaped : Bool) → Text → Int
  | _, _, [] => 0
  | some q, escaped, b :: t =>
    if escaped then bracketBalance (some q) false t
    else if q = ascii '"' && b = ascii '\\' then bracketBalance (some q) true t
    else bracketBalance (if b = q then none else some q) false t
  | none, _, b :: t =>
    if b = ascii '#' then 0
    else if b = ascii '"' || b = ascii '\'' then bracketBalance (some b) false t
    else if b = ascii '[' then bracketBalance none false t + 1
    else if b = ascii ']' then bracketBalance none false t - 1
    else bracketBalance none false t

/-- What one or more lines say. A header keeps its text from the opening bracket on, and a line that
is neither header nor entry says nothing that can be read. -/
inductive Statement where
  | header (line : Text)
  | entry (key value : Text)
  | unknown
  deriving DecidableEq, Repr

/-- An entry whose array is still open: the line it starts on, its key, the text of its value so far
and the number of open brackets. -/
structure OpenEntry where
  line : Nat
  key : Text
  value : Text
  depth : Int

/-- The statement that a line starts; `none` for an empty line or a comment. -/
def Statement.ofLine (line : Text) : Option Statement :=
  match trim line with
  | [] => none
  | b :: t =>
    if b = ascii '#' then none
    else if b = ascii '[' then some (.header (b :: t))
    else
      match (b :: t).dropWhile (· ≠ ascii '=') with
      | [] => some .unknown
      | _ :: value => some (.entry ((b :: t).takeWhile (· ≠ ascii '=')) value)

/-- The statements of the lines from number `n` on. An entry goes on over the next lines while more
brackets are open than closed. -/
def statements (n : Nat) : Option OpenEntry → List Text → List (Nat × Statement)
  | none, [] => []
  | some e, [] => [(e.line, .entry e.key e.value)]
  | some e, line :: lines =>
    let value := e.value ++ [lineFeed] ++ line
    let depth := e.depth + bracketBalance none false line
    if 0 < depth then statements (n + 1) (some { e with value, depth }) lines
    else (e.line, .entry e.key value) :: statements (n + 1) none lines
  | none, line :: lines =>
    match Statement.ofLine line with
    | none => statements (n + 1) none lines
    | some (.entry key value) =>
      let depth := bracketBalance none false value
      if 0 < depth then statements (n + 1) (some { line := n, key, value, depth }) lines
      else (n, .entry key value) :: statements (n + 1) none lines
    | some s => (n, s) :: statements (n + 1) none lines

/-! ## Documents -/

/-- Values by full key, in increasing order of the keys. -/
abbrev Table := List (Text × Value)

namespace Table

def get? (key : Text) : Table → Option Value
  | [] => none
  | (k, v) :: rest => if k = key then some v else get? key rest

/-- Gives a key a value, in place of an earlier one. -/
def set (key : Text) (value : Value) : Table → Table
  | [] => [(key, value)]
  | (k, v) :: rest =>
    match Text.cmp key k with
    | .lt => (key, value) :: (k, v) :: rest
    | .eq => (k, value) :: rest
    | .gt => (k, v) :: set key value rest

end Table

/-- What reading a settings file gives: the values up to the first fault, the keys that were given
twice, and the fault. Each of the last two comes with its line. -/
structure Document where
  table : Table := []
  repeated : List (Nat × Text) := []
  fault : Option (Nat × Fault) := none
  deriving Repr

/-- The section named between the brackets of a header line. -/
def sectionName (line : Text) : Except Fault Text :=
  match readKey ((line.takeWhile (· ≠ ascii ']')).drop 1) with
  | some s => .ok s
  | none => .error .sectionName

/-- Reads a header line: behind its first closing bracket only a comment may stand. -/
def readHeader (line : Text) : Except Fault Text :=
  match line.dropWhile (· ≠ ascii ']') with
  | [] => .error .header
  | _ :: after =>
    match trim after with
    | [] => sectionName line
    | b :: _ => if b = ascii '#' then sectionName line else .error .afterHeader

/-- The key and the value of an entry. -/
def readEntry (key value : Text) : Except Fault (Text × Value) :=
  match readKey key with
  | none => .error .key
  | some k => (Value.ofText value).map fun v => (k, v)

/-- The full key of an entry in a section. -/
def fullKey (section_ key : Text) : Text :=
  if section_ = [] then key else section_ ++ utf8 "." ++ key

/-- Reads statements onto `doc`, up to the first fault. -/
def Document.extend (doc : Document) (section_ : Text) : List (Nat × Statement) → Document
  | [] => doc
  | (n, .header line) :: rest =>
    match readHeader line with
    | .error e => { doc with fault := some (n, e) }
    | .ok name => doc.extend name rest
  | (n, .entry key value) :: rest =>
    match readEntry key value with
    | .error e => { doc with fault := some (n, e) }
    | .ok (k, v) =>
      let k := fullKey section_ k
      let repeated := if (doc.table.get? k).isSome then doc.repeated ++ [(n, k)] else doc.repeated
      Document.extend { doc with table := doc.table.set k v, repeated } section_ rest
  | (n, .unknown) :: _ => { doc with fault := some (n, .noEquals) }

/-- Reads the text of a settings file. -/
def Document.ofText (t : Text) : Document :=
  Document.extend {} [] (statements 1 none (Text.splitOn lineFeed t))

/-- A message about a line of the file `origin`. -/
def atLine (origin : Text) (line : Nat) (message : Text) : Text :=
  origin ++ utf8 ":" ++ Text.ofNat line ++ utf8 ": " ++ message

/-- The text of the fault, if there is one. -/
def Document.error (doc : Document) (origin : Text) : Option Text :=
  doc.fault.map fun f => atLine origin f.1 f.2.message

/-- A warning for each key that was given twice. -/
def Document.warnings (doc : Document) (origin : Text) : List Text :=
  doc.repeated.map fun r =>
    atLine origin r.1 (utf8 "duplicate key '" ++ r.2 ++ utf8 "', later value wins")

end CloneScout.Toml
