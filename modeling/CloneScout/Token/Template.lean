import CloneScout.Token.StringLiteral

/-!
# Formatted string literals

The body of a formatted string is literal text with replacement fields in braces. A doubled brace is
a brace of the text. A field holds an expression, then possibly `=` to show its text, `!` with a
conversion and `:` with a format, which is a template itself.
-/

namespace CloneScout.Template

/-- The conversion of a field, as written. -/
inductive Conversion where
  | absent
  | letter (b : UInt8)
  | invalid
  deriving DecidableEq, Repr

/-- A replacement field. Offsets count from the start of the template. -/
structure Field where
  offset : Nat
  expr : Text
  /-- The text to show in front of the value. -/
  shown : Option Text
  conversion : Conversion
  /-- Offset and text of the format. -/
  format : Option (Nat × Text)
  /-- The closing brace was found. -/
  closed : Bool
  deriving DecidableEq, Repr

inductive Segment where
  | literal (t : Text)
  | field (f : Field)
  /-- A closing brace without an open one. -/
  | stray
  deriving DecidableEq, Repr

def openBrace : UInt8 := 0x7B

def closeBrace : UInt8 := 0x7D

/-! ## Parts of a field -/

/-- An open quote inside an expression. -/
structure Quote where
  byte : UInt8
  triple : Bool

/-- Bytes of the expression in front of a text, and whether `=` ends it. Quotes and brackets hide
everything inside them. -/
def exprLength : (skip : Nat) → (nest : Nat) → Option Quote → (prev : UInt8) → Text → Nat × Bool
  | _, _, _, _, [] => (0, false)
  | skip + 1, nest, quote, _, b :: t =>
    let (n, shown) := exprLength skip nest quote b t
    (n + 1, shown)
  | 0, nest, some q, _, b :: t =>
    let (n, shown) :=
      if b ≠ q.byte then exprLength 0 nest (some q) b t
      else if !q.triple then exprLength 0 nest none b t
      else if Text.startsWith t [b, b] then exprLength 2 nest none b t
      else exprLength 0 nest (some q) b t
    (n + 1, shown)
  | 0, nest, none, prev, b :: t =>
    let next := t.headD 0
    let count (r : Nat × Bool) : Nat × Bool := (r.1 + 1, r.2)
    if StringLiteral.isQuote b then
      if Text.startsWith t [b, b] then count (exprLength 2 nest (some ⟨b, true⟩) b t)
      else count (exprLength 0 nest (some ⟨b, false⟩) b t)
    else if b = ascii '(' || b = ascii '[' || b = openBrace then
      count (exprLength 0 (nest + 1) none b t)
    else if b = ascii ')' || b = ascii ']' || b = closeBrace then
      if nest = 0 then (0, false) else count (exprLength 0 (nest - 1) none b t)
    else if nest ≠ 0 then count (exprLength 0 nest none b t)
    else if (b = ascii '!' && next ≠ ascii '=') || b = ascii ':' then (0, false)
    else if b = ascii '=' && next ≠ ascii '=' &&
        prev ≠ ascii '=' && prev ≠ ascii '!' && prev ≠ ascii '<' && prev ≠ ascii '>' then (0, true)
    else count (exprLength 0 nest none b t)

/-- Bytes up to the brace that closes a format. -/
def formatLength : (nest : Nat) → Text → Nat
  | _, [] => 0
  | nest, b :: t =>
    if b = openBrace then formatLength (nest + 1) t + 1
    else if b = closeBrace then
      match nest with
      | 0 => 0
      | nest + 1 => formatLength nest t + 1
    else formatLength nest t + 1

/-- The conversion in front of a text, and how many bytes it takes. -/
def conversion (t : Text) : Conversion × Nat :=
  match t with
  | b :: rest =>
    if b = ascii '!' then
      match rest with
      | c :: _ =>
        if c = ascii 's' || c = ascii 'r' || c = ascii 'a' then (.letter c, 2) else (.invalid, 2)
      | [] => (.invalid, 2)
    else (.absent, 0)
  | [] => (.absent, 0)

/-- The field whose expression starts a text at the given offset, and how many bytes it takes. A
field without its closing brace takes all of the text. -/
def field (offset : Nat) (t : Text) : Field × Nat :=
  let (n, shows) := exprLength 0 0 none 0 t
  let shownLength :=
    if shows then n + 1 + ((t.drop (n + 1)).takeWhile Text.isSpace).length else n
  let (conv, convLength) := conversion (t.drop shownLength)
  let behind := shownLength + convLength
  let rest := t.drop behind
  let formatText :=
    if rest.head? = some (ascii ':') then some ((rest.drop 1).take (formatLength 0 (rest.drop 1)))
    else none
  let stop := formatText.elim behind fun f => behind + 1 + f.length
  let closed : Bool := (t.drop stop).head? = some closeBrace
  ({ offset
     expr := t.take n
     shown := if shows then some (t.take shownLength) else none
     conversion := conv
     format := formatText.map (offset + behind + 1, ·)
     closed },
    if closed then stop + 1 else t.length)

/-! ## Segments -/

/-- Bytes of a named character `\N{…}` in front of a text. -/
def namedLength? (t : Text) : Option Nat :=
  if Text.startsWith t [ascii '\\', ascii 'N', openBrace] then
    some (min t.length (((t.drop 3).takeWhile (· ≠ closeBrace)).length + 4))
  else none

/-- The literal text read so far, its last byte first, as a segment. -/
def flush (lit : Text) : List Segment := if lit.isEmpty then [] else [.literal lit.reverse]

/-- Segments of the text from `offset` on, behind the literal text `lit`, which has its last byte
first. Each of the `n` steps takes at least one byte. -/
def segmentsFrom (raw : Bool) : (n : Nat) → (offset : Nat) → (lit : Text) → Text → List Segment
  | 0, _, lit, _ => flush lit
  | _ + 1, _, lit, [] => flush lit
  | n + 1, offset, lit, b :: t =>
    let take (k : Nat) (add : Text) : List Segment :=
      segmentsFrom raw n (offset + k) (add.reverse ++ lit) ((b :: t).drop k)
    if b = closeBrace then
      if t.head? = some closeBrace then take 2 [closeBrace]
      else .stray :: take 1 []
    else if b = ascii '\\' && !raw && !t.isEmpty then
      match namedLength? (b :: t) with
      | some k => take k ((b :: t).take k)
      | none =>
        if t.head? = some openBrace || t.head? = some closeBrace then take 1 [b]
        else take 2 ((b :: t).take 2)
    else if b ≠ openBrace then take 1 [b]
    else if t.head? = some openBrace then take 2 [openBrace]
    else
      let (f, k) := field (offset + 1) t
      flush lit ++ .field f :: segmentsFrom raw n (offset + 1 + k) [] (t.drop k)

/-- The segments of a template. -/
def segments (raw : Bool) (t : Text) : List Segment := segmentsFrom raw t.length 0 [] t

end CloneScout.Template
