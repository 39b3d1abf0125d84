import CloneScout.Text.Utf8
import CloneScout.Token.Basic

/-!
# Text of string literals

A string token is taken apart into the letters in front, the quotes and the body; escapes in the
body are resolved.
-/

namespace CloneScout.StringLiteral

/-- A string token taken apart. `offset` is where the body starts behind the start of the token. -/
structure Parts where
  raw : Bool
  bytes : Bool
  marked : Bool
  formatted : Bool
  body : Text
  offset : Nat

def isQuote (b : UInt8) : Bool := b = ascii '"' || b = ascii '\''

/-- Takes a string token apart. -/
def parts (lexeme : Text) : Parts :=
  let letters := (lexeme.takeWhile fun b => !isQuote b).map Text.toLower
  let rest := lexeme.drop letters.length
  let quote := rest.headD 0
  let width := if 6 ≤ rest.length && Text.startsWith rest [quote, quote, quote] then 3 else 1
  { raw := letters.contains (ascii 'r')
    bytes := letters.contains (ascii 'b')
    marked := letters.contains (ascii 'u')
    formatted := letters.contains (ascii 'f')
    body := (rest.drop width).take (rest.length - 2 * width)
    offset := letters.length + width }

/-! ## Escapes -/

/-- What a backslash and one letter stand for. -/
def simpleEscape? (b : UInt8) : Option Text :=
  [(10, []), (ascii '\\', [ascii '\\']), (ascii '\'', [ascii '\'']), (ascii '"', [ascii '"']),
    (ascii 'a', [7]), (ascii 'b', [8]), (ascii 'f', [12]), (ascii 'n', [10]), (ascii 'r', [13]),
    (ascii 't', [9]), (ascii 'v', [11])].lookup b

def isOctal (b : UInt8) : Bool := ascii '0' ≤ b && b ≤ ascii '7'

/-- The value of a run of octal digits. -/
def octalValue (digits : Text) : Nat := digits.foldl (fun v b => v * 8 + (b.toNat - 48)) 0

/-- The value of the first `n` bytes if they are all hexadecimal digits. -/
def hexPrefix? (n : Nat) (t : Text) : Option Nat :=
  let digits := t.take n
  if digits.length = n then
    digits.foldlM (fun v b => (Text.hexValue b).map fun d => v * 16 + d) 0
  else none

/-- A number in a literal: a byte of a byte string, a code point of a text. -/
def scalar (isBytes : Bool) (n : Nat) : Text := if isBytes then [UInt8.ofNat n] else Utf8.encode n

/-- The number that an escape by hexadecimal digits denotes, and how many digits it has. -/
def hexEscape? (isBytes : Bool) (mark : UInt8) (t : Text) : Option (Nat × Nat) :=
  if mark = ascii 'x' then (hexPrefix? 2 t).map (·, 2)
  else if isBytes then none
  else if mark = ascii 'u' then (hexPrefix? 4 t).map (·, 4)
  else if mark = ascii 'U' then
    (hexPrefix? 8 t).bind fun v => if v ≤ 0x10FFFF then some (v, 8) else none
  else none

/-- What the escape with the byte `b` and further bytes `t` behind the backslash stands for, and how
many bytes it takes there. An unknown escape stands for itself. -/
def escape (isBytes : Bool) (b : UInt8) (t : Text) : Text × Nat :=
  match simpleEscape? b with
  | some out => (out, 1)
  | none =>
    if isOctal b then
      let digits := ((b :: t).take 3).takeWhile isOctal
      (scalar isBytes (octalValue digits), digits.length)
    else
      match hexEscape? isBytes b t with
      | some (v, n) => (scalar isBytes v, n + 1)
      | none => ([ascii '\\', b], 1)

/-- Resolves escapes after `skip` bytes of an escape already resolved. -/
def unescapeFrom (isBytes : Bool) : (skip : Nat) → Text → Text
  | _, [] => []
  | skip + 1, _ :: t => unescapeFrom isBytes skip t
  | 0, b :: t =>
    match t with
    | next :: more =>
      if b = ascii '\\' then
        let (out, n) := escape isBytes next more
        out ++ unescapeFrom isBytes n t
      else b :: unescapeFrom isBytes 0 t
    | [] => [b]

/-- Resolves the escapes of a literal's body. -/
def unescape (isBytes : Bool) (body : Text) : Text := unescapeFrom isBytes 0 body

end CloneScout.StringLiteral
