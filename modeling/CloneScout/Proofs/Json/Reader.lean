import CloneScout.Text.Utf8

/-!
# A reader of JSON texts

The grammar of JSON as a function on bytes: what it accepts is a JSON text, and what it gives is the
value of the text. Bytes from 0x80 on stand for themselves. Objects keep their members in order and
with repetitions, so that it shows whether a key occurs twice.
-/

namespace CloneScout

/-- JSON values. A number is a mantissa times a power of ten. -/
inductive Json where
  | null
  | bool (b : Bool)
  | number (mantissa exponent : Int)
  | string (t : Text)
  | array (items : List Json)
  | object (members : List (Text × Json))

namespace Json

/-- A number without fraction and exponent. -/
def nat (n : Nat) : Json := .number n 0

/-- Blank, tab, line feed and carriage return may stand between any two tokens. -/
def isBlank (b : UInt8) : Bool := b = 32 || b = 9 || b = 10 || b = 13

def skip (t : Text) : Text := t.dropWhile isBlank

/-! ## Strings -/

/-- A part of a string: a byte that stands for itself or follows a backslash, or an escaped code unit
of UTF-16. -/
inductive Piece where
  | byte (b : UInt8)
  | unit (u : Nat)

/-- The byte that a backslash in front of a byte stands for. -/
def unescape? (b : UInt8) : Option UInt8 :=
  if b = ascii '"' || b = ascii '\\' || b = ascii '/' then some b
  else if b = ascii 'b' then some 8
  else if b = ascii 'f' then some 12
  else if b = ascii 'n' then some 10
  else if b = ascii 'r' then some 13
  else if b = ascii 't' then some 9
  else none

/-- The code unit of four hexadecimal digits. -/
def unit? (a b c d : UInt8) : Option Nat :=
  match Text.hexValue a, Text.hexValue b, Text.hexValue c, Text.hexValue d with
  | some w, some x, some y, some z => some (((w * 16 + x) * 16 + y) * 16 + z)
  | _, _, _, _ => none

/-- The parts of a string up to its closing quote, and what follows this. Control characters have to
be escaped. -/
def pieces : Text → Option (List Piece × Text)
  | [] => none
  | b :: t =>
    if b = ascii '"' then some ([], t)
    else if b = ascii '\\' then
      match t with
      | [] => none
      | c :: t =>
        if c = ascii 'u' then
          match t with
          | h₁ :: h₂ :: h₃ :: h₄ :: t =>
            match unit? h₁ h₂ h₃ h₄ with
            | some u => (pieces t).map fun p => (.unit u :: p.1, p.2)
            | none => none
          | _ => none
        else
          match unescape? c with
          | some b => (pieces t).map fun p => (.byte b :: p.1, p.2)
          | none => none
    else if b < 0x20 then none
    else (pieces t).map fun p => (.byte b :: p.1, p.2)

def isHighSurrogate (u : Nat) : Bool := 0xD800 ≤ u && u < 0xDC00

def isLowSurrogate (u : Nat) : Bool := 0xDC00 ≤ u && u < 0xE000

/-- The text of the parts of a string. Two surrogates in a row make one code point. -/
def assemble : List Piece → Text
  | [] => []
  | .byte b :: ps => b :: assemble ps
  | .unit u :: .unit v :: ps =>
    if isHighSurrogate u && isLowSurrogate v then
      Utf8.encode (0x10000 + (u - 0xD800) * 0x400 + (v - 0xDC00)) ++ assemble ps
    else Utf8.encode u ++ assemble (.unit v :: ps)
  | .unit u :: ps => Utf8.encode u ++ assemble ps

/-- A string behind its opening quote. -/
def stringBody (t : Text) : Option (Text × Text) := (pieces t).map fun p => (assemble p.1, p.2)

/-! ## Numbers and words -/

/-- At least one digit. -/
def digits (t : Text) : Option (Text × Text) :=
  let ds := t.takeWhile Text.isDigit
  if ds.isEmpty then none else some (ds, t.dropWhile Text.isDigit)

/-- Digits that do not start with a zero unless that is all. -/
def whole (t : Text) : Option (Text × Text) :=
  (digits t).filter fun p => !(p.1.head? = some (ascii '0') && 1 < p.1.length)

/-- The digits behind a point, none where there is no point. -/
def fraction : Text → Option (Text × Text)
  | [] => some ([], [])
  | b :: t => if b = ascii '.' then digits t else some ([], b :: t)

/-- The exponent, zero where there is none. -/
def exponent : Text → Option (Int × Text)
  | [] => some (0, [])
  | b :: t =>
    if b = ascii 'e' || b = ascii 'E' then
      match t with
      | [] => none
      | c :: r =>
        if c = ascii '-' then (digits r).map fun p => (-(Text.natOfDigits 0 p.1 : Int), p.2)
        else if c = ascii '+' then (digits r).map fun p => ((Text.natOfDigits 0 p.1 : Int), p.2)
        else (digits t).map fun p => ((Text.natOfDigits 0 p.1 : Int), p.2)
    else some (0, b :: t)

/-- A number without sign. -/
def unsigned (t : Text) : Option ((Nat × Int) × Text) :=
  (whole t).bind fun w => (fraction w.2).bind fun f => (exponent f.2).map fun e =>
    ((Text.natOfDigits 0 (w.1 ++ f.1), e.1 - f.1.length), e.2)

/-- A number with or without a minus sign. -/
def numeral : Text → Option (Json × Text)
  | [] => none
  | b :: t =>
    if b = ascii '-' then (unsigned t).map fun p => (.number (-(p.1.1 : Int)) p.1.2, p.2)
    else (unsigned (b :: t)).map fun p => (.number p.1.1 p.1.2, p.2)

/-- One of the three words. -/
def word (t : Text) : Option (Json × Text) :=
  match Text.strip? (utf8 "true") t with
  | some r => some (.bool true, r)
  | none =>
    match Text.strip? (utf8 "false") t with
    | some r => some (.bool false, r)
    | none => (Text.strip? (utf8 "null") t).map fun r => (.null, r)

/-! ## Values -/

section

variable {α : Type}

/-- At least one item, with commas between the items and a closing byte behind the last. There are
not more items than `n`. -/
def items (item : Text → Option (α × Text)) (close : UInt8) :
    (n : Nat) → Text → Option (List α × Text)
  | 0, _ => none
  | n + 1, t =>
    match item t with
    | none => none
    | some (a, r) =>
      match skip r with
      | [] => none
      | b :: r =>
        if b = ascii ',' then (items item close n r).map fun p => (a :: p.1, p.2)
        else if b = close then some ([a], r)
        else none

/-- Any number of items behind an opening byte. Each item takes a byte at least. -/
def enclosed (item : Text → Option (α × Text)) (close : UInt8) (t : Text) :
    Option (List α × Text) :=
  match skip t with
  | [] => none
  | b :: r => if b = close then some ([], r) else items item close t.length t

end

/-- A key, a colon and a value. -/
def member (value : Text → Option (Json × Text)) (t : Text) : Option ((Text × Json) × Text) :=
  match skip t with
  | [] => none
  | b :: r =>
    if b = ascii '"' then
      match stringBody r with
      | none => none
      | some (key, r) =>
        match skip r with
        | [] => none
        | c :: r => if c = ascii ':' then (value r).map fun p => ((key, p.1), p.2) else none
    else none

/-- A value with arrays and objects nested up to depth `n`. -/
def value : (n : Nat) → Text → Option (Json × Text)
  | 0, _ => none
  | n + 1, t =>
    match skip t with
    | [] => none
    | b :: r =>
      if b = ascii '"' then (stringBody r).map fun p => (.string p.1, p.2)
      else if b = ascii '[' then
        (enclosed (value n) (ascii ']') r).map fun p => (.array p.1, p.2)
      else if b = ascii '\x7b' then
        (enclosed (member (value n)) (ascii '\x7d') r).map fun p => (.object p.1, p.2)
      else if b = ascii '-' || Text.isDigit b then numeral (b :: r)
      else word (b :: r)

/-- The value of a JSON text. No text is nested more deeply than it has bytes. -/
def ofText? (t : Text) : Option Json :=
  match value t.length t with
  | some (v, r) => if (skip r).isEmpty then some v else none
  | none => none

end Json

end CloneScout
