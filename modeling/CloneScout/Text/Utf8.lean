import CloneScout.Text.Basic

/-!
# UTF-8

Strict validation of a whole text, and a lenient reader of single code points that accepts every
lead byte with the right number of continuation bytes, overlong forms and surrogates included.
-/

namespace CloneScout.Utf8

/-- A byte of the form `10xxxxxx`. -/
def isContinuation (b : UInt8) : Bool := b &&& 0xC0 = 0x80

/-- Lead and second byte of a form that is overlong, a surrogate, or above U+10FFFF. -/
def isForbidden (b0 b1 : UInt8) : Bool :=
  (b0 = 0xE0 && b1 < 0xA0) || (b0 = 0xED && 0xA0 ≤ b1) ||
    (b0 = 0xF0 && b1 < 0x90) || (b0 = 0xF4 && 0x8F < b1)

/-- The offset of the first byte that starts no UTF-8 form of a Unicode scalar value, counted from
`i` at the head of the text. -/
def firstInvalid (i : Nat) : Text → Option Nat
  | [] => none
  | b0 :: t =>
    if b0 < 0x80 then firstInvalid (i + 1) t
    else if 0xC2 ≤ b0 && b0 ≤ 0xDF then
      match t with
      | b1 :: t => if isContinuation b1 then firstInvalid (i + 2) t else some i
      | _ => some i
    else if 0xE0 ≤ b0 && b0 ≤ 0xEF then
      match t with
      | b1 :: b2 :: t =>
        if isContinuation b1 && isContinuation b2 && !isForbidden b0 b1 then
          firstInvalid (i + 3) t
        else some i
      | _ => some i
    else if 0xF0 ≤ b0 && b0 ≤ 0xF4 then
      match t with
      | b1 :: b2 :: b3 :: t =>
        if isContinuation b1 && isContinuation b2 && isContinuation b3 && !isForbidden b0 b1 then
          firstInvalid (i + 4) t
        else some i
      | _ => some i
    else some i

/-- The text is a sequence of UTF-8 forms of Unicode scalar values. -/
def isValid (t : Text) : Bool := (firstInvalid 0 t).isNone

/-- The UTF-8 form of a code point, surrogates included. -/
def encode (cp : Nat) : Text :=
  if cp < 0x80 then [UInt8.ofNat cp]
  else if cp < 0x800 then [UInt8.ofNat (0xC0 + cp / 64), UInt8.ofNat (0x80 + cp % 64)]
  else if cp < 0x10000 then
    [UInt8.ofNat (0xE0 + cp / 4096), UInt8.ofNat (0x80 + cp / 64 % 64),
      UInt8.ofNat (0x80 + cp % 64)]
  else
    [UInt8.ofNat (0xF0 + cp / 262144), UInt8.ofNat (0x80 + cp / 4096 % 64),
      UInt8.ofNat (0x80 + cp / 64 % 64), UInt8.ofNat (0x80 + cp % 64)]

/-- The six payload bits of a continuation byte. -/
def payload (b : UInt8) : Nat := b.toNat % 64

/-- The code point of the form that starts with `b0` and goes on in `t`, and the number of its
further bytes. -/
def form? (b0 : UInt8) (t : Text) : Option (Nat × Nat) :=
  if b0 < 0x80 then some (b0.toNat, 0)
  else if b0 &&& 0xE0 = 0xC0 then
    match t with
    | b1 :: _ => if isContinuation b1 then some (b0.toNat % 32 * 64 + payload b1, 1) else none
    | _ => none
  else if b0 &&& 0xF0 = 0xE0 then
    match t with
    | b1 :: b2 :: _ =>
      if isContinuation b1 && isContinuation b2 then
        some (b0.toNat % 16 * 4096 + payload b1 * 64 + payload b2, 2)
      else none
    | _ => none
  else if b0 &&& 0xF8 = 0xF0 then
    match t with
    | b1 :: b2 :: b3 :: _ =>
      if isContinuation b1 && isContinuation b2 && isContinuation b3 then
        some (b0.toNat % 8 * 262144 + payload b1 * 4096 + payload b2 * 64 + payload b3, 3)
      else none
    | _ => none
  else none

/-- Reads code points after `skip` bytes of a form already read. -/
def decodeFrom (malformed : UInt8 → Nat) : (skip : Nat) → Text → List Nat
  | _, [] => []
  | skip + 1, _ :: t => decodeFrom malformed skip t
  | 0, b0 :: t =>
    match form? b0 t with
    | some (cp, more) => cp :: decodeFrom malformed more t
    | none => malformed b0 :: decodeFrom malformed 0 t

/-- Reads a text as code points. A byte that starts no complete form stands for `malformed` of
itself. -/
def decodeWith (malformed : UInt8 → Nat) (t : Text) : List Nat := decodeFrom malformed 0 t

end CloneScout.Utf8
