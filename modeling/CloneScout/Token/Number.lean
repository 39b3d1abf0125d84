import CloneScout.Token.Basic

/-!
# Numeric literals

How far a numeric literal reaches and of what kind it is. Underscores may stand singly between
digits and after a base mark. A literal that runs into an identifier is ill-formed as a whole.
-/

namespace CloneScout.Token

/-- Letters, the underscore and every byte outside ASCII may start an identifier. -/
def isIdentStart (b : UInt8) : Bool := 0x80 ≤ b || Text.isLetter b || b = ascii '_'

/-- Digits may follow in an identifier too. -/
def isIdentPart (b : UInt8) : Bool := isIdentStart b || Text.isDigit b

namespace Number

/-- A run of digits and underscores: the text, how many digits it has, and whether an underscore
stands wrong. -/
structure Run where
  text : Text
  digits : Nat
  bad : Bool

/-- Reads a run; `afterUnderscore` holds at its start and behind an underscore. -/
def run (isDigit : UInt8 → Bool) : (afterUnderscore : Bool) → Text → Run
  | afterUnderscore, [] => ⟨[], 0, afterUnderscore⟩
  | afterUnderscore, b :: t =>
    if b = ascii '_' then
      let r := run isDigit true t
      ⟨b :: r.text, r.digits, afterUnderscore || r.bad⟩
    else if isDigit b then
      let r := run isDigit false t
      ⟨b :: r.text, r.digits + 1, r.bad⟩
    else ⟨[], 0, afterUnderscore⟩

/-- A run of digits in front of a text. An empty run is not bad by itself. -/
def digits (isDigit : UInt8 → Bool) (t : Text) : Run :=
  let r := run isDigit true t
  if r.text.isEmpty then ⟨[], 0, false⟩ else r

/-- A literal: its length in bytes, its kind, and whether it is ill-formed. -/
structure Scan where
  length : Nat
  kind : Kind
  bad : Bool

def isOctal (b : UInt8) : Bool := ascii '0' ≤ b && b ≤ ascii '7'

def isBinary (b : UInt8) : Bool := b = ascii '0' || b = ascii '1'

def isHex (b : UInt8) : Bool := (Text.hexValue b).isSome

/-- The digits that a base mark asks for. -/
def digitsOfMark? (mark : UInt8) : Option (UInt8 → Bool) :=
  let m := Text.toLower mark
  if m = ascii 'x' then some isHex
  else if m = ascii 'o' then some isOctal
  else if m = ascii 'b' then some isBinary
  else none

/-- The literal behind a base mark; one underscore may come first. -/
def based (isDigit : UInt8 → Bool) (t : Text) : Scan :=
  let start := if t.head? = some (ascii '_') then 1 else 0
  let r := digits isDigit (t.drop start)
  ⟨2 + start + r.text.length, .intLit, r.bad || r.digits = 0⟩

/-- The point and the digits behind it, if the text goes on with them. A point without digits on
either side is none. -/
def fraction? (wholeDigits : Nat) (t : Text) : Option Run :=
  match t with
  | b :: rest =>
    let more := rest.head?.any Text.isDigit
    if b = ascii '.' && !(wholeDigits = 0 && !more) then
      let r := if more then digits Text.isDigit rest else ⟨[], 0, false⟩
      some { r with text := b :: r.text }
    else none
  | [] => none

/-- The mark, sign and digits of an exponent, if the text goes on with all that is needed. -/
def exponent? (t : Text) : Option Run :=
  match t with
  | mark :: rest =>
    if Text.toLower mark = ascii 'e' then
      match rest with
      | b :: more =>
        if Text.isDigit b then
          let r := digits Text.isDigit rest
          some { r with text := mark :: r.text }
        else if (b = ascii '+' || b = ascii '-') && more.head?.any Text.isDigit then
          let r := digits Text.isDigit more
          some { r with text := mark :: b :: r.text }
        else none
      | [] => none
    else none
  | [] => none

/-- A whole number may start with a zero only if it has no other digit. -/
def leadingZero (whole : Text) : Bool :=
  1 < whole.length && whole.head? = some (ascii '0') &&
    whole.any fun b => b ≠ ascii '0' && b ≠ ascii '_'

/-- A literal without base mark. -/
def decimal (t : Text) : Scan :=
  let whole := digits Text.isDigit t
  let t₁ := t.drop whole.text.length
  let fraction := fraction? whole.digits t₁
  let point := fraction.elim [] Run.text
  let t₂ := t₁.drop point.length
  let exponent := exponent? t₂
  let power := exponent.elim [] Run.text
  let t₃ := t₂.drop power.length
  let imaginary := t₃.head?.any fun b => Text.toLower b = ascii 'j'
  let kind : Kind :=
    if imaginary then .imagLit
    else if fraction.isSome || exponent.isSome then .floatLit
    else .intLit
  { length :=
      whole.text.length + point.length + power.length + (if imaginary then 1 else 0)
    kind
    bad :=
      whole.bad || fraction.any Run.bad || exponent.any Run.bad ||
        (kind = .intLit && leadingZero whole.text) }

/-- The literal before anything that glues to it. -/
def bare (t : Text) : Scan :=
  match t with
  | zero :: mark :: rest =>
    match digitsOfMark? mark with
    | some isDigit => if zero = ascii '0' then based isDigit rest else decimal t
    | none => decimal t
  | _ => decimal t

/-- The literal in front of a text that starts with a digit or with a point and a digit. Identifier
characters right behind it belong to it and make it ill-formed. -/
def scan (t : Text) : Scan :=
  let s := bare t
  let glued := (t.drop s.length).takeWhile isIdentPart
  { s with length := s.length + glued.length, bad := s.bad || !glued.isEmpty }

end Number

end CloneScout.Token
