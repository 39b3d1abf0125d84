import CloneScout.Text.Basic
import CloneScout.Number.Binary64

/-!
# Reading floating-point literals

The longest initial part of a text that is a decimal number, an infinity or a nan. When the text
starts with none of these, blanks and a plus sign in front are allowed too, and hexadecimal numbers;
what still is no number reads as zero.
-/

namespace CloneScout.FloatLiteral

/-- `t` starts with `word`, letters of either case. -/
def startsWithWord (word : String) (t : Text) : Bool :=
  Text.startsWith ((t.take word.length).map Text.toLower) (utf8 word)

/-- A run of digits in front, and the rest. -/
def digitRun (t : Text) : Text × Text := (t.takeWhile Text.isDigit, t.dropWhile Text.isDigit)

/-- The exponent that `mark` introduces, zero if it is incomplete or missing. -/
def exponent (mark : UInt8) (t : Text) : Int :=
  match t with
  | m :: rest =>
    if Text.toLower m = mark then
      match rest with
      | sign :: more =>
        if sign = ascii '-' then -(Text.natOfDigits 0 (digitRun more).1 : Int)
        else if sign = ascii '+' then Text.natOfDigits 0 (digitRun more).1
        else Text.natOfDigits 0 (digitRun rest).1
      | [] => 0
    else 0
  | [] => 0

/-- A decimal number without sign: digits, at most one point with digits, an exponent. -/
def decimal? (negative : Bool) (t : Text) : Option Binary64 :=
  let (whole, rest) := digitRun t
  let (fraction, rest) :=
    match rest with
    | b :: more => if b = ascii '.' then digitRun more else ([], rest)
    | [] => ([], rest)
  if whole.isEmpty && fraction.isEmpty then none
  else
    some (.ofDecimal negative (Text.natOfDigits 0 (whole ++ fraction))
      (exponent (ascii 'e') rest - fraction.length))

/-- An infinity or a nan without sign. -/
def special? (negative : Bool) (t : Text) : Option Binary64 :=
  if startsWithWord "inf" t then some (.infinite negative)
  else if startsWithWord "nan" t then some .nan
  else none

/-- The value of a run of hexadecimal digits, read onto `acc`. -/
def natOfHex (acc : Nat) : Text → Nat
  | [] => acc
  | b :: rest => natOfHex (acc * 16 + (Text.hexValue b).getD 0) rest

/-- A run of hexadecimal digits in front, and the rest. -/
def hexRun (t : Text) : Text × Text :=
  (t.takeWhile fun b => (Text.hexValue b).isSome, t.dropWhile fun b => (Text.hexValue b).isSome)

/-- A hexadecimal number without sign: `0x`, digits, at most one point, a binary exponent. -/
def hexadecimal? (negative : Bool) (t : Text) : Option Binary64 :=
  if startsWithWord "0x" t then
    let (whole, rest) := hexRun (t.drop 2)
    let (fraction, rest) :=
      match rest with
      | b :: more => if b = ascii '.' then hexRun more else ([], rest)
      | [] => ([], rest)
    if whole.isEmpty && fraction.isEmpty then none
    else
      some (.ofBinary negative (natOfHex 0 (whole ++ fraction))
        (exponent (ascii 'p') rest - 4 * fraction.length))
  else none

/-- A sign in front, if it is one of `signs`, and the rest. -/
def sign (signs : Text) (t : Text) : Bool × Text :=
  match t with
  | b :: rest => if signs.contains b then (b = ascii '-', rest) else (false, t)
  | [] => (false, [])

/-- The number a literal denotes. Underscores are not part of it. -/
def value (literal : Text) : Binary64 :=
  let t := literal.filter (· != ascii '_')
  let (negative, body) := sign [ascii '-'] t
  let (negative', body') := sign [ascii '-', ascii '+'] (t.dropWhile Text.isSpace)
  ((decimal? negative body).or <| (special? negative body).or <|
    (hexadecimal? negative' body').or <| (decimal? negative' body').or <|
      special? negative' body').getD (.finite false 0 (-1074))

end CloneScout.FloatLiteral
