import CloneScout.Text.Basic

/-!
# Integer numerals

Digit strings in any base, with underscores as separators, and integer literals whose base is given
by their first two characters.
-/

namespace CloneScout.Radix

/-- Reads digits onto `acc`; `any` tells whether a digit was read before. Underscores are skipped.
-/
def readDigits (base : Nat) : (acc : Nat) → (any : Bool) → Text → Option Nat
  | acc, any, [] => if any then some acc else none
  | acc, any, b :: t =>
    if b = ascii '_' then readDigits base acc any t
    else
      match Text.hexValue b with
      | some d => if d < base then readDigits base (acc * base + d) true t else none
      | none => none

/-- The number that a digit string denotes, if it has a digit and no character but digits below
`base` and underscores. -/
def parse? (base : Nat) (digits : Text) : Option Nat := readDigits base 0 false digits

/-- The base that the letter after a leading zero selects. -/
def baseOfMark? (mark : UInt8) : Option Nat :=
  let m := Text.toLower mark
  if m = ascii 'x' then some 16
  else if m = ascii 'o' then some 8
  else if m = ascii 'b' then some 2
  else none

/-- The number that an integer literal denotes. -/
def parseLiteral? (t : Text) : Option Nat :=
  match t with
  | zero :: mark :: digit :: rest =>
    match baseOfMark? mark with
    | some base => if zero = ascii '0' then parse? base (digit :: rest) else parse? 10 t
    | none => parse? 10 t
  | _ => parse? 10 t

end CloneScout.Radix
