import CloneScout.Number.Radix

/-!
# Numbers in limbs

A natural number as a list of 32-bit limbs, the lowest first, each of them nine decimal digits.
Digit strings are read by multiplying with the base and adding a digit, with a 64-bit carry from
limb to limb; the numeral is the limbs written one after the other. The carry of a base above 10 ^ 9
may not fit the limb it goes to, and is cut.
-/

namespace CloneScout

/-- Limbs of a number, the lowest first. -/
abbrev Limbs := List UInt32

namespace Limbs

/-- A limb holds a number below this, except that the highest one may be larger. -/
def limbBase : UInt64 := 1000000000

/-- The limbs times `factor`, plus the carry. -/
def mulAdd (factor : UInt32) : (carry : UInt64) → Limbs → Limbs
  | carry, [] => if carry = 0 then [] else [carry.toUInt32]
  | carry, limb :: rest =>
    let x := limb.toUInt64 * factor.toUInt64 + carry
    (x % limbBase).toUInt32 :: mulAdd factor (x / limbBase) rest

/-- The limbs without zeros at the high end. -/
def trim (ls : Limbs) : Limbs := (ls.reverse.dropWhile (· = 0)).reverse

/-- Reads digits onto `acc`; `any` tells whether a digit was read before. Underscores are skipped.
-/
def readDigits (base : UInt32) : (acc : Limbs) → (any : Bool) → Text → Option Limbs
  | acc, any, [] => if any then some (trim acc) else none
  | acc, any, b :: t =>
    if b = ascii '_' then readDigits base acc any t
    else
      match Text.hexValue b with
      | some d =>
        if d < base.toNat then readDigits base (mulAdd base (UInt64.ofNat d) acc) true t else none
      | none => none

/-- The number that a digit string denotes, if it has a digit and no character but digits below
`base` and underscores. -/
def parse? (base : UInt32) (digits : Text) : Option Limbs := readDigits base [] false digits

/-- The number that an integer literal denotes. -/
def parseLiteral? (t : Text) : Option Limbs :=
  match t with
  | zero :: mark :: digit :: rest =>
    match Radix.baseOfMark? mark with
    | some base =>
      if zero = ascii '0' then parse? (UInt32.ofNat base) (digit :: rest) else parse? 10 t
    | none => parse? 10 t
  | _ => parse? 10 t

def isZero (ls : Limbs) : Bool := ls.isEmpty

/-- A limb below the highest one: nine digits, with zeros in front. -/
def padded (limb : UInt32) : Text :=
  let t := Text.ofNat limb.toNat
  List.replicate (9 - t.length) (ascii '0') ++ t

/-- The decimal numeral. -/
def toText (ls : Limbs) : Text :=
  match ls.reverse with
  | [] => utf8 "0"
  | top :: below => Text.ofNat top.toNat ++ below.flatMap padded

end Limbs

end CloneScout
