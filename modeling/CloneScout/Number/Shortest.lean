import CloneScout.Text.Basic
import CloneScout.Number.Binary64

/-!
# Shortest decimal text of a double-precision number

The decimal with the fewest digits that reads back as the number, and of those the nearest one. It
is written positionally from `10 ^ -4` up to below `10 ^ 16`, and with an exponent elsewhere.
-/

namespace CloneScout.Shortest

/-- The reals that round to `m · 2 ^ q`, over one common denominator. The ends belong to the
interval when `m` is even. -/
structure Interval where
  low : Nat
  mid : Nat
  high : Nat
  den : Nat
  closed : Bool

/-- The gap below a power of two is half the gap above it, except at the bottom of the range. -/
def interval (m : Nat) (q : Int) : Interval :=
  let unit := 1 <<< q.toNat
  let below := if m = Binary64.hiddenBit && -1074 < q then unit else 2 * unit
  { low := 4 * m * unit - below
    mid := 4 * m * unit
    high := 4 * m * unit + 2 * unit
    den := 4 <<< (-q).toNat
    closed := m % 2 = 0 }

namespace Interval

/-- The interval in units of `10 ^ i`. -/
def scale (v : Interval) (i : Int) : Interval :=
  let up := Nat.pow 10 (-i).toNat
  let down := Nat.pow 10 i.toNat
  { v with low := v.low * up, mid := v.mid * up, high := v.high * up, den := v.den * down }

/-- The integer `n` lies in the interval. -/
def contains (v : Interval) (n : Nat) : Bool :=
  let x := n * v.den
  if v.closed then v.low ≤ x && x ≤ v.high else v.low < x && x < v.high

/-- The integer of the interval that is nearest to its number, if there is one. Of two equally near
ones it is the even one. -/
def nearest? (v : Interval) : Option Nat :=
  let n := v.mid / v.den
  let rest := v.mid % v.den
  match v.contains n, v.contains (n + 1) with
  | true, true =>
    if 2 * rest < v.den then some n
    else if v.den < 2 * rest then some (n + 1)
    else some (n + n % 2)
  | true, false => some n
  | false, true => some (n + 1)
  | false, false => none

end Interval

/-- Tries the grids `10 ^ i`, `10 ^ (i - 1)`, … for a point of the interval. -/
def search (v : Interval) : (steps : Nat) → (i : Int) → Nat × Int
  | 0, i => (0, i)
  | steps + 1, i =>
    match (v.scale i).nearest? with
    | some n => if n = 0 then search v steps (i - 1) else (n, i)
    | none => search v steps (i - 1)

/-- Significant digits and decimal exponent of a positive number: the value is
`d.ddd · 10 ^ exponent`. The search starts above the number and needs at most seventeen digits. -/
def digits (m : Nat) (q : Int) : Text × Int :=
  let start := ((m.log2 : Int) + q) * 30103 / 100000 + 2
  let (n, i) := search (interval m q) 30 start
  let all := Text.ofNat n
  let significant := (all.reverse.dropWhile (· = ascii '0')).reverse
  (significant, i + all.length - 1)

/-- A positive number, by its digits and exponent. -/
def positive (ds : Text) (exponent : Int) : Text :=
  if -4 ≤ exponent && exponent < 16 then
    if 0 ≤ exponent then
      let whole := exponent.toNat + 1
      if ds.length ≤ whole then
        ds ++ List.replicate (whole - ds.length) (ascii '0') ++ utf8 ".0"
      else ds.take whole ++ utf8 "." ++ ds.drop whole
    else utf8 "0." ++ List.replicate ((-exponent).toNat - 1) (ascii '0') ++ ds
  else
    let point := if ds.length ≤ 1 then ds else ds.take 1 ++ utf8 "." ++ ds.drop 1
    let size := exponent.natAbs
    point ++ utf8 (if exponent < 0 then "e-" else "e+") ++
      (if size < 10 then utf8 "0" else []) ++ Text.ofNat size

/-- The text of a number. -/
def text : Binary64 → Text
  | .nan => utf8 "nan"
  | .infinite negative => utf8 (if negative then "-inf" else "inf")
  | .finite negative m q =>
    let sign := if negative then utf8 "-" else []
    if m = 0 then sign ++ utf8 "0.0"
    else
      let (ds, exponent) := digits m q
      sign ++ positive ds exponent

/-- The text of the imaginary number with the given factor: a whole factor loses its `.0`. -/
def imaginary (v : Binary64) : Text :=
  let t := text v
  let body := if 2 < t.length && Text.endsWith t (utf8 ".0") then t.take (t.length - 2) else t
  body ++ utf8 "j"

end CloneScout.Shortest
