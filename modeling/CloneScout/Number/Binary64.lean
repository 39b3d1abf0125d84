/-!
# Double-precision numbers

The numbers of the binary64 format as exact values: a finite number is `m · 2 ^ q` with `m` below
`2 ^ 53` and `q` at least `-1074`. All arithmetic on them is exact.
-/

namespace CloneScout

inductive Binary64 where
  | nan
  | infinite (negative : Bool)
  | finite (negative : Bool) (m : Nat) (q : Int)
  deriving DecidableEq, Repr

namespace Binary64

/-- The leading bit of `m` in numbers that are not too small for it. It is not stored. -/
def hiddenBit : Nat := 1 <<< 52

/-- The number with the given 64 bits: sign, eleven bits of exponent, 52 bits of fraction. -/
def ofBits (bits : Nat) : Binary64 :=
  let negative : Bool := (bits >>> 63) % 2 = 1
  let exponent : Nat := (bits >>> 52) % 2048
  let fraction : Nat := bits % hiddenBit
  if exponent = 2047 then
    if fraction = 0 then .infinite negative else .nan
  else if exponent = 0 then .finite negative fraction (-1074)
  else .finite negative (hiddenBit + fraction) ((exponent : Int) - 1075)

/-- `num / den` rounded to an integer, a half going to the even neighbour. -/
def roundDiv (num den : Nat) : Nat :=
  let quotient := num / den
  let rest := num % den
  if 2 * rest < den then quotient
  else if den < 2 * rest then quotient + 1
  else quotient + quotient % 2

/-- The number nearest to `num / den`, a half going to the even neighbour. From the middle between
the largest number and the next power on it is infinite. -/
def ofRatio (negative : Bool) (num den : Nat) : Binary64 :=
  if num = 0 then .finite negative 0 (-1074)
  else
    let scaled (q : Int) : Nat × Nat := (num <<< (-q).toNat, den <<< q.toNat)
    let q₀ : Int := max ((num.log2 : Int) - den.log2 - 53) (-1074)
    let (n₀, d₀) := scaled q₀
    let q := if n₀ / d₀ < 2 * hiddenBit then q₀ else q₀ + 1
    let (n, d) := scaled q
    let rounded := roundDiv n d
    let (m, q) := if rounded = 2 * hiddenBit then (hiddenBit, q + 1) else (rounded, q)
    if 971 < q then .infinite negative else .finite negative m q

/-- The number nearest to `m · 10 ^ e`. Values far outside the range are settled by their number of
digits, so that no power of the exponent is ever computed for them. -/
def ofDecimal (negative : Bool) (m : Nat) (e : Int) : Binary64 :=
  let digits : Int := (Nat.toDigits 10 m).length
  if m = 0 then .finite negative 0 (-1074)
  else if 320 < digits + e then .infinite negative
  else if digits + e < -340 then .finite negative 0 (-1074)
  else ofRatio negative (m * Nat.pow 10 e.toNat) (Nat.pow 10 (-e).toNat)

/-- The number nearest to `m · 2 ^ e`. -/
def ofBinary (negative : Bool) (m : Nat) (e : Int) : Binary64 :=
  let width : Int := m.log2
  if m = 0 then .finite negative 0 (-1074)
  else if 1100 < width + e then .infinite negative
  else if width + e < -1100 then .finite negative 0 (-1074)
  else ofRatio negative (m <<< e.toNat) (1 <<< (-e).toNat)

end Binary64

end CloneScout
