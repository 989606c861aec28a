import BarcodeField.Decimal
import BarcodeField.Rounding

/-!
# Double precision on the way

Some formats read a number in double precision before it becomes a single-precision one. Here a double is a
magnitude, counted in **units**: a unit is the smallest positive double, `2 ^ -1074`, and every finite one is
a whole number of units with at most 53 significant bits. The sign is kept beside it.

`Double.ofDecimal?` does not look for the double nearest to a decimal. It rounds the digits, rounds the power
of ten, and rounds the product or the quotient of the two, which is quick and may end one double further
off. Next to a point halfway between two single-precision numbers that decides which of them is read.
-/

namespace BarcodeField.Double

/-! ## Rounded operations -/

/-- Significant bits of a double. -/
abbrev precision : Nat := 53

/-- Units in the number one. -/
def one : Nat := 1 <<< 1074

/-- The first power of two that is too large for a double, in units. -/
def limit : Nat := one <<< 1024

/-- The double nearest to a natural number. -/
def ofNat (n : Nat) : Nat := roundBits precision (n * one) 1

/-- The rounded product. -/
def mul (a b : Nat) : Nat := roundBits precision (a * b) one

/-- The rounded quotient. -/
def div (a b : Nat) : Nat := roundBits precision (a * one) b

/-! ## Powers of ten -/

/-- The largest power of ten below the limit. -/
def topPower : Nat := 308

/-- The double nearest to a power of ten. -/
def tenPow (k : Nat) : Nat := ofNat (Nat.pow 10 k)

/-- Divides by a power of ten; by one that is no double itself in several steps, for as long as something
is left. -/
def shrink (a k : Nat) : Nat :=
  if k ≤ topPower then div a (tenPow k)
  else if a = 0 then 0
  else shrink (div a (tenPow topPower)) (k - topPower)
termination_by k
decreasing_by
  simp only [topPower] at *
  omega

/-- Multiplies by a power of ten; `none` from the limit up. -/
def grow? (a k : Nat) : Option Nat :=
  if a = 0 then some 0
  else if topPower < k then none
  else
    let product := mul a (tenPow k)
    if product < limit then some product else none

/-- The double that a decimal is read as; `none` out of range. -/
def ofDecimal? (d : Decimal) : Option Nat :=
  let a := ofNat d.digits
  if d.exponent < 0 then some (shrink a (-d.exponent).toNat) else grow? a d.exponent.toNat

end BarcodeField.Double
