import BarcodeField.Text

/-!
# Decimals

A decimal is a natural number shifted by a power of ten: what a written number says before it is rounded
to a binary format, and what a binary number is turned into before it is written. The sign is kept
beside it, since a written zero has one too.
-/

namespace BarcodeField

/-- The number `digits * 10 ^ exponent`. -/
structure Decimal where
  digits : Nat
  exponent : Int
deriving DecidableEq, Repr

namespace Decimal

/-- How many digits are written for `digits`; zero takes one. -/
def length (d : Decimal) : Nat := (Text.ofNat d.digits).length

/-! ## As a quotient -/

/-- The decimal itself, unless its size is far out of every binary format's range: a decimal from
`10 ^ 400` up becomes `10 ^ 400`, and one below `10 ^ -400` becomes zero. Rounding cannot tell the
difference, and no power of ten grows beyond reason. -/
def clamp (d : Decimal) : Decimal :=
  if d.digits = 0 then ⟨0, 0⟩
  else if 400 < d.exponent then ⟨1, 400⟩
  else if d.exponent + d.length < -400 then ⟨0, 0⟩
  else d

/-- Upper term of the quotient that a decimal is. -/
def num (d : Decimal) : Nat := d.digits * Nat.pow 10 d.exponent.toNat

/-- Lower term of the quotient that a decimal is. -/
def den (d : Decimal) : Nat := Nat.pow 10 (-d.exponent).toNat

/-! ## Writing -/

/-- The same number with no zero at the end of its digits; zero is `0 * 10 ^ 0`. -/
def trimZeros (d : Decimal) : Decimal :=
  if d.digits = 0 then ⟨0, 0⟩
  else
    let zeros := ((Text.ofNat d.digits).reverse.takeWhile (· == '0')).length
    ⟨d.digits / Nat.pow 10 zeros, d.exponent + zeros⟩

/-- The digits with a point among them, and neither an exponent nor a bare point: `0.25`, `72`, `1200`. -/
def positional (d : Decimal) : Text :=
  let digits := Text.ofNat d.digits
  if 0 ≤ d.exponent then digits ++ List.replicate d.exponent.toNat '0'
  else
    let places := (-d.exponent).toNat
    if places < digits.length then
      digits.take (digits.length - places) ++ '.' :: digits.drop (digits.length - places)
    else '0' :: '.' :: (List.replicate (places - digits.length) '0' ++ digits)

theorem den_pos (d : Decimal) : 0 < d.den := Nat.pow_pos (by decide)

end Decimal

end BarcodeField
