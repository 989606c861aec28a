import BarcodeField.Single.Decimal

/-!
# JSON numerals

A JSON number is kept as it was written: a sign, a whole part, the digits after the point and an
exponent. What it means depends on who asks. A whole number is one written without point and exponent,
and `-0` is none. A single-precision number is rounded once from a whole number of 64 bits, and from
anything else by way of double precision, out of whose range no number is accepted. Then as many digits
count as a 64-bit word has room for.

In the other direction a number is written with the fewest digits that round to it, as a plain decimal with
at least one digit after the point from `1e-6` up to `1e13`, and with an exponent elsewhere. The writer does
not ask how the reader above rounds.
-/

namespace BarcodeField.Json

/-- A number as it is written. `fraction` holds the digits after the point and is empty where there is no
point. -/
structure Numeral where
  negative : Bool
  whole : Nat
  fraction : Text
  exponent : Option Int
deriving DecidableEq

namespace Numeral

/-! ## Meaning -/

/-- The integer that is written, if it is written as one. -/
def integer? (n : Numeral) : Option Int :=
  if n.fraction ≠ [] ∨ n.exponent ≠ none ∨ (n.negative ∧ n.whole = 0) then none
  else some (if n.negative then -n.whole else n.whole)

/-- Whether an integer fits a 64-bit word, with a sign bit only where it needs one. -/
def isWord (i : Int) : Bool := decide (Int64.minValue.toInt ≤ i ∧ i < UInt64.size)

/-- The integer that is written, if it is a signed 32-bit one. -/
def int32? (n : Numeral) : Option Int32 := do
  let i ← n.integer?
  if Int32.minValue.toInt ≤ i ∧ i ≤ Int32.maxValue.toInt then some (Int32.ofInt i) else none

/-- Puts digits behind a number for as long as it stays below `2 ^ 64`, and returns those that are left. -/
def fillWord (n : Nat) : Text → Nat × Text
  | [] => (n, [])
  | c :: rest =>
    let next := n * 10 + (c.toNat - '0'.toNat)
    if next < UInt64.size then fillWord next rest else (n, c :: rest)

/-- The magnitude that is written, without the digits that a word has no room for. Each digit left out of
the whole part counts for its place, and filling goes on behind the point. -/
def leading (n : Numeral) : Decimal :=
  let (word, left) := fillWord 0 (Text.ofNat n.whole)
  let (word, leftBehind) := fillWord word n.fraction
  ⟨word, n.exponent.getD 0 + left.length - (n.fraction.length - leftBehind.length : Nat)⟩

/-- The magnitude in double precision; `none` out of its range. -/
def double? (n : Numeral) : Option Nat := Double.ofDecimal? n.leading

/-- The single-precision number that is meant; `none` out of double precision's range. -/
def single? (n : Numeral) : Option Single :=
  match n.integer?.filter isWord with
  | some i => some (Single.ofInt i)
  | none => n.double?.map (Single.ofDouble n.negative)

/-! ## Writing numbers -/

/-- An integer without point and exponent. -/
def ofInt (i : Int) : Numeral := ⟨decide (i < 0), i.natAbs, [], none⟩

/-- A decimal with at least one digit after the point, or with an exponent where its leading digit stands
below the sixth place after the point or above the thirteenth before it. -/
def ofDecimal (negative : Bool) (d : Decimal) : Numeral :=
  let digits := Text.ofNat d.digits
  let leading := d.exponent + digits.length - 1
  if -6 ≤ leading ∧ leading < 13 then
    if 0 ≤ d.exponent then ⟨negative, d.digits * Nat.pow 10 d.exponent.toNat, ['0'], none⟩
    else
      let places := (-d.exponent).toNat
      let after := Text.ofNat (d.digits % Nat.pow 10 places)
      ⟨negative, d.digits / Nat.pow 10 places, List.replicate (places - after.length) '0' ++ after, none⟩
  else ⟨negative, d.digits / Nat.pow 10 (digits.length - 1), digits.drop 1, some leading⟩

/-- The fewest digits that name a number to a reader that rounds once; of two equally near ones those with an
even end. NaN and the infinities have no numeral. -/
def ofSingle? (x : Single) : Option Numeral :=
  match x with
  | .finite negative grains _ _ =>
    let reads := fun d => d.toSingle negative == x
    some (ofDecimal negative ((Single.exactDecimal grains).shortest .even reads))
  | _ => none

/-- The characters of a numeral; an exponent always has its sign. -/
def render (n : Numeral) : Text :=
  (if n.negative then ['-'] else []) ++ Text.ofNat n.whole ++
    (if n.fraction = [] then [] else '.' :: n.fraction) ++
    match n.exponent with
    | none => []
    | some e => 'e' :: (if e < 0 then '-' else '+') :: Text.ofNat e.natAbs

end Numeral

end BarcodeField.Json
