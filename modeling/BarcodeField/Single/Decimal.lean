import BarcodeField.Double
import BarcodeField.Single.Basic

/-!
# Decimals and single-precision numbers

A decimal becomes a single-precision number by one rounding, or by way of double precision where a format
reads its numbers so.

In the other direction nothing is lost: each finite value is a decimal (`exactDecimal`), since a grain is
`5 ^ 149 * 10 ^ -149`. It is not written so, but with as few significant digits as still tell it from every
other number. The search looks at the exact decimal's own leading digits: with `n` of them kept, the
candidates are the decimal cut off there and the next one up, the nearer first. The first count of digits at
which a candidate reads back gives the answer, and at the full count the exact decimal itself is a candidate,
so there always is one.

Which reader decides, and what happens to two candidates that are equally near, is up to the format: both
are parameters of `Decimal.shortest`.
-/

namespace BarcodeField

namespace Single

/-- The decimal that is exactly so many grains. -/
def exactDecimal (grains : Nat) : Decimal := ⟨grains * Nat.pow 5 149, -149⟩

/-- Units of double precision in a grain. -/
def unitsPerGrain : Nat := 1 <<< 925

/-- The single-precision number nearest to a double with a sign. -/
def ofDouble (negative : Bool) (units : Nat) : Single := ofGrains negative units unitsPerGrain

theorem one_mul_unitsPerGrain : one * unitsPerGrain = Double.one := by decide +kernel

end Single

/-- The single-precision number nearest to a decimal with a sign. -/
def Decimal.toSingle (negative : Bool) (d : Decimal) : Single :=
  Single.ofRatio negative d.clamp.num d.clamp.den

/-! ## The fewest digits that read back -/

/-- Which of two equally near decimals is preferred. -/
inductive Tie where
  | even
  | up
deriving DecidableEq, Repr

namespace Decimal

/-- The two decimals with `count` significant digits between which `d` lies, the nearer one first. -/
def neighbours (tie : Tie) (count : Nat) (d : Decimal) : List Decimal :=
  let cut := d.length - count
  let unit := Nat.pow 10 cut
  let below := d.digits / unit
  let rest := d.digits % unit
  let lower := trimZeros ⟨below, d.exponent + cut⟩
  let upper := trimZeros ⟨below + 1, d.exponent + cut⟩
  let lowerFirst := 2 * rest < unit || (2 * rest == unit && tie == .even && below % 2 == 0)
  if lowerFirst then [lower, upper] else [upper, lower]

/-- The decimal with the fewest digits that `reads` takes, the nearest to `d` of those; `d` itself if
none does. -/
def shortest (tie : Tie) (reads : Decimal → Bool) (d : Decimal) : Decimal :=
  ((List.range' 1 d.length).findSome? fun count => (neighbours tie count d).find? reads).getD
    d.trimZeros

end Decimal

namespace Single

/-! ## Plain writing -/

/-- The fewest digits that name this many grains, for a reader that rounds once. -/
def shortestDecimal (grains : Nat) : Decimal :=
  (exactDecimal grains).shortest .up fun d =>
    d.toSingle false == ofGrains false grains 1

/-- A number as it stands in a message or a printed line: the fewest digits that read back, never with an
exponent and never with a point at the end. -/
def display : Single → Text
  | .nan => ['N', 'a', 'N']
  | .infinity negative => sign negative ++ ['i', 'n', 'f']
  | .finite negative grains _ _ => sign negative ++ (shortestDecimal grains).positional
where
  sign (negative : Bool) : Text := if negative then ['-'] else []

instance : ToString Single := ⟨fun x => String.ofList x.display⟩

end Single

end BarcodeField
