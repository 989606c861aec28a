import BarcodeField.Single.Decimal

/-!
# Numbers on a command line

A number may be written with a sign, with a point anywhere among its digits, at either end too, with an
exponent, or as the name of an infinity or of NaN in any case. It is rounded once, whatever its length.
-/

namespace BarcodeField.Single

/-- Why a text is no number. -/
inductive LiteralFault where
  | empty
  | malformed
deriving DecidableEq, Repr

/-- The fault in words. -/
def LiteralFault.message : LiteralFault → String
  | .empty => "cannot parse float from empty string"
  | .malformed => "invalid float literal"

/-- Takes a sign off a text; without one the number is not negative. -/
def splitSign : Text → Bool × Text
  | '-' :: rest => (true, rest)
  | '+' :: rest => (false, rest)
  | t => (false, t)

/-- The value of digits, of which there must be one. -/
def digits? (t : Text) : Option Nat :=
  if t ≠ [] ∧ t.all Char.isDigit then some (Nat.ofDigitChars 10 t 0) else none

/-- The exponent after a significand: zero if nothing is left, else a letter and a whole number. -/
def exponent? : Text → Option Int
  | [] => some 0
  | c :: rest =>
    if c = 'e' ∨ c = 'E' then
      let (negative, power) := splitSign rest
      (digits? power).map fun n => if negative then -(n : Int) else n
    else none

/-- The decimal that a text without a sign gives. -/
def decimal? (t : Text) : Option Decimal := do
  let whole := t.takeWhile Char.isDigit
  let (fraction, rest) :=
    match t.dropWhile Char.isDigit with
    | '.' :: rest => (rest.takeWhile Char.isDigit, rest.dropWhile Char.isDigit)
    | rest => ([], rest)
  if whole = [] ∧ fraction = [] then none
  else
    let exponent ← exponent? rest
    return ⟨Nat.ofDigitChars 10 (whole ++ fraction) 0, exponent - fraction.length⟩

/-- The number that a name stands for, given its sign. -/
def named? (negative : Bool) (t : Text) : Option Single :=
  let name := t.map Char.toLower
  if name = "inf".toList ∨ name = "infinity".toList then some (.infinity negative)
  else if name = "nan".toList then some .nan
  else none

/-- The number that a text gives. -/
def ofLiteral (t : Text) : Except LiteralFault Single :=
  if t = [] then .error .empty
  else
    let (negative, rest) := splitSign t
    match decimal? rest with
    | some d => .ok (d.toSingle negative)
    | none =>
      match named? negative rest with
      | some x => .ok x
      | none => .error .malformed

end BarcodeField.Single
