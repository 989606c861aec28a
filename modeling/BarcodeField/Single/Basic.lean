import BarcodeField.Rounding

/-!
# Single-precision numbers

Widths, sizes and font metrics are IEEE 754 single-precision numbers. A finite one is held exactly, as a
count of **grains**: a grain is the smallest positive value, `2 ^ -149`, and every finite value is a
whole number of grains with at most 24 significant bits, below `2 ^ 128`. All arithmetic is therefore
arithmetic on naturals, followed by one rounding (`Single.ofGrains`).

Zero has two signs, and NaN compares false with everything, itself included. Equality of `Single` is
equality of values held: it tells the two zeros apart and finds NaN equal to itself.
-/

namespace BarcodeField

namespace Single

/-- Significant bits of a finite value. -/
abbrev precision : Nat := 24

/-- Grains in the number one. -/
def one : Nat := 1 <<< 149

/-- The first power of two that is too large to be finite, `2 ^ 128`, in grains. -/
def limit : Nat := one <<< 128

end Single

/-- A single-precision number. -/
inductive Single where
  | nan
  | infinity (negative : Bool)
  | finite (negative : Bool) (grains : Nat) (fits : Fits Single.precision grains)
      (small : grains < Single.limit)
deriving DecidableEq

namespace Single

/-! ## Making numbers -/

/-- The number nearest to `num / den` grains. A magnitude that rounds to the limit or beyond becomes an
infinity, and one that rounds to nothing keeps its sign. -/
def ofGrains (negative : Bool) (num den : Nat) : Single :=
  if small : roundBits precision num den < limit then
    .finite negative (roundBits precision num den) (fits_roundBits (by decide) num den) small
  else .infinity negative

/-- The number nearest to `num / den`. -/
def ofRatio (negative : Bool) (num den : Nat) : Single := ofGrains negative (num * one) den

/-- Zero with a sign. -/
def zero (negative : Bool) : Single := .finite negative 0 ⟨0, rfl⟩ (by decide)

instance : Inhabited Single := ⟨zero false⟩

/-- The number nearest to an integer; zero is positive. -/
def ofInt (i : Int) : Single := ofRatio (decide (i < 0)) i.natAbs 1

/-! ## Order -/

/-- A magnitude with its sign. -/
def signed (negative : Bool) (magnitude : Nat) : Int := if negative then -magnitude else magnitude

/-- Where a number stands on the line, in grains. An infinity stands at the limit, past every finite
number; both zeros stand at 0; NaN stands nowhere. -/
def place : Single → Option Int
  | .nan => none
  | .infinity negative => some (signed negative limit)
  | .finite negative grains _ _ => some (signed negative grains)

/-- Whether the places of two numbers are so related; false when one of them has none. -/
def related (r : Int → Int → Bool) (a b : Single) : Bool :=
  match a.place, b.place with
  | some x, some y => r x y
  | _, _ => false

instance : LT Single := ⟨fun a b => related (fun x y => decide (x < y)) a b = true⟩
instance : LE Single := ⟨fun a b => related (fun x y => decide (x ≤ y)) a b = true⟩
instance (a b : Single) : Decidable (a < b) := inferInstanceAs (Decidable (_ = true))
instance (a b : Single) : Decidable (a ≤ b) := inferInstanceAs (Decidable (_ = true))

/-- Whether the number stands above zero: neither zero does, nor NaN. -/
def isPositive (a : Single) : Bool := decide (zero false < a)

/-! ## Small laws -/

@[simp] theorem place_nan : place nan = none := rfl

@[simp] theorem place_zero (negative : Bool) : (zero negative).place = some 0 := by
  cases negative <;> rfl

theorem lt_iff {a b : Single} : a < b ↔ ∃ x y, a.place = some x ∧ b.place = some y ∧ x < y := by
  show related _ a b = true ↔ _
  unfold related
  split
  · simp_all
  · constructor
    · simp
    · rintro ⟨x, y, hx, hy, _⟩
      simp_all

theorem le_iff {a b : Single} : a ≤ b ↔ ∃ x y, a.place = some x ∧ b.place = some y ∧ x ≤ y := by
  show related _ a b = true ↔ _
  unfold related
  split
  · simp_all
  · constructor
    · simp
    · rintro ⟨x, y, hx, hy, _⟩
      simp_all

theorem isPositive_iff {a : Single} : a.isPositive = true ↔ zero false < a := decide_eq_true_iff

theorem place_eq_none_iff {a : Single} : a.place = none ↔ a = nan := by
  cases a <;> simp [place]

end Single

end BarcodeField
