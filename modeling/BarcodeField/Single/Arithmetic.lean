import BarcodeField.Single.Basic

/-!
# Single-precision arithmetic

Each operation computes the exact result in grains and rounds it once, to the nearest value and a tie to
the even one. The rest is the table of special cases: NaN spreads, an infinity times zero and the
difference of two like infinities are NaN, and a sum that cancels exactly is positive zero.

`dotsUp` is where a measure becomes a whole number of dots.
-/

namespace BarcodeField.Single

/-! ## Operations -/

/-- The number on the other side of zero. -/
def neg : Single → Single
  | .nan => .nan
  | .infinity negative => .infinity (!negative)
  | .finite negative grains fits small => .finite (!negative) grains fits small

/-- The rounded product; its sign is negative when exactly one factor's is. -/
def mul : Single → Single → Single
  | .nan, _ => .nan
  | _, .nan => .nan
  | .infinity s, .infinity t => .infinity (s != t)
  | .infinity s, .finite t grains _ _ => if grains = 0 then .nan else .infinity (s != t)
  | .finite s grains _ _, .infinity t => if grains = 0 then .nan else .infinity (s != t)
  | .finite s g _ _, .finite t h _ _ => ofGrains (s != t) (g * h) one

/-- The rounded sum. Zeros of one sign add up to that zero. -/
def add : Single → Single → Single
  | .nan, _ => .nan
  | _, .nan => .nan
  | .infinity s, .infinity t => if s = t then .infinity s else .nan
  | .infinity s, .finite .. => .infinity s
  | .finite .., .infinity t => .infinity t
  | .finite s g _ _, .finite t h _ _ =>
    let total := signed s g + signed t h
    if total = 0 then zero (s && t) else ofGrains (decide (total < 0)) total.natAbs 1

/-- The rounded difference. -/
def sub (a b : Single) : Single := add a (neg b)

instance : Neg Single := ⟨neg⟩
instance : Mul Single := ⟨mul⟩
instance : Add Single := ⟨add⟩
instance : Sub Single := ⟨sub⟩

/-- The smaller of two numbers. NaN gives way to the other number, and of two zeros the second one is
taken. -/
def min (a b : Single) : Single :=
  if a < b ∨ b = .nan then a else b

/-! ## Whole dots -/

/-- The largest number of dots that a height can hold. -/
def mostDots : Nat := (1 <<< 31) - 1

/-- The least whole number of dots that is not below a measure: none for a measure at or below zero or
for NaN, and never more than a height can hold. -/
def dotsUp : Single → Nat
  | .nan => 0
  | .infinity negative => if negative then 0 else mostDots
  | .finite negative grains _ _ =>
    if negative then 0 else Nat.min ((grains + (one - 1)) / one) mostDots

/-! ## Small laws -/

theorem dotsUp_le (a : Single) : a.dotsUp ≤ mostDots := by
  unfold dotsUp
  split
  · exact Nat.zero_le _
  · split
    · exact Nat.zero_le _
    · exact Nat.le_refl _
  · split
    · exact Nat.zero_le _
    · exact Nat.min_le_right _ _

theorem min_nan_left (b : Single) : min .nan b = b := by
  have h : ¬ (Single.nan < b) := by simp [lt_iff]
  by_cases hb : b = .nan
  · simp [min, hb]
  · simp [min, hb, h]

theorem min_nan_right (a : Single) : min a .nan = a := by simp [min]

end BarcodeField.Single
