import BarcodeField.Proofs.Rounding.Nearest

/-!
# Errors in proportion

Several roundings in a row are compared by the part of the number that each can err by. `Within ε x v` says that
`x` differs from `v` by the part `ε` of it at most; parts add up along a chain (`Within.trans`), up to their
product, and survive a change of scale (`Within.mul_right`). A divisor passes on hardly more than its own part
(`Within.div_left`).
-/

namespace BarcodeField

/-- `x` differs from `v`, which is not negative, by the part `ε` of it at most. -/
def Within (ε x v : ℚ) : Prop := |x - v| ≤ ε * v

namespace Within

variable {ε δ x y v c : ℚ}

theorem mono (h : Within ε x v) (hle : ε ≤ δ) (hv : 0 ≤ v) : Within δ x v :=
  le_trans h (mul_le_mul_of_nonneg_right hle hv)

theorem upper (h : Within ε x v) : x ≤ (1 + ε) * v := by linarith [(abs_le.mp h).2]

theorem lower (h : Within ε x v) : (1 - ε) * v ≤ x := by linarith [(abs_le.mp h).1]

theorem trans (hxy : Within ε x y) (hyv : Within δ y v) (hε : 0 ≤ ε) : Within (ε + δ + ε * δ) x v := by
  have hstep : ε * y ≤ ε * ((1 + δ) * v) := mul_le_mul_of_nonneg_left hyv.upper hε
  have hsum : |x - v| ≤ |x - y| + |y - v| := by
    rw [← sub_add_sub_cancel x y v]
    exact abs_add_le _ _
  unfold Within at *
  linarith

theorem mul_right (h : Within ε x v) (hc : 0 ≤ c) : Within ε (x * c) (v * c) := by
  unfold Within at *
  rw [← sub_mul, abs_mul, abs_of_nonneg hc, ← mul_assoc]
  exact mul_le_mul_of_nonneg_right h hc

theorem inv (h : Within ε x v) (hv : 0 < v) (hε : ε < 1) : Within (ε / (1 - ε)) x⁻¹ v⁻¹ := by
  have hrest : 0 < 1 - ε := by linarith
  have hx : 0 < x := (mul_pos hrest hv).trans_le h.lower
  have hε0 : 0 ≤ ε := nonneg_of_mul_nonneg_left ((abs_nonneg _).trans h) hv
  have hlower := mul_le_mul_of_nonneg_left h.lower hε0
  unfold Within at *
  rw [inv_sub_inv hx.ne' hv.ne', abs_div, abs_sub_comm, abs_of_pos (mul_pos hx hv), div_le_iff₀ (mul_pos hx hv)]
  have hscale : ε / (1 - ε) * v⁻¹ * (x * v) = ε * x / (1 - ε) := by field_simp
  rw [hscale, le_div_iff₀ hrest]
  nlinarith

/-- A divisor passes on its own part, taken of what it may have been short of. -/
theorem div_left (h : Within ε x v) (hv : 0 < v) (hε : ε < 1) (hc : 0 ≤ c) :
    Within (ε / (1 - ε)) (c / x) (c / v) := by
  rw [div_eq_inv_mul c, div_eq_inv_mul c]
  exact (h.inv hv hε).mul_right hc

end Within

/-- Rounding to so many bits errs by one part in `2 ^ bits` at most, from a quotient that has so many whole
bits. -/
theorem within_roundBits {bits num den : Nat} (hden : 0 < den) (h : 2 ^ bits * den ≤ num) :
    Within (1 / 2 ^ bits) (roundBits bits num den) (num / den) := by
  rw [Within, one_div, inv_mul_eq_div]
  exact abs_roundBits_sub_le hden h

end BarcodeField
