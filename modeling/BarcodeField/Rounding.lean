/-!
# Rounding to a number of significant bits

A quotient of naturals is rounded to the nearest natural that has at most so many significant bits, and
of two equally near ones to the one whose last kept bit is zero. Below `2 ^ bits` every natural
qualifies, so small quotients are rounded to whole numbers: counted in units of the smallest positive
value of a binary format, this is its gradual underflow.

`fits_roundBits` says that the result has no more bits than asked for, which is what makes it a value of
the format.
-/

namespace BarcodeField

/-- The multiple of `unit` nearest to `num / den`; of two equally near ones the even multiple. -/
def nearestMultiple (unit num den : Nat) : Nat :=
  let step := unit * den
  let below := num / step
  let rest := num % step
  if 2 * rest < step ∨ (2 * rest = step ∧ below % 2 = 0) then below * unit else (below + 1) * unit

/-- `g` has at most `bits` significant bits: those below its leading `bits` are zero. -/
def Fits (bits g : Nat) : Prop := 1 <<< (g.log2 + 1 - bits) ∣ g

instance (bits g : Nat) : Decidable (Fits bits g) := inferInstanceAs (Decidable (_ ∣ _))

/-- `num / den` rounded to the nearest natural with at most `bits` significant bits. -/
def roundBits (bits num den : Nat) : Nat :=
  nearestMultiple (1 <<< ((num / den).log2 + 1 - bits)) num den

/-! ## The result fits -/

theorem nearestMultiple_cases (unit num den : Nat) :
    nearestMultiple unit num den = num / (unit * den) * unit ∨
      nearestMultiple unit num den = (num / (unit * den) + 1) * unit := by
  simp only [nearestMultiple]
  split
  · exact .inl rfl
  · exact .inr rfl

/-- Zeros appended to at most `2 ^ bits` leave a number that fits. -/
theorem fits_shiftLeft {bits m : Nat} (k : Nat) (hb : 0 < bits) (hm : m ≤ 1 <<< bits) :
    Fits bits (m <<< k) := by
  rw [Nat.one_shiftLeft] at hm
  rw [Fits, Nat.one_shiftLeft, Nat.shiftLeft_eq]
  by_cases h0 : m = 0
  · simp [h0]
  · have hpos : 0 < 2 ^ k := Nat.two_pow_pos k
    have hne : m * 2 ^ k ≠ 0 := Nat.mul_ne_zero h0 (Nat.ne_of_gt hpos)
    by_cases hlt : m < 2 ^ bits
    · have hlog : (m * 2 ^ k).log2 < bits + k := by
        rw [Nat.log2_lt hne, Nat.pow_add]
        exact Nat.mul_lt_mul_of_pos_right hlt hpos
      exact Nat.dvd_trans (Nat.pow_dvd_pow 2 (by omega)) (Nat.dvd_mul_left (2 ^ k) m)
    · have hm' : m = 2 ^ bits := Nat.le_antisymm hm (Nat.le_of_not_lt hlt)
      subst hm'
      rw [← Nat.pow_add, Nat.log2_two_pow]
      exact Nat.pow_dvd_pow 2 (by omega)

theorem fits_roundBits {bits : Nat} (hb : 0 < bits) (num den : Nat) :
    Fits bits (roundBits bits num den) := by
  have hk := fun m => @fits_shiftLeft bits m ((num / den).log2 + 1 - bits) hb
  simp only [Nat.shiftLeft_eq, Nat.one_mul] at hk
  have hlt : num / (2 ^ ((num / den).log2 + 1 - bits) * den) < 2 ^ bits := by
    rw [Nat.mul_comm, ← Nat.div_div_eq_div_mul, Nat.div_lt_iff_lt_mul (Nat.two_pow_pos _), ← Nat.pow_add]
    exact Nat.lt_of_lt_of_le Nat.lt_log2_self (Nat.pow_le_pow_right (by decide) (by omega))
  rw [roundBits, Nat.one_shiftLeft]
  rcases nearestMultiple_cases (2 ^ ((num / den).log2 + 1 - bits)) num den with h | h
  · rw [h]
    exact hk _ (Nat.le_of_lt hlt)
  · rw [h]
    exact hk _ hlt

end BarcodeField
