import BarcodeField.Decimal
import Mathlib.Algebra.Order.Field.Power
import Mathlib.Data.List.TakeWhile
import Mathlib.Data.Nat.Cast.Field
import Mathlib.Data.Rat.Cast.Order
import Mathlib.Tactic.FieldSimp
import Mathlib.Tactic.Linarith
import Mathlib.Tactic.Positivity

/-!
# The number that a decimal is

Two decimals can stand for one number, and a decimal is moved from one form to another on its way to and from
a text. What must not change is its **value**.

**The laws.** A decimal is the quotient that it is rounded as (`num_div_den`). To trim zeros off its end keeps
its value (`value_trimZeros`), and nothing is clamped between `10 ^ -400` and `10 ^ 400` (`clamp_eq_self`).
-/

namespace BarcodeField.Decimal

variable {d : Decimal}

/-- The number that a decimal stands for. -/
def value (d : Decimal) : ℚ := d.digits * 10 ^ d.exponent

theorem num_div_den (d : Decimal) : (d.num : ℚ) / d.den = d.value := by
  unfold num den value
  simp only [Nat.pow_eq, Nat.cast_mul, Nat.cast_pow, Nat.cast_ofNat]
  rcases le_total 0 d.exponent with h | h
  · obtain ⟨k, hk⟩ := Int.eq_ofNat_of_zero_le h
    simp [hk]
  · obtain ⟨k, hk⟩ := Int.exists_eq_neg_ofNat h
    simp [hk, div_eq_mul_inv]

/-! ## Digits -/

theorem length_pos (d : Decimal) : 0 < d.length := List.length_pos_iff.mpr (Text.ofNat_ne_nil d.digits)

theorem digits_lt_pow_length (d : Decimal) : d.digits < 10 ^ d.length :=
  (Nat.length_toDigits_le_iff (by decide) d.length_pos).mp le_rfl

/-- A number other than zero has no fewer digits than it is written with. -/
theorem pow_le_digits {k : Nat} (hk : k < d.length) (h : d.digits ≠ 0) : 10 ^ k ≤ d.digits := by
  rcases Nat.eq_zero_or_pos k with rfl | hpos
  · exact Nat.one_le_iff_ne_zero.mpr h
  · by_contra hlt
    exact Nat.not_le.mpr hk ((Nat.length_toDigits_le_iff (by decide) hpos).mpr (Nat.lt_of_not_le hlt))

theorem value_lt_zpow (d : Decimal) : d.value < 10 ^ (d.exponent + d.length) := by
  have hdigits : (d.digits : ℚ) < 10 ^ d.length := by exact_mod_cast d.digits_lt_pow_length
  rw [value, zpow_add₀ (by norm_num), zpow_natCast, mul_comm]
  exact mul_lt_mul_of_pos_left hdigits (by positivity)

theorem zpow_le_value (h : d.digits ≠ 0) : (10 : ℚ) ^ d.exponent ≤ d.value := by
  have hdigits : (1 : ℚ) ≤ d.digits := by exact_mod_cast Nat.one_le_iff_ne_zero.mpr h
  exact le_mul_of_one_le_left (by positivity) hdigits

/-! ## Trimming -/

/-- Zeros at the end of a text are factors of ten of the number that is written. -/
theorem pow_dvd_ofDigitChars (t : Text) :
    10 ^ (t.reverse.takeWhile (· == '0')).length ∣ Nat.ofDigitChars 10 t 0 := by
  have hzeros : t.reverse.takeWhile (· == '0') =
      List.replicate (t.reverse.takeWhile (· == '0')).length '0' := by
    apply List.eq_replicate_of_mem
    intro c hc
    simpa using List.mem_takeWhile_imp hc
  have hsplit : t = (t.reverse.dropWhile (· == '0')).reverse ++
      List.replicate (t.reverse.takeWhile (· == '0')).length '0' := by
    rw [← List.reverse_replicate, ← hzeros, ← List.reverse_append, List.takeWhile_append_dropWhile,
      List.reverse_reverse]
  generalize (t.reverse.takeWhile (· == '0')).length = k at hsplit
  rw [hsplit, Nat.ofDigitChars_append, Nat.ofDigitChars_replicate_zero]
  exact Nat.dvd_mul_right _ _

theorem value_trimZeros (d : Decimal) : d.trimZeros.value = d.value := by
  unfold trimZeros
  split
  next h0 => simp [value, h0]
  next h0 =>
    have hdvd := pow_dvd_ofDigitChars (Text.ofNat d.digits)
    rw [Text.ofNat, Nat.ofDigitChars_ten_toDigits, ← Text.ofNat] at hdvd
    generalize ((Text.ofNat d.digits).reverse.takeWhile (· == '0')).length = k at hdvd
    simp only [value, Nat.pow_eq]
    rw [Nat.cast_div_charZero hdvd, zpow_add₀ (by norm_num), zpow_natCast]
    push_cast
    field_simp

theorem digits_trimZeros_le (d : Decimal) : d.trimZeros.digits ≤ d.digits := by
  unfold trimZeros
  split
  · exact Nat.zero_le _
  · exact Nat.div_le_self _ _

/-! ## Range -/

theorem exponent_le {k : ℤ} (h0 : d.digits ≠ 0) (h : d.value ≤ 10 ^ k) : d.exponent ≤ k :=
  (zpow_le_zpow_iff_right₀ (by norm_num)).mp ((zpow_le_value h0).trans h)

theorem lt_exponent_add_length {k : ℤ} (h : 10 ^ k ≤ d.value) : k < d.exponent + d.length :=
  (zpow_lt_zpow_iff_right₀ (by norm_num)).mp (h.trans_lt d.value_lt_zpow)

theorem digits_ne_zero_of_pos (h : 0 < d.value) : d.digits ≠ 0 := by
  intro h0
  simp [value, h0] at h

theorem clamp_eq_self (hlow : (10 : ℚ) ^ (-400 : ℤ) ≤ d.value) (hhigh : d.value ≤ 10 ^ (400 : ℤ)) :
    d.clamp = d := by
  have h0 : d.digits ≠ 0 := digits_ne_zero_of_pos (lt_of_lt_of_le (by positivity) hlow)
  have hleading := lt_exponent_add_length hlow
  rw [clamp, if_neg h0, if_neg (not_lt.mpr (exponent_le h0 hhigh)), if_neg (not_lt.mpr hleading.le)]

/-- A decimal of moderate size, as are all that name a finite single-precision number other than zero. -/
structure Moderate (d : Decimal) : Prop where
  low : (10 : ℚ) ^ (-60 : ℤ) ≤ d.value
  high : d.value ≤ 10 ^ (60 : ℤ)

namespace Moderate

theorem digits_ne_zero (h : Moderate d) : d.digits ≠ 0 :=
  digits_ne_zero_of_pos (lt_of_lt_of_le (by positivity) h.low)

theorem clamp_eq (h : Moderate d) : d.clamp = d :=
  clamp_eq_self ((zpow_le_zpow_right₀ (by norm_num) (by norm_num)).trans h.low)
    (h.high.trans (zpow_le_zpow_right₀ (by norm_num) (by norm_num)))

end Moderate

end BarcodeField.Decimal
