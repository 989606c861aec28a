import BarcodeField.Double
import BarcodeField.Proofs.Decimal.Value
import BarcodeField.Proofs.Rounding.Within

/-!
# How far a decimal is misread in double precision

The reader of double precision rounds the power of ten and then the product or the quotient, so that it need not
return the nearest double. It never errs by much.

**The law** (`ofDecimal?_within`): a decimal of moderate size whose digits are no more than a double holds is
read as a number that differs from it by one part in `2 ^ 52 - 1` at most.
-/

namespace BarcodeField.Double

variable {n k : Nat} {d : Decimal}

/-! ## Whole numbers and powers of ten -/

/-- The units in the number one are a power of two, and a large one. Its exponent is left unsaid, lest the power
is worked out. -/
theorem exists_one_eq : ∃ k, 1000 ≤ k ∧ one = 2 ^ k := ⟨1074, by decide, by decide +kernel⟩

theorem two_pow_le_one (h : k ≤ 1000) : 2 ^ k ≤ one := by
  obtain ⟨m, hm, hone⟩ := exists_one_eq
  rw [hone]
  exact Nat.pow_le_pow_right (by decide) (h.trans hm)

theorem one_pos : 0 < one := two_pow_le_one (Nat.zero_le _)

theorem two_pow_mul_one_lt_limit : 2 ^ 254 * one < limit := calc
  2 ^ 254 * one < 2 ^ 1024 * one := Nat.mul_lt_mul_of_pos_right (Nat.pow_lt_pow_right (by decide) (by decide)) one_pos
  _ = limit := (Nat.mul_comm _ _).trans (Nat.shiftLeft_eq _ _).symm

attribute [local irreducible] one limit

/-- A whole number that a double holds but for powers of two is not changed. -/
theorem ofNat_mul_two_pow (h : n < 2 ^ precision) (k : Nat) : ofNat (n * 2 ^ k) = n * 2 ^ k * one := by
  have hfits : Fits precision (n * 2 ^ k * one) := by
    obtain ⟨m, _, hone⟩ := exists_one_eq
    rw [hone, Nat.mul_assoc, ← Nat.pow_add, ← Nat.shiftLeft_eq]
    apply fits_shiftLeft _ (by decide)
    rw [Nat.one_shiftLeft]
    exact h.le
  have hround := roundBits_of_fits (by decide) Nat.one_pos hfits
  rwa [Nat.mul_one] at hround

theorem ofNat_of_lt (h : n < 2 ^ precision) : ofNat n = n * one := by
  simpa using ofNat_mul_two_pow h 0

/-- The powers of ten up to the twenty-second are doubles. -/
theorem tenPow_of_le (h : k ≤ 22) : tenPow k = 10 ^ k * one := by
  have hfive : 5 ^ k < 2 ^ precision := lt_of_le_of_lt (Nat.pow_le_pow_right (by decide) h) (by decide)
  have hten : 10 ^ k = 5 ^ k * 2 ^ k := by rw [← Nat.mul_pow]
  rw [tenPow, Nat.pow_eq, hten]
  exact ofNat_mul_two_pow hfive k

theorem within_tenPow (k : Nat) : Within (1 / 2 ^ precision) (tenPow k) (10 ^ k * (one : Nat)) := by
  have hlarge : 2 ^ precision * 1 ≤ Nat.pow 10 k * one := by
    rw [Nat.mul_one, Nat.pow_eq]
    exact Nat.le_trans (two_pow_le_one (by decide)) (Nat.le_mul_of_pos_left _ (by positivity))
  have hround := within_roundBits Nat.one_pos hlarge
  rw [Nat.cast_one, div_one, Nat.cast_mul, Nat.pow_eq, Nat.cast_pow, Nat.cast_ofNat] at hround
  exact hround

theorem tenPow_le (k : Nat) : (tenPow k : ℚ) ≤ 2 * (10 ^ k * (one : Nat)) := by
  refine (within_tenPow k).upper.trans (mul_le_mul_of_nonneg_right ?_ (by positivity))
  norm_num

theorem le_tenPow (k : Nat) : (10 : ℚ) ^ k * (one : Nat) ≤ 2 * tenPow k := by
  have hlow := (within_tenPow k).lower
  have hpos : (0 : ℚ) ≤ 10 ^ k * (one : Nat) := by positivity
  norm_num at hlow
  linarith

/-! ## Quotients and products -/

/-- Of so many parts of a number one at most is misread. -/
def parts : Nat := 2 ^ 52 - 1

theorem cast_parts : (parts : ℚ) = 2 ^ 52 - 1 := by norm_num [parts]

/-- A number that is not small has many units. -/
theorem two_pow_le_mul_one {v : ℚ} (h : (10 : ℚ) ^ (-60 : ℤ) ≤ v) : (2 : ℚ) ^ 54 ≤ v * (one : Nat) := by
  have hone : ((2 ^ 254 : Nat) : ℚ) ≤ (one : Nat) := by exact_mod_cast two_pow_le_one (by decide)
  have hten : (2 : ℚ) ^ 54 ≤ 10 ^ (-60 : ℤ) * (2 ^ 254 : Nat) := by norm_num
  refine hten.trans (mul_le_mul h hone (by positivity) ?_)
  exact le_trans (by positivity) h

/-- A whole number divided by a power of ten, in double precision. -/
theorem within_div_tenPow (h : (10 : ℚ) ^ (-60 : ℤ) ≤ n / 10 ^ k) :
    Within (1 / parts) (div (n * one) (tenPow k)) (n / 10 ^ k * (one : Nat)) := by
  have hone : (0 : ℚ) < (one : Nat) := by exact_mod_cast one_pos
  have hpow : (0 : ℚ) < tenPow k := by
    have hpos : (0 : ℚ) < 10 ^ k * (one : Nat) := by positivity
    linarith [le_tenPow k]
  have hlarge : 2 ^ precision * tenPow k ≤ n * one * one := by
    have hunits : (2 : ℚ) ^ 54 * 10 ^ k ≤ n * (one : Nat) := by
      have hunits := two_pow_le_mul_one h
      rwa [div_mul_eq_mul_div, le_div_iff₀ (by positivity)] at hunits
    have hlarge' : (2 : ℚ) ^ 53 * tenPow k ≤ n * (one : Nat) * (one : Nat) := calc
      (2 : ℚ) ^ 53 * tenPow k ≤ 2 ^ 54 * 10 ^ k * ((one : Nat) : ℚ) := by linarith [tenPow_le k]
      _ ≤ n * ((one : Nat) : ℚ) * ((one : Nat) : ℚ) := mul_le_mul_of_nonneg_right hunits hone.le
    exact_mod_cast hlarge'
  have hround := within_roundBits (by exact_mod_cast hpow) hlarge
  have hquot := (within_tenPow k).div_left (by positivity) (by norm_num)
    (by positivity : (0 : ℚ) ≤ n * (one : Nat) * (one : Nat))
  have hvalue : (n : ℚ) * (one : Nat) * (one : Nat) / (10 ^ k * (one : Nat)) = n / 10 ^ k * (one : Nat) := by
    field_simp
  rw [hvalue] at hquot
  push_cast at hround
  refine (hround.trans hquot (by norm_num)).mono ?_ (by positivity)
  norm_num [cast_parts]

/-- A whole number times a power of ten, in double precision. -/
theorem within_mul_tenPow (hn : 0 < n) :
    Within (1 / parts) (mul (n * one) (tenPow k)) (n * 10 ^ k * (one : Nat)) := by
  have hone : (0 : ℚ) < (one : Nat) := by exact_mod_cast one_pos
  have hlarge : 2 ^ precision * one ≤ n * one * tenPow k := by
    have hunits : 2 ^ precision ≤ tenPow k := by
      have hmany : ((2 ^ 54 : Nat) : ℚ) ≤ (one : Nat) := by exact_mod_cast two_pow_le_one (by decide)
      have hten : ((one : Nat) : ℚ) ≤ 10 ^ k * (one : Nat) :=
        le_mul_of_one_le_left hone.le (one_le_pow₀ (by norm_num))
      have hunits' : (2 : ℚ) ^ 53 ≤ tenPow k := by
        push_cast at hmany
        linarith [le_tenPow k]
      exact_mod_cast hunits'
    rw [Nat.mul_right_comm]
    exact Nat.mul_le_mul_right _ (hunits.trans (Nat.le_mul_of_pos_left _ hn))
  have hround := within_roundBits one_pos hlarge
  have hvalue : ((n * one * tenPow k : Nat) : ℚ) / (one : Nat) = tenPow k * n := by
    push_cast
    field_simp
  have hprod := (within_tenPow k).mul_right (by positivity : (0 : ℚ) ≤ n)
  rw [hvalue] at hround
  rw [mul_comm (n : ℚ), mul_right_comm]
  refine (hround.trans hprod (by norm_num)).mono ?_ (by positivity)
  norm_num [cast_parts]

/-! ## The reader -/

theorem length_le_of_lt (h : d.digits < 2 ^ precision) : d.length ≤ 16 :=
  (Nat.length_toDigits_le_iff (by decide) (by decide)).mpr (h.trans (by decide))

theorem shrink_of_le {a : Nat} (h : k ≤ topPower) : shrink a k = div a (tenPow k) := by
  rw [shrink, if_pos h]

theorem grow?_of_lt {a : Nat} (ha : a ≠ 0) (hk : k ≤ topPower) (h : mul a (tenPow k) < limit) :
    grow? a k = some (mul a (tenPow k)) := by
  rw [grow?, if_neg ha, if_neg (Nat.not_lt.mpr hk)]
  exact if_pos h

/-- Below one place, digits that a double holds are divided by a power of ten. -/
theorem ofDecimal?_of_neg (hdigits : d.digits < 2 ^ precision) (hneg : d.exponent < 0) (hk : d.exponent = -k)
    (hle : k ≤ topPower) : ofDecimal? d = some (div (d.digits * one) (tenPow k)) := by
  have hpower : (-d.exponent).toNat = k := by omega
  rw [ofDecimal?, if_pos hneg, ofNat_of_lt hdigits, hpower, shrink_of_le hle]

/-- From one place up they are multiplied by it, if the product is a double. -/
theorem ofDecimal?_of_nonneg (hdigits : d.digits < 2 ^ precision) (h0 : d.digits ≠ 0) (hk : d.exponent = k)
    (hle : k ≤ topPower) (hsmall : mul (d.digits * one) (tenPow k) < limit) :
    ofDecimal? d = some (mul (d.digits * one) (tenPow k)) := by
  have hnonneg : ¬ d.exponent < 0 := by omega
  have hpower : d.exponent.toNat = k := by omega
  have hne : d.digits * one ≠ 0 := Nat.mul_ne_zero h0 one_pos.ne'
  rw [ofDecimal?, if_neg hnonneg, ofNat_of_lt hdigits, hpower, grow?_of_lt hne hle hsmall]

/-- A decimal of moderate size with digits that a double holds is read, and read almost as it is. -/
theorem ofDecimal?_within (hdigits : d.digits < 2 ^ precision) (h : d.Moderate) :
    ∃ units, ofDecimal? d = some units ∧ Within (1 / parts) units (d.value * (one : Nat)) := by
  have hexponent : d.exponent ≤ 60 := Decimal.exponent_le h.digits_ne_zero h.high
  have hleading : -60 < d.exponent + d.length := Decimal.lt_exponent_add_length h.low
  have hlength := length_le_of_lt hdigits
  rcases lt_or_ge d.exponent 0 with hneg | hnonneg
  · obtain ⟨k, hk⟩ := Int.exists_eq_neg_ofNat hneg.le
    have hvalue : d.value = d.digits / 10 ^ k := by
      rw [Decimal.value, hk, zpow_neg, zpow_natCast, div_eq_mul_inv]
    have hlow := h.low
    rw [hvalue] at hlow ⊢
    exact ⟨_, ofDecimal?_of_neg hdigits hneg hk (by rw [topPower]; omega), within_div_tenPow hlow⟩
  · obtain ⟨k, hk⟩ := Int.eq_ofNat_of_zero_le hnonneg
    have hvalue : d.value = d.digits * 10 ^ k := by
      rw [Decimal.value, hk, zpow_natCast]
    have hhigh := h.high
    rw [hvalue] at hhigh ⊢
    have hwithin := within_mul_tenPow (k := k) (Nat.pos_of_ne_zero h.digits_ne_zero)
    have hsmall : mul (d.digits * one) (tenPow k) < limit := by
      have hupper : (mul (d.digits * one) (tenPow k) : ℚ) ≤ ((2 ^ 254 * one : Nat) : ℚ) := by
        refine hwithin.upper.trans ?_
        push_cast
        rw [← mul_assoc]
        refine mul_le_mul_of_nonneg_right ?_ (Nat.cast_nonneg _)
        refine (mul_le_mul_of_nonneg_left hhigh (by positivity)).trans ?_
        norm_num [cast_parts]
      exact lt_of_le_of_lt (by exact_mod_cast hupper) two_pow_mul_one_lt_limit
    exact ⟨_, ofDecimal?_of_nonneg hdigits h.digits_ne_zero hk (by rw [topPower]; omega) hsmall, hwithin⟩

/-- A decimal that is a double, with digits and a power of ten that are doubles as well, is read as itself. -/
theorem ofDecimal?_of_fits {units : Nat} (h0 : d.digits ≠ 0) (hdigits : d.digits < 2 ^ precision)
    (hexponent : d.exponent.natAbs ≤ 22) (hfits : Fits precision units)
    (hvalue : d.value * (one : Nat) = units) : ofDecimal? d = some units := by
  rcases lt_or_ge d.exponent 0 with hneg | hnonneg
  · obtain ⟨k, hk⟩ := Int.exists_eq_neg_ofNat hneg.le
    have hsame : d.digits * one = units * 10 ^ k := by
      rw [Decimal.value, hk, zpow_neg, zpow_natCast, ← div_eq_mul_inv, div_mul_eq_mul_div,
        div_eq_iff (by positivity)] at hvalue
      exact_mod_cast hvalue
    have hpos : 0 < 10 ^ k * one := Nat.mul_pos (by positivity) one_pos
    rw [ofDecimal?_of_neg hdigits hneg hk (by rw [topPower]; omega), tenPow_of_le (by omega), div, hsame,
      Nat.mul_assoc, roundBits_of_fits (by decide) hpos hfits]
  · obtain ⟨k, hk⟩ := Int.eq_ofNat_of_zero_le hnonneg
    have hsame : d.digits * 10 ^ k * one = units := by
      rw [Decimal.value, hk, zpow_natCast] at hvalue
      exact_mod_cast hvalue
    have hproduct : mul (d.digits * one) (tenPow k) = units := by
      rw [tenPow_of_le (by omega), mul, Nat.mul_mul_mul_comm, ← Nat.mul_assoc, hsame]
      exact roundBits_of_fits (by decide) one_pos hfits
    have hsmall : units < limit := by
      have hten : 10 ^ k ≤ 10 ^ 22 := Nat.pow_le_pow_right (by decide) (by omega)
      refine lt_of_le_of_lt ?_ two_pow_mul_one_lt_limit
      rw [← hsame]
      exact Nat.mul_le_mul_right _ ((Nat.mul_le_mul hdigits.le hten).trans (by norm_num))
    rw [ofDecimal?_of_nonneg hdigits h0 hk (by rw [topPower]; omega) (hproduct ▸ hsmall), hproduct]

/-- A whole number that a double holds is read. -/
theorem exists_ofDecimal?_whole (h : n < 2 ^ precision) : ∃ units, ofDecimal? ⟨n, 0⟩ = some units := by
  rcases Nat.eq_zero_or_pos n with rfl | hpos
  · exact Option.isSome_iff_exists.mp (by decide +kernel)
  · have hvalue : Decimal.value ⟨n, 0⟩ = n := by simp [Decimal.value]
    have hlow : (1 : ℚ) ≤ n := by exact_mod_cast hpos
    have hhigh : (n : ℚ) ≤ 2 ^ precision := by exact_mod_cast h.le
    rw [← hvalue] at hlow hhigh
    have hmoderate : Decimal.Moderate ⟨n, 0⟩ :=
      ⟨le_trans (by norm_num) hlow, hhigh.trans (by norm_num [precision])⟩
    obtain ⟨units, hread, _⟩ := ofDecimal?_within h hmoderate
    exact ⟨units, hread⟩

end BarcodeField.Double
