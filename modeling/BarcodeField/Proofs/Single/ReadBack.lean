import BarcodeField.Proofs.Decimal.Midpoint
import BarcodeField.Proofs.Decimal.Shortest
import BarcodeField.Single.Decimal

/-!
# Decimals that are read as a given number

A single-precision number is read from every decimal that differs from it by less than one part in `2 ^ 25`, which is
room enough for nine digits to name any number. With fewer digits a decimal can be further off, up to a point halfway
to the next number, and only a reader that rounds once is known to have it right. One that goes by way of double
precision errs a little before it rounds; that matters just where a decimal is next to such a point.

**The laws.** A decimal near a number names it to a reader that rounds once (`toSingle_of_within`), and nine digits of
the exact decimal are near enough (`within_nineDigits`). A decimal that names a number to that reader and is a candidate
for the fewest digits also names it by way of double precision (`ofDecimal?_ofDouble_of_beside`), unless it is one of
four.
-/

namespace BarcodeField.Single

variable {negative : Bool} {g : Nat} {d : Decimal} {ε : ℚ}

/-! ## Grains -/

theorem cast_one : ((one : Nat) : ℚ) = 2 ^ 149 := by
  have h : one = 2 ^ 149 := Nat.one_shiftLeft 149
  exact_mod_cast h

theorem cast_one_pos : (0 : ℚ) < (one : Nat) := by
  rw [cast_one]
  positivity

theorem cast_limit : ((limit : Nat) : ℚ) = 2 ^ 128 * (one : Nat) := by
  have h : limit = 2 ^ 128 * one := (Nat.shiftLeft_eq one 128).trans (Nat.mul_comm _ _)
  exact_mod_cast h

/-- Units in a grain are a power of two. Its exponent is left unsaid, lest the power is worked out. -/
theorem exists_unitsPerGrain_eq : ∃ k, unitsPerGrain = 2 * 2 ^ k := ⟨924, by decide +kernel⟩

theorem unitsPerGrain_pos : 0 < unitsPerGrain := by
  obtain ⟨k, hk⟩ := exists_unitsPerGrain_eq
  rw [hk]
  positivity

attribute [local irreducible] one limit unitsPerGrain

theorem ofGrains_eq_finite_iff {num den : Nat} {fits : Fits precision g} {small : g < limit} :
    ofGrains negative num den = .finite negative g fits small ↔ roundBits precision num den = g := by
  unfold ofGrains
  constructor
  · intro h
    split at h
    · exact (Single.finite.injEq ..).mp h |>.2
    · exact absurd h (by simp)
  · rintro rfl
    rw [dif_pos small]

/-! ## One rounding -/

/-- What is half or twice a number other than zero is of moderate size. -/
theorem moderate_of_le (hg : 0 < g) (small : g < limit) (hlow : (g : ℚ) ≤ 2 * (d.value * (one : Nat)))
    (hhigh : d.value * (one : Nat) ≤ 2 * g) : d.Moderate := by
  have hone := cast_one_pos
  have hg' : (1 : ℚ) ≤ g := by exact_mod_cast hg
  have hsmall : (g : ℚ) ≤ (limit : Nat) := by exact_mod_cast small.le
  constructor
  · have hhalf : (1 : ℚ) / 2 ≤ d.value * (one : Nat) := by linarith
    rw [← div_le_iff₀ hone, cast_one] at hhalf
    exact le_trans (by norm_num) hhalf
  · have htwice : d.value * (one : Nat) ≤ 2 * (limit : Nat) := by linarith
    rw [cast_limit, ← mul_assoc, mul_le_mul_iff_of_pos_right hone] at htwice
    exact le_trans htwice (by norm_num)

theorem num_mul_one_div_den (d : Decimal) : ((d.num * one : Nat) : ℚ) / d.den = d.value * (one : Nat) := by
  rw [Nat.cast_mul, mul_div_right_comm, Decimal.num_div_den]

/-- A decimal of moderate size names a number to a reader that rounds once. -/
theorem toSingle_eq_finite_iff (h : d.Moderate) {fits : Fits precision g} {small : g < limit} :
    d.toSingle negative = .finite negative g fits small ↔ roundBits precision (d.num * one) d.den = g := by
  rw [Decimal.toSingle, h.clamp_eq]
  exact ofGrains_eq_finite_iff

theorem toSingle_of_within (fits : Fits precision g) (small : g < limit) (hg : 0 < g) (hε : ε < 1 / 2 ^ 25)
    (h : Within ε (d.value * (one : Nat)) g) : d.toSingle negative = .finite negative g fits small := by
  have hg' : (0 : ℚ) < g := by exact_mod_cast hg
  have hnear : |d.value * (one : Nat) - g| < g / 2 ^ (precision + 1) := by
    refine lt_of_le_of_lt h ?_
    rw [div_eq_mul_one_div, mul_comm]
    exact mul_lt_mul_of_pos_left hε hg'
  have hhalf : (g : ℚ) / 2 ^ (precision + 1) ≤ g / 2 := by gcongr; norm_num
  have hbounds := abs_lt.mp hnear
  rw [toSingle_eq_finite_iff (moderate_of_le hg small (by linarith) (by linarith))]
  rw [← num_mul_one_div_den] at hnear
  exact roundBits_eq_of_near d.den_pos fits hnear (by decide)

/-! ## Nine digits -/

theorem value_exactDecimal (g : Nat) : (exactDecimal g).value * (one : Nat) = g := by
  rw [cast_one, Decimal.value, exactDecimal]
  push_cast
  rw [mul_assoc, mul_assoc]
  norm_num

/-- Nine digits that name a number of grains. -/
def nineDigits (g : Nat) : Decimal := (exactDecimal g).cutOff 9

theorem nine_le_length (hg : 0 < g) : 9 ≤ (exactDecimal g).length := by
  by_contra hshort
  have hdigits : g * 5 ^ 149 < 10 ^ 8 := calc
    g * 5 ^ 149 < 10 ^ (exactDecimal g).length := (exactDecimal g).digits_lt_pow_length
    _ ≤ 10 ^ 8 := Nat.pow_le_pow_right (by decide) (by omega)
  have hfive : 10 ^ 8 ≤ 5 ^ 149 := by norm_num
  exact absurd (Nat.le_mul_of_pos_left (5 ^ 149) hg) (by omega)

theorem exactDecimal_digits_ne_zero (hg : 0 < g) : (exactDecimal g).digits ≠ 0 :=
  Nat.mul_ne_zero hg.ne' (Nat.pow_pos (n := 149) (Nat.succ_pos 4)).ne'

theorem within_nineDigits (hg : 0 < g) : Within (1 / 10 ^ 8) ((nineDigits g).value * (one : Nat)) g := by
  obtain ⟨m, k, hbeside⟩ := Decimal.exists_beside (by decide) (nine_le_length hg) (exactDecimal_digits_ne_zero hg)
    (Decimal.cutOff_mem_neighbours .even 9 _)
  have hwithin := hbeside.within.mul_right (Nat.cast_nonneg one)
  rwa [value_exactDecimal] at hwithin

/-! ## By way of double precision -/

theorem grains_ofDouble (v : ℚ) : v * (Double.one : Nat) / (unitsPerGrain : Nat) = v * (one : Nat) := by
  have hunits : ((unitsPerGrain : Nat) : ℚ) ≠ 0 := by exact_mod_cast unitsPerGrain_pos.ne'
  rw [← one_mul_unitsPerGrain, Nat.cast_mul, ← mul_assoc, mul_div_cancel_right₀ _ hunits]

/-- Where two readers disagree there is a midpoint as near to the decimal as they are to one another. -/
theorem exists_midpoint_of_ne {units : Nat} (hround : roundBits precision (d.num * one) d.den = g)
    (hunits : Within (1 / Double.parts) units (d.value * (Double.one : Nat)))
    (hne : roundBits precision units unitsPerGrain ≠ g) :
    ∃ n j : Nat, n < 2 ^ 25 ∧ Within (1 / Double.parts) (n * 2 ^ (j - 150 : ℤ)) d.value ∧
      (2 : ℚ) ^ (j - 150 : ℤ) ≤ |(exactDecimal g).value - n * 2 ^ (j - 150 : ℤ)| := by
  rw [← hround] at hne
  obtain ⟨n, j, hn, hbetween, hfar⟩ := exists_midpoint (by decide) d.den_pos unitsPerGrain_pos hne
  have hone := cast_one_pos
  have hgrains := hunits.mul_right (inv_nonneg.mpr (Nat.cast_nonneg unitsPerGrain))
  rw [← div_eq_mul_inv, ← div_eq_mul_inv, grains_ofDouble] at hgrains
  rw [num_mul_one_div_den] at hbetween
  have hnear : Within (1 / Double.parts) (n * 2 ^ j / 2) (d.value * (one : Nat)) := hbetween.trans hgrains
  have hhalf (x : ℚ) : x * 2 ^ (j - 150 : ℤ) * (one : Nat) = x * 2 ^ j / 2 := by
    rw [cast_one, zpow_sub₀ (by norm_num), zpow_natCast]
    norm_num
    ring
  refine ⟨n, j, hn, ?_, ?_⟩
  · have hscaled := hnear.mul_right (inv_nonneg.mpr hone.le)
    rwa [← hhalf, mul_inv_cancel_right₀ hone.ne', mul_inv_cancel_right₀ hone.ne'] at hscaled
  · refine le_of_mul_le_mul_right ?_ hone
    rw [hround, ← value_exactDecimal g, ← hhalf, ← sub_mul, abs_mul, abs_of_pos hone] at hfar
    have hunit := hhalf 1
    rw [one_mul, one_mul] at hunit
    rwa [hunit]

/-- A midpoint itself is read exactly, and then rounded as it is. -/
theorem ofDecimal?_of_eq_midpoint {r : Decimal} {n j units : Nat} (hn : n < 2 ^ 25)
    (hmid : (n : ℚ) * 2 ^ (j - 150 : ℤ) = r.value) (h0 : r.digits ≠ 0) (hdigits : r.digits < 2 ^ Double.precision)
    (hexponent : r.exponent.natAbs ≤ 22) (hread : Double.ofDecimal? r = some units) :
    (units : ℚ) / (unitsPerGrain : Nat) = r.value * (one : Nat) := by
  obtain ⟨p, hp⟩ := exists_unitsPerGrain_eq
  have hfits : Fits Double.precision (n * 2 ^ (j + p)) := by
    rw [← Nat.shiftLeft_eq]
    apply fits_shiftLeft _ (by decide)
    rw [Nat.one_shiftLeft]
    exact hn.le.trans (by decide)
  have hvalue : r.value * (Double.one : Nat) = (n * 2 ^ (j + p) : Nat) := by
    rw [← hmid, ← one_mul_unitsPerGrain, hp, Nat.cast_mul, cast_one, zpow_sub₀ (by norm_num), zpow_natCast]
    push_cast
    norm_num
    ring
  have hexact := Double.ofDecimal?_of_fits h0 hdigits hexponent hfits hvalue
  rw [hread, Option.some.injEq] at hexact
  rw [hexact, ← hvalue, grains_ofDouble]

/-- **A candidate for the fewest digits is read by way of double precision as it is by rounding once.** The reader may
have been given it in another form, with a zero behind the point. -/
theorem ofDecimal?_ofDouble_of_beside {r : Decimal} {count m : Nat} {k : ℤ} (fits : Fits precision g)
    (small : g < limit) (hg : 0 < g) (hcount : count ≤ 9)
    (hbeside : Decimal.Beside count d (exactDecimal g) m k) (hclose : d ∉ Decimal.closeDecimals)
    (hsingle : d.toSingle negative = .finite negative g fits small) (hvalue : r.value = d.value)
    (hdigits : r.digits < 2 ^ Double.precision) (hexponent : r.exponent = d.exponent ∨ r.exponent = -1) :
    (Double.ofDecimal? r).map (ofDouble negative) = some (.finite negative g fits small) := by
  have hone := cast_one_pos
  obtain ⟨hhigh, hlow⟩ := hbeside.le_two_mul
  have hhigh' := mul_le_mul_of_nonneg_right hhigh hone.le
  have hlow' := mul_le_mul_of_nonneg_right hlow hone.le
  rw [mul_assoc, value_exactDecimal] at hhigh' hlow'
  have hmoderate : d.Moderate := moderate_of_le hg small (by linarith) hhigh'
  have hmoderate' : r.Moderate := ⟨hvalue ▸ hmoderate.low, hvalue ▸ hmoderate.high⟩
  have hround := (toSingle_eq_finite_iff hmoderate).mp hsingle
  obtain ⟨units, hread, herror⟩ := Double.ofDecimal?_within hdigits hmoderate'
  rw [hvalue] at herror
  rw [hread, Option.map_some, Option.some.injEq, ofDouble, ofGrains_eq_finite_iff]
  by_contra hne
  obtain ⟨n, j, hn, hnear, hfar⟩ := exists_midpoint_of_ne hround herror hne
  have hle : d.digits ≤ n := by
    refine hbeside.digits_le.trans ?_
    have hplace := hbeside.near
    rw [hbeside.value_eq] at hplace hnear
    exact Decimal.digits_le_of_beside (by positivity)
      (hbeside.le.trans (Nat.pow_le_pow_right (by decide) hcount)) hn hplace hfar hnear
  have hupper : d.value < 10 ^ 39 := by
    have hsmall : (g : ℚ) < (limit : Nat) := by exact_mod_cast small
    have htwice : d.value * (one : Nat) < 2 * 2 ^ 128 * (one : Nat) := by
      rw [cast_limit] at hsmall
      linarith
    exact (lt_of_mul_lt_mul_right htwice hone.le).trans (by norm_num)
  rcases Decimal.eq_or_mem_closeDecimals hmoderate.digits_ne_zero hle hn (by omega) hupper hnear with
    ⟨hmid, hpower⟩ | hmem
  · have hexact := ofDecimal?_of_eq_midpoint hn (hmid.trans hvalue.symm) hmoderate'.digits_ne_zero hdigits
      (by omega) hread
    rw [hvalue, ← num_mul_one_div_den] at hexact
    exact hne ((roundBits_congr unitsPerGrain_pos d.den_pos hexact).trans hround)
  · exact hclose hmem

end BarcodeField.Single
