import BarcodeField.Rounding
import Mathlib.Algebra.Order.Field.Basic
import Mathlib.Data.Rat.Cast.Order
import Mathlib.Tactic.FieldSimp
import Mathlib.Tactic.Linarith
import Mathlib.Tactic.Positivity
import Mathlib.Tactic.Ring

/-!
# How far rounding goes

A quotient is rounded to a multiple of a unit, and the unit follows from the quotient's own size. Two things
are to be known of it: how far the result may lie from the quotient, and how near a quotient must lie to a
number that fits for that number to be the result.

**The laws.** The result errs by at most one part in `2 ^ bits` (`abs_roundBits_sub_le`), unless the quotient
has fewer whole bits than that. A quotient nearer than one part in `2 ^ (bits + 1)` to a number that fits is
rounded to it (`roundBits_eq_of_near`), and no number that fits is nearer to a quotient than what it is rounded to
(`abs_roundBits_sub_le_of_fits`); so between quotients with different results lies a point halfway between two such
numbers (`exists_midpoint`). Nothing is left just of quotients up to one half (`roundBits_eq_zero_iff`).
-/

namespace BarcodeField

variable {bits unit num den g : Nat}

/-! ## Multiples of a unit -/

/-- The nearest multiple is off by half a unit at most. The bounds are multiplied by the divisor, to be bounds
of naturals. -/
theorem nearestMultiple_bounds (num : Nat) (hunit : 0 < unit) (hden : 0 < den) :
    2 * num ≤ 2 * (nearestMultiple unit num den * den) + unit * den ∧
      2 * (nearestMultiple unit num den * den) ≤ 2 * num + unit * den := by
  have hdiv : unit * den * (num / (unit * den)) + num % (unit * den) = num := Nat.div_add_mod _ _
  have hrest : num % (unit * den) < unit * den := Nat.mod_lt _ (Nat.mul_pos hunit hden)
  simp only [nearestMultiple]
  split
  · have hmul : num / (unit * den) * unit * den = unit * den * (num / (unit * den)) := by
      rw [Nat.mul_assoc, Nat.mul_comm]
    omega
  · have hmul : (num / (unit * den) + 1) * unit * den = unit * den * (num / (unit * den)) + unit * den := by
      rw [Nat.mul_assoc, Nat.mul_comm, Nat.mul_succ]
    omega

theorem abs_nearestMultiple_sub_le (num : Nat) (hunit : 0 < unit) (hden : 0 < den) :
    |(nearestMultiple unit num den : ℚ) - num / den| ≤ unit / 2 := by
  obtain ⟨hlow, hhigh⟩ := nearestMultiple_bounds num hunit hden
  have hden' : (0 : ℚ) < den := by exact_mod_cast hden
  have hlow' : 2 * (num : ℚ) ≤ 2 * (nearestMultiple unit num den * den) + unit * den := by
    exact_mod_cast hlow
  have hhigh' : 2 * ((nearestMultiple unit num den : ℚ) * den) ≤ 2 * num + unit * den := by
    exact_mod_cast hhigh
  rw [abs_le]
  constructor
  · rw [neg_le_sub_iff_le_add, div_le_iff₀ hden']
    linarith
  · rw [sub_le_iff_le_add, ← sub_le_iff_le_add', le_div_iff₀ hden']
    linarith

/-- A quotient nearer than half a unit to a multiple is rounded to it. -/
theorem nearestMultiple_eq_of_near {c : Nat} (hunit : 0 < unit) (hden : 0 < den)
    (h : |(num : ℚ) / den - c * unit| < unit / 2) : nearestMultiple unit num den = c * unit := by
  obtain ⟨k, hk⟩ : ∃ k, nearestMultiple unit num den = k * unit :=
    (nearestMultiple_cases unit num den).elim (⟨_, ·⟩) (⟨_, ·⟩)
  have hnear := abs_nearestMultiple_sub_le num hunit hden
  have hunit' : (0 : ℚ) < unit := by exact_mod_cast hunit
  have hk' : (nearestMultiple unit num den : ℚ) = k * unit := by exact_mod_cast hk
  rw [hk', abs_le] at hnear
  rw [abs_lt] at h
  -- two multiples less than one unit apart are the same
  have hlt : (k : ℚ) < c + 1 := by
    by_contra hge
    nlinarith [not_lt.mp hge]
  have hgt : (c : ℚ) < k + 1 := by
    by_contra hge
    nlinarith [not_lt.mp hge]
  have hkc : k < c + 1 := by exact_mod_cast hlt
  have hck : c < k + 1 := by exact_mod_cast hgt
  rw [hk, Nat.le_antisymm (Nat.le_of_lt_succ hkc) (Nat.le_of_lt_succ hck)]

/-! ## The unit of a quotient -/

/-- The unit to whose multiples a quotient is rounded, for so many significant bits. -/
def roundUnit (bits num den : Nat) : Nat := 2 ^ ((num / den).log2 + 1 - bits)

theorem roundBits_eq_nearestMultiple (bits num den : Nat) :
    roundBits bits num den = nearestMultiple (roundUnit bits num den) num den := by
  rw [roundBits, Nat.one_shiftLeft, roundUnit]

theorem roundUnit_pos (bits num den : Nat) : 0 < roundUnit bits num den := Nat.two_pow_pos _

theorem div_lt_roundUnit (bits num : Nat) (hden : 0 < den) :
    (num : ℚ) / den < roundUnit bits num den * 2 ^ bits := by
  have hlt : num / den < roundUnit bits num den * 2 ^ bits := by
    rw [roundUnit, ← Nat.pow_add]
    exact Nat.lt_of_lt_of_le Nat.lt_log2_self (Nat.pow_le_pow_right (by decide) (by omega))
  rw [Nat.div_lt_iff_lt_mul hden] at hlt
  rw [div_lt_iff₀ (by exact_mod_cast hden)]
  exact_mod_cast hlt

theorem two_pow_log2_le_div (hden : 0 < den) (h : num / den ≠ 0) :
    (2 : ℚ) ^ (num / den).log2 ≤ num / den := by
  have hself : 2 ^ (num / den).log2 ≤ num / den := Nat.log2_self_le h
  rw [Nat.le_div_iff_mul_le hden] at hself
  rw [le_div_iff₀ (by exact_mod_cast hden)]
  exact_mod_cast hself

/-- A quotient with so many whole bits is at least as large as its unit asks. -/
theorem roundUnit_le (hden : 0 < den) (h : 2 ^ bits * den ≤ num) :
    (roundUnit bits num den : ℚ) * 2 ^ bits ≤ 2 * (num / den) := by
  have hle : 2 ^ bits ≤ num / den := (Nat.le_div_iff_mul_le hden).mpr h
  have hne : num / den ≠ 0 := Nat.ne_of_gt (Nat.lt_of_lt_of_le (Nat.two_pow_pos bits) hle)
  have hlog : bits ≤ (num / den).log2 := (Nat.le_log2 hne).mpr hle
  have hunit : roundUnit bits num den * 2 ^ bits = 2 ^ (num / den).log2 * 2 := by
    rw [roundUnit, ← Nat.pow_add, ← Nat.pow_succ]
    congr 1
    omega
  have hunit' : (roundUnit bits num den : ℚ) * 2 ^ bits = 2 ^ (num / den).log2 * 2 := by
    exact_mod_cast hunit
  have hself := two_pow_log2_le_div hden hne
  linarith

/-! ## The quotient alone matters -/

theorem nearestMultiple_mul_right (unit num den : Nat) {c : Nat} (hc : 0 < c) :
    nearestMultiple unit (num * c) (den * c) = nearestMultiple unit num den := by
  have hlt (a b : Nat) : 2 * (a * c) < b * c ↔ 2 * a < b := by
    rw [← Nat.mul_assoc, Nat.mul_lt_mul_right hc]
  have heq (a b : Nat) : 2 * (a * c) = b * c ↔ 2 * a = b := by
    rw [← Nat.mul_assoc, Nat.mul_left_inj hc.ne']
  simp only [nearestMultiple, ← Nat.mul_assoc unit, Nat.mul_div_mul_right _ _ hc, Nat.mul_mod_mul_right, hlt, heq]

theorem roundBits_congr {num' den' : Nat} (hden : 0 < den) (hden' : 0 < den')
    (h : (num : ℚ) / den = num' / den') : roundBits bits num den = roundBits bits num' den' := by
  have scale (n d : Nat) {c : Nat} (hc : 0 < c) : roundBits bits (n * c) (d * c) = roundBits bits n d := by
    rw [roundBits, roundBits, Nat.mul_div_mul_right _ _ hc, nearestMultiple_mul_right _ _ _ hc]
  have hcross : num * den' = num' * den := by
    rw [div_eq_div_iff (by positivity) (by positivity)] at h
    exact_mod_cast h
  rw [← scale num den hden', ← scale num' den' hden, hcross, Nat.mul_comm den]

/-! ## Errors -/

/-- The error of rounding is one part in `2 ^ bits` at most, where the quotient has so many whole bits. -/
theorem abs_roundBits_sub_le (hden : 0 < den) (h : 2 ^ bits * den ≤ num) :
    |(roundBits bits num den : ℚ) - num / den| ≤ num / den / 2 ^ bits := by
  rw [roundBits_eq_nearestMultiple]
  refine (abs_nearestMultiple_sub_le num (roundUnit_pos bits num den) hden).trans ?_
  rw [le_div_iff₀ (by positivity)]
  linarith [roundUnit_le hden h]

/-- A multiple below another one leaves room for the divisor between them. -/
theorem add_le_of_dvd_of_lt {a b d : Nat} (ha : d ∣ a) (hb : d ∣ b) (h : a < b) : a + d ≤ b := by
  have hle : d ≤ b - a := Nat.le_of_dvd (Nat.sub_pos_of_lt h) (Nat.dvd_sub hb ha)
  omega

section Near

variable (hden : 0 < den) (hg : Fits bits g) (h : |(num : ℚ) / den - g| < g / 2 ^ (bits + 1))
include hden hg h

/-- A quotient near a number that fits does not reach the next power of two above it, so its unit divides
the number. -/
theorem roundUnit_dvd_of_near : roundUnit bits num den ∣ g := by
  rw [Fits, Nat.one_shiftLeft] at hg
  refine Nat.dvd_trans (Nat.pow_dvd_pow 2 ?_) hg
  by_contra hlt
  have hne : num / den ≠ 0 := by
    intro h0
    simp [h0] at hlt
    omega
  have hpow : (2 : ℚ) ^ (g.log2 + 1) ≤ num / den :=
    (pow_le_pow_right₀ (by norm_num) (by omega)).trans (two_pow_log2_le_div hden hne)
  have hgap : ((g + 2 ^ (g.log2 + 1 - bits) : Nat) : ℚ) ≤ (2 ^ (g.log2 + 1) : Nat) := by
    exact_mod_cast add_le_of_dvd_of_lt hg (Nat.pow_dvd_pow 2 (by omega)) Nat.lt_log2_self
  have hunit : (2 : ℚ) ^ (g.log2 + 1) ≤ 2 ^ (g.log2 + 1 - bits) * 2 ^ bits := by
    rw [← pow_add]
    exact pow_le_pow_right₀ (by norm_num) (by omega)
  have hhigh := (abs_lt.mp h).2
  rw [lt_div_iff₀ (by positivity), pow_succ] at hhigh
  push_cast at hgap
  have hstep : (2 : ℚ) ^ (g.log2 + 1 - bits) * 2 ^ bits ≤ (num / den - g) * 2 ^ bits :=
    mul_le_mul_of_nonneg_right (by linarith) (by positivity)
  have hpos : (0 : ℚ) < 2 ^ (g.log2 + 1 - bits) := by positivity
  linarith

/-- Nor does the number have more bits above that unit than the quotient has. -/
theorem le_roundUnit_of_near (hbits : 0 < bits) : g ≤ roundUnit bits num den * 2 ^ bits := by
  rw [Fits, Nat.one_shiftLeft] at hg
  by_contra hgt
  have hgt' : 2 ^ ((num / den).log2 + 1 - bits + bits) < g := by
    rw [Nat.pow_add]
    exact Nat.lt_of_not_le hgt
  have hlog : (num / den).log2 + 1 - bits + bits ≤ g.log2 :=
    (Nat.le_log2 (Nat.ne_of_gt (Nat.zero_lt_of_lt hgt'))).mpr (Nat.le_of_lt hgt')
  have hgap : roundUnit bits num den * 2 ^ bits + roundUnit bits num den * 2 ≤ g := by
    rw [roundUnit, ← Nat.pow_add, ← Nat.pow_succ]
    exact add_le_of_dvd_of_lt (Nat.pow_dvd_pow 2 (by omega))
      (Nat.dvd_trans (Nat.pow_dvd_pow 2 (by omega)) hg) hgt'
  have hgap' : (roundUnit bits num den : ℚ) * 2 ^ bits + roundUnit bits num den * 2 ≤ g := by
    exact_mod_cast hgap
  have hquot := div_lt_roundUnit bits num hden
  have hunit : (0 : ℚ) < roundUnit bits num den := by exact_mod_cast roundUnit_pos bits num den
  have htwo : (2 : ℚ) ≤ 2 ^ bits := by
    simpa using pow_le_pow_right₀ (by norm_num : (1 : ℚ) ≤ 2) hbits
  have hlow := (abs_lt.mp h).1
  rw [← neg_div, div_lt_iff₀ (by positivity), pow_succ] at hlow
  nlinarith

/-- A quotient that lies nearer than one part in `2 ^ (bits + 1)` to a number that fits is rounded to it. -/
theorem roundBits_eq_of_near (hbits : 0 < bits) : roundBits bits num den = g := by
  obtain ⟨c, hc⟩ := roundUnit_dvd_of_near hden hg h
  have hle := le_roundUnit_of_near hden hg h hbits
  have hcast : (c : ℚ) * roundUnit bits num den = g := by
    rw [hc, Nat.cast_mul, mul_comm]
  rw [roundBits_eq_nearestMultiple, hc, Nat.mul_comm]
  apply nearestMultiple_eq_of_near (roundUnit_pos bits num den) hden
  rw [hcast]
  refine h.trans_le ?_
  have hle' : (g : ℚ) ≤ roundUnit bits num den * 2 ^ bits := by exact_mod_cast hle
  rw [div_le_iff₀ (by positivity), pow_succ]
  linarith

end Near

/-- What fits already is not changed. -/
theorem roundBits_of_fits (hbits : 0 < bits) (hden : 0 < den) (hg : Fits bits g) :
    roundBits bits (g * den) den = g := by
  rcases Nat.eq_zero_or_pos g with rfl | hpos
  · simp [roundBits, nearestMultiple]
  · apply roundBits_eq_of_near hden hg _ hbits
    have hden' : (den : ℚ) ≠ 0 := by exact_mod_cast Nat.ne_of_gt hden
    have hpos' : (0 : ℚ) < g := by exact_mod_cast hpos
    rw [Nat.cast_mul, mul_div_cancel_right₀ _ hden', sub_self, abs_zero]
    positivity

/-! ## Nothing that fits is nearer -/

theorem abs_nearestMultiple_sub_le_mul (num : Nat) (hunit : 0 < unit) (hden : 0 < den) (c : Nat) :
    |(nearestMultiple unit num den : ℚ) - num / den| ≤ |(c : ℚ) * unit - num / den| := by
  by_contra hlt
  have hnear := abs_nearestMultiple_sub_le num hunit hden
  have hnearer : |(num : ℚ) / den - c * unit| < unit / 2 := by
    rw [abs_sub_comm]
    linarith
  rw [nearestMultiple_eq_of_near hunit hden hnearer, Nat.cast_mul] at hlt
  exact hlt le_rfl

/-- No number that fits is nearer to a quotient than what it is rounded to. -/
theorem abs_roundBits_sub_le_of_fits (num : Nat) (hbits : 0 < bits) (hden : 0 < den) (hg : Fits bits g) :
    |(roundBits bits num den : ℚ) - num / den| ≤ |(g : ℚ) - num / den| := by
  have hunit := roundUnit_pos bits num den
  rw [roundBits_eq_nearestMultiple]
  by_cases hdvd : roundUnit bits num den ∣ g
  · obtain ⟨c, rfl⟩ := hdvd
    rw [Nat.mul_comm, Nat.cast_mul]
    exact abs_nearestMultiple_sub_le_mul num hunit hden c
  · -- finer numbers stand below the power of two where the unit begins, which is a multiple of it
    rw [Fits, Nat.one_shiftLeft] at hg
    rw [roundUnit] at hdvd
    have hlog : g.log2 < (num / den).log2 := by
      by_contra hge
      exact hdvd (Nat.dvd_trans (Nat.pow_dvd_pow 2 (by omega)) hg)
    have hfull : bits ≤ (num / den).log2 := by
      by_contra hlt
      rw [Nat.sub_eq_zero_of_le (by omega)] at hdvd
      exact hdvd (Nat.one_dvd g)
    have hne : num / den ≠ 0 := by
      rintro h0
      simp [h0] at hlog
    have hpower : 2 ^ (bits - 1) * roundUnit bits num den = 2 ^ (num / den).log2 := by
      rw [roundUnit, ← Nat.pow_add]
      congr 1
      omega
    have hbelow : g ≤ 2 ^ (num / den).log2 := by
      exact Nat.lt_log2_self.le.trans (Nat.pow_le_pow_right (by decide) hlog)
    have hbelow' : (g : ℚ) ≤ 2 ^ (num / den).log2 := by exact_mod_cast hbelow
    have hself := two_pow_log2_le_div hden hne
    have hmultiple := abs_nearestMultiple_sub_le_mul num hunit hden (2 ^ (bits - 1))
    rw [← Nat.cast_mul, hpower, Nat.cast_pow, Nat.cast_ofNat, abs_of_nonpos (sub_nonpos.mpr hself)] at hmultiple
    rw [abs_of_nonpos (sub_nonpos.mpr (hbelow'.trans hself))]
    linarith

/-! ## Midpoints -/

/-- The distance from a number that fits to the next one. -/
def ulp (bits g : Nat) : Nat := 2 ^ (g.log2 + 1 - bits)

theorem exists_eq_mul_ulp (hg : Fits bits g) : ∃ c < 2 ^ bits, g = c * ulp bits g := by
  rw [Fits, Nat.one_shiftLeft] at hg
  obtain ⟨c, hc⟩ := hg
  rw [Nat.mul_comm] at hc
  refine ⟨c, ?_, hc⟩
  have hlt : c * ulp bits g < 2 ^ bits * ulp bits g := calc
    c * ulp bits g = g := hc.symm
    _ < 2 ^ (g.log2 + 1) := Nat.lt_log2_self
    _ ≤ 2 ^ bits * ulp bits g := by
      rw [ulp, ← Nat.pow_add]
      exact Nat.pow_le_pow_right (by decide) (by omega)
  exact Nat.lt_of_mul_lt_mul_right hlt

theorem fits_add_ulp (hbits : 0 < bits) (hg : Fits bits g) : Fits bits (g + ulp bits g) := by
  obtain ⟨c, hc, heq⟩ := exists_eq_mul_ulp hg
  have hnext : g + ulp bits g = (c + 1) <<< (g.log2 + 1 - bits) := by
    rw [Nat.shiftLeft_eq, Nat.succ_mul]
    exact congrArg (· + ulp bits g) heq
  rw [hnext]
  apply fits_shiftLeft _ hbits
  rw [Nat.one_shiftLeft]
  exact hc

theorem add_ulp_le {g' : Nat} (hg : Fits bits g) (hg' : Fits bits g') (h : g < g') : g + ulp bits g ≤ g' := by
  rw [Fits, Nat.one_shiftLeft] at hg hg'
  refine add_le_of_dvd_of_lt hg (Nat.dvd_trans (Nat.pow_dvd_pow 2 ?_) hg') h
  have hlog : g.log2 ≤ g'.log2 := by
    rcases Nat.eq_zero_or_pos g with rfl | hpos
    · simp
    · exact (Nat.le_log2 (Nat.ne_of_gt (Nat.zero_lt_of_lt h))).mpr ((Nat.log2_self_le hpos.ne').trans h.le)
  omega

theorem le_middle_of_abs_le {a b q : ℚ} (hab : a < b) (h : |a - q| ≤ |b - q|) : q ≤ (a + b) / 2 := by
  have hsq := sq_le_sq.mpr h
  nlinarith

theorem middle_le_of_abs_le {a b q : ℚ} (hab : a < b) (h : |b - q| ≤ |a - q|) : (a + b) / 2 ≤ q := by
  have hsq := sq_le_sq.mpr h
  nlinarith

section Midpoint

variable {num' den' : Nat} (hbits : 0 < bits) (hden : 0 < den) (hden' : 0 < den')
include hbits hden hden'

theorem exists_midpoint_of_lt (h : roundBits bits num den < roundBits bits num' den') :
    ∃ c k : Nat, c < 2 ^ (bits + 1) ∧ (num : ℚ) / den ≤ c * 2 ^ k / 2 ∧ (c : ℚ) * 2 ^ k / 2 ≤ num' / den' ∧
      roundBits bits num den + (2 : ℚ) ^ k / 2 ≤ c * 2 ^ k / 2 ∧
      (c : ℚ) * 2 ^ k / 2 + 2 ^ k / 2 ≤ roundBits bits num' den' := by
  have hfits := fits_roundBits hbits num den
  have hfits' := fits_roundBits hbits num' den'
  have hnext := abs_roundBits_sub_le_of_fits num hbits hden (fits_add_ulp hbits hfits)
  have hlast := abs_roundBits_sub_le_of_fits num' hbits hden' hfits
  have hgap := add_ulp_le hfits hfits' h
  obtain ⟨c, hc, heq⟩ := exists_eq_mul_ulp hfits
  generalize roundBits bits num den = g at *
  generalize roundBits bits num' den' = g' at *
  have hulp : (0 : ℚ) < ulp bits g := by exact_mod_cast Nat.two_pow_pos _
  have hgap' : (g : ℚ) + ulp bits g ≤ g' := by exact_mod_cast hgap
  have heq' : (g : ℚ) = c * ulp bits g := by exact_mod_cast heq
  have hpower : (2 : ℚ) ^ (g.log2 + 1 - bits) = ulp bits g := by rw [ulp, Nat.cast_pow, Nat.cast_ofNat]
  push_cast at hnext
  have hlow := le_middle_of_abs_le (lt_add_of_pos_right _ hulp) hnext
  have hhigh := middle_le_of_abs_le (by linarith) hlast
  refine ⟨2 * c + 1, g.log2 + 1 - bits, ?_, ?_⟩
  · rw [Nat.pow_succ]
    omega
  · rw [hpower]
    push_cast
    refine ⟨?_, ?_, ?_, ?_⟩ <;> linarith

/-- Quotients that are rounded to different numbers have a point between them that lies halfway between two numbers
that fit. To either of the results it is half a unit at least. -/
theorem exists_midpoint (h : roundBits bits num' den' ≠ roundBits bits num den) :
    ∃ c k : Nat, c < 2 ^ (bits + 1) ∧
      |(c : ℚ) * 2 ^ k / 2 - num / den| ≤ |(num' : ℚ) / den' - num / den| ∧
      (2 : ℚ) ^ k / 2 ≤ |roundBits bits num den - (c : ℚ) * 2 ^ k / 2| := by
  rcases Nat.lt_or_gt_of_ne h with hlt | hgt
  · obtain ⟨c, k, hc, hlow, hhigh, _, hfar⟩ := exists_midpoint_of_lt hbits hden' hden hlt
    have hpower : (0 : ℚ) ≤ 2 ^ k := by positivity
    refine ⟨c, k, hc, ?_, ?_⟩
    · rw [abs_of_nonpos (by linarith), abs_of_nonpos (by linarith)]
      linarith
    · rw [abs_of_nonneg (by linarith)]
      linarith
  · obtain ⟨c, k, hc, hlow, hhigh, hfar, _⟩ := exists_midpoint_of_lt hbits hden hden' hgt
    have hpower : (0 : ℚ) ≤ 2 ^ k := by positivity
    refine ⟨c, k, hc, ?_, ?_⟩
    · rw [abs_of_nonneg (by linarith), abs_of_nonneg (by linarith)]
      linarith
    · rw [abs_of_nonpos (by linarith)]
      linarith

end Midpoint

/-! ## Underflow -/

/-- A quotient is rounded away to nothing just where it is one half at most. -/
theorem roundBits_eq_zero_iff (hbits : 0 < bits) (hden : 0 < den) :
    roundBits bits num den = 0 ↔ 2 * num ≤ den := by
  rw [roundBits_eq_nearestMultiple]
  by_cases hdiv : num / den = 0
  · have hunit : roundUnit bits num den = 1 := by
      rw [roundUnit, hdiv, Nat.log2_zero, Nat.sub_eq_zero_of_le (by omega), Nat.pow_zero]
    have hlt : num < den := (Nat.div_eq_zero_iff_lt hden).mp hdiv
    simp only [nearestMultiple, hunit, Nat.one_mul, hdiv, Nat.mod_eq_of_lt hlt,
      Nat.zero_mod, and_true]
    split <;> omega
  · have hself : roundUnit bits num den * den ≤ num := by
      have hlog : (num / den).log2 + 1 - bits ≤ (num / den).log2 := by omega
      rw [← Nat.le_div_iff_mul_le hden]
      exact Nat.le_trans (Nat.pow_le_pow_right (by decide) hlog) (Nat.log2_self_le hdiv)
    have hbounds := (nearestMultiple_bounds num (roundUnit_pos bits num den) hden).1
    have hle : den ≤ num := Nat.le_trans (Nat.le_mul_of_pos_left den (roundUnit_pos bits num den)) hself
    constructor
    · intro hzero
      rw [hzero] at hbounds
      omega
    · intro hhalf
      omega

end BarcodeField
