import BarcodeField.Proofs.Double.Error
import BarcodeField.Proofs.Rounding.Fractions

/-!
# Short decimals next to midpoints

A **midpoint** lies halfway between two neighbouring numbers of single precision: it is a whole number of 25 bits but
for a power of two. A decimal that is no midpoint can still lie so near to one that the small error of double precision
decides on which side it is read. With few digits it hardly can.

Let its digits be `m` and the midpoint `n * 2 ^ e`. Then `n / m` is nearly a power of ten but for a power of two.
Beyond the eleventh no power of ten is itself a fraction with terms that small, and how near to it such a fraction comes
is found by a search for each exponent.

**The law** (`eq_or_mem_closeDecimals`): a decimal that has no more digits than a midpoint, and lies as near to it as
one is misread, is that midpoint or one of four.
-/

namespace BarcodeField.Decimal

open Double (parts)
open Fraction

/-! ## Powers of ten -/

/-- A power of ten as a fraction from one up to two: what is left without powers of two. -/
def tenFraction (k : ℤ) : ℕ × ℕ :=
  let five := 5 ^ k.natAbs
  if 0 ≤ k then (five, 2 ^ five.log2) else (2 ^ (five.log2 + 1), five)

/-- The least fraction that a power of ten is misread as. -/
def lowTen (k : ℤ) : ℕ × ℕ := ((tenFraction k).1 * (parts - 1), (tenFraction k).2 * parts)

/-- The greatest fraction that a power of ten is misread as. -/
def highTen (k : ℤ) : ℕ × ℕ := ((tenFraction k).1 * (parts + 1), (tenFraction k).2 * parts)

/-- The fractions between these with an upper term of 25 bits. -/
def closeFractions (k : ℤ) : List (ℕ × ℕ) :=
  Gap.oneToTwo.between (2 ^ 25) (lowTen k) (highTen k) (2 ^ 25)

theorem tenFraction_pos (k : ℤ) : 0 < (tenFraction k).1 ∧ 0 < (tenFraction k).2 := by
  unfold tenFraction
  dsimp only
  split <;> exact ⟨by positivity, by positivity⟩

theorem exists_zpow_eq (k : ℤ) :
    ∃ j : ℤ, (10 : ℚ) ^ k = ((tenFraction k).1 : ℚ) / (tenFraction k).2 * 2 ^ j := by
  have hten : (10 : ℚ) ^ k = 5 ^ k * 2 ^ k := by rw [← mul_zpow]; norm_num
  unfold tenFraction
  dsimp only
  generalize (5 ^ k.natAbs).log2 = l
  rw [hten]
  split
  next h =>
    obtain ⟨p, rfl⟩ := Int.eq_ofNat_of_zero_le h
    refine ⟨p + l, ?_⟩
    rw [zpow_add₀ (by norm_num), Int.natAbs_natCast]
    push_cast
    field_simp
    norm_cast
  next h =>
    obtain ⟨p, rfl⟩ := Int.exists_eq_neg_ofNat (not_le.mp h).le
    refine ⟨-p - (l + 1 : ℕ), ?_⟩
    rw [zpow_sub₀ (by norm_num), Int.natAbs_neg, Int.natAbs_natCast, zpow_natCast, zpow_neg, zpow_natCast]
    push_cast
    field_simp

/-- The exponents of decimals of the size of a single-precision number, for digits no more than those of a midpoint. -/
def exponents : List ℤ := (List.range 84).map fun i : ℕ => (i : ℤ) - 45

theorem mem_exponents {k : ℤ} (hlow : -45 ≤ k) (hhigh : k < 39) : k ∈ exponents := by
  have hrange : (k + 45).toNat ∈ List.range 84 := List.mem_range.mpr (by omega)
  have hsame : ((k + 45).toNat : ℤ) - 45 = k := by omega
  exact List.mem_map.mpr ⟨_, hrange, hsame⟩

/-- What a power of ten is misread as lies below two, and above one unless the power is itself a fraction with small
terms. -/
theorem tenFraction_table : ∀ k ∈ exponents, Below (highTen k) (2, 1) ∧
    (k.natAbs ≤ 11 → (tenFraction k).2 ≤ 2 ^ 26) ∧ (11 < k.natAbs → Below (1, 1) (lowTen k)) := by
  decide +kernel

/-- The decimals that the searches find next to a midpoint. -/
def closeDecimals : List Decimal := [⟨14077062, -32⟩, ⟨7038531, -32⟩, ⟨25645849, -15⟩, ⟨22841339, 32⟩]

/-- What is found are lowest terms, so large that twice the upper one is out of bounds, and a lower one with one factor
of two at most. -/
theorem mem_closeFractions : ∀ k ∈ exponents, 11 < k.natAbs → ∀ p ∈ closeFractions k,
    p.1.Coprime p.2 ∧ 2 ^ 25 ≤ 2 * p.1 ∧ p.2 % 4 ≠ 0 ∧ ⟨p.2, k⟩ ∈ closeDecimals ∧
      (p.2 % 2 = 0 → ⟨p.2 / 2, k⟩ ∈ closeDecimals) := by
  decide +kernel

/-! ## Midpoint and decimal as a fraction -/

section Near

variable {m n : ℕ} {e k : ℤ}

/-- Digits that are no more than the midpoint has need no power of two taken out of them. -/
theorem shift_nonneg {j : ℤ} {x : ℚ} (hm : 0 < m) (hle : m ≤ n) (hx : 0 < x) (htwo : x * (parts + 1) < 2 * parts)
    (h : Within (1 / parts) n (m * 2 ^ j * x)) : 0 ≤ j := by
  have hm' : (0 : ℚ) < m := by exact_mod_cast hm
  have hle' : (m : ℚ) ≤ n := by exact_mod_cast hle
  have hparts : (0 : ℚ) < parts := by norm_num [Double.cast_parts]
  have hfactor : (1 + 1 / parts : ℚ) * x < 2 := by
    rw [one_add_div hparts.ne', div_mul_eq_mul_div, div_lt_iff₀ hparts]
    linarith
  by_contra hneg
  have hhalf : (2 : ℚ) ^ j ≤ 2⁻¹ := by
    rw [← zpow_neg_one]
    exact zpow_le_zpow_right₀ (by norm_num) (by omega)
  have hlt : (n : ℚ) < m := calc
    (n : ℚ) ≤ (1 + 1 / parts) * (m * 2 ^ j * x) := h.upper
    _ = (1 + 1 / parts) * x * m * 2 ^ j := by ring
    _ ≤ (1 + 1 / parts) * x * m * 2⁻¹ := by gcongr
    _ < 2 * m * 2⁻¹ := by gcongr
    _ = m := by ring
  linarith

/-- A midpoint is to a decimal nearly what a power of ten is, with powers of two beside the digits. -/
theorem exists_shift (hm : 0 < m) (hle : m ≤ n) (hk : k ∈ exponents)
    (h : Within (1 / parts) (n * 2 ^ e) (m * 10 ^ k)) : ∃ t : ℕ,
    Within (1 / parts) n ((m * 2 ^ t : ℕ) * ((tenFraction k).1 / (tenFraction k).2)) ∧
      (n * (tenFraction k).2 = m * 2 ^ t * (tenFraction k).1 → (n : ℚ) * 2 ^ e = m * 10 ^ k) := by
  obtain ⟨hA, hB⟩ := tenFraction_pos k
  obtain ⟨j, hj⟩ := exists_zpow_eq k
  obtain ⟨htwo, -, -⟩ := tenFraction_table k hk
  simp only [Below, highTen] at htwo
  generalize (tenFraction k).1 = A at *
  generalize (tenFraction k).2 = B at *
  have hA' : (0 : ℚ) < A := by exact_mod_cast hA
  have hB' : (0 : ℚ) < B := by exact_mod_cast hB
  have htwo' : (A : ℚ) / B * (parts + 1) < 2 * parts := by
    have hcast : (A * (parts + 1) * 1 : ℚ) < 2 * (B * parts) := by exact_mod_cast htwo
    rw [div_mul_eq_mul_div, div_lt_iff₀ hB']
    linarith
  have hvalue : (m : ℚ) * 10 ^ k * (2 ^ e)⁻¹ = m * 2 ^ (j - e) * (A / B) := by
    rw [hj, zpow_sub₀ (by norm_num)]
    field_simp
  have hscaled := h.mul_right (c := (2 ^ e)⁻¹) (by positivity)
  rw [hvalue, mul_inv_cancel_right₀ (by positivity)] at hscaled
  obtain ⟨t, ht⟩ := Int.eq_ofNat_of_zero_le (shift_nonneg hm hle (by positivity) htwo' hscaled)
  rw [ht, zpow_natCast] at hscaled hvalue
  refine ⟨t, by exact_mod_cast hscaled, fun heq => ?_⟩
  have heq' : (n : ℚ) * B = m * 2 ^ t * A := by exact_mod_cast heq
  rw [← mul_div_assoc, ← heq', mul_div_cancel_right₀ _ hB'.ne'] at hvalue
  rw [← hvalue, inv_mul_cancel_right₀ (by positivity)]

variable {M A B : ℕ}

/-- Nearness to a fraction, in products of naturals. -/
theorem bounds_of_within (hB : 0 < B) (h : Within (1 / parts) n (M * (A / B))) :
    A * (parts - 1) * M ≤ n * (B * parts) ∧ n * (B * parts) ≤ A * (parts + 1) * M := by
  have hB' : (0 : ℚ) < B := by exact_mod_cast hB
  have hparts : (0 : ℚ) < parts := by norm_num [Double.cast_parts]
  have hscale : (0 : ℚ) ≤ B * parts := by positivity
  have hlower := mul_le_mul_of_nonneg_right h.lower hscale
  have hupper := mul_le_mul_of_nonneg_right h.upper hscale
  have hlow : (1 - 1 / parts : ℚ) * (M * (A / B)) * (B * parts) = A * (parts - 1 : ℕ) * M := by
    rw [Nat.cast_pred (by decide)]
    field_simp
  have hhigh : (1 + 1 / parts : ℚ) * (M * (A / B)) * (B * parts) = A * (parts + 1) * M := by
    field_simp
  rw [hlow] at hlower
  rw [hhigh] at hupper
  exact ⟨by exact_mod_cast hlower, by exact_mod_cast hupper⟩

/-- Two fractions with small terms are not that near to one another without being equal. -/
theorem mul_eq_of_within (hn : n < 2 ^ 25) (hB : 0 < B) (hle : B ≤ 2 ^ 26)
    (h : Within (1 / parts) n (M * (A / B))) : n * B = M * A := by
  obtain ⟨hlow, hhigh⟩ := bounds_of_within hB h
  have hsmall : n * B < 2 ^ 25 * 2 ^ 26 := Nat.mul_lt_mul_of_lt_of_le hn hle (by positivity)
  have hlow' : (parts - 1) * (M * A) ≤ parts * (n * B) := by
    convert hlow using 1 <;> ring
  have hhigh' : parts * (n * B) ≤ (parts + 1) * (M * A) := by
    convert hhigh using 1 <;> ring
  rw [parts] at *
  omega

theorem exists_mem_closeFractions (hM : 0 < M) (hn : n < 2 ^ 25) (hk : k ∈ exponents)
    (hlarge : 11 < k.natAbs) (h : Within (1 / parts) n (M * ((tenFraction k).1 / (tenFraction k).2))) :
    ∃ p ∈ closeFractions k, n * p.2 = p.1 * M := by
  obtain ⟨hbelowTwo, -, haboveOne⟩ := tenFraction_table k hk
  obtain ⟨hlow, hhigh⟩ := bounds_of_within (tenFraction_pos k).2 h
  have hlo : ¬ Below (n, M) (lowTen k) := Nat.not_lt.mpr hlow
  have hhi : ¬ Below (highTen k) (n, M) := Nat.not_lt.mpr hhigh
  exact Gap.exists_mem_between hn hM hlo hhi (Nat.le_add_right _ _)
    ((haboveOne hlarge).trans_not_below hlo hM) (hbelowTwo.not_below_trans hhi hM)

end Near

/-! ## Decimals next to midpoints -/

section Law

variable {d : Decimal} {n : ℕ} {e : ℤ}

/-- A midpoint that is no smaller than the smallest one bounds the exponent of a decimal beside it. -/
theorem le_exponent (hle : d.digits ≤ n) (hn : 0 < n) (he : -150 ≤ e)
    (h : Within (1 / parts) (n * 2 ^ e) d.value) : -45 ≤ d.exponent := by
  by_contra hlt
  have hpower : (10 : ℚ) ^ d.exponent ≤ 10 ^ (-46 : ℤ) := zpow_le_zpow_right₀ (by norm_num) (by omega)
  have hmid : (2 : ℚ) ^ (-150 : ℤ) ≤ 2 ^ e := zpow_le_zpow_right₀ (by norm_num) he
  have hn' : (0 : ℚ) < n := by exact_mod_cast hn
  have hle' : (d.digits : ℚ) ≤ n := by exact_mod_cast hle
  have hfactor : (1 + 1 / parts : ℚ) ≤ 2 := by norm_num [Double.cast_parts]
  have hscaled : (n : ℚ) * 2 ^ (-150 : ℤ) ≤ n * (2 * 10 ^ (-46 : ℤ)) := calc
    (n : ℚ) * 2 ^ (-150 : ℤ) ≤ n * 2 ^ e := by gcongr
    _ ≤ (1 + 1 / parts) * (d.digits * 10 ^ d.exponent) := h.upper
    _ ≤ 2 * (n * 10 ^ (-46 : ℤ)) := by gcongr
    _ = n * (2 * 10 ^ (-46 : ℤ)) := by ring
  have hfalse := le_of_mul_le_mul_left hscaled hn'
  norm_num at hfalse

theorem mem_closeDecimals {m t : ℕ} {k : ℤ} {p : ℕ × ℕ} (hk : k ∈ exponents)
    (hlarge : 11 < k.natAbs) (hp : p ∈ closeFractions k) (hn0 : 0 < n) (hn : n < 2 ^ 25)
    (h : n * p.2 = p.1 * (m * 2 ^ t)) : ⟨m, k⟩ ∈ closeDecimals := by
  obtain ⟨hcoprime, hterm, hfour, hmem, hhalf⟩ := mem_closeFractions k hk hlarge p hp
  obtain ⟨c, hc⟩ : p.1 ∣ n := hcoprime.dvd_of_dvd_mul_right (h ▸ Nat.dvd_mul_right _ _)
  have hone : c = 1 := by
    have hpos : 0 < c := Nat.pos_of_ne_zero (by rintro rfl; omega)
    have htwo : c < 2 := Nat.lt_of_mul_lt_mul_left (a := p.1) (by omega)
    omega
  rw [hc, hone, Nat.mul_one] at h
  have hlower : p.2 = m * 2 ^ t := Nat.eq_of_mul_eq_mul_left (by omega) h
  rcases t with _ | _ | t
  · rwa [hlower, Nat.pow_zero, Nat.mul_one] at hmem
  · rw [Nat.zero_add, Nat.pow_one] at hlower
    have hm : p.2 / 2 = m := by omega
    rw [← hm]
    exact hhalf (by omega)
  · refine absurd ?_ hfour
    rw [hlower, Nat.pow_succ, Nat.pow_succ, Nat.mul_assoc, ← Nat.mul_assoc m, Nat.mul_mod_left]

/-- A decimal has no more digits than a midpoint beside it has, if it is less than one of its own places away from a
number that is half a unit away from the midpoint. -/
theorem digits_le_of_beside {m : ℕ} {x s w : ℚ} (hs : 0 < s) (hm : m ≤ 10 ^ 9) (hn : n < 2 ^ 25)
    (hnear : |(m : ℚ) * s - x| ≤ s) (hfar : w ≤ |x - n * w|) (h : Within (1 / parts) (n * w) (m * s)) : m ≤ n := by
  have hparts : (0 : ℚ) < parts := by norm_num [Double.cast_parts]
  have hunit : w ≤ s * (1 + m / parts) := calc
    w ≤ |x - m * s| + |m * s - n * w| := hfar.trans (abs_sub_le _ _ _)
    _ ≤ s + 1 / parts * (m * s) := by
      rw [abs_sub_comm x, abs_sub_comm (m * s : ℚ) (n * w)]
      exact add_le_add hnear h
    _ = s * (1 + m / parts) := by ring
  have hscaled : s * (m * (parts - 1)) ≤ s * (n * (parts + m)) := calc
    s * (m * (parts - 1)) = (1 - 1 / parts) * (m * s) * parts := by field_simp
    _ ≤ n * w * parts := mul_le_mul_of_nonneg_right h.lower hparts.le
    _ ≤ n * (s * (1 + m / parts)) * parts := by gcongr
    _ = s * (n * (parts + m)) := by field_simp
  have hdigits : m * parts ≤ n * parts + m * (n + 1) := by
    have hcast := le_of_mul_le_mul_left hscaled hs
    have hcast' : (m : ℚ) * parts ≤ n * parts + m * (n + 1) := by linarith
    exact_mod_cast hcast'
  -- the excess is small, since the digits are few, and then it is less than one
  by_contra hlt
  obtain ⟨r, rfl⟩ := Nat.exists_eq_add_of_lt (Nat.lt_of_not_le hlt)
  have hexcess : (r + 1) * parts ≤ (n + r + 1) * (n + 1) := by nlinarith
  have hfirst : (n + r + 1) * (n + 1) ≤ 10 ^ 9 * 2 ^ 25 := Nat.mul_le_mul hm hn
  have hsmall : r < 8 := by
    rw [parts] at hexcess
    omega
  have hsecond : (n + r + 1) * (n + 1) ≤ (2 ^ 25 + 7) * 2 ^ 25 := Nat.mul_le_mul (by omega) hn
  rw [parts] at hexcess
  omega

/-- **A decimal next to a midpoint is that midpoint**, with four exceptions. -/
theorem eq_or_mem_closeDecimals (h0 : d.digits ≠ 0) (hle : d.digits ≤ n) (hn : n < 2 ^ 25) (he : -150 ≤ e)
    (hvalue : d.value < 10 ^ 39) (h : Within (1 / parts) (n * 2 ^ e) d.value) :
    ((n : ℚ) * 2 ^ e = d.value ∧ d.exponent.natAbs ≤ 11) ∨ d ∈ closeDecimals := by
  have hpos := Nat.pos_of_ne_zero h0
  have hlow := le_exponent hle (hpos.trans_le hle) he h
  have hhigh : d.exponent < 39 :=
    (zpow_lt_zpow_iff_right₀ (by norm_num)).mp ((zpow_le_value h0).trans_lt (by exact_mod_cast hvalue))
  have hk := mem_exponents hlow hhigh
  obtain ⟨t, hnear, heq⟩ := exists_shift hpos hle hk h
  rcases Nat.lt_or_ge 11 d.exponent.natAbs with hlarge | hsmall
  · right
    obtain ⟨p, hp, hsame⟩ := exists_mem_closeFractions (by positivity) hn hk hlarge hnear
    exact mem_closeDecimals hk hlarge hp (hpos.trans_le hle) hn hsame
  · left
    obtain ⟨-, hterm, -⟩ := tenFraction_table _ hk
    exact ⟨heq (mul_eq_of_within hn (tenFraction_pos _).2 (hterm hsmall) hnear), hsmall⟩

end Law

end BarcodeField.Decimal
