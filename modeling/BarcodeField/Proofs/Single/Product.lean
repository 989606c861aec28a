import BarcodeField.Proofs.Rounding.Nearest
import BarcodeField.Single.Arithmetic

/-!
# Products of positive numbers

A product of positive numbers is rounded, and so it may be no longer positive: it is zero where the exact
product is at most half a grain. It is never below zero, and it is a number, also when a factor is infinite.

**The law** (`mul_pos_iff`): the product of two positive numbers is positive just where the numbers that they
hold multiply to more than `2 ^ -150`.
-/

namespace BarcodeField.Single

variable {a b : Single} {x y : Int}

/-- The number that is held, zero for NaN. An infinity counts as the limit that it stands at. -/
def value (a : Single) : ℚ := (a.place.getD 0 : Int) / (one : Nat)

theorem value_of_place (h : a.place = some x) : a.value = x / (one : Nat) := by
  rw [value, h, Option.getD_some]

/-! ## Places -/

theorem one_pos : 0 < one := by decide

theorem one_le_limit : one ≤ limit := by decide

theorem pos_iff_place : zero false < a ↔ ∃ x, a.place = some x ∧ 0 < x := by
  simp [lt_iff]

theorem nonneg_iff_place : zero false ≤ a ↔ ∃ x, a.place = some x ∧ 0 ≤ x := by
  simp [le_iff]

theorem lt_iff_of_place (ha : a.place = some x) (hb : b.place = some y) : a < b ↔ x < y := by
  simp [lt_iff, ha, hb]

theorem le_iff_of_place (ha : a.place = some x) (hb : b.place = some y) : a ≤ b ↔ x ≤ y := by
  simp [le_iff, ha, hb]

protected theorem le_trans {c : Single} (hab : a ≤ b) (hbc : b ≤ c) : a ≤ c := by
  obtain ⟨x, y, hx, hy, hxy⟩ := le_iff.mp hab
  obtain ⟨y', z, hy', hz, hyz⟩ := le_iff.mp hbc
  cases hy.symm.trans hy'
  exact le_iff.mpr ⟨x, z, hx, hz, hxy.trans hyz⟩

/-- A rounded quotient stands where it is rounded to, and no further out than the limit. -/
theorem place_ofGrains (negative : Bool) (num den : Nat) :
    (ofGrains negative num den).place =
      some (signed negative (Min.min (roundBits precision num den) limit)) := by
  unfold ofGrains
  split
  next hsmall => rw [Nat.min_eq_left (Nat.le_of_lt hsmall), place]
  next hlarge => rw [Nat.min_eq_right (Nat.le_of_not_lt hlarge), place]

/-- What stands above zero is the positive infinity or a count of grains without a sign. -/
theorem pos_cases (h : zero false < a) :
    a = infinity false ∨ ∃ g fits small, a = finite false g fits small ∧ 0 < g := by
  obtain ⟨x, hplace, hpos⟩ := pos_iff_place.mp h
  cases a with
  | nan => simp [place] at hplace
  | infinity negative =>
    cases negative with
    | false => exact .inl rfl
    | true =>
      simp only [place, signed, if_true, Option.some.injEq] at hplace
      omega
  | finite negative g fits small =>
    cases negative with
    | false =>
      simp only [place, signed, Bool.false_eq_true, if_false, Option.some.injEq] at hplace
      exact .inr ⟨g, fits, small, rfl, by omega⟩
    | true =>
      simp only [place, signed, if_true, Option.some.injEq] at hplace
      omega

/-! ## The product -/

theorem mul_infinity_of_pos (hb : zero false < b) : infinity false * b = infinity false := by
  rcases pos_cases hb with rfl | ⟨g, fits, small, rfl, hg⟩
  · rfl
  · exact if_neg (Nat.ne_of_gt hg)

theorem mul_infinity_right_of_pos (ha : zero false < a) : a * infinity false = infinity false := by
  rcases pos_cases ha with rfl | ⟨g, fits, small, rfl, hg⟩
  · rfl
  · exact if_neg (Nat.ne_of_gt hg)

/-- A factor at the limit makes any product large. -/
theorem one_lt_of_limit (hx : 0 < x) : (one : Int) < 2 * (limit * x) := by
  have hlimit : (one : Int) ≤ limit := by exact_mod_cast one_le_limit
  have hone : (0 : Int) < one := by exact_mod_cast one_pos
  nlinarith

theorem natCast_lt_two_mul_iff (n g h : Nat) : (n : Int) < 2 * ((g : Int) * h) ↔ n < 2 * (g * h) := by
  norm_cast

/-- Where the product of positive numbers stands, and when that is above zero. -/
theorem place_mul_of_pos (ha : zero false < a) (hb : zero false < b) (hx : a.place = some x)
    (hy : b.place = some y) :
    ∃ p, (a * b).place = some p ∧ 0 ≤ p ∧ (0 < p ↔ (one : Int) < 2 * (x * y)) := by
  have hlimit : (0 : Int) < limit := by exact_mod_cast Nat.lt_of_lt_of_le one_pos one_le_limit
  have hxpos : 0 < x := (lt_iff_of_place (place_zero false) hx).mp ha
  have hypos : 0 < y := (lt_iff_of_place (place_zero false) hy).mp hb
  rcases pos_cases ha with rfl | ⟨g, fits, small, rfl, hg⟩
  · cases hx
    rw [mul_infinity_of_pos hb]
    exact ⟨limit, rfl, hlimit.le, iff_of_true hlimit (one_lt_of_limit hypos)⟩
  · rcases pos_cases hb with rfl | ⟨h, fits', small', rfl, hh⟩
    · cases hy
      rw [mul_infinity_right_of_pos ha, mul_comm x]
      exact ⟨limit, rfl, hlimit.le, iff_of_true hlimit (one_lt_of_limit hxpos)⟩
    · cases hx
      cases hy
      refine ⟨_, place_ofGrains false (g * h) one, Int.natCast_nonneg _, ?_⟩
      have hzero : roundBits precision (g * h) one = 0 ↔ 2 * (g * h) ≤ one :=
        roundBits_eq_zero_iff (by decide) one_pos
      have hlimit' : 0 < limit := Int.natCast_pos.mp hlimit
      have hpos : 0 < Min.min (roundBits precision (g * h) one) limit ↔ one < 2 * (g * h) := by
        rw [lt_min_iff, and_iff_left hlimit', Nat.pos_iff_ne_zero, Ne, hzero, not_le]
      exact Int.natCast_pos.trans (hpos.trans (natCast_lt_two_mul_iff one g h).symm)

theorem nonneg_mul (ha : zero false < a) (hb : zero false < b) : zero false ≤ a * b := by
  obtain ⟨x, hx, _⟩ := pos_iff_place.mp ha
  obtain ⟨y, hy, _⟩ := pos_iff_place.mp hb
  obtain ⟨p, hp, hnonneg, _⟩ := place_mul_of_pos ha hb hx hy
  exact nonneg_iff_place.mpr ⟨p, hp, hnonneg⟩

/-- The rounded product of positive numbers is positive where the exact one exceeds half a grain. -/
theorem mul_pos_iff (ha : zero false < a) (hb : zero false < b) :
    zero false < a * b ↔ 1 / 2 ^ 150 < a.value * b.value := by
  obtain ⟨x, hx, _⟩ := pos_iff_place.mp ha
  obtain ⟨y, hy, _⟩ := pos_iff_place.mp hb
  obtain ⟨p, hp, _, hpos⟩ := place_mul_of_pos ha hb hx hy
  have hone : (0 : ℚ) < (one : Nat) := by exact_mod_cast one_pos
  have hpow : (2 : ℚ) ^ 150 = 2 * (one : Nat) := by
    have h : 2 ^ 150 = 2 * one := by decide
    exact_mod_cast h
  rw [lt_iff_of_place (place_zero false) hp, hpos, value_of_place hx, value_of_place hy, hpow,
    div_mul_div_comm, div_lt_div_iff₀ (by linarith) (mul_pos hone hone)]
  constructor
  · intro h
    have h' : ((one : Nat) : ℚ) < 2 * (x * y) := by exact_mod_cast h
    nlinarith
  · intro h
    have h' : ((one : Nat) : ℚ) < 2 * (x * y) := by
      by_contra hle
      nlinarith
    exact_mod_cast h'

end BarcodeField.Single
