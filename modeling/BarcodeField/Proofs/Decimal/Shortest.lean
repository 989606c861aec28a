import BarcodeField.Proofs.Decimal.Value
import BarcodeField.Proofs.Rounding.Within
import BarcodeField.Single.Decimal
import Mathlib.Tactic.Ring

/-!
# The search for fewest digits succeeds

The search for the decimal with the fewest digits falls back on the decimal that it started from. It need not
if a candidate at some count of digits reads back, and then what it finds is a candidate too, with as few digits or
fewer. A candidate stands **beside** the decimal: it is a whole number of some decimal place, less than one such place
away.

**The laws.** What the search finds is a candidate and reads back, as soon as any candidate does
(`exists_shortest_mem`). A candidate stands beside the decimal (`exists_beside`), and is off by one part in
`10 ^ (count - 1)` at most (`Beside.within`).
-/

namespace BarcodeField.Decimal

variable {tie : Tie} {count : Nat} {c d : Decimal}

/-! ## The search -/

/-- What the search finds is a candidate with no more digits than any that reads back, and reads back itself. -/
theorem exists_shortest_mem (reads : Decimal → Bool) (hpos : 0 < count) (hle : count ≤ d.length)
    (hc : c ∈ neighbours tie count d) (hreads : reads c = true) :
    ∃ n, 0 < n ∧ n ≤ count ∧ shortest tie reads d ∈ neighbours tie n d ∧ reads (shortest tie reads d) = true := by
  have hmem : count ∈ List.range' 1 d.length := List.mem_range'_1.mpr ⟨hpos, by omega⟩
  have hsome : ((neighbours tie count d).find? reads).isSome := List.find?_isSome.mpr ⟨c, hc, hreads⟩
  unfold shortest
  cases h : (List.range' 1 d.length).findSome? fun count => (neighbours tie count d).find? reads with
  | none =>
    rw [List.findSome?_eq_none_iff.mp h count hmem] at hsome
    exact absurd hsome Bool.false_ne_true
  | some found =>
    obtain ⟨before, n, after, hsplit, hfound, hnone⟩ := List.findSome?_eq_some_iff.mp h
    have hsorted := List.pairwise_lt_range' (s := 1) (n := d.length)
    rw [hsplit] at hmem hsorted
    have hn : n ∈ List.range' 1 d.length := hsplit ▸ List.mem_append_right _ List.mem_cons_self
    have hle : n ≤ count := by
      rcases List.mem_append.mp hmem with hbefore | hrest
      · rw [hnone count hbefore] at hsome
        exact absurd hsome Bool.false_ne_true
      · rcases List.mem_cons.mp hrest with rfl | hafter
        · exact le_rfl
        · exact (List.rel_of_pairwise_cons (List.pairwise_append.mp hsorted).2.1 hafter).le
    exact ⟨n, (List.mem_range'_1.mp hn).1, hle, List.mem_of_find?_eq_some hfound, List.find?_some hfound⟩

/-! ## Candidates -/

/-- `c` is `m` in the place of `10 ^ k`, of `count` digits or a power of ten, and `d` is less than one place away. -/
structure Beside (count : Nat) (c d : Decimal) (m : Nat) (k : ℤ) : Prop where
  pos : 0 < m
  le : m ≤ 10 ^ count
  digits_le : c.digits ≤ m
  value_eq : c.value = m * 10 ^ k
  near : |c.value - d.value| ≤ 10 ^ k
  place : (10 : ℚ) ^ k * 10 ^ (count - 1) ≤ d.value

theorem beside_trimZeros {m cut : Nat} (hpos : 0 < m) (hle : m ≤ 10 ^ count)
    (hlow : m * 10 ^ cut ≤ d.digits + 10 ^ cut) (hhigh : d.digits ≤ m * 10 ^ cut + 10 ^ cut)
    (hplace : 10 ^ cut * 10 ^ (count - 1) ≤ d.digits) :
    Beside count (trimZeros ⟨m, d.exponent + cut⟩) d m (d.exponent + cut) := by
  have hpower : (10 : ℚ) ^ (d.exponent + cut) = 10 ^ cut * 10 ^ d.exponent := by
    rw [zpow_add₀ (by norm_num), zpow_natCast, mul_comm]
  have hlow' : (m : ℚ) * 10 ^ cut ≤ d.digits + 10 ^ cut := by exact_mod_cast hlow
  have hhigh' : (d.digits : ℚ) ≤ m * 10 ^ cut + 10 ^ cut := by exact_mod_cast hhigh
  have hplace' : (10 : ℚ) ^ cut * 10 ^ (count - 1) ≤ d.digits := by exact_mod_cast hplace
  constructor
  case pos => exact hpos
  case le => exact hle
  case digits_le => exact digits_trimZeros_le _
  case value_eq => exact value_trimZeros _
  case near =>
    rw [value_trimZeros, value, value, hpower, ← mul_assoc, ← sub_mul, abs_mul,
      abs_of_nonneg (by positivity : (0 : ℚ) ≤ 10 ^ d.exponent)]
    refine mul_le_mul_of_nonneg_right ?_ (by positivity)
    rw [abs_le]
    constructor <;> linarith
  case place =>
    rw [hpower, value, mul_right_comm]
    exact mul_le_mul_of_nonneg_right hplace' (by positivity)

theorem exists_beside (hpos : 0 < count) (hle : count ≤ d.length) (h0 : d.digits ≠ 0)
    (hc : c ∈ neighbours tie count d) : ∃ m k, Beside count c d m k := by
  obtain ⟨cut, hcut⟩ : ∃ cut, d.length - count = cut := ⟨_, rfl⟩
  obtain ⟨below, hbelow⟩ : ∃ below, d.digits / 10 ^ cut = below := ⟨_, rfl⟩
  have hsplit : below * 10 ^ cut + d.digits % 10 ^ cut = d.digits := hbelow ▸ Nat.div_add_mod' _ _
  have hrest : d.digits % 10 ^ cut < 10 ^ cut := Nat.mod_lt _ (by positivity)
  have hplace : 10 ^ cut * 10 ^ (count - 1) ≤ d.digits := by
    rw [← Nat.pow_add]
    exact pow_le_digits (by have := d.length_pos; omega) h0
  have hlow : 0 < below := by
    rw [← hbelow]
    exact Nat.div_pos ((Nat.le_mul_of_pos_right _ (by positivity)).trans hplace) (by positivity)
  have hhigh : below < 10 ^ count := by
    rw [← hbelow, Nat.div_lt_iff_lt_mul (by positivity), ← Nat.pow_add, ← hcut, Nat.add_sub_cancel' hle]
    exact d.digits_lt_pow_length
  have hcases : c = trimZeros ⟨below, d.exponent + cut⟩ ∨ c = trimZeros ⟨below + 1, d.exponent + cut⟩ := by
    simp only [neighbours, Nat.pow_eq, hcut, hbelow] at hc
    split at hc
    · simpa using hc
    · simpa [or_comm] using hc
  rcases hcases with rfl | rfl
  · exact ⟨_, _, beside_trimZeros hlow hhigh.le (by omega) (by omega) hplace⟩
  · exact ⟨_, _, beside_trimZeros (Nat.succ_pos _) hhigh (by rw [Nat.succ_mul]; omega)
      (by rw [Nat.succ_mul]; omega) hplace⟩

namespace Beside

variable {m : Nat} {k : ℤ} (h : Beside count c d m k)
include h

theorem within : Within (1 / 10 ^ (count - 1)) c.value d.value := by
  rw [Within, one_div, inv_mul_eq_div]
  refine h.near.trans ?_
  rw [le_div_iff₀ (by positivity)]
  exact h.place

/-- A candidate is never more than twice the decimal, nor less than half of it. -/
theorem le_two_mul : c.value ≤ 2 * d.value ∧ d.value ≤ 2 * c.value := by
  have hnear := abs_le.mp h.near
  have hplace : (10 : ℚ) ^ k ≤ d.value := by
    refine le_trans (le_mul_of_one_le_right (by positivity) ?_) h.place
    exact one_le_pow₀ (by norm_num)
  have hself : (10 : ℚ) ^ k ≤ c.value := by
    rw [h.value_eq]
    exact le_mul_of_one_le_left (by positivity) (by exact_mod_cast h.pos)
  constructor <;> linarith

end Beside

/-- The decimal without the digits after the first `count`. -/
def cutOff (count : Nat) (d : Decimal) : Decimal :=
  trimZeros ⟨d.digits / Nat.pow 10 (d.length - count), d.exponent + (d.length - count : Nat)⟩

theorem cutOff_mem_neighbours (tie : Tie) (count : Nat) (d : Decimal) :
    cutOff count d ∈ neighbours tie count d := by
  unfold neighbours cutOff
  dsimp only
  split <;> simp

end BarcodeField.Decimal
