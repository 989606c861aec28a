import BarcodeField.CheckDigit
import Mathlib.Algebra.BigOperators.Fin
import Mathlib.Data.Int.ModEq
import Mathlib.Tactic.Ring

/-!
# The weighted sum behind a check digit

A check digit is the remainder of a weighted sum (`digit_eq_digit_iff`), so what is to be said of digits is said
of sums: how a sum splits where its text does, what one character changes of it, and how it reads from the other
end.

**The law** (`weightedSum_reverse`): weights alternate, so a text read backward has the same sum if its last
place and the place that it is then read from have the same parity. The last of the nineteen places is even, like
the first. So the digits of a short field, which zeros push to the right, can be weighted from the right.

`alternatingSum` is the sum that a person computes with digits, and `weightedSum_zero_eq_alternatingSum` says that
it is the same one.
-/

namespace BarcodeField.CheckDigit

/-! ## Splitting a sum -/

theorem weightedSum_append (place : Nat) (t u : Text) :
    weightedSum place (t ++ u) = weightedSum place t + weightedSum (place + t.length) u := by
  induction t generalizing place with
  | nil => simp [weightedSum]
  | cons c t ih =>
    rw [List.cons_append, weightedSum, weightedSum, ih, List.length_cons, Nat.add_right_comm place,
      Nat.add_assoc place, add_assoc]

theorem weightedSum_concat (place : Nat) (t : Text) (c : Char) :
    weightedSum place (t ++ [c]) = weightedSum place t + value c * weight (place + t.length) := by
  rw [weightedSum_append, weightedSum, weightedSum, add_zero]

/-- A character in place of another one counts with the weight of its place. -/
theorem weightedSum_set {t : Text} {i : Nat} {x : Char} (h : t[i]? = some x) (place : Nat) (y : Char) :
    weightedSum place (t.set i y) = weightedSum place t + (value y - value x) * weight (place + i) := by
  induction t generalizing place i with
  | nil => cases h
  | cons c t ih =>
    cases i with
    | zero =>
      cases h
      rw [List.set_cons_zero, weightedSum, weightedSum, Nat.add_zero place]
      ring
    | succ i =>
      have hshift : place + 1 + i = place + (i + 1) := by omega
      rw [List.set_cons_succ, weightedSum, weightedSum, ih h, hshift, add_assoc]

/-- Zeros add nothing. -/
theorem weightedSum_zeros (place n : Nat) : weightedSum place (List.replicate n '0') = 0 := by
  induction n generalizing place with
  | zero => rfl
  | succ n ih =>
    have hzero : value '0' = 0 := rfl
    rw [List.replicate_succ, weightedSum, ih, hzero, zero_mul, add_zero]

theorem weight_congr {p q : Nat} (h : p % 2 = q % 2) : weight p = weight q := by
  rw [weight, weight, h]

/-! ## Reading from the other end -/

/-- **A sum can be read backward**, where the weights meet again at the other end. -/
theorem weightedSum_reverse {p q : Nat} {t : Text} (h : (p + q + t.length) % 2 = 1) :
    weightedSum q t.reverse = weightedSum p t := by
  induction t generalizing p with
  | nil => rfl
  | cons c t ih =>
    rw [List.length_cons] at h
    have hrest : weightedSum q t.reverse = weightedSum (p + 1) t := ih (by omega)
    have hweight : weight (q + t.length) = weight p := weight_congr (by omega)
    rw [List.reverse_cons, weightedSum_concat, hrest, List.length_reverse, hweight, weightedSum, add_comm]

/-! ## Digits -/

/-- What a digit says. -/
def digitValue (c : Char) : Nat := c.toNat - '0'.toNat

/-- The sum of digits of which the first weighs 7, the second 9, the third 7 again and so on. -/
def alternatingSum (digits : Text) : Nat :=
  ∑ j : Fin digits.length, digitValue digits[j] * if j.val % 2 = 0 then 7 else 9

theorem value_of_isDigit {c : Char} (h : c.isDigit = true) : value c = digitValue c := by
  have hle := (Char.isDigit_iff_toNat.mp h).1
  have hzero : '0'.toNat = 48 := rfl
  rw [value, digitValue]
  omega

theorem weightedSum_eq_sum (place : Nat) (t : Text) :
    weightedSum place t = ∑ j : Fin t.length, value t[j] * weight (place + j) := by
  induction t generalizing place with
  | nil => rfl
  | cons c t ih =>
    have hshift (j : Nat) : place + 1 + j = place + (j + 1) := by omega
    simp only [weightedSum, ih, hshift]
    exact (Fin.sum_univ_succ fun j : Fin (t.length + 1) => value (c :: t)[j] * weight (place + j)).symm

theorem weightedSum_zero_eq_alternatingSum {digits : Text} (h : ∀ c ∈ digits, c.isDigit = true) :
    weightedSum 0 digits = alternatingSum digits := by
  rw [weightedSum_eq_sum, alternatingSum, Nat.cast_sum]
  refine Finset.sum_congr rfl fun j _ => ?_
  have hvalue : value digits[j] = digitValue digits[j] := value_of_isDigit (h _ (List.getElem_mem j.isLt))
  rw [hvalue, Nat.zero_add, weight, Nat.cast_mul, Nat.cast_ite]
  rfl

/-! ## Check digits -/

theorem val_digit (data : Text) :
    ((digit data).val : Int) = weightedSum 0 (data.take dataLength) % 10 := by
  have hnonneg := Int.emod_nonneg (weightedSum 0 (data.take dataLength)) (show (10 : Int) ≠ 0 by decide)
  have hlt := Int.emod_lt_of_pos (weightedSum 0 (data.take dataLength)) (show (0 : Int) < 10 by decide)
  rw [digit, Fin.val_ofNat]
  omega

/-- The check digit of padded data is the remainder of its sum. -/
theorem val_digit_pad_of_sum {data : Text} {n : Nat} (h : weightedSum 0 (pad data) = n) :
    (digit (pad data)).val = n % 10 := by
  have hdigit := val_digit (pad data)
  rw [List.take_of_length_le (length_pad data).le, h] at hdigit
  omega

/-- The check digit of a short field weighs its digits from the right. -/
theorem digit_pad_of_length_le {digits : Text} (h : ∀ c ∈ digits, c.isDigit = true)
    (hlength : digits.length ≤ dataLength) :
    (digit (pad digits)).val = alternatingSum digits.reverse % 10 := by
  have hreverse : ∀ c ∈ digits.reverse, c.isDigit = true := fun c hc => h c (List.mem_reverse.mp hc)
  apply val_digit_pad_of_sum
  calc weightedSum 0 (pad digits)
      = weightedSum 0 (List.replicate (dataLength - digits.length) '0' ++ digits) := by
        rw [pad_of_length_le hlength]
    _ = weightedSum (dataLength - digits.length) digits := by
        rw [weightedSum_append, weightedSum_zeros, List.length_replicate, zero_add, Nat.zero_add]
    _ = weightedSum 0 digits.reverse := by
        -- the last of the nineteen places is even
        refine (weightedSum_reverse ?_).symm
        rw [Nat.add_zero, Nat.sub_add_cancel hlength]
        rfl
    _ = alternatingSum digits.reverse := weightedSum_zero_eq_alternatingSum hreverse

/-- The check digit of a long field weighs its first nineteen digits from the left. -/
theorem digit_pad_of_le_length {digits : Text} (h : ∀ c ∈ digits, c.isDigit = true)
    (hlength : dataLength ≤ digits.length) :
    (digit (pad digits)).val = alternatingSum (digits.take dataLength) % 10 := by
  have htake : ∀ c ∈ digits.take dataLength, c.isDigit = true := fun c hc => h c (List.mem_of_mem_take hc)
  apply val_digit_pad_of_sum
  rw [pad_of_le_length hlength, weightedSum_zero_eq_alternatingSum htake]

/-- Check digits tell sums apart just as far as modulo ten. -/
theorem digit_eq_digit_iff {t u : Text} :
    digit t = digit u ↔
      weightedSum 0 (t.take dataLength) ≡ weightedSum 0 (u.take dataLength) [ZMOD 10] := by
  rw [Fin.ext_iff, ← Int.natCast_inj, val_digit, val_digit]
  rfl

end BarcodeField.CheckDigit
