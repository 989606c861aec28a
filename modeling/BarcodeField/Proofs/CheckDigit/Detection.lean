import BarcodeField.Proofs.CheckDigit.WeightedSum

/-!
# Errors that a check digit detects

A misread character, and two neighbours in each other's place, are the errors that a check digit is there for.

**The law** (`digit_detects`): among the nineteen characters that count, one wrong character goes unseen just where
it is a multiple of ten away from the right one, so no wrong digit does. Two neighbours in the wrong order go unseen
just where they are a multiple of five apart.

The reason is in the weights. Both have an inverse modulo ten, so no place hides a change of its character
(`ten_dvd_mul_weight_iff`); and neighbouring places differ by two, which hides a five
(`ten_dvd_mul_weight_sub_iff`).
-/

namespace BarcodeField.CheckDigit

/-! ## Weights modulo ten -/

theorem ten_dvd_mul_weight_iff {d : Int} (place : Nat) : 10 ∣ d * weight place ↔ 10 ∣ d := by
  rw [weight]
  split <;> omega

theorem ten_dvd_mul_weight_sub_iff {d : Int} (place : Nat) :
    10 ∣ d * (weight place - weight (place + 1)) ↔ 5 ∣ d := by
  rcases Nat.mod_two_eq_zero_or_one place with h | h
  · rw [weight, weight, if_pos h, if_neg (by omega)]
    omega
  · rw [weight, weight, if_neg (by omega), if_pos (by omega)]
    omega

/-- Values are as far apart as characters. -/
theorem dvd_value_sub_iff {n : Nat} {x y : Char} :
    (n : Int) ∣ value y - value x ↔ x.toNat ≡ y.toNat [MOD n] := by
  rw [Nat.modEq_iff_dvd, value, value, sub_sub_sub_cancel_right]

theorem digit_eq_digit_iff_dvd {t u : Text} :
    digit t = digit u ↔
      10 ∣ weightedSum 0 (u.take dataLength) - weightedSum 0 (t.take dataLength) :=
  digit_eq_digit_iff.trans Int.modEq_iff_dvd

/-! ## Single errors -/

variable {t : Text} {i : Nat} {x y : Char}

/-- What counts of a text, with another character in it. -/
theorem weightedSum_take_set (hi : i < dataLength) (h : t[i]? = some x) (y : Char) :
    weightedSum 0 ((t.set i y).take dataLength) =
      weightedSum 0 (t.take dataLength) + (value y - value x) * weight i := by
  have htake : (t.take dataLength)[i]? = some x := by rw [List.getElem?_take_of_lt hi, h]
  rw [List.take_set, weightedSum_set htake, Nat.zero_add]

theorem digit_set_eq_iff (hi : i < dataLength) (h : t[i]? = some x) :
    digit t = digit (t.set i y) ↔ x.toNat ≡ y.toNat [MOD 10] := by
  rw [digit_eq_digit_iff_dvd, weightedSum_take_set hi h, add_sub_cancel_left, ten_dvd_mul_weight_iff]
  exact dvd_value_sub_iff

/-- Different digits are less than ten apart. -/
theorem not_modEq_of_isDigit (hx : x.isDigit = true) (hy : y.isDigit = true) (hne : x ≠ y) :
    ¬ x.toNat ≡ y.toNat [MOD 10] := by
  have hx : 48 ≤ x.toNat ∧ x.toNat ≤ 57 := Char.isDigit_iff_toNat.mp hx
  have hy : 48 ≤ y.toNat ∧ y.toNat ≤ 57 := Char.isDigit_iff_toNat.mp hy
  have hne : x.toNat ≠ y.toNat := fun h => hne (Char.toNat_inj.mp h)
  rw [Nat.ModEq]
  omega

/-! ## Neighbours in each other's place -/

theorem digit_swap_eq_iff (hi : i + 1 < dataLength) (hx : t[i]? = some x) (hy : t[i + 1]? = some y) :
    digit ((t.set i y).set (i + 1) x) = digit t ↔ x.toNat ≡ y.toNat [MOD 5] := by
  have hnext : (t.set i y)[i + 1]? = some y := by rw [List.getElem?_set_ne (Nat.ne_add_one i), hy]
  have hsum : weightedSum 0 (((t.set i y).set (i + 1) x).take dataLength) =
      weightedSum 0 (t.take dataLength) + (value y - value x) * (weight i - weight (i + 1)) := by
    rw [weightedSum_take_set hi hnext, weightedSum_take_set (by omega) hx]
    ring
  rw [eq_comm, digit_eq_digit_iff_dvd, hsum, add_sub_cancel_left, ten_dvd_mul_weight_sub_iff]
  exact dvd_value_sub_iff

/-! ## All of them -/

/-- **What a check digit detects.** Of two texts that differ at one of the first nineteen places, the check digits
agree just where the two characters there agree modulo ten, and never where they are different digits; two
neighbours in each other's place are missed just where they agree modulo five; and what stands behind the first
nineteen places is not checked at all. -/
theorem digit_detects (t : Text) :
    (∀ (u : Text) (i : Nat) (x y : Char), t.length = u.length → i < 19 → t[i]? = some x → u[i]? = some y →
      (∀ j, j ≠ i → t[j]? = u[j]?) →
        (digit t = digit u ↔ x.toNat ≡ y.toNat [MOD 10]) ∧
          (x.isDigit = true → y.isDigit = true → x ≠ y → digit t ≠ digit u)) ∧
      (∀ (i : Nat) (x y : Char), i + 1 < 19 → t[i]? = some x → t[i + 1]? = some y →
        (digit ((t.set i y).set (i + 1) x) = digit t ↔ x.toNat ≡ y.toNat [MOD 5])) ∧
      ∀ u : Text, (∀ j < 19, t[j]? = u[j]?) → digit t = digit u := by
  refine ⟨fun u i x y _ hi hx hy hsame => ?_, fun i x y hi hx hy => digit_swap_eq_iff hi hx hy, fun u hsame => ?_⟩
  · have hu : u = t.set i y := by
      refine List.ext_getElem? fun j => ?_
      by_cases hj : j = i
      · obtain ⟨hlt, _⟩ := List.getElem?_eq_some_iff.mp hx
        rw [hj, hy, List.getElem?_set_self hlt]
      · rw [List.getElem?_set_ne (Ne.symm hj), hsame j hj]
    have hdetects : digit t = digit u ↔ x.toNat ≡ y.toNat [MOD 10] := by
      rw [hu]
      exact digit_set_eq_iff hi hx
    exact ⟨hdetects, fun hdx hdy hne h => not_modEq_of_isDigit hdx hdy hne (hdetects.mp h)⟩
  · have htake : t.take dataLength = u.take dataLength := by
      refine List.ext_getElem? fun j => ?_
      rw [List.getElem?_take, List.getElem?_take]
      split
      next hj => exact hsame j hj
      next => rfl
    rw [digit, htake, digit]

/-- An `A` passes for a `K`, which is ten characters further, and a `1` and a `6` for each other's place; but a `6`
does not pass for a `7`, and the twentieth character is no concern. -/
theorem digit_detects_apart :
    let t : Text := '1' :: '6' :: 'A' :: (List.replicate 16 '0' ++ ['Z'])
    digit t = digit (t.set 2 'K') ∧ digit t ≠ digit (t.set 1 '7') ∧
      digit ((t.set 0 '6').set 1 '1') = digit t ∧ digit t = digit (t.set 19 '9') := by
  intro t
  obtain ⟨hone, hswap, hbehind⟩ := digit_detects t
  have hother (i j : Nat) (c : Char) (h : j ≠ i) : t[j]? = (t.set i c)[j]? := (List.getElem?_set_ne h.symm).symm
  obtain ⟨hmissed, _⟩ := hone (t.set 2 'K') 2 'A' 'K' rfl (by decide) rfl rfl fun j => hother 2 j 'K'
  obtain ⟨_, hseen⟩ := hone (t.set 1 '7') 1 '6' '7' rfl (by decide) rfl rfl fun j => hother 1 j '7'
  have hbehind := hbehind (t.set 19 '9') fun j hj => hother 19 j '9' hj.ne
  exact ⟨hmissed.mpr (by decide), hseen rfl rfl (by decide), (hswap 0 '1' '6' (by decide) rfl rfl).mpr (by decide),
    hbehind⟩

end BarcodeField.CheckDigit
