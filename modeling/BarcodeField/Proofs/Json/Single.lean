import BarcodeField.Json.Numeral
import BarcodeField.Proofs.Single.ReadBack

/-!
# Single-precision numbers as numerals

A decimal is laid out as a numeral in one of three ways, and the reader collects its digits again before it rounds
them. The layout may add a zero, but it does not change the number, so a numeral is read as the decimal that it
was made of.

**The law** (`exists_ofSingle?`): every finite number has a numeral, which is a decimal laid out, and the numeral
is read as that very number.

The writer looks for a decimal that one rounding takes to the number, and the reader rounds twice. That they agree is
no accident of the digits being many, for they are few: it is that a decimal with few digits is not next to a midpoint
(`Decimal.eq_or_mem_closeDecimals`). The four that are have been read one by one (`single?_of_mem_closeDecimals`).
-/

namespace BarcodeField

/-- Whether a number is neither NaN nor an infinity. -/
def Single.isFinite : Single → Bool
  | .finite .. => true
  | .nan | .infinity _ => false

namespace Json.Numeral

variable {negative : Bool} {d : Decimal}

/-! ## Digits -/

theorem le_ofDigitChars (t : Text) (n : Nat) : n ≤ Nat.ofDigitChars 10 t n := by
  rw [Nat.ofDigitChars_eq_ofDigitChars_zero]
  exact Nat.le_add_right_of_le (Nat.le_mul_of_pos_left n (by positivity))

theorem ofDigitChars_lt {t : Text} (ht : ∀ c ∈ t, c.isDigit) (n : Nat) :
    Nat.ofDigitChars 10 t n < (n + 1) * 10 ^ t.length := by
  induction t generalizing n with
  | nil => simp
  | cons c rest ih =>
    have hdigit := (Char.isDigit_iff_toNat.mp (ht c List.mem_cons_self)).2
    have hc : c.toNat - '0'.toNat < 10 := Nat.lt_succ_of_le (Nat.sub_le_sub_right hdigit _)
    have hrest := ih (fun c hc => ht c (List.mem_cons_of_mem _ hc)) (10 * n + (c.toNat - '0'.toNat))
    rw [Nat.ofDigitChars_cons]
    refine lt_of_lt_of_le hrest ?_
    rw [List.length_cons, Nat.pow_succ', ← Nat.mul_assoc]
    exact Nat.mul_le_mul_right _ (by omega)

theorem isDigit_of_mem_ofNat {n : Nat} {c : Char} (h : c ∈ Text.ofNat n) : c.isDigit :=
  Nat.isDigit_of_mem_toDigits (by decide) (by decide) h

theorem ofDigitChars_ofNat (n : Nat) : Nat.ofDigitChars 10 (Text.ofNat n) 0 = n :=
  Nat.ofDigitChars_ten_toDigits

/-- A number that a word holds is collected to its last digit. -/
theorem fillWord_eq (t : Text) {n : Nat} (h : Nat.ofDigitChars 10 t n < UInt64.size) :
    fillWord n t = (Nat.ofDigitChars 10 t n, []) := by
  induction t generalizing n with
  | nil => rfl
  | cons c rest ih =>
    rw [Nat.ofDigitChars_cons, Nat.mul_comm] at h ⊢
    rw [fillWord, if_pos (lt_of_le_of_lt (le_ofDigitChars rest _) h)]
    exact ih h

/-- A numeral is read as the decimal whose digits and last place it gives, if a word holds them. -/
theorem leading_mk {whole digits : Nat} {fraction : Text} {exponent : Option Int} {e : Int}
    (hdigits : Nat.ofDigitChars 10 fraction whole = digits) (he : exponent.getD 0 - fraction.length = e)
    (hword : digits < UInt64.size) : (mk negative whole fraction exponent).leading = ⟨digits, e⟩ := by
  subst hdigits
  have hwhole := fillWord_eq (Text.ofNat whole) (n := 0)
  rw [ofDigitChars_ofNat] at hwhole
  simp [leading, hwhole (lt_of_le_of_lt (le_ofDigitChars _ _) hword), fillWord_eq fraction hword, ← he]

/-! ## Layouts -/

theorem integer?_ofDecimal (negative : Bool) (d : Decimal) : (ofDecimal negative d).integer? = none := by
  unfold ofDecimal
  dsimp only
  split_ifs <;> simp [integer?, Text.ofNat_ne_nil]

theorem isDigit_of_mem_fraction {c : Char} (h : c ∈ (ofDecimal negative d).fraction) : c.isDigit := by
  unfold ofDecimal at h
  dsimp only at h
  split_ifs at h
  · rw [List.mem_singleton] at h
    subst h
    decide
  · rcases List.mem_append.mp h with hzero | hafter
    · rw [List.eq_of_mem_replicate hzero]
      decide
    · exact isDigit_of_mem_ofNat hafter
  · exact isDigit_of_mem_ofNat (List.mem_of_mem_drop h)

/-- The digits behind the first one continue it to the whole number. -/
theorem ofDigitChars_drop_one (n : Nat) :
    Nat.ofDigitChars 10 ((Text.ofNat n).drop 1) (n / 10 ^ ((Text.ofNat n).length - 1)) = n := by
  have hdigit := fun c => isDigit_of_mem_ofNat (n := n) (c := c)
  have hvalue := ofDigitChars_ofNat n
  cases htext : Text.ofNat n with
  | nil => exact absurd htext (Text.ofNat_ne_nil n)
  | cons c rest =>
    rw [htext, Nat.ofDigitChars_cons, Nat.mul_zero, Nat.zero_add] at hvalue
    rw [htext] at hdigit
    have hlow : (c.toNat - '0'.toNat) * 10 ^ rest.length ≤ n := by
      rw [← hvalue, Nat.ofDigitChars_eq_ofDigitChars_zero, Nat.mul_comm]
      exact Nat.le_add_right _ _
    have hhigh : n < (c.toNat - '0'.toNat + 1) * 10 ^ rest.length := by
      rw [← hvalue]
      exact ofDigitChars_lt (fun c hc => hdigit c (List.mem_cons_of_mem _ hc)) _
    have hfirst : n / 10 ^ rest.length = c.toNat - '0'.toNat :=
      Nat.div_eq_of_lt_le hlow hhigh
    rw [List.drop_one, List.tail_cons, List.length_cons, Nat.add_sub_cancel, hfirst, hvalue]

/-- Places are filled with zeros before the digits that are left, and both continue the whole part. -/
theorem ofDigitChars_places (n : Nat) {places : Nat} (h : 0 < places) :
    let after := Text.ofNat (n % 10 ^ places)
    after.length ≤ places ∧
      Nat.ofDigitChars 10 (List.replicate (places - after.length) '0' ++ after) (n / 10 ^ places) = n := by
  intro after
  have hlength : after.length ≤ places :=
    (Nat.length_toDigits_le_iff (by decide) h).mpr (Nat.mod_lt _ (by positivity))
  refine ⟨hlength, ?_⟩
  rw [Nat.ofDigitChars_append, Nat.ofDigitChars_replicate_zero, Nat.ofDigitChars_eq_ofDigitChars_zero,
    ofDigitChars_ofNat, ← Nat.mul_assoc, ← Nat.pow_add, Nat.add_sub_cancel' hlength, Nat.div_add_mod]

/-- A decimal of few digits is read as the number that it is, by whichever layout. -/
theorem leading_ofDecimal (negative : Bool) (h : d.digits ≤ 10 ^ 9) :
    (ofDecimal negative d).leading.value = d.value ∧
      (ofDecimal negative d).leading.digits < 2 ^ Double.precision ∧
      ((ofDecimal negative d).leading.exponent = d.exponent ∨ (ofDecimal negative d).leading.exponent = -1) := by
  have hdigits := d.digits_lt_pow_length
  have hword : d.digits < UInt64.size := h.trans_lt (by decide)
  have hdouble : d.digits < 2 ^ Double.precision := h.trans_lt (by decide)
  simp only [ofDecimal, Nat.pow_eq]
  split_ifs with hplain hwhole
  · -- the one zero behind the point makes ten times as many tenths
    obtain ⟨k, hk⟩ := Int.eq_ofNat_of_zero_le hwhole
    have hpower : d.exponent.toNat = k := by omega
    have hlength : d.length + k ≤ 13 := by
      unfold Decimal.length
      omega
    have hsmall : 10 * (d.digits * 10 ^ k) < 10 ^ 14 := calc
      10 * (d.digits * 10 ^ k) < 10 * (10 ^ d.length * 10 ^ k) := by
        gcongr
      _ = 10 ^ (d.length + k + 1) := by ring
      _ ≤ 10 ^ 14 := Nat.pow_le_pow_right (by decide) (by omega)
    rw [hpower, leading_mk rfl rfl (hsmall.trans (by decide))]
    refine ⟨?_, hsmall.trans (by decide), .inr (by simp)⟩
    rw [Decimal.value, Decimal.value, hk]
    simp [Nat.ofDigitChars_cons]
    ring
  · obtain ⟨places, hplaces⟩ := Int.exists_eq_neg_ofNat (not_le.mp hwhole).le
    have hpower : (-d.exponent).toNat = places := by omega
    have hpos : 0 < places := by omega
    obtain ⟨hlength, hcollect⟩ := ofDigitChars_places d.digits hpos
    rw [hpower, leading_mk (e := d.exponent) hcollect ?_ hword]
    · exact ⟨rfl, hdouble, .inl rfl⟩
    · rw [List.length_append, List.length_replicate, Nat.sub_add_cancel hlength, hplaces]
      exact Int.zero_sub _
  · have hpos := d.length_pos
    unfold Decimal.length at hpos
    rw [leading_mk (e := d.exponent) (ofDigitChars_drop_one d.digits) ?_ hword]
    · exact ⟨rfl, hdouble, .inl rfl⟩
    · rw [Option.getD_some, List.length_drop]
      omega

/-! ## Reading back -/

theorem negative_ofDecimal (negative : Bool) (d : Decimal) : (ofDecimal negative d).negative = negative := by
  unfold ofDecimal
  dsimp only
  split_ifs <;> rfl

theorem single?_ofDecimal (negative : Bool) (d : Decimal) :
    (ofDecimal negative d).single? =
      (Double.ofDecimal? (ofDecimal negative d).leading).map (Single.ofDouble negative) := by
  rw [single?, integer?_ofDecimal, negative_ofDecimal]
  rfl

/-- Zero is written with one digit, and read back with its sign. -/
theorem single?_ofDecimal_zero (negative : Bool) :
    (ofDecimal negative ⟨0, 0⟩).single? = some (.zero negative) := by
  have hleading : (ofDecimal negative ⟨0, 0⟩).leading = ⟨0, -1⟩ := by cases negative <;> decide +kernel
  have hzero : Double.ofDecimal? ⟨0, -1⟩ = some 0 := by
    rw [Double.ofDecimal?, if_pos (by decide), Double.shrink_of_le (by decide)]
    decide +kernel
  rw [single?_ofDecimal, hleading, hzero]
  cases negative <;> decide +kernel

theorem shortest_zero (negative : Bool) :
    (Single.exactDecimal 0).shortest .even (fun d => d.toSingle negative == .zero negative) = ⟨0, 0⟩ := by
  cases negative <;> decide +kernel

/-- The decimals next to midpoints that are not midpoints are read on the right side of them. -/
theorem single?_of_mem_closeDecimals (negative : Bool) :
    ∀ d ∈ Decimal.closeDecimals, (ofDecimal negative d).single? = some (d.toSingle negative) := by
  cases negative <;> decide +kernel

section Finite

variable {g : Nat} (fits : Fits Single.precision g) (small : g < Single.limit)

/-- **A finite number is written as a decimal and read back.** -/
theorem exists_ofSingle? (negative : Bool) : ∃ d,
    ofSingle? (.finite negative g fits small) = some (ofDecimal negative d) ∧
      (ofDecimal negative d).single? = some (.finite negative g fits small) := by
  refine ⟨_, rfl, ?_⟩
  rcases Nat.eq_zero_or_pos g with rfl | hg
  · have hzero := single?_ofDecimal_zero negative
    rw [← shortest_zero] at hzero
    exact hzero
  · have hnine := Single.nine_le_length hg
    have hreads : (Single.nineDigits g).toSingle negative = .finite negative g fits small :=
      Single.toSingle_of_within fits small hg (by norm_num) (Single.within_nineDigits hg)
    obtain ⟨count, hpos, hcount, hmem, hread⟩ := Decimal.exists_shortest_mem
      (fun d => d.toSingle negative == .finite negative g fits small) (by decide) hnine
      (Decimal.cutOff_mem_neighbours .even 9 _) (beq_iff_eq.mpr hreads)
    generalize Decimal.shortest .even _ _ = d at hmem hread ⊢
    have hsingle := beq_iff_eq.mp hread
    obtain ⟨m, k, hbeside⟩ := Decimal.exists_beside hpos (hcount.trans hnine)
      (Single.exactDecimal_digits_ne_zero hg) hmem
    by_cases hclose : d ∈ Decimal.closeDecimals
    · rw [single?_of_mem_closeDecimals negative d hclose, hsingle]
    · have hfew : d.digits ≤ 10 ^ 9 :=
        (hbeside.digits_le.trans hbeside.le).trans (Nat.pow_le_pow_right (by decide) hcount)
      obtain ⟨hvalue, hdigits, hexponent⟩ := leading_ofDecimal negative hfew
      rw [single?_ofDecimal]
      exact Single.ofDecimal?_ofDouble_of_beside fits small hg hcount hbeside hclose hsingle hvalue hdigits hexponent

end Finite

end Json.Numeral

end BarcodeField
