import BarcodeField.Json.Reader
import BarcodeField.Proofs.Json.Single

/-!
# Numerals come back

Scanners take as many digits as there are, so a numeral is read back in front of any text that does not go on
like one: with a digit, a point or the letter of an exponent.

**The law** (`read?_render`): a numeral whose fraction is made of digits is read from what it is written as, and
what follows is left.
-/

namespace BarcodeField.Json.Numeral

variable {rest : Text}

/-! ## What may follow -/

/-- Whether a character can go on a numeral that ends before it. -/
def continues (c : Char) : Bool := c.isDigit || c == '.' || c == 'e' || c == 'E'

/-- A text that does not go on a numeral before it. -/
abbrev Ends (rest : Text) : Prop := ∀ c ∈ rest.head?, continues c = false

theorem not_isDigit_of_ends (h : Ends rest) : ∀ c ∈ rest.head?, c.isDigit = false := by
  intro c hc
  have hnone := h c hc
  simp only [continues, Bool.or_eq_false_iff] at hnone
  exact hnone.1.1.1

/-! ## Digits -/

theorem splitDigits_append {digits : Text} (hdigits : ∀ c ∈ digits, c.isDigit)
    (hrest : ∀ c ∈ rest.head?, c.isDigit = false) : splitDigits (digits ++ rest) = (digits, rest) := by
  rw [splitDigits, List.takeWhile_append_of_pos hdigits, List.dropWhile_append_of_pos hdigits]
  cases rest with
  | nil => simp
  | cons c rest =>
    have hc : c.isDigit = false := hrest c rfl
    simp [hc]

/-- Only zero is written with a zero in front. -/
theorem ofNat_eq_zero_cons {n : Nat} {t : Text} (h : Text.ofNat n = '0' :: t) : t = [] := by
  by_contra hne
  have hpos : 0 < t.length := List.length_pos_iff.mpr hne
  have hdigits : ∀ c ∈ t, c.isDigit := fun c hc =>
    isDigit_of_mem_ofNat (n := n) (h ▸ List.mem_cons_of_mem _ hc)
  have hvalue := ofDigitChars_ofNat n
  have hhigh := ofDigitChars_lt hdigits 0
  rw [h, Nat.ofDigitChars_cons, Nat.mul_zero, Nat.sub_self, Nat.add_zero] at hvalue
  rw [hvalue, Nat.zero_add, Nat.one_mul] at hhigh
  have hlength : (Text.ofNat n).length ≤ t.length :=
    (Nat.length_toDigits_le_iff (by decide) hpos).mpr hhigh
  rw [h, List.length_cons] at hlength
  omega

theorem isDigit_of_mem_head {n : Nat} {c : Char} (h : c ∈ (Text.ofNat n ++ rest).head?) : c.isDigit := by
  cases htext : Text.ofNat n with
  | nil => exact absurd htext (Text.ofNat_ne_nil n)
  | cons first t =>
    rw [htext] at h
    cases h
    exact isDigit_of_mem_ofNat (htext ▸ List.mem_cons_self)

theorem readWhole?_ofNat (n : Nat) (hrest : ∀ c ∈ rest.head?, c.isDigit = false) :
    readWhole? (Text.ofNat n ++ rest) = some (n, rest) := by
  have hsplit := splitDigits_append (fun c => isDigit_of_mem_ofNat (n := n)) hrest
  have hvalue := ofDigitChars_ofNat n
  unfold readWhole?
  rw [hsplit]
  split
  next h => exact absurd (congrArg Prod.fst h) (Text.ofNat_ne_nil n)
  next h => cases ofNat_eq_zero_cons (congrArg Prod.fst h)
  next digits left _ _ h =>
    cases h
    rw [hvalue]

theorem readPower?_ofNat (negative : Bool) (n : Nat) (hrest : ∀ c ∈ rest.head?, c.isDigit = false) :
    readPower? negative (Text.ofNat n ++ rest) = some (some (if negative then -(n : Int) else n), rest) := by
  have hsplit := splitDigits_append (fun c => isDigit_of_mem_ofNat (n := n)) hrest
  have hvalue := ofDigitChars_ofNat n
  unfold readPower?
  rw [hsplit]
  split
  next h => exact absurd (congrArg Prod.fst h) (Text.ofNat_ne_nil n)
  next digits left _ h =>
    cases h
    rw [hvalue]

/-! ## The parts of a numeral -/

/-- The point and the digits after it. -/
def renderFraction (fraction : Text) : Text := if fraction = [] then [] else '.' :: fraction

/-- The letter, the sign and the digits of an exponent. -/
def renderExponent : Option Int → Text
  | none => []
  | some e => 'e' :: (if e < 0 then '-' else '+') :: Text.ofNat e.natAbs

theorem render_eq (n : Numeral) : n.render = (if n.negative then ['-'] else []) ++
    (Text.ofNat n.whole ++ (renderFraction n.fraction ++ renderExponent n.exponent)) := by
  rcases n with ⟨negative, whole, fraction, _ | e⟩ <;> simp [render, renderFraction, renderExponent]

theorem readFraction?_render {fraction : Text} (hdigits : ∀ c ∈ fraction, c.isDigit)
    (hrest : ∀ c ∈ rest.head?, c.isDigit = false ∧ c ≠ '.') :
    readFraction? (renderFraction fraction ++ rest) = some (fraction, rest) := by
  rw [renderFraction]
  split
  next hnil =>
    subst hnil
    rw [List.nil_append]
    unfold readFraction?
    split
    next => exact absurd rfl (hrest '.' rfl).2
    next => rfl
  next hne =>
    have hsplit := splitDigits_append hdigits fun c hc => (hrest c hc).1
    rw [List.cons_append, readFraction?, hsplit]
    split
    next h => exact absurd (congrArg Prod.fst h) hne
    next h =>
      cases h
      rfl

theorem readExponent?_render (exponent : Option Int) (hrest : Ends rest) :
    readExponent? (renderExponent exponent ++ rest) = some (exponent, rest) := by
  cases exponent with
  | none =>
    rw [renderExponent, List.nil_append]
    cases rest with
    | nil => rfl
    | cons c rest =>
      have hc := hrest c rfl
      simp only [continues, Bool.or_eq_false_iff, beq_eq_false_iff_ne] at hc
      unfold readExponent?
      exact if_neg (not_or.mpr ⟨hc.1.2, hc.2⟩)
  | some e =>
    have hpower := fun negative => readPower?_ofNat negative e.natAbs (not_isDigit_of_ends hrest)
    rcases lt_or_ge e 0 with hneg | hnonneg
    · simp [renderExponent, readExponent?, hneg, hpower, abs_of_neg hneg]
    · simp [renderExponent, readExponent?, hnonneg.not_gt, hpower, abs_of_nonneg hnonneg]

/-- Neither a digit nor a point follows a fraction. -/
theorem head_renderExponent (exponent : Option Int) (hrest : Ends rest) :
    ∀ c ∈ (renderExponent exponent ++ rest).head?, c.isDigit = false ∧ c ≠ '.' := by
  intro c hc
  cases exponent with
  | none =>
    have hnone := hrest c hc
    simp only [continues, Bool.or_eq_false_iff, beq_eq_false_iff_ne] at hnone
    exact hnone.1.1
  | some e =>
    cases hc
    decide

/-- No digit follows a whole part. -/
theorem head_renderFraction (fraction : Text) (hrest : ∀ c ∈ rest.head?, c.isDigit = false) :
    ∀ c ∈ (renderFraction fraction ++ rest).head?, c.isDigit = false := by
  intro c hc
  rw [renderFraction] at hc
  split at hc
  · exact hrest c hc
  · cases hc
    decide

/-- A numeral begins with a digit or a minus sign. -/
theorem head_render (n : Numeral) : ∀ c ∈ (n.render ++ rest).head?, c.isDigit ∨ c = '-' := by
  intro c hc
  rw [render_eq] at hc
  rcases n with ⟨_ | _, whole, fraction, exponent⟩
  · rw [if_neg Bool.false_ne_true, List.nil_append, List.append_assoc] at hc
    exact .inl (isDigit_of_mem_head hc)
  · cases hc
    exact .inr rfl

/-- **A numeral is read from what it is written as.** -/
theorem read?_render {n : Numeral} (hdigits : ∀ c ∈ n.fraction, c.isDigit) (hrest : Ends rest) :
    read? (n.render ++ rest) = some (n, rest) := by
  have hexponent := head_renderExponent n.exponent hrest
  have hunsigned (negative : Bool) : readUnsigned? negative
      (Text.ofNat n.whole ++ (renderFraction n.fraction ++ (renderExponent n.exponent ++ rest))) =
        some (⟨negative, n.whole, n.fraction, n.exponent⟩, rest) := by
    have hwhole := readWhole?_ofNat n.whole (head_renderFraction n.fraction
      fun c hc => (hexponent c hc).1)
    rw [readUnsigned?, hwhole]
    simp [readFraction?_render hdigits hexponent, readExponent?_render n.exponent hrest]
  rw [render_eq, List.append_assoc, List.append_assoc, List.append_assoc]
  rcases n with ⟨_ | _, whole, fraction, exponent⟩
  · -- a digit is no sign
    rw [if_neg Bool.false_ne_true, List.nil_append]
    unfold read?
    split
    next h =>
      have hsign : ('-' : Char).isDigit := isDigit_of_mem_head (congrArg List.head? h)
      cases hsign
    next => exact hunsigned false
  · exact hunsigned true

end BarcodeField.Json.Numeral
