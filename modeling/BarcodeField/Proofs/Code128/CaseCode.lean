import BarcodeField.Proofs.CheckDigit.WeightedSum
import BarcodeField.Proofs.Code128.Payload
import BarcodeField.Proofs.Escape.Deletion

/-!
# Case codes

In mode `U` the payload is FNC1, nineteen characters and the check digit over them; the line is the data and that
digit, scrubbed.

**The laws.** Whatever the data, the line ends in the check digit as the payload does, unless the digit is a `9` and
the scrubbed data ends in a `>`: side by side the two are a start code, and no line shows one
(`getLast?_line_uccCase`). Of data that is digits and nothing else, the check digit is the one that a person computes
from the right, and the payload is the line behind FNC1 and zeros (`content_uccCase_digits`).
-/

namespace BarcodeField.Code128

open Escape CheckDigit

/-! ## The check digit on the line -/

/-- The check digit of field data in mode `U`, as it is encoded. -/
def caseCheck (data : Text) : Char := digitChar (digit (pad (stripStray data)))

theorem isDigit_digitChar (d : Fin 10) : (digitChar d).isDigit = true := by
  revert d
  decide

theorem caseCheck_ne_fnc1 (data : Text) : caseCheck data ≠ fnc1 := by
  intro h
  have hdigit : (caseCheck data).isDigit = true := isDigit_digitChar _
  rw [h] at hdigit
  exact absurd hdigit (by decide)

theorem content_uccCase (policy : UnknownModePolicy) (data : Text) :
    content policy .uccCase data =
      .ok ⟨.code128C, fnc1 :: (pad (stripStray data) ++ [caseCheck data]),
        scrub (stripStray data ++ [caseCheck data])⟩ := rfl

/-- The check digit takes back a `>` that the scrubbed data leaves open, or it stays. -/
theorem line_uccCase (data : Text) :
    scrub (stripStray data ++ [caseCheck data]) =
      if (scrub data).getLast? = some '>' ∧ caseCheck data = '9' then (scrub data).dropLast
      else scrub data ++ [caseCheck data] := by
  have hcloses : closes (caseCheck data) = true ↔ caseCheck data = '9' := closes_digitChar_iff
  simp only [scrub_concat _ (caseCheck_ne_fnc1 data), scrub_stripStray, hcloses]

/-- **The line ends in the check digit as the payload does**, but where the digit is a `9` that takes back a `>`.
What then is the last character is another one, unless it happens to be a `9` too. -/
theorem getLast?_line_uccCase (policy : UnknownModePolicy) (data : Text) :
    ∃ c, content policy .uccCase data = .ok c ∧
      c.payload.getLast? = some (caseCheck data) ∧
      c.line = (if (scrub data).getLast? = some '>' ∧ caseCheck data = '9' then (scrub data).dropLast
        else scrub data ++ [caseCheck data]) ∧
      (c.line.getLast? = c.payload.getLast? ↔
        ¬ (caseCheck data = '9' ∧ ∃ shown, scrub data = shown ++ ['>'] ∧ shown.getLast? ≠ some '9')) := by
  refine ⟨_, content_uccCase policy data, ?_, line_uccCase data, ?_⟩
  · rw [← List.cons_append, List.getLast?_concat]
  rw [line_uccCase, ← List.cons_append, List.getLast?_concat]
  by_cases hjoins : (scrub data).getLast? = some '>' ∧ caseCheck data = '9'
  · obtain ⟨hopen, hnine⟩ := hjoins
    obtain ⟨shown, hshown⟩ := List.getLast?_eq_some_iff.mp hopen
    rw [if_pos ⟨hopen, hnine⟩, hshown, List.dropLast_concat, hnine]
    constructor
    · rintro hlast ⟨_, other, hother, hne⟩
      obtain rfl : shown = other := List.append_cancel_right hother
      exact hne hlast
    · intro hkept
      by_contra hne
      exact hkept ⟨rfl, shown, rfl, hne⟩
  · rw [if_neg hjoins, List.getLast?_concat]
    refine iff_of_true rfl ?_
    rintro ⟨hnine, shown, hshown, _⟩
    exact hjoins ⟨by rw [hshown, List.getLast?_concat], hnine⟩

/-- The check digit of `C>` is a `9`, and the line does not show it. -/
theorem not_forall_getLast?_line_uccCase :
    ¬ ∀ (policy : UnknownModePolicy) (data : Text) (c : Content), content policy .uccCase data = .ok c →
      c.line.getLast? = c.payload.getLast? := by
  intro h
  have hcontent : content .normal (.ofFlag (some ['U'])) ['C', '>'] =
      .ok ⟨.code128C, fnc1 :: (List.replicate 17 '0' ++ ['C', '>', '9']), ['C']⟩ := by cbv
  exact absurd (h _ _ _ hcontent) (by decide)

/-! ## Digits -/

/-- Digits are printed and encoded as they stand. -/
theorem stripStray_digits {digits : Text} (h : ∀ c ∈ digits, c.isDigit = true) : stripStray digits = digits := by
  have hopen : '>' ∉ digits := fun hmem => absurd (h _ hmem) (by decide)
  exact stripStray_of_strayFree (startCodeFree_of_not_mem hopen).strayFree

theorem scrub_digits {digits : Text} (h : ∀ c ∈ digits, c.isDigit = true) : scrub digits = digits :=
  scrub_of_not_mem (fun hmem => absurd (h _ hmem) (by decide)) fun hmem => absurd (h _ hmem) (by decide)

/-- The content of a case code of digits: the line shows all of them. -/
theorem content_uccCase_of_isDigit (policy : UnknownModePolicy) {digits : Text}
    (h : ∀ c ∈ digits, c.isDigit = true) :
    content policy .uccCase digits =
      .ok ⟨.code128C, fnc1 :: (pad digits ++ [digitChar (digit (pad digits))]),
        digits ++ [digitChar (digit (pad digits))]⟩ := by
  have hline : ∀ c ∈ digits ++ [digitChar (digit (pad digits))], c.isDigit = true :=
    List.forall_mem_append.mpr ⟨h, List.forall_mem_singleton.mpr (isDigit_digitChar _)⟩
  rw [content_uccCase, caseCheck, stripStray_digits h, scrub_digits hline]

/-- **Case codes of digits.** Up to nineteen digits are weighted from the right, 7 and 9 in turn; the payload is
FNC1, zeros and the line, and any of these zeros may as well stand in the data. Of more digits the first nineteen
are weighted from the left and are encoded, and the line shows all. -/
theorem content_uccCase_digits (policy : UnknownModePolicy) {digits : Text}
    (h : ∀ c ∈ digits, c.isDigit = true) :
    let check := digit (pad digits)
    ∃ c, content policy .uccCase digits = .ok c ∧ c.line = digits ++ [digitChar check] ∧
      (digits.length ≤ 19 →
        check.val = alternatingSum digits.reverse % 10 ∧
          c.payload = fnc1 :: (List.replicate (19 - digits.length) '0' ++ c.line) ∧
          ∀ k, k + digits.length ≤ 19 →
            ∃ c', content policy .uccCase (List.replicate k '0' ++ digits) = .ok c' ∧ c'.payload = c.payload) ∧
      (19 < digits.length →
        check.val = alternatingSum (digits.take 19) % 10 ∧
          c.payload = fnc1 :: (digits.take 19 ++ [digitChar check])) := by
  intro check
  refine ⟨_, content_uccCase_of_isDigit policy h, rfl, fun hshort => ⟨?_, ?_, fun k hk => ?_⟩,
    fun hlong => ⟨?_, ?_⟩⟩
  · exact digit_pad_of_length_le h hshort
  · show fnc1 :: (pad digits ++ [digitChar check]) =
      fnc1 :: (List.replicate (dataLength - digits.length) '0' ++ (digits ++ [digitChar check]))
    rw [← List.append_assoc, ← pad_of_length_le hshort]
  · have hzeros : ∀ c ∈ List.replicate k '0' ++ digits, c.isDigit = true :=
      List.forall_mem_append.mpr ⟨fun c hc => List.eq_of_mem_replicate hc ▸ rfl, h⟩
    refine ⟨_, content_uccCase_of_isDigit policy hzeros, ?_⟩
    rw [pad_zeros_append hk]
  · exact digit_pad_of_le_length h hlong.le
  · show fnc1 :: (pad digits ++ [digitChar check]) = fnc1 :: (digits.take dataLength ++ [digitChar check])
    rw [← pad_of_le_length hlong.le]

/-- Four digits get fifteen zeros, of which data may bring three itself; and of twenty digits the last one is printed
but not encoded. -/
theorem content_uccCase_digits_short_long :
    let short : Text := ['1', '2', '3', '4']
    let long : Text := short ++ List.replicate 16 '5'
    (∃ c, content .reject .uccCase short = .ok c ∧ c.line = short ++ ['8'] ∧
      8 = alternatingSum short.reverse % 10 ∧ c.payload = fnc1 :: (List.replicate 15 '0' ++ c.line) ∧
      ∃ c', content .reject .uccCase (List.replicate 3 '0' ++ short) = .ok c' ∧ c'.payload = c.payload) ∧
    ∃ c, content .reject .uccCase long = .ok c ∧ c.line = long ++ ['7'] ∧
      7 = alternatingSum (long.take 19) % 10 ∧ c.payload = fnc1 :: (long.take 19 ++ ['7']) := by
  intro short long
  have hdigits : ∀ c ∈ short, c.isDigit = true := List.all_eq_true.mp rfl
  have hlongDigits : ∀ c ∈ long, c.isDigit = true := List.all_eq_true.mp rfl
  have hfour : digit (pad short) = 8 := by cbv
  have htwenty : digit (pad long) = 7 := by cbv
  obtain ⟨c, hc, hline, hshort, _⟩ := content_uccCase_digits .reject hdigits
  obtain ⟨hsum, hpayload, hzeros⟩ := hshort (by decide)
  obtain ⟨d, hd, hdline, _, hlong⟩ := content_uccCase_digits .reject hlongDigits
  obtain ⟨hdsum, hdpayload⟩ := hlong (by decide)
  rw [hfour] at hline hsum
  rw [htwenty] at hdline hdsum hdpayload
  exact ⟨⟨c, hc, hline, hsum, hpayload, hzeros 3 (by decide)⟩, d, hd, hdline, hdsum, hdpayload⟩

end BarcodeField.Code128
