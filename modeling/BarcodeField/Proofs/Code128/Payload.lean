import BarcodeField.Code128.Content
import BarcodeField.Proofs.Escape.Fnc1

/-!
# Start codes in the payload of a Code 128 field

Data without stray start codes may still begin with one. Mode `N` consumes it, and literal modes leave it
where it stands. Modes `D` and `U` keep it too, but put characters in front of it; and mode `U` puts the
check digit behind, which is a start code's second half where it is a `9` behind a `>`.

**The law** (`startCodeAt_payload_iff`): behind the first character of a payload, start codes stand at these
places and at no other. So they are found in modes `D` and `U` only, at most one in the first and two in the
second.
-/

namespace BarcodeField.Code128

open Escape

/-! ## Mode `N` -/

theorem normalContent_append {symbology : Symbology} {code : Text} (hcode : startCode? symbology = some code)
    (rest : Text) : normalContent (code ++ rest) = ⟨symbology, encodeFnc1 rest, dropFnc1 rest⟩ := by
  rw [normalContent, splitStart?_eq_some_iff.mpr ⟨code, hcode, rfl⟩]
  rfl

/-- Mode `N` takes data as a start code and what stands behind it; data that begins with none is taken as if
subset B had been selected. -/
theorem normalContent_cases {data : Text} (h : StrayFree data) :
    ∃ symbology code rest, startCode? symbology = some code ∧
      (data = code ++ rest ∨ symbology = .code128B ∧ data = rest) ∧ StartCodeFree rest ∧
      normalContent data = ⟨symbology, encodeFnc1 rest, dropFnc1 rest⟩ := by
  cases hsplit : splitStart? data with
  | none =>
    have hlead : ¬ StartCodeAt data 0 := by
      rw [← splitStart?_isSome_iff, hsplit]
      exact Bool.false_ne_true
    refine ⟨.code128B, _, data, rfl, .inr ⟨rfl, rfl⟩, h.startCodeFree hlead, ?_⟩
    rw [normalContent, hsplit]
    rfl
  | some split =>
    obtain ⟨code, hcode, rfl⟩ := splitStart?_eq_some_iff.mp hsplit
    exact ⟨split.1, code, split.2, hcode, .inl rfl, h.startCodeFree_of_append hcode,
      normalContent_append hcode split.2⟩

theorem startCodeFree_normalContent {data : Text} (h : StrayFree data) :
    StartCodeFree (normalContent data).payload := by
  obtain ⟨_, _, _, _, _, hrest, hcontent⟩ := normalContent_cases h
  rw [hcontent]
  exact startCodeFree_encodeFnc1 hrest

/-! ## UCC/EAN data -/

theorem startCodeFree_leadWithFnc1 {payload : Text} (h : StartCodeFree payload) :
    StartCodeFree (leadWithFnc1 payload) := by
  cases payload with
  | nil => exact List.isChain_singleton fnc1
  | cons c payload =>
    by_cases hc : c = fnc1
    · rw [leadWithFnc1, if_pos hc]
      exact h
    · rw [leadWithFnc1, if_neg hc]
      exact List.isChain_cons_cons.mpr ⟨apart_fnc1_left c, h⟩

/-- FNC1 in front moves a leading start code by one. -/
theorem startCodeAt_uccEanContent {data : Text} (h : StrayFree data) {i : Nat} (hi : 0 < i) :
    StartCodeAt (uccEanContent data).payload i ↔ i = 1 ∧ StartCodeAt data 0 := by
  by_cases hlead : StartCodeAt data 0
  · obtain ⟨b, hb, hdata⟩ := startCodeAt_iff_drop.mp hlead
    rw [List.drop_zero] at hdata
    rw [hdata] at h
    have hpayload : (uccEanContent data).payload = fnc1 :: '>' :: encodeFnc1 (b :: data.drop 2) := by
      rw [uccEanContent, hdata, encodeFnc1_startCode hb]
      rfl
    -- what stands behind the leading `>` is free, and stays so
    have hfree : StartCodeFree (encodeFnc1 (b :: data.drop 2)) := startCodeFree_encodeFnc1 h
    obtain ⟨i, rfl⟩ := Nat.exists_eq_add_one_of_ne_zero hi.ne'
    rw [hpayload, startCodeAt_cons_succ]
    constructor
    · intro hcode
      cases i with
      | zero => exact ⟨rfl, hlead⟩
      | succ i => exact absurd hcode (startCodeFree_iff.mp hfree i)
    · rintro ⟨hi1, -⟩
      obtain rfl : i = 0 := by omega
      rw [encodeFnc1_cons_of_closes hb]
      exact startCodeAt_iff_drop.mpr ⟨b, hb, rfl⟩
  · have hfree := startCodeFree_leadWithFnc1 (startCodeFree_encodeFnc1 (h.startCodeFree hlead))
    exact ⟨fun hcode => absurd hcode (startCodeFree_iff.mp hfree i), fun hcode => absurd hcode.2 hlead⟩

/-! ## Case codes -/

/-- The nineteen characters show a leading start code behind the zeros, and no other. -/
theorem startCodeAt_pad {data : Text} (h : StrayFree data) {i : Nat} :
    StartCodeAt (CheckDigit.pad data) i ↔
      i = CheckDigit.dataLength - data.length ∧ StartCodeAt data 0 := by
  rw [CheckDigit.pad, startCodeAt_take, startCodeAt_replicate_append (by decide)]
  constructor
  · rintro ⟨_, hle, hcode⟩
    rcases Nat.eq_zero_or_pos (i - (CheckDigit.dataLength - data.length)) with h0 | hpos
    · rw [h0] at hcode
      exact ⟨by omega, hcode⟩
    · exact absurd hcode (strayFree_iff.mp h _ hpos)
  · rintro ⟨rfl, hcode⟩
    -- data with a start code has two characters, so there is room for both behind the zeros
    have hlength := hcode.lt_length
    rw [Nat.sub_self]
    refine ⟨?_, Nat.le_refl _, hcode⟩
    unfold CheckDigit.dataLength
    omega

theorem closes_digitChar_iff {d : Fin 10} :
    closes (CheckDigit.digitChar d) = true ↔ CheckDigit.digitChar d = '9' := by
  revert d
  decide

/-- The last of the nineteen characters is a `>`, and the check digit behind it is a `9`. -/
def JoinsCheckDigit (data : Text) : Prop :=
  (CheckDigit.pad data).getLast? = some '>' ∧
    CheckDigit.digitChar (CheckDigit.digit (CheckDigit.pad data)) = '9'

/-- Zeros in front move a leading start code, and the check digit can form one more. -/
theorem startCodeAt_uccCaseContent {data : Text} (h : StrayFree data) {i : Nat} (hi : 0 < i) :
    StartCodeAt (uccCaseContent data).payload i ↔
      (i = 1 + (CheckDigit.dataLength - data.length) ∧ StartCodeAt data 0) ∨
        (i = CheckDigit.dataLength ∧ JoinsCheckDigit data) := by
  obtain ⟨i, rfl⟩ := Nat.exists_eq_add_one_of_ne_zero hi.ne'
  rw [uccCaseContent, startCodeAt_cons_succ, startCodeAt_append_singleton, startCodeAt_pad h,
    CheckDigit.length_pad, closes_digitChar_iff]
  refine or_congr (and_congr_left fun _ => ?_) Iff.rfl
  omega

/-! ## All modes -/

/-- How far a mode moves a leading start code of the data. -/
def Mode.lead : Mode → Text → Nat
  | .uccEan, _ => 1
  | .uccCase, data => 1 + (CheckDigit.dataLength - data.length)
  | _, _ => 0

theorem Mode.lead_eq_zero {mode : Mode} (hD : mode ≠ .uccEan) (hU : mode ≠ .uccCase) (data : Text) :
    mode.lead data = 0 := by
  cases mode with
  | uccEan => exact absurd rfl hD
  | uccCase => exact absurd rfl hU
  | _ => rfl

/-- Modes other than `D` and `U` leave at most a leading start code. -/
theorem strayFree_modeContent {policy : UnknownModePolicy} {mode : Mode} {data : Text} {raw : Content}
    (h : StrayFree data) (hraw : modeContent policy mode data = .ok raw)
    (hD : mode ≠ .uccEan) (hU : mode ≠ .uccCase) : StrayFree raw.payload := by
  rcases modeContent_cases hraw with rfl | ⟨_, rfl⟩ | ⟨hmode, _⟩ | ⟨hmode, _⟩
  · exact (startCodeFree_normalContent h).strayFree
  · exact h
  · exact absurd hmode hD
  · exact absurd hmode hU

/-- **Where start codes stand behind the first character of a payload**: where the mode has moved a leading
start code of the data to, and where a check digit joins a `>`. -/
theorem startCodeAt_payload_iff {policy : UnknownModePolicy} {mode : Mode} {data : Text} {c : Content}
    (h : content policy mode data = .ok c) {i : Nat} (hi : 0 < i) :
    StartCodeAt c.payload i ↔
      (i = mode.lead (stripStray data) ∧ StartCodeAt (stripStray data) 0) ∨
        (mode = .uccCase ∧ i = CheckDigit.dataLength ∧ JoinsCheckDigit (stripStray data)) := by
  obtain ⟨raw, hraw, rfl⟩ := content_eq_ok_iff.mp h
  have hstray := strayFree_stripStray data
  by_cases hD : mode = .uccEan
  · subst hD
    cases hraw
    refine (startCodeAt_uccEanContent hstray hi).trans ⟨.inl, ?_⟩
    rintro (hlead | ⟨hU, -⟩)
    · exact hlead
    · cases hU
  · by_cases hU : mode = .uccCase
    · subst hU
      cases hraw
      refine (startCodeAt_uccCaseContent hstray hi).trans (or_congr Iff.rfl ?_)
      exact ⟨fun hjoins => ⟨rfl, hjoins⟩, And.right⟩
    · have hfree := strayFree_iff.mp (strayFree_modeContent hstray hraw hD hU) i hi
      refine ⟨fun hcode => absurd hcode hfree, ?_⟩
      rintro (⟨hlead, -⟩ | ⟨hcase, -⟩)
      · rw [Mode.lead_eq_zero hD hU] at hlead
        exact absurd hlead hi.ne'
      · exact absurd hcase hU

/-- Zeros move the leading start code to index 16, and the check digit forms another at index 19. -/
theorem startCodeAt_payload_iff_joined :
    content .normal (.ofFlag (some ['U'])) ['>', '9', '8', '>'] =
        .ok ⟨.code128C, fnc1 :: (List.replicate 15 '0' ++ ['>', '9', '8', '>', '9']), ['8']⟩ ∧
      0 < 19 ∧
      (StartCodeAt (fnc1 :: (List.replicate 15 '0' ++ ['>', '9', '8', '>', '9'])) 19 ↔
        (19 = Mode.lead .uccCase (stripStray ['>', '9', '8', '>']) ∧
            StartCodeAt (stripStray ['>', '9', '8', '>']) 0) ∨
          (Mode.uccCase = .uccCase ∧ 19 = CheckDigit.dataLength ∧
            JoinsCheckDigit (stripStray ['>', '9', '8', '>']))) := by
  have h : content .normal .uccCase ['>', '9', '8', '>'] =
      .ok ⟨.code128C, fnc1 :: (List.replicate 15 '0' ++ ['>', '9', '8', '>', '9']), ['8']⟩ := by cbv
  exact ⟨h, by decide, startCodeAt_payload_iff h (by decide)⟩

/-- Data that begins with a start code has it in the payload behind the FNC1 of mode `D`. -/
theorem not_forall_startCodeAt_payload_leading :
    ¬ ∀ (policy : UnknownModePolicy) (mode : Mode) (data : Text) (c : Content),
      content policy mode data = .ok c → ∀ i, StartCodeAt c.payload i → i = 0 := by
  intro h
  have hcontent : content .normal (.ofFlag (some ['D'])) ['>', '9', 'A'] =
      .ok ⟨.code128C, [fnc1, '>', '9', 'A'], ['A']⟩ := by cbv
  exact absurd (h _ _ _ _ hcontent 1 (by decide)) (by decide)

end BarcodeField.Code128
