import BarcodeField.Code128.Content
import BarcodeField.Proofs.Escape.Fnc1

/-!
# FNC1 in UCC/EAN data

A payload of mode `D` begins with FNC1, which tells a scanner that the data is UCC/EAN. The FNC1 may be the data's
own, written as `>8` or as the character itself; otherwise the mode puts one in front.

**The law** (`count_fnc1_payload_uccEan`): a mode `D` payload begins with FNC1, and it holds the FNC1 of the data
and no other but that first one. Nothing that the data brings is taken out, since an FNC1 marks an application
identifier and data may have several. So the payload holds a single FNC1 just where the data has none, or has one and
begins with it.

The data is told of after its stray start codes are deleted. That neither makes nor removes an FNC1 character
(`count_fnc1_stripStray`), but it can join a `>` and an `8` into an escape.
-/

namespace BarcodeField.Code128

open Escape

/-- The data begins with FNC1, as a character or as its escape. -/
def LeadsWithFnc1 (data : Text) : Prop := data.head? = some fnc1 ∨ fnc1Escape <+: data

instance (data : Text) : Decidable (LeadsWithFnc1 data) := inferInstanceAs (Decidable (_ ∨ _))

/-- How many FNC1 field data brings, as characters or, once stray start codes are deleted, as escapes. -/
def broughtFnc1 (data : Text) : Nat := data.count fnc1 + escapeCount (stripStray data)

theorem head?_leadWithFnc1 (payload : Text) : (leadWithFnc1 payload).head? = some fnc1 := by
  cases payload with
  | nil => rfl
  | cons c payload =>
    by_cases hc : c = fnc1
    · rw [leadWithFnc1, if_pos hc, List.head?_cons, hc]
    · rw [leadWithFnc1, if_neg hc, List.head?_cons]

theorem count_leadWithFnc1 (payload : Text) :
    (leadWithFnc1 payload).count fnc1 = payload.count fnc1 + if payload.head? = some fnc1 then 0 else 1 := by
  cases payload with
  | nil => rfl
  | cons c payload =>
    by_cases hc : c = fnc1
    · simp [leadWithFnc1, hc]
    · simp [leadWithFnc1, hc]

/-- A payload in mode `D` holds the FNC1 that the data brings, and one more where the data begins with none. -/
theorem count_payload_uccEanContent (data : Text) :
    (uccEanContent (stripStray data)).payload.count fnc1 =
      broughtFnc1 data + if LeadsWithFnc1 (stripStray data) then 0 else 1 := by
  show (leadWithFnc1 (encodeFnc1 (stripStray data))).count fnc1 = _
  rw [count_leadWithFnc1, count_encodeFnc1, count_fnc1_stripStray, ← broughtFnc1]
  exact congrArg (broughtFnc1 data + ·) (if_congr head?_encodeFnc1_eq_iff rfl rfl)

/-- **A payload in mode `D` begins with FNC1**, and holds one FNC1 in all just where the data brings none, or one
with which it begins. -/
theorem count_fnc1_payload_uccEan (policy : UnknownModePolicy) (data : Text) :
    ∃ c, content policy .uccEan data = .ok c ∧ c.payload.head? = some fnc1 ∧
      c.payload.count fnc1 = broughtFnc1 data + (if LeadsWithFnc1 (stripStray data) then 0 else 1) ∧
      (c.payload.count fnc1 ≤ 1 ↔
        broughtFnc1 data = 0 ∨ broughtFnc1 data = 1 ∧ LeadsWithFnc1 (stripStray data)) := by
  have hcount := count_payload_uccEanContent data
  refine ⟨_, rfl, head?_leadWithFnc1 _, hcount, ?_⟩
  show (uccEanContent (stripStray data)).payload.count fnc1 ≤ 1 ↔ _
  rw [hcount]
  by_cases hlead : LeadsWithFnc1 (stripStray data)
  · simp only [hlead, if_true, and_true]
    omega
  · simp only [hlead, if_false, and_false, or_false]
    omega

/-- Data of two parts, each behind an FNC1, is encoded with both. -/
theorem not_forall_count_fnc1_payload_uccEan_le_one :
    ¬ ∀ (policy : UnknownModePolicy) (data : Text) (c : Content), content policy .uccEan data = .ok c →
      c.payload.head? = some fnc1 ∧ c.payload.count fnc1 ≤ 1 := by
  intro h
  have hcontent : content .normal (.ofFlag (some ['D']))
      ['>', '8', '0', '1', '1', '2', '3', '4', '>', '8', '1', '0', 'A', 'B'] =
        .ok ⟨.code128C, [fnc1, '0', '1', '1', '2', '3', '4', fnc1, '1', '0', 'A', 'B'],
          ['0', '1', '1', '2', '3', '4', '1', '0', 'A', 'B']⟩ := by cbv
  exact absurd (h _ _ _ hcontent).2 (by decide)

end BarcodeField.Code128
