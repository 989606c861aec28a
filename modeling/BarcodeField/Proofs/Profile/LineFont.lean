import BarcodeField.Proofs.Plan.Failure
import BarcodeField.Proofs.Profile.Validity

/-!
# The line font of a checked profile

A check looks for the line font among the profile's fonts as its very last rule. Planning looks for it again,
in the same table and for any size. So a profile that passes the check and serves as its own font table never
leaves a field without metrics.

**The law** (`plan_measure_of_check`): under such a profile and its table a Code 39 field of positive module
width always has a plan, and a Code 128 field lacks one just where the profile refuses its flag.
-/

namespace BarcodeField

namespace Profile

variable {p : Profile}

theorem isSome_font?_of_check (h : p.check = .ok ()) : (p.font? p.lineFont.key).isSome = true :=
  isSome_font?_iff.mpr (check_eq_ok_iff_valid.mp h).listed

/-- The entry that a key is found under measures its font at every size. -/
theorem measure_of_font? {key : Text} {entry : FontEntry} (h : p.font? key = some entry) (size : Single) :
    p.measure key size = .ok (entry.metrics size) := by
  have hfind : FontEntry.find? p.fonts key = some entry := h
  rw [measure, FontEntry.measure, hfind]

theorem exists_measure_of_check (h : p.check = .ok ()) :
    ∃ entry, p.font? p.lineFont.key = some entry ∧
      ∀ size, p.measure p.lineFont.key size = .ok (entry.metrics size) := by
  obtain ⟨entry, hentry⟩ := Option.isSome_iff_exists.mp (isSome_font?_of_check h)
  exact ⟨entry, hentry, measure_of_font? hentry⟩

end Profile

namespace Field

variable {p : Profile}

/-- A profile that passes the check brings the metrics itself. -/
theorem exists_plan_eq_planWith (h : p.check = .ok ()) {field : Field}
    (hpos : .zero false < field.moduleWidth) :
    ∃ metrics, Id.run (field.plan p.measure (some p)) = field.planWith metrics (some p) := by
  obtain ⟨entry, _, hmeasure⟩ := Profile.exists_measure_of_check h
  refine ⟨entry.metrics (p.lineFont.size field.moduleWidth), ?_⟩
  rw [plan_of_lookup (lookup_of_pos hpos)]
  exact congrArg (field.planFor (some p) _ _) (hmeasure _)

/-- **A checked profile plans every field by its own font table**, but for fields without a positive module
width, and for Code 128 fields whose flag it refuses. -/
theorem plan_measure_of_check (h : p.check = .ok ()) (field : Field) :
    (∀ key size reason, Id.run (field.plan p.measure (some p)) ≠ .error (.font key size reason)) ∧
      (.zero false < field.moduleWidth →
        (field.kind = .code39 → ∃ plan, Id.run (field.plan p.measure (some p)) = .ok plan) ∧
        ∀ mode, field.kind = .code128 mode → ∀ fault,
          (Id.run (field.plan p.measure (some p)) = .error fault ↔
            p.unknownMode = .reject ∧ Text.trim (mode.getD []) ∉ [[], ['N'], ['A'], ['D'], ['U']] ∧
              fault = .unknownMode (Text.trim (mode.getD [])))) := by
  by_cases hpos : .zero false < field.moduleWidth
  · obtain ⟨metrics, hplan⟩ := exists_plan_eq_planWith h hpos
    rw [hplan]
    refine ⟨fun key size reason hfont => ?_, fun _ => ⟨fun hkind => ?_, fun mode hkind fault => ?_⟩⟩
    · obtain ⟨_, _, _, _, hfault⟩ := (planWith_eq_error_iff hpos).mp hfont
      cases hfault
    · cases hresult : field.planWith metrics (some p) with
      | ok plan => exact ⟨plan, rfl⟩
      | error fault =>
        obtain ⟨_, _, hmode, _⟩ := (planWith_eq_error_iff hpos).mp hresult
        rw [hkind] at hmode
        cases hmode
    · rw [planWith_eq_error_iff hpos, hkind]
      refine and_congr_right fun _ => ⟨?_, fun ⟨hunknown, hfault⟩ => ⟨mode, rfl, hunknown, hfault⟩⟩
      rintro ⟨_, ⟨⟩, hunknown, hfault⟩
      exact ⟨hunknown, hfault⟩
  · rw [plan_of_refused (lookup_of_not_pos hpos)]
    exact ⟨fun _ _ _ => nofun, fun h => absurd h hpos⟩

/-- The blank before a flag is not part of the fault, and a small letter names no mode. -/
theorem plan_measure_of_check_refused :
    let p := { Profile.standard with unknownMode := .reject }
    let field : Field := ⟨.code128 (some [' ', 'n']), ['>', '9'], .ofInt 2, 100, ⟨true, false⟩,
      ⟨.zero false, .zero true, true, .bottom⟩⟩
    p.check = .ok () ∧ .zero false < field.moduleWidth ∧
      Id.run (field.plan p.measure (some p)) = .error (.unknownMode ['n']) := by
  intro p field
  have hcheck : p.check = .ok () := rfl
  have hpos : .zero false < field.moduleWidth := Single.isPositive_iff.mp rfl
  have hmode := ((plan_measure_of_check hcheck field).2 hpos).2 (some [' ', 'n']) rfl
  exact ⟨hcheck, hpos, (hmode _).mpr ⟨rfl, by decide, rfl⟩⟩

end Field

end BarcodeField
