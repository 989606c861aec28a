import BarcodeField.Proofs.Plan.Failure
import BarcodeField.Proofs.Text.Strip

/-!
# Mode flags

A flag is read by what stands between its blanks. That names a mode, or it names none and is kept for the profile to
decide on.

**The law** (`content_by_trimmed_flag`): blanks around a flag change neither the content of a field nor its plan, nor
the fault that refuses it. The flag of a mode is read as that mode again. Profiles agree on the content of a field just
where its flag names a mode; an unknown flag is kept without its blanks, and it is `N` to a profile that takes unknown
flags so.

A blank is any character that Unicode calls white space. Blanks inside a flag are a part of it.
-/

namespace BarcodeField

/-! ## Reading a flag -/

namespace Code128.Mode

/-- A flag is read by what stands between its blanks. -/
theorem ofFlag_congr {flag other : Option Text} (h : Text.trim (flag.getD []) = Text.trim (other.getD [])) :
    ofFlag flag = ofFlag other := by
  rw [ofFlag, ofFlag, h]

theorem ofFlag_append {before after : Text} (hbefore : Text.isBlank before = true) (flag : Text)
    (hafter : Text.isBlank after = true) : ofFlag (some (before ++ flag ++ after)) = ofFlag (some flag) :=
  ofFlag_congr (Text.strip_append (List.all_eq_true.mp hbefore) flag (List.all_eq_true.mp hafter))

theorem ne_nil_of_not_known {t : Text} (h : t ∉ knownFlags) : t ≠ [] := by
  rintro rfl
  exact h List.mem_cons_self

theorem ofFlag_some_of_not_known {flag : Text} (h : Text.trim flag ∉ knownFlags) :
    ofFlag (some flag) = .unknown (Text.trim flag) := ofFlag_of_not_known h

/-- The flag of a mode is the one it was read from, without its blanks; a blank flag becomes `N`. -/
theorem flag_ofFlag (flag : Option Text) :
    (ofFlag flag).flag =
      if Text.trim (flag.getD []) = [] then ['N'] else Text.trim (flag.getD []) := by
  by_cases hknown : Text.trim (flag.getD []) ∈ knownFlags
  · simp only [knownFlags, List.mem_cons, List.not_mem_nil, or_false] at hknown
    rcases hknown with h | h | h | h | h <;> rw [ofFlag, h] <;> rfl
  · rw [ofFlag_of_not_known hknown, if_neg (ne_nil_of_not_known hknown)]
    rfl

/-- The flag of a mode is read as that mode again. -/
theorem ofFlag_flag_ofFlag (flag : Option Text) : ofFlag (some (ofFlag flag).flag) = ofFlag flag := by
  rw [flag_ofFlag]
  by_cases hblank : Text.trim (flag.getD []) = []
  · -- a blank flag is read as no flag at all, which is `N`
    have hnone : ofFlag flag = ofFlag none := ofFlag_congr hblank
    rw [if_pos hblank, hnone]
    rfl
  · rw [if_neg hblank]
    exact ofFlag_congr (Text.strip_strip _ _)

end Code128.Mode

/-! ## Policies -/

namespace Code128

/-- A mode that is known leaves a policy nothing to decide. -/
theorem content_policy_congr {mode : Mode} (h : ∀ flag, mode ≠ .unknown flag) (p q : UnknownModePolicy)
    (data : Text) : content p mode data = content q mode data := by
  cases mode with
  | unknown flag => exact absurd rfl (h flag)
  | _ => rfl

end Code128

namespace Field

open Code128 (Mode knownFlags)

variable {field : Field} {flag other : Text} {profile : Option Profile}

/-- The field as a Code 128 one that carries a flag. -/
def withFlag (field : Field) (flag : Text) : Field := { field with kind := .code128 (some flag) }

theorem content_withFlag (field : Field) (flag : Text) (profile : Option Profile) :
    (field.withFlag flag).content profile =
      Code128.content (profile.getD .standard).unknownMode (.ofFlag (some flag)) field.data := rfl

/-- Blanks around a flag are not seen in the content. -/
theorem content_withFlag_append {before after : Text} (hbefore : Text.isBlank before = true)
    (hafter : Text.isBlank after = true) :
    (field.withFlag (before ++ flag ++ after)).content profile = (field.withFlag flag).content profile := by
  rw [content_withFlag, Mode.ofFlag_append hbefore flag hafter, content_withFlag]

/-- Of its flag, a plan shows the content alone. -/
theorem planWith_withFlag_congr
    (h : (field.withFlag flag).content profile = (field.withFlag other).content profile) (metrics : FontMetrics) :
    (field.withFlag flag).planWith metrics profile = (field.withFlag other).planWith metrics profile := by
  rw [planWith, planWith, h]
  rfl

theorem content_eq_of_known (h : Text.trim flag ∈ knownFlags) (profile otherProfile : Option Profile) :
    (field.withFlag flag).content profile = (field.withFlag flag).content otherProfile := by
  have hknown : ∀ t, Mode.ofFlag (some flag) ≠ .unknown t := by
    intro t hunknown
    obtain ⟨rfl, hnot⟩ := Mode.ofFlag_eq_unknown_iff.mp hunknown
    exact hnot h
  exact Code128.content_policy_congr hknown _ _ _

/-- A profile that refuses unknown flags refuses the field for what stands between the blanks of its flag. -/
theorem content_of_reject (h : Text.trim flag ∉ knownFlags)
    (hpolicy : (profile.getD .standard).unknownMode = .reject) :
    (field.withFlag flag).content profile = .error (.unknownMode (Text.trim flag)) :=
  content_eq_error_iff.mpr ⟨hpolicy, some flag, rfl, h, rfl⟩

/-- Profiles that treat unknown flags differently agree on a field just where its flag is known. -/
theorem trim_mem_knownFlags_iff :
    Text.trim flag ∈ knownFlags ↔
      ∀ profile otherProfile, (field.withFlag flag).content profile = (field.withFlag flag).content otherProfile := by
  refine ⟨content_eq_of_known, fun hagree => ?_⟩
  by_contra hunknown
  have hrefused : (field.withFlag flag).content (some { Profile.standard with unknownMode := .reject }) =
      .error (.unknownMode (Text.trim flag)) := content_of_reject hunknown rfl
  -- the standard profile refuses no flag
  rw [hagree _ none] at hrefused
  exact nomatch (content_eq_error_iff.mp hrefused).1

/-- An unknown flag is taken as `N` under the policy that says so. -/
theorem content_of_normal (h : Text.trim flag ∉ knownFlags)
    (hpolicy : (profile.getD .standard).unknownMode = .normal) :
    (field.withFlag flag).content profile = (field.withFlag ['N']).content profile := by
  rw [content_withFlag, Mode.ofFlag_some_of_not_known h, content_withFlag, hpolicy]
  rfl

/-- **A mode flag is what stands between its blanks**, and a profile has its say about an unknown one only. Blanks
put around a flag change nothing; the flag of the mode that was read is read as this mode again; a field has one content
under all profiles just where its flag names a mode; and any other flag is kept without its blanks. -/
theorem content_by_trimmed_flag (field : Field) (flag : Text) :
    (∀ before after, Text.isBlank before = true → Text.isBlank after = true → ∀ profile,
        (field.withFlag (before ++ flag ++ after)).content profile = (field.withFlag flag).content profile ∧
          ∀ metrics, (field.withFlag (before ++ flag ++ after)).planWith metrics profile =
            (field.withFlag flag).planWith metrics profile) ∧
      Mode.ofFlag (some (Mode.ofFlag (some flag)).flag) = .ofFlag (some flag) ∧
      (Text.trim flag ∈ [[], ['N'], ['A'], ['D'], ['U']] ↔
        ∀ profile otherProfile,
          (field.withFlag flag).content profile = (field.withFlag flag).content otherProfile) ∧
      (Text.trim flag ∉ [[], ['N'], ['A'], ['D'], ['U']] →
        Mode.ofFlag (some flag) = .unknown (Text.trim flag) ∧ Text.trim flag ≠ [] ∧
          Text.Stripped Text.isBlankChar (Text.trim flag) ∧
          ∀ profile : Option Profile,
            ((profile.getD .standard).unknownMode = .normal →
              (field.withFlag flag).content profile = (field.withFlag ['N']).content profile) ∧
            ((profile.getD .standard).unknownMode = .reject →
              (field.withFlag flag).content profile = .error (.unknownMode (Text.trim flag)))) := by
  refine ⟨?_, Mode.ofFlag_flag_ofFlag (some flag), trim_mem_knownFlags_iff, ?_⟩
  · intro before after hbefore hafter profile
    have hcontent : (field.withFlag (before ++ flag ++ after)).content profile =
        (field.withFlag flag).content profile := content_withFlag_append hbefore hafter
    exact ⟨hcontent, planWith_withFlag_congr hcontent⟩
  · intro hunknown
    exact ⟨Mode.ofFlag_some_of_not_known hunknown, Mode.ne_nil_of_not_known hunknown, Text.stripped_strip _ flag,
      fun _ => ⟨content_of_normal hunknown, content_of_reject hunknown⟩⟩

/-- All blanks around the flag go, a line break and an ideographic space among them, and the blank inside stays. So the
flag is unknown, although each of its letters alone names a mode. -/
theorem content_by_trimmed_flag_inner_blank :
    let field : Field := ⟨.code39, ['>', '9', 'A'], .ofInt 2, 100, ⟨true, false⟩,
      ⟨.zero false, .zero false, false, .normal⟩⟩
    let refusing := some { Profile.standard with unknownMode := .reject }
    let flag : Text := [' ', 'N', ' ', 'A', Char.ofNat 0xA0]
    Text.isBlank ['\n', Char.ofNat 0x3000] = true ∧ Text.isBlank [Char.ofNat 0x2028] = true ∧
      Text.trim flag ∉ [[], ['N'], ['A'], ['D'], ['U']] ∧
      (field.withFlag (['\n', Char.ofNat 0x3000] ++ flag ++ [Char.ofNat 0x2028])).content refusing =
        .error (.unknownMode ['N', ' ', 'A']) ∧
      (field.withFlag flag).content none = .ok ⟨.code128A, ['A'], ['A']⟩ := by
  intro field refusing flag
  have hbefore : Text.isBlank ['\n', Char.ofNat 0x3000] = true := by decide
  have hafter : Text.isBlank [Char.ofNat 0x2028] = true := by decide
  have htrim : Text.trim flag = ['N', ' ', 'A'] := by decide
  have hunknown : Text.trim flag ∉ [[], ['N'], ['A'], ['D'], ['U']] := by decide
  have hnormal : Code128.content .normal .normal ['>', '9', 'A'] = .ok ⟨.code128A, ['A'], ['A']⟩ := by cbv
  obtain ⟨hblanks, _, _, hkept⟩ := content_by_trimmed_flag field flag
  obtain ⟨_, _, _, hprofile⟩ := hkept hunknown
  refine ⟨hbefore, hafter, hunknown, ?_, ?_⟩
  · rw [(hblanks _ _ hbefore hafter refusing).1, (hprofile refusing).2 rfl, htrim]
  · exact ((hprofile none).1 rfl).trans hnormal

end Field

end BarcodeField
