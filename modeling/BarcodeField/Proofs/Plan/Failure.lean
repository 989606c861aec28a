import BarcodeField.Plan

/-!
# Why a field has no plan

Three things go wrong, and each has its place: a module width is refused before anybody is asked for a
font, a font that cannot be measured ends the matter, and only then is a mode flag refused.

**The law** (`planWith_eq_error_iff`): once metrics are there, a field of positive module width lacks a plan
for one reason only. It is a Code 128 field, its flag is none of the known ones, and the profile refuses such
flags; the fault then names the flag without the blanks around it.
-/

namespace BarcodeField

/-! ## Refused flags -/

namespace Code128

/-- The flags that stand for a mode, without the blanks around them; the empty one stands for `N`. -/
def knownFlags : List Text := [[], ['N'], ['A'], ['D'], ['U']]

theorem Mode.ofFlag_of_not_known {flag : Option Text} (h : Text.trim (flag.getD []) ∉ knownFlags) :
    ofFlag flag = .unknown (Text.trim (flag.getD [])) := by
  simp only [knownFlags, List.mem_cons, List.not_mem_nil, or_false, not_or] at h
  obtain ⟨hempty, hN, hA, hD, hU⟩ := h
  unfold ofFlag
  split <;> first | contradiction | rfl

theorem Mode.ofFlag_eq_unknown_iff {flag : Option Text} {t : Text} :
    ofFlag flag = .unknown t ↔ t = Text.trim (flag.getD []) ∧ t ∉ knownFlags := by
  constructor
  · intro hunknown
    by_cases hknown : Text.trim (flag.getD []) ∈ knownFlags
    · simp only [knownFlags, List.mem_cons, List.not_mem_nil, or_false] at hknown
      rcases hknown with h | h | h | h | h <;> rw [ofFlag, h] at hunknown <;> cases hunknown
    · rw [ofFlag_of_not_known hknown] at hunknown
      obtain rfl := Mode.unknown.inj hunknown
      exact ⟨rfl, hknown⟩
  · rintro ⟨rfl, hunknown⟩
    exact ofFlag_of_not_known hunknown

theorem content_eq_error_iff {policy : UnknownModePolicy} {mode : Mode} {data : Text} {fault : Fault} :
    content policy mode data = .error fault ↔
      policy = .reject ∧ ∃ flag, mode = .unknown flag ∧ fault = .unknownMode flag := by
  have accepted {c : Content} (h : modeContent policy mode (Escape.stripStray data) = .ok c) :
      content policy mode data ≠ .error fault := by
    rw [content, h]
    exact nofun
  cases mode with
  | unknown flag =>
    cases policy with
    | reject =>
      constructor
      · intro h
        cases h
        exact ⟨rfl, flag, rfl, rfl⟩
      · rintro ⟨_, _, ⟨⟩, rfl⟩
        rfl
    | normal => exact ⟨fun h => absurd h (accepted rfl), fun h => nomatch h.1⟩
    | passthrough => exact ⟨fun h => absurd h (accepted rfl), fun h => nomatch h.1⟩
  | _ =>
    refine ⟨fun h => absurd h (accepted rfl), ?_⟩
    rintro ⟨_, _, ⟨⟩, _⟩

end Code128

namespace Field

variable {field : Field} {profile : Option Profile} {fault : Fault}

theorem content_eq_error_iff :
    field.content profile = .error fault ↔
      (profile.getD .standard).unknownMode = .reject ∧
        ∃ mode, field.kind = .code128 mode ∧ Text.trim (mode.getD []) ∉ Code128.knownFlags ∧
          fault = .unknownMode (Text.trim (mode.getD [])) := by
  unfold content
  cases field.kind with
  | code39 => exact ⟨nofun, fun ⟨_, _, h, _⟩ => nomatch h⟩
  | code128 mode =>
    simp only [Code128.content_eq_error_iff, Code128.Mode.ofFlag_eq_unknown_iff, FieldKind.code128.injEq]
    refine and_congr_right fun _ => ?_
    constructor
    · rintro ⟨_, ⟨rfl, hunknown⟩, hfault⟩
      exact ⟨mode, rfl, hunknown, hfault⟩
    · rintro ⟨_, rfl, hunknown, hfault⟩
      exact ⟨_, ⟨rfl, hunknown⟩, hfault⟩

/-! ## Refused module widths -/

theorem checkWidth_of_pos (h : .zero false < field.moduleWidth) : field.checkWidth = .ok () := by
  rw [checkWidth, if_pos (Single.isPositive_iff.mpr h)]

theorem checkWidth_of_not_pos (h : ¬ .zero false < field.moduleWidth) :
    field.checkWidth = .error (.moduleWidth field.moduleWidth) := by
  rw [checkWidth, if_neg fun hpos => h (Single.isPositive_iff.mp hpos)]

/-- The font that a field's line is looked up in, and its size, where the module width is positive. -/
theorem lookup_of_pos (h : .zero false < field.moduleWidth) :
    field.lookup profile = .ok ((profile.getD .standard).lineFont.key,
      (profile.getD .standard).lineFont.size field.moduleWidth) := by
  rw [lookup, checkWidth_of_pos h]
  rfl

theorem lookup_of_not_pos (h : ¬ .zero false < field.moduleWidth) :
    field.lookup profile = .error (.moduleWidth field.moduleWidth) := by
  rw [lookup, checkWidth_of_not_pos h]
  rfl

/-! ## Plans with given metrics -/

/-- The plan that given metrics make of a content. -/
def planOf (field : Field) (metrics : FontMetrics) (profile : Option Profile) (content : Content) : Plan :=
  let font := (profile.getD .standard).lineFont
  let line := lineLayout content.symbology metrics field.line
  ⟨content, font.key, font.size field.moduleWidth, line, field.symbolHeight line.height⟩

theorem planWith_of_pos (h : .zero false < field.moduleWidth) (metrics : FontMetrics) :
    field.planWith metrics profile = (field.content profile).map (field.planOf metrics profile) := by
  rw [planWith, checkWidth_of_pos h]
  cases field.content profile <;> rfl

theorem planWith_of_not_pos (h : ¬ .zero false < field.moduleWidth) (metrics : FontMetrics) :
    field.planWith metrics profile = .error (.moduleWidth field.moduleWidth) := by
  rw [planWith, checkWidth_of_not_pos h]
  rfl

theorem planWith_of_content (h : .zero false < field.moduleWidth) {content : Content}
    (hcontent : field.content profile = .ok content) (metrics : FontMetrics) :
    field.planWith metrics profile = .ok (field.planOf metrics profile content) := by
  rw [planWith_of_pos h, hcontent]
  rfl

/-- A plan shows that the width was accepted and the content made. -/
theorem planWith_eq_ok_iff {metrics : FontMetrics} {plan : Plan} :
    field.planWith metrics profile = .ok plan ↔
      .zero false < field.moduleWidth ∧
        ∃ content, field.content profile = .ok content ∧ plan = field.planOf metrics profile content := by
  constructor
  · intro h
    by_cases hpos : .zero false < field.moduleWidth
    · rw [planWith_of_pos hpos] at h
      cases hcontent : field.content profile with
      | error _ =>
        rw [hcontent] at h
        cases h
      | ok content =>
        rw [hcontent] at h
        cases h
        exact ⟨hpos, content, rfl, rfl⟩
    · rw [planWith_of_not_pos hpos] at h
      cases h
  · rintro ⟨hpos, content, hcontent, rfl⟩
    exact planWith_of_content hpos hcontent metrics

theorem planWith_eq_error_iff_content (h : .zero false < field.moduleWidth) {metrics : FontMetrics} :
    field.planWith metrics profile = .error fault ↔ field.content profile = .error fault := by
  rw [planWith_of_pos h]
  cases field.content profile with
  | error _ =>
    constructor
    · rintro ⟨⟩
      rfl
    · rintro ⟨⟩
      rfl
  | ok _ => exact ⟨nofun, nofun⟩

/-- With metrics at hand and a positive module width, a plan fails just where a flag is refused. -/
theorem planWith_eq_error_iff (h : .zero false < field.moduleWidth) {metrics : FontMetrics} :
    field.planWith metrics profile = .error fault ↔
      (profile.getD .standard).unknownMode = .reject ∧
        ∃ mode, field.kind = .code128 mode ∧ Text.trim (mode.getD []) ∉ Code128.knownFlags ∧
          fault = .unknownMode (Text.trim (mode.getD [])) :=
  (planWith_eq_error_iff_content h).trans content_eq_error_iff

/-! ## Plans with a font provider -/

/-- What a plan comes to, once its font provider has answered. -/
def planFor (field : Field) (profile : Option Profile) (key : Text) (size : Single) :
    Except String FontMetrics → Except Fault Plan
  | .ok metrics => field.planWith metrics profile
  | .error reason => .error (.font key size reason)

section Provider

variable {m : Type → Type} [Monad m] {fonts : FontProvider m}

theorem plan_of_refused (h : field.lookup profile = .error fault) :
    field.plan fonts profile = pure (.error fault) := by
  rw [plan, h]

/-- The provider is asked once, and its answer decides. -/
theorem plan_of_lookup [LawfulMonad m] {key : Text} {size : Single}
    (h : field.lookup profile = .ok (key, size)) :
    field.plan fonts profile = field.planFor profile key size <$> fonts key size := by
  rw [plan, h, map_eq_pure_bind]
  refine bind_congr fun answer => ?_
  cases answer <;> rfl

end Provider

end Field

end BarcodeField
