import BarcodeField.Proofs.Code128.Payload
import BarcodeField.Proofs.Plan.Failure

/-!
# Content and layout of a plan

A plan is made of two parts that take nothing from each other, but for one thing: how far the letters of a line
reach is reckoned by the symbology, and the symbology is a part of the content.

**The law** (`planWith_independent`): the layout of a plan hangs on the kind of its field, the module width, the
requested height, the line, the line font and the metrics; the content hangs on the kind, the mode flag, the data
and the policy for unknown flags. Neither hangs on what the other does.

What the layout asks of a symbology is only whether it is a Code 128 one, and that is the field's kind again
(`isCode128_content`): whatever a mode, a start code or a policy selects stays in the family.
-/

namespace BarcodeField

/-! ## The family of a symbology -/

namespace Code128

theorem isCode128_of_startCode? {s : Symbology} {code : Text} (h : Escape.startCode? s = some code) :
    s.isCode128 = true := by
  cases s with
  | code39Extended => cases h
  | _ => rfl

theorem isCode128_normalContent (data : Text) : (normalContent data).symbology.isCode128 = true := by
  rw [normalContent]
  cases hsplit : Escape.splitStart? data with
  | none => rfl
  | some split =>
    obtain ⟨_, hcode, _⟩ := Escape.splitStart?_eq_some_iff.mp hsplit
    exact isCode128_of_startCode? hcode

/-- Every mode stays in the Code 128 family. -/
theorem isCode128_content {policy : UnknownModePolicy} {mode : Mode} {data : Text} {c : Content}
    (h : content policy mode data = .ok c) : c.symbology.isCode128 = true := by
  obtain ⟨raw, hraw, rfl⟩ := content_eq_ok_iff.mp h
  show raw.symbology.isCode128 = true
  cases mode with
  | normal =>
    cases hraw
    exact isCode128_normalContent _
  | unknown flag =>
    cases policy <;> cases hraw
    · exact isCode128_normalContent _
    · rfl
  | _ =>
    cases hraw
    rfl

end Code128

/-- Whether a field is a Code 128 one, with or without a mode flag. -/
def FieldKind.isCode128 : FieldKind → Bool
  | .code128 _ => true
  | .code39 => false

/-- A line measures the same in all symbologies of a family. -/
theorem lineLayout_congr {s t : Symbology} (h : s.isCode128 = t.isCode128) (metrics : FontMetrics)
    (line : LineOptions) : lineLayout s metrics line = lineLayout t metrics line := by
  rw [lineLayout, lineLayout, Symbology.lineExtent, Symbology.lineExtent, h]

namespace Field

variable {field other : Field} {profile otherProfile : Option Profile}

/-- The symbology of a content is of the field's kind. -/
theorem isCode128_content {c : Content} (h : field.content profile = .ok c) :
    c.symbology.isCode128 = field.kind.isCode128 := by
  rw [content] at h
  cases hkind : field.kind with
  | code128 mode =>
    rw [hkind] at h
    exact Code128.isCode128_content h
  | code39 =>
    rw [hkind] at h
    cases h
    rfl

/-! ## What each part hangs on -/

/-- Of the kind, the symbol's height needs to know the family. -/
theorem symbolHeight_eq (field : Field) (lineHeight : Int32) :
    field.symbolHeight lineHeight =
      if field.kind.isCode128 then field.height - lineHeight else field.height + lineHeight := by
  rw [symbolHeight]
  cases field.kind <;> rfl

theorem content_congr (hkind : field.kind = other.kind) (hdata : field.data = other.data)
    (hpolicy : (profile.getD .standard).unknownMode = (otherProfile.getD .standard).unknownMode) :
    field.content profile = other.content otherProfile := by
  rw [content, content, hkind, hdata, hpolicy]

/-- Two contents get the same layout, if the fields that they are of ask for the same. -/
theorem planOf_layout (hkind : field.kind.isCode128 = other.kind.isCode128)
    (hwidth : field.moduleWidth = other.moduleWidth) (hheight : field.height = other.height)
    (hline : field.line = other.line) (metrics : FontMetrics) {c d : Content}
    (hc : field.content profile = .ok c) (hd : other.content profile = .ok d) :
    field.planOf metrics profile c =
      { other.planOf metrics profile d with content := c } := by
  have hfamily : c.symbology.isCode128 = d.symbology.isCode128 := by
    rw [isCode128_content hc, isCode128_content hd, hkind]
  rw [planOf, planOf, lineLayout_congr hfamily, symbolHeight_eq, symbolHeight_eq, hkind, hwidth, hheight, hline]

/-- **Content and layout take nothing from each other.** Fields of one kind that ask for the same width, height
and line are laid out in the same way, whatever their data, their modes and where they stand; and fields of the
same data and mode get the same content, or are refused for the same flag, whatever they ask for and whatever
font their lines are measured in. -/
theorem planWith_independent (field other : Field) :
    (∀ (metrics : FontMetrics) (profile : Option Profile) (plan otherPlan : Plan),
      field.kind.isCode128 = other.kind.isCode128 → field.moduleWidth = other.moduleWidth →
      field.height = other.height → field.line = other.line →
      field.planWith metrics profile = .ok plan → other.planWith metrics profile = .ok otherPlan →
        plan.font = otherPlan.font ∧ plan.fontSize = otherPlan.fontSize ∧
          plan.line.height = otherPlan.line.height ∧ plan.line.offset = otherPlan.line.offset ∧
          plan.symbolHeight = otherPlan.symbolHeight) ∧
    ∀ (metrics otherMetrics : FontMetrics) (profile otherProfile : Option Profile),
      field.kind = other.kind → field.data = other.data →
      (profile.getD .standard).unknownMode = (otherProfile.getD .standard).unknownMode →
      .zero false < field.moduleWidth → .zero false < other.moduleWidth →
        (∃ flag, field.planWith metrics profile = .error (.unknownMode flag) ∧
          other.planWith otherMetrics otherProfile = .error (.unknownMode flag)) ∨
        ∃ c plan otherPlan, field.content profile = .ok c ∧ other.content otherProfile = .ok c ∧
          field.planWith metrics profile = .ok plan ∧ plan.content = c ∧
          other.planWith otherMetrics otherProfile = .ok otherPlan ∧ otherPlan.content = c := by
  constructor
  · intro metrics profile plan otherPlan hkind hwidth hheight hline hplan hother
    obtain ⟨_, c, hc, rfl⟩ := planWith_eq_ok_iff.mp hplan
    obtain ⟨_, d, hd, rfl⟩ := planWith_eq_ok_iff.mp hother
    rw [planOf_layout hkind hwidth hheight hline metrics hc hd]
    exact ⟨rfl, rfl, rfl, rfl, rfl⟩
  · intro metrics otherMetrics profile otherProfile hkind hdata hpolicy hpos hotherPos
    have hcontent : field.content profile = other.content otherProfile := content_congr hkind hdata hpolicy
    rw [planWith_of_pos hpos, planWith_of_pos hotherPos, ← hcontent]
    cases hresult : field.content profile with
    | error fault =>
      obtain ⟨_, _, _, _, rfl⟩ := content_eq_error_iff.mp hresult
      exact .inl ⟨_, rfl, rfl⟩
    | ok c => exact .inr ⟨c, _, _, rfl, rfl, rfl, rfl, rfl, rfl⟩

/-- A case code and a bare start code are laid out alike; and a flag that one profile refuses is refused by
another one that refuses flags, however large the symbol. -/
theorem planWith_independent_refused :
    let field (mode : Option Text) (data : Text) (width : Int) (height : Int32) : Field :=
      ⟨.code128 mode, data, .ofInt width, height, ⟨true, true⟩, ⟨.zero false, .ofInt width, false, .bottom⟩⟩
    let caseCode := field (some ['U']) ['C', '>'] 2 100
    let bare := field none ['>', '9'] 2 100
    let small := field (some ['Q', ' ']) ['7'] 2 40
    let large := field (some ['Q', ' ']) ['7'] 3 400
    let metrics : FontMetrics := ⟨.ofInt (-8), .ofInt 2⟩
    let refusing (key : Text) : Profile :=
      { Profile.standard with lineFont := ⟨key, .ofInt 1, .ofInt 9⟩, unknownMode := .reject }
    (∃ plan otherPlan, caseCode.planWith metrics none = .ok plan ∧ bare.planWith metrics none = .ok otherPlan ∧
      plan.content.symbology ≠ otherPlan.content.symbology ∧ plan.line.height = otherPlan.line.height ∧
      plan.symbolHeight = otherPlan.symbolHeight) ∧
    ∃ flag, small.planWith metrics (some (refusing ['A'])) = .error (.unknownMode flag) ∧
      large.planWith ⟨.nan, .zero true⟩ (some (refusing ['B'])) = .error (.unknownMode flag) := by
  intro field caseCode bare small large metrics refusing
  have hpos (mode : Option Text) (data : Text) (height : Int32) :
      .zero false < (field mode data 2 height).moduleWidth := Single.isPositive_iff.mp rfl
  constructor
  · have hcase : caseCode.content none =
        .ok ⟨.code128C, fnc1 :: (List.replicate 17 '0' ++ ['C', '>', '9']), ['C']⟩ := by
      show Code128.content .normal (.ofFlag (some ['U'])) ['C', '>'] = _
      cbv
    have hbare : bare.content none = .ok ⟨.code128A, [], []⟩ := by
      show Code128.content .normal (.ofFlag none) ['>', '9'] = _
      cbv
    have hplan := planWith_of_content (hpos _ _ 100) hcase metrics
    have hother := planWith_of_content (hpos _ _ 100) hbare metrics
    obtain ⟨hlayout, _⟩ := planWith_independent caseCode bare
    obtain ⟨_, _, hheight, _, hsymbol⟩ := hlayout metrics none _ _ rfl rfl rfl rfl hplan hother
    exact ⟨_, _, hplan, hother, by decide, hheight, hsymbol⟩
  · obtain ⟨_, hcontent⟩ := planWith_independent small large
    have hresult := hcontent metrics ⟨.nan, .zero true⟩ (some (refusing ['A'])) (some (refusing ['B']))
      rfl rfl rfl (hpos _ _ 40) (Single.isPositive_iff.mp rfl)
    rcases hresult with hrefused | ⟨_, _, _, hmade, _⟩
    · exact hrefused
    · cases hmade

end Field

end BarcodeField
