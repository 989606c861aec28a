import BarcodeField.Proofs.Plan.Independence

/-!
# Heights of a plan

A field requests one height, and its plan has two: that of the line and that of the symbol beside it. Code 128 gives
the line a part of the requested height, and Code 39 adds the line to it. Which of the two holds is asked twice, of
the symbology for how far letters reach and of the field's kind for the symbol's height; a plan answers both alike.

**The law** (`balanced_of_planWith`): the two heights of a plan account for the requested one (`Balanced`), whatever
the line font measures. Metrics may be infinite, NaN or of the wrong sign: a line takes a whole number of dots from
none to as many as a height can hold.

A height is a number of 32 bits, and the sum or difference that is left for the symbol need not be one
(`symbolHeight_eq_ofInt`). The law is about plans whose symbol height can be held (`IsHeight`); then it is the exact
one (`toInt_symbolHeight`).
-/

namespace BarcodeField

/-! ## Whole numbers as heights -/

/-- A whole number that a height can hold. -/
def IsHeight (n : Int) : Prop := Int32.minValue.toInt ≤ n ∧ n ≤ Int32.maxValue.toInt

instance (n : Int) : Decidable (IsHeight n) := inferInstanceAs (Decidable (_ ∧ _))

/-! ## Layouts of a line -/

section Layout

variable (symbology : Symbology) (metrics : FontMetrics) (line : LineOptions)

theorem toInt_ofNat_dotsUp (extent : Single) : (Int32.ofNat extent.dotsUp).toInt = extent.dotsUp := by
  apply Int32.toInt_ofNat_of_lt
  have hmost : extent.dotsUp ≤ Single.mostDots := extent.dotsUp_le
  have hlimit : Single.mostDots < 2 ^ 31 := by decide
  omega

theorem height_lineLayout_nonneg : 0 ≤ (lineLayout symbology metrics line).height.toInt := by
  simp only [lineLayout]
  split
  · rw [toInt_ofNat_dotsUp]
    exact Int.natCast_nonneg _
  · exact Int.le_refl 0

theorem lineLayout_of_not_printed (h : line.isPrinted = false) :
    lineLayout symbology metrics line = ⟨0, 0⟩ := by
  simp [lineLayout, h]

end Layout

namespace Field

variable {field : Field} {profile : Option Profile}

/-! ## The symbol's height -/

/-- What is left for the symbol beside a line, reckoned in whole numbers without a bound. -/
def exactSymbolHeight (field : Field) (lineHeight : Int32) : Int :=
  if field.kind.isCode128 then field.height.toInt - lineHeight.toInt
  else field.height.toInt + lineHeight.toInt

/-- The symbol's height is the exact one, as far as 32 bits can hold it. -/
theorem symbolHeight_eq_ofInt (field : Field) (lineHeight : Int32) :
    field.symbolHeight lineHeight = Int32.ofInt (field.exactSymbolHeight lineHeight) := by
  rw [symbolHeight_eq, exactSymbolHeight]
  split
  · rw [Int32.ofInt_sub, Int32.ofInt_toInt, Int32.ofInt_toInt]
  · rw [Int32.ofInt_add, Int32.ofInt_toInt, Int32.ofInt_toInt]

theorem toInt_symbolHeight {lineHeight : Int32} (h : IsHeight (field.exactSymbolHeight lineHeight)) :
    (field.symbolHeight lineHeight).toInt = field.exactSymbolHeight lineHeight := by
  obtain ⟨hleast, hmost⟩ := h
  have hheld : (Int32.ofIntLE (field.exactSymbolHeight lineHeight) hleast hmost).toInt =
      field.exactSymbolHeight lineHeight := Int32.toInt_ofIntLE
  rw [symbolHeight_eq_ofInt]
  exact hheld

theorem symbolHeight_zero (field : Field) : field.symbolHeight 0 = field.height := by
  rw [symbolHeight_eq]
  by_cases hkind : field.kind.isCode128 = true
  · rw [if_pos hkind, Int32.sub_zero]
  · rw [if_neg hkind, Int32.add_zero]

/-! ## Plans -/

/-- The heights of a plan account for the height that its field requests. -/
structure Balanced (field : Field) (plan : Plan) : Prop where
  /-- A line never takes less than nothing. -/
  nonneg : 0 ≤ plan.line.height.toInt
  /-- A line above the symbol pushes it down by as much as the line takes. -/
  offset : plan.line.offset = if field.line.isAbove then plan.line.height else 0
  /-- The symbology is of the Code 128 family for the fields that are. -/
  family : plan.content.symbology.isCode128 = true ↔ ∃ mode, field.kind = .code128 mode
  /-- Code 128 takes the line out of the requested height. -/
  code128 : ∀ mode, field.kind = .code128 mode →
    plan.symbolHeight.toInt + plan.line.height.toInt = field.height.toInt
  /-- Code 39 puts the line on top of the requested height. -/
  code39 : field.kind = .code39 → plan.symbolHeight.toInt - plan.line.height.toInt = field.height.toInt
  /-- A line that is not printed takes nothing and leaves the symbol the requested height. -/
  unprinted : field.line.isPrinted = false →
    plan.line.height = 0 ∧ plan.line.offset = 0 ∧ plan.symbolHeight = field.height

/-- **The heights of a plan account for the requested height**, whatever the line font measures. -/
theorem balanced_of_planWith {metrics : FontMetrics} {plan : Plan}
    (h : field.planWith metrics profile = .ok plan)
    (hheight : IsHeight (field.exactSymbolHeight plan.line.height)) : Balanced field plan := by
  obtain ⟨_, content, hcontent, rfl⟩ := planWith_eq_ok_iff.mp h
  have hexact : (field.planOf metrics profile content).symbolHeight.toInt =
      field.exactSymbolHeight (field.planOf metrics profile content).line.height := toInt_symbolHeight hheight
  constructor
  case nonneg => exact height_lineLayout_nonneg _ _ _
  case offset => rfl
  case family =>
    show content.symbology.isCode128 = true ↔ _
    rw [isCode128_content hcontent]
    cases field.kind <;> simp [FieldKind.isCode128]
  case code128 =>
    intro mode hkind
    simp only [exactSymbolHeight, hkind, FieldKind.isCode128, if_true] at hexact
    omega
  case code39 =>
    intro hkind
    simp only [exactSymbolHeight, hkind, FieldKind.isCode128, Bool.false_eq_true, if_false] at hexact
    omega
  case unprinted =>
    intro hprinted
    have hline : lineLayout content.symbology metrics field.line = ⟨0, 0⟩ :=
      lineLayout_of_not_printed _ _ _ hprinted
    simp only [planOf, hline, symbolHeight_zero, and_self]

end Field

end BarcodeField
