import BarcodeField.Proofs.Plan.Lookup
import BarcodeField.Proofs.Profile.Validity
import BarcodeField.Proofs.Single.Product

/-!
# Sizes that are asked for

A font provider should see sizes above zero and up to the limit. A module width and a scale are each positive
when a size is made of them, but their product is rounded, and it is gone where it is small enough.

**The law** (`listed_size_bounds`): every size that a provider is asked for, under a checked profile, is a
number from zero to the limit. It is above zero just where module width times scale exceeds `2 ^ -150`, half of
the smallest positive number.
-/

namespace BarcodeField

open Single (value)

/-! ## The size of a line font -/

namespace LineFont

variable {font : LineFont} {width : Single}

/-- The size is the rounded product, or the largest size where the product does not stay below it. -/
theorem size_cases (width : Single) (hmax : .zero false < font.maxSize) :
    (font.size width = width * font.scale ∧ width * font.scale < font.maxSize) ∨
      (font.size width = font.maxSize ∧ ¬ width * font.scale < font.maxSize) := by
  have hnan : font.maxSize ≠ .nan := by
    rintro hnan
    obtain ⟨x, hplace, _⟩ := Single.pos_iff_place.mp hmax
    rw [hnan] at hplace
    cases hplace
  rw [size, Single.min]
  split
  next h => exact .inl ⟨rfl, h.resolve_right hnan⟩
  next h => exact .inr ⟨rfl, fun hlt => h (.inl hlt)⟩

/-- A size is a number between zero and the largest size, and the scale alone can make it zero. -/
theorem size_bounds (hscale : .zero false < font.scale) (hmax : .zero false < font.maxSize)
    (hwidth : .zero false < width) :
    .zero false ≤ font.size width ∧ font.size width ≤ font.maxSize ∧
      (.zero false < font.size width ↔ 1 / 2 ^ 150 < value width * value font.scale) := by
  rw [← Single.mul_pos_iff hwidth hscale]
  obtain ⟨p, hp, hnonneg⟩ := Single.nonneg_iff_place.mp (Single.nonneg_mul hwidth hscale)
  obtain ⟨x, hx, hpos⟩ := Single.pos_iff_place.mp hmax
  have hzero := Single.place_zero false
  rcases size_cases width hmax with ⟨hsize, hlt⟩ | ⟨hsize, hge⟩
  · rw [hsize]
    rw [Single.lt_iff_of_place hp hx] at hlt
    refine ⟨(Single.le_iff_of_place hzero hp).mpr hnonneg, (Single.le_iff_of_place hp hx).mpr hlt.le, Iff.rfl⟩
  · rw [hsize]
    rw [Single.lt_iff_of_place hp hx, not_lt] at hge
    refine ⟨(Single.le_iff_of_place hzero hx).mpr hpos.le, (Single.le_iff_of_place hx hx).mpr le_rfl, ?_⟩
    rw [Single.lt_iff_of_place hzero hx, Single.lt_iff_of_place hzero hp]
    exact iff_of_true hpos (hpos.trans_le hge)

end LineFont

/-! ## Sizes in requests -/

namespace Field

/-- A check of the profile that is given is a check of the one that holds. -/
theorem check_getD {profile : Option Profile} (h : ∀ p ∈ profile, p.check = .ok ()) :
    (profile.getD .standard).check = .ok () := by
  cases profile with
  | none => rfl
  | some p => exact h p rfl

/-- **Sizes that providers are asked for are usable, or nothing is left of them.** The list of a run is the same
for every provider; each size in it lies between zero and the limit, and it is positive just where the exact
product of module width and scale is more than half of the smallest positive number. -/
theorem listed_size_bounds {m : Type → Type} [Monad m] [LawfulMonad m] {profile : Option Profile}
    (hprofile : ∀ p ∈ profile, p.check = .ok ()) (field : Field) (fonts : FontProvider m) :
    (field.plan fonts.listing profile).run [] =
        (fun result => (result, field.fontRequests profile)) <$> field.plan fonts profile ∧
      ∀ key size, (key, size) ∈ field.fontRequests profile →
        .zero false ≤ size ∧ size ≤ .ofInt 72 ∧
          (.zero false < size ↔
            1 / 2 ^ 150 < value field.moduleWidth * value (profile.getD .standard).lineFont.scale) := by
  refine ⟨plan_listing_run fonts [], fun key size hrequest => ?_⟩
  obtain ⟨hwidth, rfl, rfl⟩ := mem_fontRequests_iff.mp hrequest
  have hcheck := check_getD hprofile
  obtain ⟨hmax, hlimit⟩ := Profile.maxSize_of_check hcheck
  obtain ⟨hnonneg, hle, hpos⟩ := LineFont.size_bounds (Profile.scale_pos_of_check hcheck) hmax hwidth
  exact ⟨hnonneg, Single.le_trans hle hlimit, hpos⟩

/-- A profile whose line font has a scale of its own. -/
def scaledProfile (scale : Single) : Profile :=
  { Profile.standard with lineFont := ⟨['A'], scale, .ofInt 72⟩ }

/-- A field with a module width of its own. -/
def fieldOfWidth (width : Single) : Field :=
  ⟨.code39, ['A'], width, 100, ⟨true, false⟩, ⟨.zero false, .zero false, false, .normal⟩⟩

/-- The smallest width is just not lost under a scale a little above one half. -/
theorem listed_size_bounds_smallest :
    let width := Decimal.toSingle false ⟨1, -45⟩
    let p := scaledProfile (Decimal.toSingle false ⟨50000006, -8⟩)
    let field := fieldOfWidth width
    p.check = .ok () ∧ field.fontRequests (some p) = [(['A'], width)] ∧ .zero false < width ∧
      width ≤ .ofInt 72 := by
  intro width p field
  have hcheck : p.check = .ok () := rfl
  have hprofile : ∀ p' ∈ some p, p'.check = .ok () := by
    intro p' h
    cases h
    exact hcheck
  have hrequests : field.fontRequests (some p) = [(['A'], width)] := by decide +kernel
  obtain ⟨_, hbounds⟩ := listed_size_bounds (m := Id) hprofile field p.measure
  obtain ⟨_, hle, hpos⟩ := hbounds ['A'] width (hrequests ▸ List.mem_singleton.mpr rfl)
  refine ⟨hcheck, hrequests, hpos.mpr ?_, hle⟩
  decide +kernel

/-- A width and a scale of `1e-30` each leave nothing of the size. -/
theorem not_forall_listed_size_pos :
    let p := scaledProfile (Decimal.toSingle false ⟨1, -30⟩)
    let field := fieldOfWidth (Decimal.toSingle false ⟨1, -30⟩)
    p.check = .ok () ∧ .zero false < field.moduleWidth ∧
      (Id.run ((field.plan (FontProvider.listing p.measure) (some p)).run [])).2 = [(['A'], .zero false)] ∧
      ¬ Single.zero false < .zero false := by
  intro p field
  exact ⟨rfl, by decide +kernel, by decide +kernel, Bool.false_ne_true⟩

end Field

end BarcodeField
