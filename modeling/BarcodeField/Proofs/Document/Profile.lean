import BarcodeField.CommandLine.Run
import BarcodeField.Proofs.Json.Record
import BarcodeField.Proofs.Profile.Validity
import BarcodeField.Proofs.Single.Product

/-!
# Profile documents come back

A profile that was loaded is written out for people to edit and load again. Everything in it can be written but an
infinity, which a document can ask for with a number out of range and the check of a profile does not refuse: as a
scale, an ascent or a descent. It is written as null, and null is no number to the reader.

**The law** (`load_saved`): a loaded profile is loaded again from its document, as it is, just where its scale and
the metrics of its fonts are finite; else its document cannot be read.
-/

namespace BarcodeField

open Json (Value)

/-! ## Finite numbers -/

namespace Single

theorem signed_le (negative : Bool) (g : Nat) : signed negative g ≤ g := by
  unfold signed
  split <;> omega

/-- A positive number that is not above a finite one is finite. -/
theorem isFinite_of_le {a b : Single} (ha : zero false < a) (hab : a ≤ b) (hb : b.isFinite) : a.isFinite := by
  rcases pos_cases ha with rfl | ⟨g, fits, small, rfl, _⟩
  · obtain ⟨x, y, hx, hy, hxy⟩ := le_iff.mp hab
    cases b with
    | nan => cases hb
    | infinity negative => cases hb
    | finite negative g fits small =>
      cases hx
      cases hy
      have hle : (limit : Int) ≤ g := Int.le_trans hxy (signed_le negative g)
      exact absurd (Int.ofNat_le.mp hle) (Nat.not_le.mpr small)
  · rfl

end Single

/-! ## Parts -/

namespace LineFont

theorem ofValue?_toValue (font : LineFont) :
    ofValue? font.toValue = if font.scale.isFinite && font.maxSize.isFinite then some font else none := by
  rw [ofValue?, toValue, Value.fields?_record (by simp)]
  cases hscale : font.scale.isFinite <;> cases hmax : font.maxSize.isFinite <;>
    simp [List.lookup_cons, Value.single?_single, hscale, hmax]

theorem storable_toValue (font : LineFont) {levels : Nat} (h : 0 < levels) :
    Value.Storable levels font.toValue := by
  apply Value.storable_record h
  simp

end LineFont

namespace FontEntry

/-- Whether an entry's numbers can be written. -/
def isExpressible (entry : FontEntry) : Bool := entry.ascent.isFinite && entry.descent.isFinite

theorem ofValue?_toValue (entry : FontEntry) :
    ofValue? entry.toValue = if entry.isExpressible then some entry else none := by
  rw [ofValue?, toValue, Value.fields?_record (by simp)]
  cases hascent : entry.ascent.isFinite <;> cases hdescent : entry.descent.isFinite <;>
    simp [List.lookup_cons, Value.single?_single, isExpressible, hascent, hdescent]

theorem tableOfValue?_map_toValue (fonts : List FontEntry) :
    tableOfValue? (.array (fonts.map toValue)) = if fonts.all isExpressible then some fonts else none := by
  show (fonts.map toValue).mapM ofValue? = _
  induction fonts with
  | nil => rfl
  | cons entry fonts ih =>
    rw [List.map_cons, List.mapM_cons, ofValue?_toValue, ih]
    cases hentry : entry.isExpressible <;> cases hfonts : fonts.all isExpressible <;>
      simp only [List.all_cons, hentry, hfonts, Bool.false_and, Bool.true_and] <;> rfl

theorem storable_toValue (entry : FontEntry) {levels : Nat} (h : 0 < levels) :
    Value.Storable levels entry.toValue := by
  apply Value.storable_record h
  simp

end FontEntry

theorem Code128.UnknownModePolicy.ofValue?_toValue (policy : UnknownModePolicy) :
    ofValue? policy.toValue = some policy := by
  simp [ofValue?, toValue, Value.text, Value.choice?, ofName?_name]

namespace Profile

variable {p : Profile}

/-- Whether the numbers of a profile can be written, apart from the largest size. -/
def isExpressible (p : Profile) : Bool := p.lineFont.scale.isFinite && p.fonts.all FontEntry.isExpressible

theorem ofValue?_toValue (hmax : p.lineFont.maxSize.isFinite) :
    ofValue? p.toValue = if p.isExpressible then some p else none := by
  rw [ofValue?, toValue, Value.fields?_record (by simp)]
  cases hscale : p.lineFont.scale.isFinite <;> cases hfonts : p.fonts.all FontEntry.isExpressible <;>
    simp [List.lookup_cons, Value.orElse, LineFont.ofValue?_toValue, FontEntry.tableOfValue?_map_toValue,
      Code128.UnknownModePolicy.ofValue?_toValue, isExpressible, hmax, hscale, hfonts]

theorem storable_toValue (p : Profile) : Value.Storable 3 p.toValue := by
  have hfonts : Value.Storable 2 (.array (p.fonts.map FontEntry.toValue)) := by
    apply Value.storable_array (by decide)
    simp only [List.forall_mem_map]
    exact fun entry _ => entry.storable_toValue (by decide)
  have hfont : Value.Storable 2 p.lineFont.toValue := p.lineFont.storable_toValue (by decide)
  have hpolicy : Value.Storable 2 p.unknownMode.toValue := Value.storable_text _
  apply Value.storable_record (by decide)
  simp [hfonts, hfont, hpolicy]

/-! ## Loading again -/

theorem check_of_load {document : Text} (h : load document = .ok p) : p.check = .ok () := by
  unfold load at h
  split at h
  next => cases h
  next q _ =>
    split at h
    next hcheck =>
      cases h
      exact hcheck
    next => cases h

/-- What becomes of a checked profile that is written, in either layout and with blanks after it, and loaded. -/
theorem load_write (hcheck : p.check = .ok ()) (style : Json.Style) (gap : Text)
    (hgap : ∀ c ∈ gap, Json.isGap c) :
    load (p.toValue.write style 0 ++ gap) = if p.isExpressible then .ok p else .error .unreadable := by
  obtain ⟨hpos, hlimit⟩ := maxSize_of_check hcheck
  have hread := Value.read?_write style p.storable_toValue.writable gap hgap
  have hvalue := ofValue?_toValue (Single.isFinite_of_le hpos hlimit (by decide +kernel))
  rw [load, hread, Option.bind_some, hvalue]
  cases p.isExpressible <;> simp [hcheck]

/-- **A loaded profile is loaded again from its document just where its numbers can be written**, in either layout
and as it is printed. -/
theorem load_saved {document : Text} (h : load document = .ok p) :
    let saved : Except LoadFault Profile := if p.isExpressible then .ok p else .error .unreadable
    (∀ style, load (p.toValue.write style 0) = saved) ∧ load (CommandLine.profileReport p) = saved := by
  have hcheck := check_of_load h
  refine ⟨fun style => ?_, load_write hcheck .indented ['\n'] (by simp [Json.isGap])⟩
  have hload := load_write hcheck style [] (by simp)
  rwa [List.append_nil] at hload

theorem load_eq_ok {document : Text} (h : (load document).toOption = some p) : load document = .ok p := by
  cases hload : load document with
  | error fault =>
    rw [hload] at h
    cases h
  | ok q =>
    rw [hload] at h
    cases h
    rfl

/-- A document that leaves the rest to the standard profile. -/
def briefDocument : Text := "\x7b\"schema_version\":\"1\",\"id\":\"p\"\x7d".toList

/-- A document with a scale that is out of range. -/
def hugeDocument : Text :=
  "\x7b\"id\":\"p\",\"schema_version\":\"1\",".toList ++
    "\"label_font\":\x7b\"key\":\"A\",\"scale\":1e39,\"max_size\":72\x7d\x7d".toList

/-- What was left out is written and loaded again. -/
theorem load_saved_brief :
    let p := { standard with id := ['p'], schemaVersion := ['1'] }
    load briefDocument = .ok p ∧ load (CommandLine.profileReport p) = .ok p := by
  intro p
  have hload : load briefDocument = .ok p := load_eq_ok (by decide +kernel)
  have hexpressible : p.isExpressible = true := by decide +kernel
  obtain ⟨_, hreport⟩ := load_saved hload
  rw [if_pos hexpressible] at hreport
  exact ⟨hload, hreport⟩

/-- An infinite scale passes the check and is lost. -/
theorem not_forall_load_saved :
    let p := { standard with
      id := ['p'], schemaVersion := ['1'], lineFont := ⟨['A'], .infinity false, .ofInt 72⟩ }
    load hugeDocument = .ok p ∧ load p.toValue.compact = .error .unreadable ∧
      load (CommandLine.profileReport p) = .error .unreadable := by
  intro p
  have hload : load hugeDocument = .ok p := load_eq_ok (by decide +kernel)
  have hlost : p.isExpressible = false := by decide +kernel
  have hcompact := load_write (check_of_load hload) .compact [] (by simp)
  have hreport := load_write (check_of_load hload) .indented ['\n'] (by simp [Json.isGap])
  rw [List.append_nil, hlost] at hcompact
  rw [hlost] at hreport
  exact ⟨hload, hcompact, hreport⟩

end Profile

end BarcodeField
