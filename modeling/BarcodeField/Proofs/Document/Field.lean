import BarcodeField.Document.Field
import BarcodeField.Proofs.Json.Record

/-!
# Field documents come back

A field is written as a record whose tag says which fields there are. Its reader asks for the tag first and then
for the fields of that kind, so that what is written for one kind is never taken for the other, and a mode that is
not there stays apart from one that is empty.

**The law** (`read?_write_toValue`): a field whose three numbers are finite is read from its document, in either layout,
as the field that it was. Nothing is asked of its data, its flag or its height.
-/

namespace BarcodeField

open Json (Value)

/-! ## Parts -/

theorem Orientation.ofValue?_toValue (o : Orientation) : ofValue? o.toValue = some o := by
  simp [ofValue?, toValue, Value.text, Value.choice?, ofName?_name]

theorem Placement.ofValue?_toValue {p : Placement} (hx : p.x.isFinite) (hy : p.y.isFinite) :
    ofValue? p.toValue = some p := by
  rw [ofValue?, toValue, Value.fields?_record (by simp)]
  simp [List.lookup_cons, Value.single?_single, hx, hy, Value.bool?, Orientation.ofValue?_toValue]

theorem Placement.storable_toValue (p : Placement) {levels : Nat} (h : 0 < levels) :
    Value.Storable levels p.toValue := by
  have horientation : Value.Storable (levels - 1) p.orientation.toValue := Value.storable_text _
  apply Value.storable_record h
  simp [horientation]

theorem FieldKind.storable_modeToValue (mode : Option Text) {levels : Nat} :
    Value.Storable levels (modeToValue mode) := by
  cases mode with
  | none => exact Value.storable_null
  | some flag => exact Value.storable_text flag

theorem FieldKind.modeOfValue?_modeToValue (mode : Option Text) :
    modeOfValue? (modeToValue mode) = some mode := by
  cases mode with
  | none => rfl
  | some flag => exact congrArg (Option.map some) (Value.text?_text flag)

namespace Field

variable {field : Field}

/-- A tag that is written among fields with names of their own is found. -/
theorem splitTag?_record {members : List (String × Value)} {tag : Text} (hnames : (members.map Prod.fst).Nodup)
    (htag : members.lookup "kind" = some (.text tag)) :
    splitTag? (.record members) = some (tag, .record members) := by
  have hnamed := Value.namedMembers?_record members
  have hmember := Value.member?_record hnames "kind"
  simp only [Value.record, splitTag?, hnamed, hmember, htag, Value.text?_text, Option.bind_eq_bind, Option.bind_some]
  rfl

/-- The fields after the mode describe the layout that they were written for. -/
theorem ofLayout?_toValue (hwidth : field.moduleWidth.isFinite) (hx : field.placement.x.isFinite)
    (hy : field.placement.y.isFinite) :
    ofLayout? field.kind (.text field.data)
      [some (.single field.moduleWidth), some (.integer field.height.toInt), some (.bool field.line.isPrinted),
        some (.bool field.line.isAbove), some field.placement.toValue] = some field := by
  simp [ofLayout?, Value.single?_single, hwidth, Value.bool?, Placement.ofValue?_toValue hx hy]

/-- The tag of a kind leads to the reader of that kind. -/
theorem ofValue?_code128 {v rest : Value} (h : splitTag? v = some ("Code128".toList, rest)) :
    ofValue? v = code128OfValue? rest := by
  rw [ofValue?, h, Option.bind_eq_bind, Option.bind_some]
  exact if_pos rfl

theorem ofValue?_code39 {v rest : Value} (h : splitTag? v = some ("Code39".toList, rest)) :
    ofValue? v = code39OfValue? rest := by
  have hother : "Code39".toList ≠ "Code128".toList := by decide
  rw [ofValue?, h, Option.bind_eq_bind, Option.bind_some]
  exact (if_neg hother).trans (if_pos rfl)

/-- The JSON value of a field describes the field. -/
theorem ofValue?_toValue (hwidth : field.moduleWidth.isFinite) (hx : field.placement.x.isFinite)
    (hy : field.placement.y.isFinite) : ofValue? field.toValue = some field := by
  have hlayout := ofLayout?_toValue hwidth hx hy
  cases hkind : field.kind with
  | code39 =>
    rw [hkind] at hlayout
    simp only [toValue, hkind]
    rw [ofValue?_code39 (splitTag?_record (by simp) rfl), code39OfValue?, Value.fields?_record (by simp)]
    simp [layoutNames, List.lookup_cons, hlayout]
  | code128 mode =>
    rw [hkind] at hlayout
    simp only [toValue, hkind]
    rw [ofValue?_code128 (splitTag?_record (by simp) rfl), code128OfValue?, Value.fields?_record (by simp)]
    simp [layoutNames, List.lookup_cons, Value.orElse, FieldKind.modeOfValue?_modeToValue, hlayout]

theorem storable_toValue (field : Field) : Value.Storable levels field.toValue := by
  have hplacement : Value.Storable (levels - 1) field.placement.toValue :=
    field.placement.storable_toValue (by decide)
  apply Value.storable_record (by decide)
  cases field.kind with
  | code39 => simp [hplacement]
  | code128 mode => simp [hplacement, FieldKind.storable_modeToValue mode]

/-- **A field is read from its document**, in either layout. -/
theorem read?_write_toValue (hwidth : field.moduleWidth.isFinite) (hx : field.placement.x.isFinite)
    (hy : field.placement.y.isFinite) (style : Json.Style) :
    read? (field.toValue.write style 0) = some field := by
  have hread := Value.read?_write style field.storable_toValue.writable [] (by simp)
  rw [List.append_nil] at hread
  rw [read?, hread]
  simp [field.storable_toValue.holdable, ofValue?_toValue hwidth hx hy]

/-- Characters that are escaped, an empty mode, the least height, and numbers at the ends of their range. -/
theorem read?_write_toValue_extremes :
    let field : Field := ⟨.code128 (some []), ['"', '\\', '\n', '\x01', '\x7f', 'ß', '😀'],
      Decimal.toSingle false ⟨1, -45⟩, Int32.minValue, ⟨true, false⟩,
      ⟨.zero true, Decimal.toSingle true ⟨34028235, 31⟩, false, .bottom⟩⟩
    read? field.toValue.compact = some field := by
  intro field
  exact read?_write_toValue (by decide +kernel) (by decide +kernel) (by decide +kernel) .compact

end Field

end BarcodeField
