import BarcodeField.Json.Reader
import BarcodeField.Json.Record
import BarcodeField.Json.Writer
import BarcodeField.Plan

/-!
# Fields and plans in documents

A field document is a JSON record with a tag: the member `kind` of an object, at any place, or the first
value of an array. The tag says which fields there are, since only Code 128 has a mode, and so a document
is first held as a whole and then understood; it must be holdable (`Value.isHoldable`). All fields must be
there, except that a mode may be missing from an object, or null.

A symbology is written as its name. A plan is only written: one record, in which the content and the line's
layout have no record of their own.
-/

namespace BarcodeField

open Json (Value)

/-! ## Fields -/

namespace Orientation

/-- The orientation as a JSON value. -/
def toValue (o : Orientation) : Value := Value.text o.name.toList

/-- The orientation that a JSON value names. -/
def ofValue? (v : Value) : Option Orientation := do
  let name ← v.choice? fun held => held.isNull || held.isEmptyObject
  ofName? name

end Orientation

namespace Placement

/-- The placement as a JSON value. -/
def toValue (p : Placement) : Value :=
  .record [
    ("x", .single p.x),
    ("y", .single p.y),
    ("has_field_origin", .bool p.isOrigin),
    ("orientation", p.orientation.toValue)]

/-- The placement that a JSON value describes. -/
def ofValue? (v : Value) : Option Placement := do
  match ← v.fields? ["x", "y", "has_field_origin", "orientation"] with
  | [some x, some y, some isOrigin, some orientation] =>
    return ⟨← x.single?, ← y.single?, ← isOrigin.bool?, ← Orientation.ofValue? orientation⟩
  | _ => none

end Placement

namespace FieldKind

/-- The tag of a field's kind. -/
def tag : FieldKind → String
  | .code128 _ => "Code128"
  | .code39 => "Code39"

/-- The mode flag as a JSON value. -/
def modeToValue : Option Text → Value
  | none => .null
  | some flag => .text flag

/-- The mode flag that a JSON value gives; null gives none. -/
def modeOfValue? : Value → Option (Option Text)
  | .null => some none
  | v => v.text?.map some

end FieldKind

namespace Field

/-- Names of the fields after the mode, which both kinds have. -/
def layoutNames : List String :=
  ["module_width", "height", "print_interpretation_line", "print_interpretation_line_above_code",
    "placement"]

/-- The field as a JSON value. -/
def toValue (field : Field) : Value :=
  .record ([("kind", .text field.kind.tag.toList), ("content", .text field.data)] ++
    (match field.kind with
      | .code128 mode => [("mode", FieldKind.modeToValue mode)]
      | .code39 => []) ++
    [("module_width", .single field.moduleWidth),
      ("height", .integer field.height.toInt),
      ("print_interpretation_line", .bool field.line.isPrinted),
      ("print_interpretation_line_above_code", .bool field.line.isAbove),
      ("placement", field.placement.toValue)])

/-- The field of a kind that the values of its other fields describe, all of which must be there. -/
def ofLayout? (kind : FieldKind) (data : Value) : List (Option Value) → Option Field
  | [some moduleWidth, some height, some isPrinted, some isAbove, some placement] => do
    return {
      kind := kind
      data := ← data.text?
      moduleWidth := ← moduleWidth.single?
      height := ← height.int32?
      line := ⟨← isPrinted.bool?, ← isAbove.bool?⟩
      placement := ← Placement.ofValue? placement }
  | _ => none

/-- The Code 128 field that a JSON value describes. -/
def code128OfValue? (v : Value) : Option Field := do
  match ← v.fields? ("content" :: "mode" :: layoutNames) with
  | some data :: mode :: layout =>
    let mode ← Value.orElse none FieldKind.modeOfValue? mode
    ofLayout? (.code128 mode) data layout
  | _ => none

/-- The Code 39 field that a JSON value describes. -/
def code39OfValue? (v : Value) : Option Field := do
  match ← v.fields? ("content" :: layoutNames) with
  | some data :: layout => ofLayout? .code39 data layout
  | _ => none

/-- The tag of a JSON value, and the value that describes the field. -/
def splitTag? : Value → Option (Text × Value)
  | .object members => do
    let named ← Value.namedMembers? members
    let tag ← (← Value.member? named "kind".toList)
    return (← tag.text?, .object members)
  | .array (tag :: values) => do return (← tag.text?, .array values)
  | _ => none

/-- The field that a JSON value describes. -/
def ofValue? (v : Value) : Option Field := do
  let (tag, rest) ← splitTag? v
  if tag = "Code128".toList then code128OfValue? rest
  else if tag = "Code39".toList then code39OfValue? rest
  else none

/-- How deep a field document may be nested. -/
def levels : Nat := 127

/-- The field that a document describes. -/
def read? (document : Text) : Option Field := do
  let v ← Value.read? document
  if v.isHoldable levels then ofValue? v else none

end Field

/-! ## Plans -/

namespace Symbology

/-- The symbology as a JSON value. -/
def toValue (s : Symbology) : Value := Value.text s.name.toList

/-- The symbology that a JSON value names. -/
def ofValue? (v : Value) : Option Symbology := do
  let name ← v.choice? Value.isNull
  ofName? name

/-- The symbology that a document names. -/
def read? (t : Text) : Option Symbology := do
  let v ← Value.read? t
  ofValue? v

end Symbology

/-- The plan as a JSON value. -/
def Plan.toValue (plan : Plan) : Value :=
  .record [
    ("symbology", plan.content.symbology.toValue),
    ("encodable_content", .text plan.content.payload),
    ("interpretation_label", .text plan.content.line),
    ("label_font", .text plan.font),
    ("label_font_size", .single plan.fontSize),
    ("label_height", .integer plan.line.height.toInt),
    ("label_height_offset", .integer plan.line.offset.toInt),
    ("final_symbol_height", .integer plan.symbolHeight.toInt)]

end BarcodeField
