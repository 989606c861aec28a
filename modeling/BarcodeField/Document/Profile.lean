import BarcodeField.Json.Reader
import BarcodeField.Json.Record
import BarcodeField.Json.Writer
import BarcodeField.Profile

/-!
# Profile documents

A profile document is a JSON record. Its `id` and `schema_version` must be there; the other fields stand in
from the standard profile when they are missing, but a line font or a font entry that is there must be
complete. What a document says is checked before it is used: `Profile.load` reads and checks.
-/

namespace BarcodeField

open Json (Value)

namespace LineFont

/-- The line font as a JSON value. -/
def toValue (font : LineFont) : Value :=
  .record [("key", .text font.key), ("scale", .single font.scale), ("max_size", .single font.maxSize)]

/-- The line font that a JSON value describes. -/
def ofValue? (v : Value) : Option LineFont := do
  match ← v.fields? ["key", "scale", "max_size"] with
  | [some key, some scale, some maxSize] =>
    return ⟨← key.text?, ← scale.single?, ← maxSize.single?⟩
  | _ => none

end LineFont

namespace FontEntry

/-- The entry as a JSON value. -/
def toValue (entry : FontEntry) : Value :=
  .record [("key", .text entry.key), ("ascent", .single entry.ascent), ("descent", .single entry.descent)]

/-- The entry that a JSON value describes. -/
def ofValue? (v : Value) : Option FontEntry := do
  match ← v.fields? ["key", "ascent", "descent"] with
  | [some key, some ascent, some descent] =>
    return ⟨← key.text?, ← ascent.single?, ← descent.single?⟩
  | _ => none

/-- The font table that a JSON value describes. -/
def tableOfValue? (v : Value) : Option (List FontEntry) := do
  let values ← v.array?
  values.mapM ofValue?

end FontEntry

namespace Code128.UnknownModePolicy

/-- The policy as a JSON value. -/
def toValue (policy : UnknownModePolicy) : Value := Value.text policy.name.toList

/-- The policy that a JSON value names. -/
def ofValue? (v : Value) : Option UnknownModePolicy := do
  let name ← v.choice? Value.isNull
  ofName? name

end Code128.UnknownModePolicy

/-- Why a profile document cannot be used. -/
inductive LoadFault where
  /-- The document is not JSON, or does not describe a profile. -/
  | unreadable
  /-- The profile breaks a rule. -/
  | invalid (fault : ProfileFault)
deriving DecidableEq

namespace Profile

/-- The profile as a JSON value. -/
def toValue (p : Profile) : Value :=
  .record [
    ("id", .text p.id),
    ("schema_version", .text p.schemaVersion),
    ("label_font", p.lineFont.toValue),
    ("fonts", .array (p.fonts.map FontEntry.toValue)),
    ("unknown_mode", p.unknownMode.toValue)]

/-- The profile that a JSON value describes. -/
def ofValue? (v : Value) : Option Profile := do
  match ← v.fields? ["id", "schema_version", "label_font", "fonts", "unknown_mode"] with
  | [some id, some schemaVersion, lineFont, fonts, unknownMode] =>
    return {
      id := ← id.text?
      schemaVersion := ← schemaVersion.text?
      lineFont := ← Value.orElse standardLineFont LineFont.ofValue? lineFont
      fonts := ← Value.orElse standardFonts FontEntry.tableOfValue? fonts
      unknownMode := ← Value.orElse .normal Code128.UnknownModePolicy.ofValue? unknownMode }
  | _ => none

/-- Reads and checks a profile document. -/
def load (document : Text) : Except LoadFault Profile :=
  match (Value.read? document).bind ofValue? with
  | none => .error .unreadable
  | some p =>
    match p.check with
    | .ok () => .ok p
    | .error fault => .error (.invalid fault)

end Profile

end BarcodeField
