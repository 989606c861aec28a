import BarcodeField.Single.Decimal

/-!
# Barcode fields

A field as a label asks for it: its data, how wide a module and how high the symbol is to be, whether a
line for human readers goes with it, and where it stands.

Any data makes a content, so only three things go wrong when a field is planned: a mode flag that the profile
refuses, a module width from which no font size follows, and a font that nobody can measure.
-/

namespace BarcodeField

/-! ## Fields -/

/-- How far a field is turned, clockwise. -/
inductive Orientation where
  /-- Not at all. -/
  | normal
  /-- By 90 degrees. -/
  | rotated
  /-- By 180 degrees. -/
  | inverted
  /-- By 270 degrees, to be read from the bottom up. -/
  | bottom
deriving DecidableEq, Repr, Inhabited

namespace Orientation

/-- Every orientation. -/
def all : List Orientation := [.normal, .rotated, .inverted, .bottom]

/-- The orientation of a letter of either case, among the ASCII letters. -/
def ofCode? (c : Char) : Option Orientation :=
  match c.toUpper with
  | 'N' => some .normal
  | 'R' => some .rotated
  | 'I' => some .inverted
  | 'B' => some .bottom
  | _ => none

/-- The name that stands for an orientation in documents. -/
def name : Orientation → String
  | .normal => "Normal"
  | .rotated => "Rotated"
  | .inverted => "Inverted"
  | .bottom => "Bottom"

/-- The orientation of a name. -/
def ofName? (t : Text) : Option Orientation := all.find? fun o => o.name.toList == t

theorem ofName?_name (o : Orientation) : ofName? o.name.toList = some o := by cases o <;> decide

end Orientation

/-- Where a field stands and how it is turned. -/
structure Placement where
  x : Single
  y : Single
  /-- Whether the position is that of the field's origin, rather than of its baseline. -/
  isOrigin : Bool
  orientation : Orientation
deriving DecidableEq

/-- Whether the line for human readers is printed, and whether above the symbol instead of below. -/
structure LineOptions where
  isPrinted : Bool
  isAbove : Bool
deriving DecidableEq, Repr

/-- The family of a field's symbol; a Code 128 field may carry a mode flag. -/
inductive FieldKind where
  | code128 (mode : Option Text)
  | code39
deriving DecidableEq, Repr

/-- A barcode field. The requested height includes the printed line for Code 128 and excludes it for
Code 39. -/
structure Field where
  kind : FieldKind
  data : Text
  moduleWidth : Single
  height : Int32
  line : LineOptions
  placement : Placement
deriving DecidableEq

/-! ## Why a field cannot be planned -/

/-- Why there is no plan for a field. -/
inductive Fault where
  /-- The mode flag, without the blanks around it, is unknown and the profile refuses such flags. -/
  | unknownMode (flag : Text)
  /-- The module width is not above zero. -/
  | moduleWidth (width : Single)
  /-- No metrics were found for the font of the printed line. -/
  | font (key : Text) (size : Single) (reason : String)
deriving DecidableEq

namespace Fault

/-- The fault in words. -/
def message : Fault → String
  | .unknownMode flag =>
    let flag := String.ofList flag
    s!"unknown Code 128 mode '{flag}'"
  | .moduleWidth width => s!"module width {width} must be > 0"
  | .font key size reason =>
    let key := String.ofList key
    s!"font resolution failed for font '{key}' at size {size}: {reason}"

end Fault

end BarcodeField
