import BarcodeField.Code128.Content
import BarcodeField.Content
import BarcodeField.Field
import BarcodeField.Profile

/-!
# Plans

A plan holds all that an encoder and a canvas need for one field: its content, the font of the printed
line and its size, the height that the line takes, and the height that is left for the symbol.

A plan needs font metrics. `Field.plan` asks a font provider for them, once, and only for a field whose
module width is positive; `Field.planWith` takes them as given.
-/

namespace BarcodeField

/-! ## The printed line -/

/-- The height of the printed line, and how far it pushes the symbol down. -/
structure LineLayout where
  height : Int32
  offset : Int32
deriving DecidableEq, Repr

/-- What letters take of the vertical. Code 128 adds what they reach above the baseline to what they reach
below it. Code 39 adds the two numbers as they are, so that by the usual signs its line takes nothing. -/
def Symbology.lineExtent (symbology : Symbology) (metrics : FontMetrics) : Single :=
  if symbology.isCode128 then metrics.descent - metrics.ascent
  else metrics.ascent + metrics.descent

/-- The layout of a line: the extent of its letters in whole dots where it is printed, and an offset where
it is also above the symbol. -/
def lineLayout (symbology : Symbology) (metrics : FontMetrics) (line : LineOptions) : LineLayout :=
  let height :=
    if line.isPrinted then Int32.ofNat (symbology.lineExtent metrics).dotsUp else 0
  ⟨height, if line.isAbove then height else 0⟩

/-! ## Plans -/

/-- What to encode for a field, and how large. -/
structure Plan where
  content : Content
  font : Text
  fontSize : Single
  line : LineLayout
  symbolHeight : Int32
deriving DecidableEq

namespace Field

/-- The content of a field; without a profile the standard one holds. -/
def content (field : Field) (profile : Option Profile) : Except Fault Content :=
  match field.kind with
  | .code128 mode =>
    Code128.content (profile.getD .standard).unknownMode (Code128.Mode.ofFlag mode) field.data
  | .code39 => .ok (Code39.content field.data)

/-- Refuses a module width that is not above zero, NaN among them. -/
def checkWidth (field : Field) : Except Fault Unit :=
  if field.moduleWidth.isPositive then .ok () else .error (.moduleWidth field.moduleWidth)

/-- The height of the symbol beside a line: Code 128 gives the line a part of the requested height, and
Code 39 adds the line to it. -/
def symbolHeight (field : Field) (lineHeight : Int32) : Int32 :=
  match field.kind with
  | .code128 _ => field.height - lineHeight
  | .code39 => field.height + lineHeight

/-- The plan of a field whose line font measures as given. -/
def planWith (field : Field) (metrics : FontMetrics) (profile : Option Profile) : Except Fault Plan := do
  field.checkWidth
  let content ← field.content profile
  let font := (profile.getD .standard).lineFont
  let line := lineLayout content.symbology metrics field.line
  return {
    content := content
    font := font.key
    fontSize := font.size field.moduleWidth
    line := line
    symbolHeight := field.symbolHeight line.height }

/-- The font and the size that a field's line needs measured, unless its module width is refused. -/
def lookup (field : Field) (profile : Option Profile) : Except Fault (Text × Single) := do
  field.checkWidth
  let font := (profile.getD .standard).lineFont
  return (font.key, font.size field.moduleWidth)

/-- The plan of a field, with metrics from a font provider. -/
def plan {m : Type → Type} [Monad m] (field : Field) (fonts : FontProvider m)
    (profile : Option Profile) : m (Except Fault Plan) := do
  match field.lookup profile with
  | .error fault => return .error fault
  | .ok (key, size) =>
    match ← fonts key size with
    | .ok metrics => return field.planWith metrics profile
    | .error reason => return .error (.font key size reason)

end Field

end BarcodeField
