import BarcodeField.Plan

/-!
# Drawing fields

Drawing a field calls on three outside parties, each only when the one before it has done its work: a font
provider measures the font of the printed line, an encoder turns the planned content into a symbol, and a
canvas draws the symbol's image at the field's place. Nothing here makes bars or touches pixels.

The parties answer in a monad of their own, so that they may keep a state or reach the world outside, and
`drawField` is all that happens between them. What it asks of them, and in which order, `Draw/Trace` shows.
-/

namespace BarcodeField

/-! ## Requests -/

/-- What an encoder is asked for. -/
structure EncodeRequest where
  symbology : Symbology
  payload : Text
  barWidth : Single
  height : Int32
  /-- Whether the encoder is to print the line as well. -/
  withLine : Bool
  line : Text
  font : Text
  fontSize : Single
deriving DecidableEq

/-- An encoded symbol: its width in dots, and its image or the reason why it has none. -/
structure Symbol where
  width : UInt32
  image : Except String (List UInt8)

/-- What a canvas is asked to draw. The height is the requested one, not the symbol's. -/
structure DrawRequest where
  image : List UInt8
  height : Int32
  width : UInt32
  placement : Placement
  lineOffset : Int32
deriving DecidableEq

namespace Field

/-- The encoder's request for a planned field. -/
def encodeRequest (field : Field) (plan : Plan) : EncodeRequest where
  symbology := plan.content.symbology
  payload := plan.content.payload
  barWidth := field.moduleWidth
  height := plan.symbolHeight
  withLine := field.line.isPrinted
  line := plan.content.line
  font := plan.font
  fontSize := plan.fontSize

/-- The canvas's request for an encoded field. -/
def drawRequest (field : Field) (plan : Plan) (width : UInt32) (image : List UInt8) : DrawRequest where
  image := image
  height := field.height
  width := width
  placement := field.placement
  lineOffset := plan.line.offset

end Field

/-! ## Parties -/

/-- The outside parties that a field is drawn with. -/
structure Parties (m : Type → Type) where
  fonts : FontProvider m
  encoder : EncodeRequest → m (Except String Symbol)
  canvas : DrawRequest → m (Except String Unit)

/-- Why a field was not drawn. -/
inductive DrawFault where
  | plan (fault : Fault)
  | encoding (symbology : Symbology) (reason : String)
  | conversion (reason : String)
  | canvas (reason : String)
deriving DecidableEq

namespace DrawFault

/-- The fault in words. -/
def message : DrawFault → String
  | .plan fault => fault.message
  | .encoding symbology reason =>
    let name := symbology.name
    s!"encoding failed for {name}: {reason}"
  | .conversion reason => s!"image conversion failed: {reason}"
  | .canvas reason => s!"draw failed: {reason}"

/-- A short name of the kind of fault, for programs. -/
def kind : DrawFault → String
  | .plan (.unknownMode _) => "unknown_mode"
  | .plan (.moduleWidth _) => "invalid_module_width"
  | .plan (.font ..) => "font_resolution_failed"
  | .encoding .. => "encoding_failed"
  | .conversion _ => "conversion_failed"
  | .canvas _ => "draw_failed"

end DrawFault

/-! ## Drawing -/

variable {m : Type → Type} [Monad m]

/-- Draws a field: has its font measured, has its plan encoded, and has the symbol's image drawn. -/
def drawField (parties : Parties m) (profile : Option Profile) (field : Field) :
    m (Except DrawFault Plan) := do
  match ← field.plan parties.fonts profile with
  | .error fault => return .error (.plan fault)
  | .ok plan =>
    let request := field.encodeRequest plan
    match ← parties.encoder request with
    | .error reason => return .error (.encoding request.symbology reason)
    | .ok symbol =>
      match symbol.image with
      | .error reason => return .error (.conversion reason)
      | .ok image =>
        match ← parties.canvas (field.drawRequest plan symbol.width image) with
        | .error reason => return .error (.canvas reason)
        | .ok () => return .ok plan

/-- Draws fields one after the other; a field that fails does not stop those behind it. -/
def drawAll (parties : Parties m) (profile : Option Profile) (fields : List Field) :
    m (List (Except DrawFault Plan)) :=
  fields.mapM (drawField parties profile)

end BarcodeField
