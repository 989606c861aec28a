import BarcodeField.Code128.Mode
import BarcodeField.Font
import BarcodeField.Single.Decimal

/-!
# Render profiles

A profile says how one renderer sees barcode fields: which font prints the line beside a symbol and how
large, what the fonts it knows measure, and what becomes of a mode flag that it does not know. Without a
profile the standard one holds.

A profile is usable when its names are not blank, its sizes are positive and bounded, its fonts have
distinct names and the right signs, and the font of the printed line is one of them. `Profile.faults`
lists everything that is wrong, in the order in which a reader of the profile meets it: the names, the line
font, the fonts one after the other, and last a line font that is missing from them. `Profile.check`
reports the first.
-/

namespace BarcodeField

/-- How a renderer sees barcode fields. -/
structure Profile where
  id : Text
  schemaVersion : Text
  lineFont : LineFont
  fonts : List FontEntry
  unknownMode : Code128.UnknownModePolicy
deriving DecidableEq

namespace Profile

/-- The largest font size that a profile may allow. -/
def sizeLimit : Single := .ofInt 72

/-- The line font of the standard profile: size 7.2 for each dot of module width, up to 72. -/
def standardLineFont : LineFont := ⟨['A'], Decimal.toSingle false ⟨72, -1⟩, sizeLimit⟩

/-- The font table of the standard profile: a monospaced sans. -/
def standardFonts : List FontEntry :=
  [⟨['A'], Decimal.toSingle true ⟨928, -3⟩, Decimal.toSingle false ⟨236, -3⟩⟩]

/-- The profile that holds where none is given. -/
def standard : Profile where
  id := "default".toList
  schemaVersion := "1.0.0".toList
  lineFont := standardLineFont
  fonts := standardFonts
  unknownMode := .normal

instance : Inhabited Profile := ⟨standard⟩

/-- The entry of a font, the first one if there are several. -/
def font? (p : Profile) (key : Text) : Option FontEntry := FontEntry.find? p.fonts key

/-- Measures a font by the profile's own table. -/
def measure (p : Profile) (key : Text) (size : Single) : Except String FontMetrics :=
  FontEntry.measure p.fonts key size

end Profile

/-! ## Checking a profile -/

/-- What is wrong with a profile. -/
inductive ProfileFault where
  | blankId
  | blankSchemaVersion
  | blankLineFont
  | scale (value : Single)
  | maxSize (value : Single)
  | blankFont (index : Nat)
  | repeatedFont (index : Nat) (key : Text)
  | ascent (index : Nat) (value : Single)
  | descent (index : Nat) (value : Single)
  | missingFont (key : Text)
deriving DecidableEq

namespace ProfileFault

/-- The part of a profile document that is at fault. -/
def field : ProfileFault → String
  | .blankId => "id"
  | .blankSchemaVersion => "schema_version"
  | .blankLineFont | .missingFont _ => "label_font.key"
  | .scale _ => "label_font.scale"
  | .maxSize _ => "label_font.max_size"
  | .blankFont index | .repeatedFont index _ => s!"fonts[{index}].key"
  | .ascent index _ => s!"fonts[{index}].ascent"
  | .descent index _ => s!"fonts[{index}].descent"

/-- What is wrong with that part. -/
def reason : ProfileFault → String
  | .blankId | .blankSchemaVersion | .blankLineFont | .blankFont _ => "must not be empty"
  | .scale value => s!"{value} must be > 0"
  | .maxSize value => s!"{value} must be in (0, {Profile.sizeLimit}]"
  | .repeatedFont _ key =>
    let key := String.ofList key
    s!"duplicate font key '{key}'"
  | .ascent _ value => s!"{value} must be <= 0 (measured upward from the baseline)"
  | .descent _ value => s!"{value} must be >= 0"
  | .missingFont key =>
    let key := String.ofList key
    s!"'{key}' has no entry in fonts"

/-- The fault in words. -/
def message (fault : ProfileFault) : String :=
  let field := fault.field
  let reason := fault.reason
  s!"invalid {field}: {reason}"

/-- A list of one fault where a rule is broken, and of none elsewhere. -/
def require (rule : Bool) (fault : ProfileFault) : List ProfileFault := if rule then [] else [fault]

theorem require_eq_nil_iff {rule : Bool} {fault : ProfileFault} : require rule fault = [] ↔ rule = true := by
  cases rule <;> simp [require]

end ProfileFault

namespace Profile

open ProfileFault (require)

/-- The faults of the names and of the line font's numbers. -/
def headFaults (p : Profile) : List ProfileFault :=
  require (!p.id.isBlank) .blankId ++
  require (!p.schemaVersion.isBlank) .blankSchemaVersion ++
  require (!p.lineFont.key.isBlank) .blankLineFont ++
  require (decide (.zero false < p.lineFont.scale)) (.scale p.lineFont.scale) ++
  require (decide (.zero false < p.lineFont.maxSize) && decide (p.lineFont.maxSize ≤ sizeLimit))
    (.maxSize p.lineFont.maxSize)

/-- The faults of one font, whose place in the table and whose predecessors' keys are given. -/
def fontFaults (index : Nat) (earlier : List Text) (font : FontEntry) : List ProfileFault :=
  require (!font.key.isBlank) (.blankFont index) ++
  require (!earlier.contains font.key) (.repeatedFont index font.key) ++
  require (decide (font.ascent ≤ .zero false)) (.ascent index font.ascent) ++
  require (decide (.zero false ≤ font.descent)) (.descent index font.descent)

/-- The faults of the rest of a font table, behind fonts whose keys are given. -/
def tableFaults (earlier : List Text) : List FontEntry → List ProfileFault
  | [] => []
  | font :: rest =>
    fontFaults earlier.length earlier font ++ tableFaults (earlier ++ [font.key]) rest

/-- Everything that is wrong with a profile, in the order in which it is reported. -/
def faults (p : Profile) : List ProfileFault :=
  p.headFaults ++ tableFaults [] p.fonts ++
    require (p.font? p.lineFont.key).isSome (.missingFont p.lineFont.key)

/-- Reports the first fault of a profile. -/
def check (p : Profile) : Except ProfileFault Unit :=
  match p.faults with
  | [] => .ok ()
  | fault :: _ => .error fault

theorem check_eq_ok_iff (p : Profile) : p.check = .ok () ↔ p.faults = [] := by
  unfold check
  split <;> simp_all

end Profile

end BarcodeField
