import BarcodeField.Text

/-!
# Field content

What the data of a field comes to: the symbology to encode with, the characters to encode, and the line
that a person reads beside the symbol. The symbology is Code 128, with its subset chosen or left to the
encoder, or Code 39 with the full ASCII alphabet.

The content of a Code 39 field is made here. The data is encoded as it stands, and the printed line shows it
between two asterisks, the symbology's start and stop character, whether or not the data already brings
asterisks of its own at its ends.
-/

namespace BarcodeField

/-! ## Symbologies -/

/-- The symbology, and for Code 128 the subset, that an encoder must use. -/
inductive Symbology where
  | code128Auto
  | code128A
  | code128B
  | code128C
  | code39Extended
deriving DecidableEq, Repr, Inhabited

namespace Symbology

/-- Every symbology. -/
def all : List Symbology := [.code128Auto, .code128A, .code128B, .code128C, .code39Extended]

/-- Whether the symbology belongs to the Code 128 family. -/
def isCode128 : Symbology → Bool
  | .code39Extended => false
  | _ => true

/-- The name that stands for a symbology in documents and in messages. -/
def name : Symbology → String
  | .code128Auto => "Code128Auto"
  | .code128A => "Code128A"
  | .code128B => "Code128B"
  | .code128C => "Code128C"
  | .code39Extended => "Code39Extended"

/-- The symbology of a name; upper and lower case differ. -/
def ofName? (t : Text) : Option Symbology := all.find? fun s => s.name.toList == t

theorem mem_all (s : Symbology) : s ∈ all := by cases s <;> decide

theorem ofName?_name (s : Symbology) : ofName? s.name.toList = some s := by cases s <;> decide

end Symbology

/-! ## Contents -/

/-- The encoder's characters, which may hold FNC1, and the line printed for a reader. -/
structure Content where
  symbology : Symbology
  payload : Text
  line : Text
deriving DecidableEq, Repr

/-! ## Code 39 -/

namespace Code39

/-- The character that starts and stops a symbol. -/
def delimiter : Char := '*'

/-- The content of a Code 39 field. -/
def content (data : Text) : Content :=
  ⟨.code39Extended, data, delimiter :: (Text.strip (· == delimiter) data ++ [delimiter])⟩

end Code39

end BarcodeField
