import BarcodeField.Single.Arithmetic
import BarcodeField.Text

/-!
# Fonts of the printed line

A layout does not draw letters; it needs to know how far they reach above and below the baseline. By the
usual convention an ascent is measured downward and is therefore negative, while a descent is positive.
Who measures is left open: a **font provider** answers a font's key and a size with metrics or with a
reason why there are none, and may have effects in doing so. A font table answers without any, with metrics
that grow in proportion to the size.
-/

namespace BarcodeField

/-- How far letters of one size reach above the baseline, as a negative number, and below it. -/
structure FontMetrics where
  ascent : Single
  descent : Single
deriving DecidableEq

/-- Metrics of a font for size one. -/
structure FontEntry where
  key : Text
  ascent : Single
  descent : Single
deriving DecidableEq

/-- Measures a font at a size, or says why it cannot. -/
abbrev FontProvider (m : Type → Type) := Text → Single → m (Except String FontMetrics)

/-- A provider that notes in a state what it is asked for, and then answers as it would. -/
def FontProvider.noting {m : Type → Type} [Monad m] {τ : Type} (note : τ → Text × Single → τ)
    (fonts : FontProvider m) : FontProvider (StateT τ m) :=
  fun key size => do
    modify (note · (key, size))
    fonts key size

namespace FontEntry

/-- The metrics at a size. -/
def metrics (entry : FontEntry) (size : Single) : FontMetrics :=
  ⟨entry.ascent * size, entry.descent * size⟩

/-- The first entry of a table with a key. -/
def find? (table : List FontEntry) (key : Text) : Option FontEntry :=
  table.find? fun entry => entry.key == key

/-- Measures a font by a table. -/
def measure (table : List FontEntry) (key : Text) (size : Single) : Except String FontMetrics :=
  match find? table key with
  | some entry => .ok (entry.metrics size)
  | none =>
    let key := String.ofList key
    .error s!"no metrics for font '{key}'"

end FontEntry

/-- The font of the printed line, and how its size follows from the module width. -/
structure LineFont where
  key : Text
  scale : Single
  maxSize : Single
deriving DecidableEq

/-- The size for a module width: in proportion to it, but never more than the largest. -/
def LineFont.size (font : LineFont) (moduleWidth : Single) : Single :=
  Single.min (moduleWidth * font.scale) font.maxSize

end BarcodeField
