import BarcodeField.Content

/-!
# Escapes in Code 128 field data

Two kinds of escape begin with `>`. A **start code**, `>9`, `>:` or `>;`, selects subset A, B or C; it
means something as the first two characters of a field only, and anywhere else it is stray and is
deleted. `>8` stands for the function code FNC1, which an encoder takes as the character U+00C8 and which
is never printed.

Deleting a start code can join the characters around it into another one, as in `A>>9:`. So a deletion
sweeps the text again and again, until a sweep finds nothing.
-/

namespace BarcodeField

/-- FNC1 as an encoder takes it. -/
def fnc1 : Char := '\u00c8'

namespace Escape

/-! ## Start codes -/

/-- The subset that a start code selects by its second character. -/
def subset? : Char → Option Symbology
  | '9' => some .code128A
  | ':' => some .code128B
  | ';' => some .code128C
  | _ => none

/-- Whether a character makes a start code of the `>` before it. -/
def closes (c : Char) : Bool := (subset? c).isSome

/-- The subset that a two-character escape selects. -/
def ofStartCode? : Text → Option Symbology
  | ['>', c] => subset? c
  | _ => none

/-- A leading start code's subset, and the data after it. -/
def splitStart? : Text → Option (Symbology × Text)
  | '>' :: c :: rest => (subset? c).map (·, rest)
  | _ => none

/-! ## Deleting start codes -/

/-- One sweep from left to right, which deletes each start code that it meets and does not look back at
what a deletion joins. -/
def sweep : Text → Text
  | '>' :: c :: rest => if closes c then sweep rest else '>' :: sweep (c :: rest)
  | c :: rest => c :: sweep rest
  | [] => []

/-- Repeats a pass for as long as it makes the text shorter. -/
def untilStable (pass : Text → Text) (t : Text) : Text :=
  if (pass t).length < t.length then untilStable pass (pass t) else t
termination_by t.length

/-- A sweep that leaves the first character alone, and with it a start code that begins there. -/
def sweepAfterFirst : Text → Text
  | [] => []
  | c :: rest => c :: sweep rest

/-- Field data without its stray start codes: those that do not begin at the first character. -/
def stripStray (data : Text) : Text := untilStable sweepAfterFirst data

/-! ## FNC1 -/

/-- Writes `replacement` for each `>8`. -/
def substitute (replacement : Text) : Text → Text
  | '>' :: '8' :: rest => replacement ++ substitute replacement rest
  | c :: rest => c :: substitute replacement rest
  | [] => []

/-- Data as an encoder takes it: FNC1 for each `>8`. -/
def encodeFnc1 (data : Text) : Text := substitute [fnc1] data

/-- Data as it is printed: nothing for each `>8`. -/
def dropFnc1 (data : Text) : Text := substitute [] data

/-- An encoded text begins with FNC1, or as the data does. -/
theorem head?_encodeFnc1 (data : Text) : ∀ c ∈ (encodeFnc1 data).head?, c = fnc1 ∨ c ∈ data.head? := by
  unfold encodeFnc1
  fun_cases substitute [fnc1] data with
  | case1 rest => exact fun c hc => .inl (Option.some.inj hc).symm
  | case2 c rest _ => exact fun c hc => .inr hc
  | case3 => exact fun c hc => absurd hc (Option.not_mem_none c)

/-- Replacing escapes by FNC1 and leaving them out differ in FNC1 only. -/
theorem filter_encodeFnc1 (data : Text) :
    (encodeFnc1 data).filter (· != fnc1) = (dropFnc1 data).filter (· != fnc1) := by
  unfold encodeFnc1 dropFnc1
  fun_induction substitute [] data with
  | case1 rest ih =>
    rw [substitute, List.singleton_append, List.filter_cons_of_neg (by decide), ih, List.nil_append]
  | case2 c rest hc ih =>
    have hkept : substitute [fnc1] (c :: rest) = c :: substitute [fnc1] rest := by
      rw [substitute]
      exact hc
    rw [hkept, List.filter_cons, ih, List.filter_cons]
  | case3 => rfl

/-! ## Printed lines -/

/-- A line without FNC1 and without a start code anywhere. -/
def scrub (line : Text) : Text := untilStable sweep (line.filter (· != fnc1))

/-- FNC1 spelled out, for a reader who cannot see it. -/
def showFnc1 (data : Text) : Text :=
  data.flatMap fun c => if c = fnc1 then "<FNC1>".toList else [c]

end Escape

end BarcodeField
