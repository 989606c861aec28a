import BarcodeField.CheckDigit
import BarcodeField.Code128.Mode
import BarcodeField.Content
import BarcodeField.Escape
import BarcodeField.Field

/-!
# Content of a Code 128 field

Stray start codes are deleted first, whatever the mode. What is left is taken as the mode says:

| mode | symbology | payload | line |
|---|---|---|---|
| `N` | by the start code, else subset B | FNC1 for `>8` | without `>8` |
| `A` | left to the encoder | the data | the data |
| `D` | subset C | FNC1 for `>8`, and FNC1 in front | without `>8` |
| `U` | subset C | FNC1, nineteen characters, check digit | the data and the check digit |

Last, the line is scrubbed: it shows neither FNC1 nor a start code.
-/

namespace BarcodeField.Code128

/-! ## The modes, on data without stray start codes -/

/-- A leading start code selects the subset and is consumed. -/
def normalContent (data : Text) : Content :=
  let (symbology, rest) := (Escape.splitStart? data).getD (.code128B, data)
  ⟨symbology, Escape.encodeFnc1 rest, Escape.dropFnc1 rest⟩

/-- The data is encoded and printed as it stands. -/
def literalContent (symbology : Symbology) (data : Text) : Content := ⟨symbology, data, data⟩

/-- FNC1 in front of a payload that does not begin with it. -/
def leadWithFnc1 : Text → Text
  | [] => [fnc1]
  | c :: rest => if c = fnc1 then c :: rest else fnc1 :: c :: rest

/-- UCC/EAN data in subset C. -/
def uccEanContent (data : Text) : Content :=
  ⟨.code128C, leadWithFnc1 (Escape.encodeFnc1 data), Escape.dropFnc1 data⟩

/-- A case code in subset C. Its line shows all of the data, also what the payload has no room for. -/
def uccCaseContent (data : Text) : Content :=
  let padded := CheckDigit.pad data
  let check := CheckDigit.digitChar (CheckDigit.digit padded)
  ⟨.code128C, fnc1 :: (padded ++ [check]), data ++ [check]⟩

/-! ## All modes -/

/-- The content that a mode makes of data without stray start codes, before its line is scrubbed. -/
def modeContent (policy : UnknownModePolicy) (mode : Mode) (data : Text) : Except Fault Content :=
  match mode with
  | .normal => .ok (normalContent data)
  | .automatic => .ok (literalContent .code128Auto data)
  | .uccEan => .ok (uccEanContent data)
  | .uccCase => .ok (uccCaseContent data)
  | .unknown flag =>
    match policy with
    | .normal => .ok (normalContent data)
    | .passthrough => .ok (literalContent .code128B data)
    | .reject => .error (.unknownMode flag)

/-- The content of a Code 128 field. -/
def content (policy : UnknownModePolicy) (mode : Mode) (data : Text) : Except Fault Content :=
  (modeContent policy mode (Escape.stripStray data)).map fun c =>
    { c with line := Escape.scrub c.line }

/-! ## Small laws -/

theorem content_eq_ok_iff {policy : UnknownModePolicy} {mode : Mode} {data : Text} {c : Content} :
    content policy mode data = .ok c ↔
      ∃ raw, modeContent policy mode (Escape.stripStray data) = .ok raw ∧
        c = { raw with line := Escape.scrub raw.line } := by
  unfold content
  cases modeContent policy mode (Escape.stripStray data) with
  | error fault => exact ⟨nofun, fun ⟨_, h, _⟩ => nomatch h⟩
  | ok raw =>
    constructor
    · intro h
      cases h
      exact ⟨raw, rfl, rfl⟩
    · rintro ⟨_, h, rfl⟩
      cases h
      rfl

/-- The four ways in which data makes a content; only modes `D` and `U` have one of their own. -/
theorem modeContent_cases {policy : UnknownModePolicy} {mode : Mode} {data : Text} {raw : Content}
    (h : modeContent policy mode data = .ok raw) :
    raw = normalContent data ∨ (∃ symbology, raw = literalContent symbology data) ∨
      (mode = .uccEan ∧ raw = uccEanContent data) ∨ (mode = .uccCase ∧ raw = uccCaseContent data) := by
  cases mode with
  | normal =>
    cases h
    exact .inl rfl
  | automatic =>
    cases h
    exact .inr (.inl ⟨_, rfl⟩)
  | uccEan =>
    cases h
    exact .inr (.inr (.inl ⟨rfl, rfl⟩))
  | uccCase =>
    cases h
    exact .inr (.inr (.inr ⟨rfl, rfl⟩))
  | unknown flag =>
    cases policy <;> cases h
    · exact .inl rfl
    · exact .inr (.inl ⟨_, rfl⟩)

end BarcodeField.Code128
