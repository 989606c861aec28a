import BarcodeField.Proofs.Code128.Payload
import BarcodeField.Proofs.Escape.Deletion

/-!
# What is printed beside what is encoded

A mode makes the line of a field and its payload on two ways. An escape of FNC1 is left out of the one and
replaced in the other, an FNC1 may be put in front of the payload alone, and only the line is scrubbed. It is
scrubbed last, since every mode can join characters into a start code: an escape is left out between two
characters, a check digit `9` is put behind a `>`.

**The laws.** No line shows FNC1, and no start code stands anywhere in one (`line_startCodeFree`). In every mode but
`U` the line is the scrubbed payload, so a reader is shown what a scanner reads (`line_eq_scrub_payload`). Mode `U` is
left out because its payload is padded and cut, and its line is not.

So what is printed hangs on how escapes are taken and on nothing else that a mode does
(`printed_by_escapeRule`). The modes that take `>8` for FNC1 print one line, whether they consume a leading
start code or keep it; the literal modes print another.
-/

namespace BarcodeField.Code128

open Escape

/-! ## The line alone -/

/-- **A printed line holds neither FNC1 nor a start code**, in every mode and under every policy. -/
theorem line_startCodeFree {policy : UnknownModePolicy} {mode : Mode} {data : Text} {c : Content}
    (h : content policy mode data = .ok c) : fnc1 ∉ c.line ∧ ∀ i, ¬ StartCodeAt c.line i := by
  obtain ⟨raw, _, rfl⟩ := content_eq_ok_iff.mp h
  exact ⟨fnc1_not_mem_scrub raw.line, startCodeFree_iff.mp (startCodeFree_scrub raw.line)⟩

/-- Nothing is left of a line whose start codes form one around another, the outermost by the check
digit. -/
theorem line_startCodeFree_nested :
    content .reject (.ofFlag (some [' ', 'U'])) ['>', '>', fnc1, ';', '9', '>', fnc1, '>', '9', '9', '>'] =
        .ok ⟨.code128C, fnc1 :: (List.replicate 10 '0' ++ ['>', '>', fnc1, ';', '9', '>', fnc1, '9', '>', '9']),
          []⟩ ∧
      fnc1 ∉ ([] : Text) ∧ ∀ i, ¬ StartCodeAt [] i := by
  have h : content .reject (.ofFlag (some [' ', 'U']))
      ['>', '>', fnc1, ';', '9', '>', fnc1, '>', '9', '9', '>'] =
        .ok ⟨.code128C, fnc1 :: (List.replicate 10 '0' ++ ['>', '>', fnc1, ';', '9', '>', fnc1, '9', '>', '9']),
          []⟩ := by cbv
  exact ⟨h, line_startCodeFree h⟩

/-! ## Mode by mode -/

theorem scrub_line_normalContent (data : Text) :
    scrub (normalContent data).line = scrub (normalContent data).payload := scrub_dropFnc1 _

theorem scrub_cons_fnc1 (line : Text) : scrub (fnc1 :: line) = scrub line := by
  rw [scrub, List.filter_cons_of_neg (by decide), ← scrub]

theorem scrub_leadWithFnc1 (payload : Text) : scrub (leadWithFnc1 payload) = scrub payload := by
  cases payload with
  | nil => exact scrub_cons_fnc1 []
  | cons c payload =>
    by_cases hc : c = fnc1
    · rw [leadWithFnc1, if_pos hc]
    · rw [leadWithFnc1, if_neg hc, scrub_cons_fnc1]

theorem scrub_line_uccEanContent (data : Text) :
    scrub (uccEanContent data).line = scrub (uccEanContent data).payload := by
  rw [uccEanContent, scrub_leadWithFnc1, scrub_dropFnc1]

/-- **The printed line is the scrubbed payload**, in every mode but `U`. -/
theorem line_eq_scrub_payload {policy : UnknownModePolicy} {mode : Mode} {data : Text} {c : Content}
    (h : content policy mode data = .ok c) (hU : mode ≠ .uccCase) : c.line = scrub c.payload := by
  obtain ⟨raw, hraw, rfl⟩ := content_eq_ok_iff.mp h
  show scrub raw.line = scrub raw.payload
  rcases modeContent_cases hraw with rfl | ⟨_, rfl⟩ | ⟨_, rfl⟩ | ⟨hmode, _⟩
  · exact scrub_line_normalContent _
  · rfl
  · exact scrub_line_uccEanContent _
  · exact absurd hmode hU

/-- Leaving the escape out joins a start code in the line, which the payload shows only when it is scrubbed. -/
theorem line_eq_scrub_payload_joined :
    content .reject (.ofFlag (some ['D'])) ['A', '>', '>', '8', '9', fnc1, ':'] =
        .ok ⟨.code128C, [fnc1, 'A', '>', fnc1, '9', fnc1, ':'], ['A', ':']⟩ ∧
      Mode.ofFlag (some ['D']) ≠ .uccCase ∧
      ['A', ':'] = scrub [fnc1, 'A', '>', fnc1, '9', fnc1, ':'] := by
  have h : content .reject (.ofFlag (some ['D'])) ['A', '>', '>', '8', '9', fnc1, ':'] =
      .ok ⟨.code128C, [fnc1, 'A', '>', fnc1, '9', fnc1, ':'], ['A', ':']⟩ := by cbv
  have hU : Mode.ofFlag (some ['D']) ≠ .uccCase := by decide
  exact ⟨h, hU, line_eq_scrub_payload h hU⟩

/-! ## The two lines of data -/

/-- The line of data whose escapes of FNC1 are taken as such. -/
def escapedLine (data : Text) : Text := scrub (dropFnc1 (stripStray data))

/-- The line of data that is taken as it stands. -/
def literalLine (data : Text) : Text := scrub data

/-- Mode `N` consumes a leading start code before escapes are left out; scrubbing would delete it after. -/
theorem scrub_line_normalContent_eq {data : Text} (h : StrayFree data) :
    scrub (normalContent data).line = scrub (dropFnc1 data) := by
  obtain ⟨symbology, code, rest, hcode, hdata, _, hnormal⟩ := normalContent_cases h
  rw [hnormal]
  rcases hdata with rfl | ⟨_, rfl⟩
  · calc scrub (dropFnc1 rest) = scrub (encodeFnc1 rest) := scrub_dropFnc1 rest
      _ = scrub (code ++ encodeFnc1 rest) := (scrub_startCode_append hcode _).symm
      _ = scrub (encodeFnc1 (code ++ rest)) := by rw [encodeFnc1_startCode_append hcode]
      _ = scrub (dropFnc1 (code ++ rest)) := (scrub_dropFnc1 _).symm
  · rfl

/-- What a field's data is printed as. -/
def printed (policy : UnknownModePolicy) (mode : Mode) (data : Text) : Except Fault Text :=
  (content policy mode data).map Content.line

/-- A field of mode `N` prints the line of its escapes, also where another mode falls back on it. -/
theorem printed_of_normalContent {policy : UnknownModePolicy} {mode : Mode} {data : Text}
    (h : modeContent policy mode (stripStray data) = .ok (normalContent (stripStray data))) :
    printed policy mode data = .ok (escapedLine data) := by
  rw [printed, content, h]
  exact congrArg Except.ok (scrub_line_normalContent_eq (strayFree_stripStray data))

theorem printed_of_literalContent {policy : UnknownModePolicy} {mode : Mode} {data : Text} {s : Symbology}
    (h : modeContent policy mode (stripStray data) = .ok (literalContent s (stripStray data))) :
    printed policy mode data = .ok (literalLine data) := by
  rw [printed, content, h]
  exact congrArg Except.ok (scrub_stripStray data)

/-- **What is printed hangs on the escape rule alone**: modes `N` and `D`, and an unknown flag that is taken
as `N`, print the line of escaped data; mode `A`, and an unknown flag whose data is passed on, print that of
literal data. -/
theorem printed_by_escapeRule (p q : UnknownModePolicy) (flag data : Text) :
    (printed p .normal data = .ok (escapedLine data) ∧
        printed q .uccEan data = .ok (escapedLine data) ∧
        printed .normal (.unknown flag) data = .ok (escapedLine data)) ∧
      printed p .automatic data = .ok (literalLine data) ∧
        printed .passthrough (.unknown flag) data = .ok (literalLine data) :=
  ⟨⟨printed_of_normalContent rfl, rfl, printed_of_normalContent rfl⟩,
    printed_of_literalContent rfl, printed_of_literalContent rfl⟩

end BarcodeField.Code128
