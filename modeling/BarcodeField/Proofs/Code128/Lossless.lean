import BarcodeField.Proofs.Code128.Payload

/-!
# Data that mode `N` tells apart

A payload of mode `N` holds no start code and no escape of FNC1: each was taken for what it stands for. Nothing
is lost by it, since the start code is seen in the symbology, and an escape in the FNC1 that was written for it.

**The law** (`content_normal_lossless`): take two data texts that hold no FNC1 themselves, and delete their stray
start codes. Mode `N` makes one symbology and one payload of them just where they are the same, or where one is
the start code of subset B and then the other. Data without a start code is taken as if it had this one, so the
two say the same.

A content can also be written as data again, and taken in mode `N` this data makes the same content, line and all
(`content_normal_reencode`): the start code that selects its symbology, and then its payload with each FNC1 as its
escape. The written start code is the only one, since writing escapes forms none; and the escapes in it are those that
were written.
-/

namespace BarcodeField.Code128

open Escape

/-! ## Data written back from a content -/

/-- Any payload without start codes and escapes is made by the data that is written from it. -/
theorem content_normal_escapeFnc1 (policy : UnknownModePolicy) {symbology : Symbology} {code payload : Text}
    (hcode : startCode? symbology = some code) (hcodes : StartCodeFree payload)
    (hescapes : EscapeFree payload) :
    content policy .normal (code ++ escapeFnc1 payload) = .ok ⟨symbology, payload, scrub payload⟩ := by
  have hstrip : stripStray (code ++ escapeFnc1 payload) = code ++ escapeFnc1 payload := by
    have hfree := startCodeFree_escapeFnc1 hcodes
    refine stripStray_of_strayFree ?_
    cases symbology <;> cases hcode <;>
      exact List.isChain_cons.mpr ⟨fun b _ => apart_of_ne_open b (by decide), hfree⟩
  refine content_eq_ok_iff.mpr ⟨_, rfl, ?_⟩
  rw [hstrip, normalContent_append hcode, scrub_dropFnc1, encodeFnc1_escapeFnc1 hescapes]

/-- A content of mode `N` is of this form. -/
theorem exists_content_normal (policy : UnknownModePolicy) (data : Text) :
    ∃ symbology code payload, startCode? symbology = some code ∧ StartCodeFree payload ∧
      EscapeFree payload ∧
      content policy .normal data = .ok ⟨symbology, payload, scrub payload⟩ := by
  obtain ⟨symbology, code, rest, hcode, _, hrest, hnormal⟩ := normalContent_cases (strayFree_stripStray data)
  refine ⟨symbology, code, encodeFnc1 rest, hcode, startCodeFree_encodeFnc1 hrest,
    escapeFree_encodeFnc1 rest, content_eq_ok_iff.mpr ⟨_, rfl, ?_⟩⟩
  rw [hnormal, scrub_dropFnc1]

/-- **A content of mode `N` survives being written as data and taken in mode `N` again.** -/
theorem content_normal_reencode (policy : UnknownModePolicy) (data : Text) :
    ∃ c code, content policy .normal data = .ok c ∧ startCode? c.symbology = some code ∧
      content policy .normal (code ++ escapeFnc1 c.payload) = .ok c := by
  obtain ⟨symbology, code, payload, hcode, hcodes, hescapes, hcontent⟩ := exists_content_normal policy data
  exact ⟨_, code, hcontent, hcode, content_normal_escapeFnc1 policy hcode hcodes hescapes⟩

/-! ## From the content to the data -/

/-- The data is its start code, which may be left out in subset B, and the payload with escapes for FNC1. -/
theorem data_of_normalContent {data : Text} (h : StrayFree data) (hfnc1 : fnc1 ∉ data) :
    ∃ code, startCode? (normalContent data).symbology = some code ∧
      (data = code ++ escapeFnc1 (normalContent data).payload ∨
        (normalContent data).symbology = .code128B ∧ data = escapeFnc1 (normalContent data).payload) := by
  obtain ⟨symbology, code, rest, hcode, hparts, _, hnormal⟩ := normalContent_cases h
  rw [hnormal]
  refine ⟨code, hcode, ?_⟩
  rcases hparts with rfl | ⟨hB, rfl⟩
  · have hrest : fnc1 ∉ rest := fun hmem => hfnc1 (List.mem_append_right code hmem)
    exact .inl (congrArg (code ++ ·) (escapeFnc1_encodeFnc1 hrest).symm)
  · exact .inr ⟨hB, (escapeFnc1_encodeFnc1 hfnc1).symm⟩

/-! ## Data with the same content -/

/-- The same data, but that one text may spell out the start code of subset B that the other leaves out. -/
def SameButForDefault (data other : Text) : Prop :=
  data = other ∨ data = ['>', ':'] ++ other ∨ other = ['>', ':'] ++ data

/-- Symbology and payload give back the data, up to the start code of subset B. -/
theorem sameButForDefault_of_normalContent {data other : Text} (hdata : StrayFree data)
    (hother : StrayFree other) (hdata1 : fnc1 ∉ data) (hother1 : fnc1 ∉ other)
    (hsymbology : (normalContent data).symbology = (normalContent other).symbology)
    (hpayload : (normalContent data).payload = (normalContent other).payload) :
    SameButForDefault data other := by
  obtain ⟨code, hcode, hcases⟩ := data_of_normalContent hdata hdata1
  obtain ⟨code', hcode', hcases'⟩ := data_of_normalContent hother hother1
  rw [hsymbology] at hcode hcases
  rw [hpayload] at hcases
  obtain rfl : code = code' := Option.some.inj (hcode.symm.trans hcode')
  have default_code (hB : (normalContent other).symbology = .code128B) : code = ['>', ':'] := by
    rw [hB] at hcode
    exact (Option.some.inj hcode).symm
  rcases hcases with hspelled | ⟨hB, hleft⟩ <;> rcases hcases' with hspelled' | ⟨hB', hleft'⟩
  · exact .inl (hspelled.trans hspelled'.symm)
  · rw [default_code hB', ← hleft'] at hspelled
    exact .inr (.inl hspelled)
  · rw [default_code hB, ← hleft] at hspelled'
    exact .inr (.inr hspelled')
  · exact .inl (hleft.trans hleft'.symm)

/-- Data is taken in the same way with the start code that it is taken to have. -/
theorem normalContent_default {data : Text} (h : StrayFree (['>', ':'] ++ data)) :
    normalContent (['>', ':'] ++ data) = normalContent data := by
  have hcode : startCode? .code128B = some ['>', ':'] := rfl
  have hsplit : splitStart? data = none := by
    rw [← Option.not_isSome_iff_eq_none, splitStart?_isSome_iff]
    exact startCodeFree_iff.mp (h.startCodeFree_of_append hcode) 0
  rw [normalContent_append hcode, normalContent, hsplit]
  rfl

theorem SameButForDefault.normalContent_eq {data other : Text} (h : SameButForDefault data other)
    (hdata : StrayFree data) (hother : StrayFree other) : normalContent data = normalContent other := by
  rcases h with rfl | rfl | rfl
  · rfl
  · exact normalContent_default hdata
  · exact (normalContent_default hother).symm

/-! ## Mode `N` -/

/-- **Mode `N` consumes every escape and confuses no data**, but for the start code of subset B, which may be
spelled out or left out. -/
theorem content_normal_lossless (p q : UnknownModePolicy) (data other : Text) :
    ∃ c c', content p .normal data = .ok c ∧ content q .normal other = .ok c' ∧
      (∀ i, ¬ StartCodeAt c.payload i ∧ ¬ fnc1Escape <+: c.payload.drop i) ∧
      (fnc1 ∉ data → fnc1 ∉ other →
        (c.symbology = c'.symbology ∧ c.payload = c'.payload ↔
          stripStray data = stripStray other ∨ stripStray data = ['>', ':'] ++ stripStray other ∨
            stripStray other = ['>', ':'] ++ stripStray data)) := by
  have hdata := strayFree_stripStray data
  have hother := strayFree_stripStray other
  refine ⟨_, _, rfl, rfl, fun i => ⟨?_, ?_⟩, fun hdata1 hother1 => ⟨?_, fun hsame => ?_⟩⟩
  · exact startCodeFree_iff.mp (startCodeFree_normalContent hdata) i
  · exact escapeFree_iff.mp (escapeFree_encodeFnc1 _) i
  · rintro ⟨hsymbology, hpayload⟩
    have hdata1 : fnc1 ∉ stripStray data := fun hmem => hdata1 ((stripStray_sublist data).mem hmem)
    have hother1 : fnc1 ∉ stripStray other := fun hmem => hother1 ((stripStray_sublist other).mem hmem)
    exact sameButForDefault_of_normalContent hdata hother hdata1 hother1 hsymbology hpayload
  · rw [SameButForDefault.normalContent_eq hsame hdata hother]
    exact ⟨rfl, rfl⟩

/-- A stray start code in the one text and another in the other text are deleted, and the `>8` that is joined is an
escape like the one that was there; only subset B is spelled out. In subset C the same data is told apart. -/
theorem content_normal_lossless_default :
    let data : Text := ['>', ':', 'A', '>', '8', '>', '9']
    let other : Text := ['A', '>', '>', ';', '8']
    let third : Text := ['>', ';', 'A', '>', '8']
    fnc1 ∉ data ∧ fnc1 ∉ other ∧ fnc1 ∉ third ∧ stripStray data = ['>', ':'] ++ stripStray other ∧
      (∃ c c', content .normal .normal data = .ok c ∧ content .reject .normal other = .ok c' ∧
        c.symbology = c'.symbology ∧ c.payload = c'.payload) ∧
      ∃ c c', content .normal .normal data = .ok c ∧ content .reject .normal third = .ok c' ∧
        ¬ (c.symbology = c'.symbology ∧ c.payload = c'.payload) := by
  intro data other third
  have hdata : fnc1 ∉ data := by decide
  have hother : fnc1 ∉ other := by decide
  have hthird : fnc1 ∉ third := by decide
  have hstrip : stripStray data = ['>', ':', 'A', '>', '8'] := by cbv
  have hstrip' : stripStray other = ['A', '>', '8'] := by cbv
  have hstrip'' : stripStray third = ['>', ';', 'A', '>', '8'] := by cbv
  have hsame : stripStray data = ['>', ':'] ++ stripStray other := by
    rw [hstrip, hstrip']
    rfl
  obtain ⟨c, c', hc, hc', _, hiff⟩ := content_normal_lossless .normal .reject data other
  obtain ⟨d, d', hd, hd', _, hiff'⟩ := content_normal_lossless .normal .reject data third
  refine ⟨hdata, hother, hthird, hsame, ⟨c, c', hc, hc', (hiff hdata hother).mpr (.inr (.inl hsame))⟩,
    d, d', hd, hd', fun hboth => ?_⟩
  have hnone := (hiff' hdata hthird).mp hboth
  rw [hstrip, hstrip''] at hnone
  exact absurd hnone (by decide)

end BarcodeField.Code128
