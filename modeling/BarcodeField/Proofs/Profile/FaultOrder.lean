import BarcodeField.Profile
import BarcodeField.Proofs.Json.Numeral

/-!
# The order of profile faults

A check goes through the rules in a fixed order: the names and the line font's numbers, then the fonts of the table
one by one, and last the line font's place in the table. `ProfileFault.rank` numbers the rules as sections of a text
are numbered, and compares as these do: a section comes before its successors and all that is in them.

A fault is reported by the part of the document that it is in and by a reason. Neither tells the broken rule alone: a
font's key can be blank or repeated, and the line font's key can be blank or name no font, and a blank key has the same
reason everywhere.

**The law** (`rank_eq_of_texts`): the two together tell the rule, and of which font it is.
-/

namespace BarcodeField.ProfileFault

/-- The place of the font at fault in the font table. -/
def fontIndex? : ProfileFault → Option Nat
  | .blankFont index | .repeatedFont index _ | .ascent index _ | .descent index _ => some index
  | _ => none

/-- The number of the broken rule. -/
def rank : ProfileFault → List Nat
  | .blankId => [0, 0]
  | .blankSchemaVersion => [0, 1]
  | .blankLineFont => [0, 2]
  | .scale _ => [0, 3]
  | .maxSize _ => [0, 4]
  | .blankFont index => [1, index, 0]
  | .repeatedFont index _ => [1, index, 1]
  | .ascent index _ => [1, index, 2]
  | .descent index _ => [1, index, 3]
  | .missingFont _ => [2]

variable {a b fault : ProfileFault} {i : Nat}

/-! ## Fields -/

/-- What follows a font's number in the name of a field. -/
def leaf : ProfileFault → String
  | .blankFont _ | .repeatedFont _ _ => "].key"
  | .ascent _ _ => "].ascent"
  | .descent _ _ => "].descent"
  | _ => ""

theorem toList_field (h : fault.fontIndex? = some i) :
    fault.field.toList = "fonts[".toList ++ (Text.ofNat i ++ fault.leaf.toList) := by
  have hfield : fault.field = "fonts[" ++ toString i ++ fault.leaf := by cases fault <;> cases h <;> rfl
  rw [hfield, String.toList_append, String.toList_append, Nat.toString_eq_repr, Nat.toList_repr, List.append_assoc]
  rfl

/-- No other field begins like the fields of fonts. -/
theorem head_field_ne (h : fault.fontIndex? = none) : fault.field.toList.head? ≠ some 'f' := by
  cases fault <;> cases h <;> simp [field]

theorem leaf_of_none (h : fault.fontIndex? = none) : fault.leaf = "" := by
  cases fault <;> cases h <;> rfl

/-- What follows a font's number does not go on it. -/
theorem head_leaf (h : fault.fontIndex? = some i) : ∀ c ∈ fault.leaf.toList.head?, c.isDigit = false := by
  cases fault <;> cases h <;> simp [leaf]

/-- The name of a font's field tells the font, and which part of it. -/
theorem fontIndex?_eq_of_field (h : a.field = b.field) : a.fontIndex? = b.fontIndex? ∧ a.leaf = b.leaf := by
  cases ha : a.fontIndex? with
  | none =>
    cases hb : b.fontIndex? with
    | none => exact ⟨rfl, by rw [leaf_of_none ha, leaf_of_none hb]⟩
    | some j =>
      have hhead : a.field.toList.head? = some 'f' := by
        rw [h, toList_field hb]
        rfl
      exact absurd hhead (head_field_ne ha)
  | some i =>
    cases hb : b.fontIndex? with
    | none =>
      have hhead : b.field.toList.head? = some 'f' := by
        rw [← h, toList_field ha]
        rfl
      exact absurd hhead (head_field_ne hb)
    | some j =>
      have hlists := congrArg String.toList h
      rw [toList_field ha, toList_field hb] at hlists
      -- the number is read up to the bracket behind it
      have hread := congrArg Json.Numeral.readWhole? (List.append_cancel_left hlists)
      rw [Json.Numeral.readWhole?_ofNat i (head_leaf ha), Json.Numeral.readWhole?_ofNat j (head_leaf hb)] at hread
      obtain ⟨hij, hleaf⟩ := Prod.mk.inj (Option.some.inj hread)
      exact ⟨congrArg some hij, String.toList_inj.mp hleaf⟩

/-! ## Reasons -/

theorem head_append {s : String} {c : Char} (h : s.toList.head? = some c) (t : String) :
    (s ++ t).toList.head? = some c := by
  rw [String.toList_append, List.head?_append, h]
  rfl

theorem blankLineFont_ne_missing (key : Text) : blankLineFont.reason ≠ (missingFont key).reason := by
  intro h
  have hblank : blankLineFont.reason.toList.head? = some 'm' := rfl
  have hmissing : (missingFont key).reason.toList.head? = some '\'' := head_append (head_append rfl _) _
  rw [h, hmissing] at hblank
  exact absurd hblank (by decide)

theorem blankFont_ne_repeated (i j : Nat) (key : Text) : (blankFont i).reason ≠ (repeatedFont j key).reason := by
  intro h
  have hblank : (blankFont i).reason = "must not be empty" := rfl
  have hrepeated : (repeatedFont j key).reason.toList.head? = some 'd' := head_append (head_append rfl _) _
  rw [← h, hblank] at hrepeated
  exact absurd hrepeated (by decide)

/-! ## Rules -/

theorem rank_eq_of_none (ha : a.fontIndex? = none) (hb : b.fontIndex? = none) (hfield : a.field = b.field)
    (hreason : a.reason = b.reason) : a.rank = b.rank := by
  have hmissing (key : Text) := (blankLineFont_ne_missing key).symm
  cases a <;> cases ha <;> cases b <;> cases hb <;> simp_all [field, rank, blankLineFont_ne_missing]

theorem rank_eq_of_some (ha : a.fontIndex? = some i) (hb : b.fontIndex? = some i) (hleaf : a.leaf = b.leaf)
    (hreason : a.reason = b.reason) : a.rank = b.rank := by
  have hrepeated (j k : Nat) (key : Text) := (blankFont_ne_repeated j k key).symm
  cases a <;> cases ha <;> cases b <;> cases hb <;> simp_all [leaf, rank, blankFont_ne_repeated]

/-- **Field and reason tell the broken rule.** -/
theorem rank_eq_of_texts (hfield : a.field = b.field) (hreason : a.reason = b.reason) : a.rank = b.rank := by
  obtain ⟨hindex, hleaf⟩ := fontIndex?_eq_of_field hfield
  cases hb : b.fontIndex? with
  | none => exact rank_eq_of_none (hindex.trans hb) hb hfield hreason
  | some i => exact rank_eq_of_some (hindex.trans hb) hb hleaf hreason

end BarcodeField.ProfileFault
