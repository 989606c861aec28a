import BarcodeField.Json.Reader
import BarcodeField.Json.Writer
import Mathlib.Tactic.SplitIfs

/-!
# Strings come back

A string is written piece by piece. Each piece is read back by itself, whatever stands behind it, because no piece
is written as the beginning of another one: a quote and a backslash are always escaped, and an escape has a fixed
length.

**The law** (`readString?_quote`): what stands between quotes is read as the pieces that it was written for, and
what follows the closing quote is left. A surrogate code must be one for that; text has none.
-/

namespace BarcodeField.Json.Piece

variable {code : Nat} {rest : Text}

/-- Whether a surrogate code is one: not a character and no more than four hexadecimal digits. -/
def WellFormed : Piece → Prop
  | .char _ => True
  | .surrogate code => 0xD800 ≤ code ∧ code < 0xE000

theorem wellFormed_ofText {t : Text} : ∀ p ∈ ofText t, p.WellFormed := by
  intro p hp
  obtain ⟨c, _, rfl⟩ := List.mem_map.mp hp
  trivial

/-! ## Escapes -/

theorem hexValue?_hexDigit (n : Nat) : hexValue? (hexDigit n) = some (n % 16) := by
  have hall : ∀ digit < 16, hexValue? (Nat.digitChar digit) = some digit := by decide
  exact hall (n % 16) (Nat.mod_lt n (by decide))

/-- Four hexadecimal digits name the code that they spell out. -/
theorem ofHex?_hexDigit (h : code < 0x10000) :
    ofHex? (hexDigit (code / 4096)) (hexDigit (code / 256)) (hexDigit (code / 16)) (hexDigit code) =
      some (if 0xD800 ≤ code ∧ code < 0xE000 then .surrogate code else .char (Char.ofNat code)) := by
  have hcode : (code / 4096 % 16 * 16 + code / 256 % 16) * 256 + (code / 16 % 16 * 16 + code % 16) = code := by
    omega
  simp [ofHex?, hexValue?_hexDigit, hcode]

theorem readString?_escapeCode (h : code < 0x10000) (rest : Text) :
    readString? (escapeCode code ++ rest) = (readString? rest).map fun read =>
      ((if 0xD800 ≤ code ∧ code < 0xE000 then .surrogate code else .char (Char.ofNat code)) :: read.1, read.2) := by
  simp only [escapeCode, List.cons_append, List.nil_append]
  rw [readString?, ofHex?_hexDigit h]
  cases readString? rest <;> rfl

/-- A short escape is read as the character that it names. -/
theorem readString?_escape {e c : Char} (he : e ≠ 'u') (h : ofEscape? e = some c) (rest : Text) :
    readString? ('\\' :: e :: rest) = (readString? rest).map fun read => (.char c :: read.1, read.2) := by
  rw [readString?, h]
  · cases readString? rest <;> rfl
  · intro _ _ _ _ _ hu
    exact absurd hu he

/-- Any other character stands for itself. -/
theorem readString?_cons {c : Char} (hquote : c ≠ '"') (hescape : c ≠ '\\') (hprint : 0x20 ≤ c.toNat)
    (rest : Text) :
    readString? (c :: rest) = (readString? rest).map fun read => (.char c :: read.1, read.2) := by
  rw [readString?, if_neg (not_or.mpr ⟨Nat.not_lt.mpr hprint, hescape⟩)]
  · cases readString? rest <;> rfl
  · exact hquote
  · intro _ _ _ _ _ h
    exact absurd h hescape
  · intro _ _ h
    exact absurd h hescape

/-! ## Pieces -/

theorem readString?_render {p : Piece} (hp : p.WellFormed) (rest : Text) :
    readString? (p.render ++ rest) = (readString? rest).map fun read => (p :: read.1, read.2) := by
  cases p with
  | surrogate code =>
    have hcode : 0xD800 ≤ code ∧ code < 0xE000 := hp
    rw [render, readString?_escapeCode (by omega), if_pos hcode]
  | char c =>
    rw [render]
    split_ifs with hquote hescape _ _ _ _ _ hcontrol
    -- seven characters have a short escape of their own
    iterate 7
      · subst_vars
        exact readString?_escape (by decide) rfl rest
    · rw [readString?_escapeCode (by omega), if_neg (by omega), Char.ofNat_toNat]
    · exact readString?_cons hquote hescape (Nat.le_of_not_lt hcontrol) rest

/-- **A string is read from what it is written as.** The opening quote has been read. -/
theorem readString?_quote {pieces : List Piece} (h : ∀ p ∈ pieces, p.WellFormed) (rest : Text) :
    readString? (pieces.flatMap render ++ '"' :: rest) = some (pieces, rest) := by
  induction pieces with
  | nil => rfl
  | cons p pieces ih =>
    have hpieces := ih fun q hq => h q (List.mem_cons_of_mem _ hq)
    rw [List.flatMap_cons, List.append_assoc, readString?_render (h p List.mem_cons_self), hpieces,
      Option.map_some]

end BarcodeField.Json.Piece
