/-!
# Text

Field data, mode flags, font keys and printed lines are read and changed one character at a time, so
they are lists of Unicode characters: a length counts characters, and a cut falls between two of them.
Finished messages, which nothing looks into again, are `String`s.

The module holds what every part of the project asks of a text: which characters are blank, what is
left when an end is trimmed, and how a whole number is written.
-/

namespace BarcodeField

/-- Characters in reading order. -/
abbrev Text := List Char

namespace Text

/-! ## Blank characters -/

/-- Whether a character has Unicode's `White_Space` property. The zero-width space and the byte order
mark do not have it, nor do the information separators U+001C to U+001F. -/
def isBlankChar (c : Char) : Bool :=
  let n := c.toNat
  (0x09 ≤ n && n ≤ 0x0D) || n == 0x20 || n == 0x85 || n == 0xA0 || n == 0x1680 ||
    (0x2000 ≤ n && n ≤ 0x200A) || n == 0x2028 || n == 0x2029 || n == 0x202F || n == 0x205F ||
    n == 0x3000

/-- A text that prints nothing but space; the empty text is one. -/
def isBlank (t : Text) : Bool := t.all isBlankChar

/-! ## Trimming -/

/-- What is left when the characters that satisfy `p` are taken off the end. -/
def dropEndWhile (p : Char → Bool) (t : Text) : Text := (t.reverse.dropWhile p).reverse

/-- What is left when the characters that satisfy `p` are taken off both ends; those inside stay. -/
def strip (p : Char → Bool) (t : Text) : Text := dropEndWhile p (t.dropWhile p)

/-- The text without the blanks around it. -/
def trim (t : Text) : Text := t.strip isBlankChar

/-! ## Lines -/

/-- The first line, without the line feed that ends it or the carriage return and line feed. -/
def firstLine : Text → Text
  | [] | '\n' :: _ | '\r' :: '\n' :: _ => []
  | c :: rest => c :: firstLine rest

/-! ## Whole numbers -/

/-- Decimal digits, without leading zeros. -/
def ofNat (n : Nat) : Text := Nat.toDigits 10 n

/-- Decimal digits, after a minus sign for a number below zero. -/
def ofInt (i : Int) : Text :=
  if i < 0 then '-' :: ofNat i.natAbs else ofNat i.natAbs

/-- Brings a text to at least `width` characters by spaces at its end. -/
def padEnd (width : Nat) (t : Text) : Text := t ++ List.replicate (width - t.length) ' '

/-! ## Small laws -/

theorem ofNat_ne_nil (n : Nat) : ofNat n ≠ [] := by
  simp [ofNat]

end Text

end BarcodeField
