import BarcodeField.Json.Value

/-!
# Writing JSON

One writer serves both layouts: the compact one, without any blank, and the indented one, in which every
element and member has a line of its own, two spaces deeper than the bracket around it. An array or
object without content is written as its two brackets in either layout.

Strings escape the quote, the backslash and the characters below U+0020, by a short escape where there is
one; all other characters stand for themselves.
-/

namespace BarcodeField.Json

/-- How the parts of a document are set off from one another. -/
inductive Style where
  | compact
  | indented
deriving DecidableEq, Repr

namespace Style

/-- What precedes a part that stands inside `depth` brackets. -/
def newline (style : Style) (depth : Nat) : Text :=
  match style with
  | .compact => []
  | .indented => '\n' :: List.replicate (2 * depth) ' '

/-- What stands between a member's name and its value. -/
def colon : Style → Text
  | .compact => [':']
  | .indented => [':', ' ']

end Style

/-! ## Strings -/

namespace Piece

/-- A hexadecimal digit, in lower case. -/
def hexDigit (n : Nat) : Char := Nat.digitChar (n % 16)

/-- The escape that spells a code out in four hexadecimal digits. -/
def escapeCode (code : Nat) : Text :=
  ['\\', 'u', hexDigit (code / 4096), hexDigit (code / 256), hexDigit (code / 16), hexDigit code]

/-- A piece between the quotes of a string. -/
def render : Piece → Text
  | .surrogate code => escapeCode code
  | .char c =>
    if c = '"' then ['\\', '"']
    else if c = '\\' then ['\\', '\\']
    else if c = '\x08' then ['\\', 'b']
    else if c = '\t' then ['\\', 't']
    else if c = '\n' then ['\\', 'n']
    else if c = '\x0c' then ['\\', 'f']
    else if c = '\r' then ['\\', 'r']
    else if c.toNat < 0x20 then escapeCode c.toNat
    else [c]

/-- A string with its quotes. -/
def quote (pieces : List Piece) : Text := '"' :: (pieces.flatMap render ++ ['"'])

end Piece

/-! ## Values -/

namespace Value

mutual

/-- The characters of a value that stands inside `depth` brackets. -/
def write (style : Style) (depth : Nat) : Value → Text
  | .null => ['n', 'u', 'l', 'l']
  | .bool true => ['t', 'r', 'u', 'e']
  | .bool false => ['f', 'a', 'l', 's', 'e']
  | .number n => n.render
  | .string pieces => Piece.quote pieces
  | .array [] => ['[', ']']
  | .array (v :: rest) =>
    '[' :: (style.newline (depth + 1) ++ v.write style (depth + 1) ++ writeElements style depth rest)
  | .object [] => ['\x7b', '\x7d']
  | .object ((key, v) :: rest) =>
    '\x7b' :: (style.newline (depth + 1) ++ Piece.quote key ++ style.colon ++
      v.write style (depth + 1) ++ writeMembers style depth rest)

/-- What follows an element of an array: the other elements and the closing bracket. -/
def writeElements (style : Style) (depth : Nat) : List Value → Text
  | [] => style.newline depth ++ [']']
  | v :: rest =>
    ',' :: (style.newline (depth + 1) ++ v.write style (depth + 1) ++ writeElements style depth rest)

/-- What follows a member of an object: the other members and the closing bracket. -/
def writeMembers (style : Style) (depth : Nat) : List (List Piece × Value) → Text
  | [] => style.newline depth ++ ['\x7d']
  | (key, v) :: rest =>
    ',' :: (style.newline (depth + 1) ++ Piece.quote key ++ style.colon ++
      v.write style (depth + 1) ++ writeMembers style depth rest)

end

/-- The value as a document without blanks. -/
def compact (v : Value) : Text := v.write .compact 0

/-- The value as a document of indented lines. -/
def indented (v : Value) : Text := v.write .indented 0

end Value

end BarcodeField.Json
