import BarcodeField.Json.Value

/-!
# Reading JSON

The reader takes the grammar at its word: one value with blanks around it and nothing after it; no
comment, no trailing comma, no leading zero or plus sign, no bare point, no control character inside a
string. It decides the form of a document only. Whether a string is text, a number in range or a name
known is asked of the value it returns.

Every function returns what it read and the characters it left. `fuel` bounds the calls of the three
functions that read values, elements and members; two calls for each character are enough, and
`Value.read?` provides them.
-/

namespace BarcodeField.Json

/-- The four characters that may stand between the parts of a document. -/
def isGap (c : Char) : Bool := c == ' ' || c == '\t' || c == '\n' || c == '\r'

/-- The text after the gap at its start. -/
def skipGap (t : Text) : Text := t.dropWhile isGap

/-! ## Strings -/

namespace Piece

/-- The value of a hexadecimal digit of either case. -/
def hexValue? (c : Char) : Option Nat :=
  if '0' ≤ c ∧ c ≤ '9' then some (c.toNat - '0'.toNat)
  else if 'a' ≤ c ∧ c ≤ 'f' then some (c.toNat - 'a'.toNat + 10)
  else if 'A' ≤ c ∧ c ≤ 'F' then some (c.toNat - 'A'.toNat + 10)
  else none

/-- The piece that four hexadecimal digits name. -/
def ofHex? (a b c d : Char) : Option Piece := do
  let code := ((← hexValue? a) * 16 + (← hexValue? b)) * 256 + ((← hexValue? c) * 16 + (← hexValue? d))
  return if 0xD800 ≤ code ∧ code < 0xE000 then .surrogate code else .char (Char.ofNat code)

/-- The character that a short escape names. -/
def ofEscape? (c : Char) : Option Char :=
  if c = '"' ∨ c = '\\' ∨ c = '/' then some c
  else if c = 'b' then some '\x08'
  else if c = 'f' then some '\x0c'
  else if c = 'n' then some '\n'
  else if c = 'r' then some '\r'
  else if c = 't' then some '\t'
  else none

/-- Reads a string from behind its opening quote to behind its closing one. -/
def readString? : Text → Option (List Piece × Text)
  | [] => none
  | '"' :: rest => some ([], rest)
  | '\\' :: 'u' :: a :: b :: c :: d :: rest => do
    let piece ← ofHex? a b c d
    let (pieces, left) ← readString? rest
    return (piece :: pieces, left)
  | '\\' :: e :: rest => do
    let c ← ofEscape? e
    let (pieces, left) ← readString? rest
    return (.char c :: pieces, left)
  | c :: rest =>
    if c.toNat < 0x20 ∨ c = '\\' then none
    else do
      let (pieces, left) ← readString? rest
      return (.char c :: pieces, left)

end Piece

/-! ## Numbers -/

namespace Numeral

/-- The digits at the start of a text, and what follows them. -/
def splitDigits (t : Text) : Text × Text := (t.takeWhile Char.isDigit, t.dropWhile Char.isDigit)

/-- Reads the digits of a whole part: one zero, or digits that do not begin with zero. -/
def readWhole? (t : Text) : Option (Nat × Text) :=
  match splitDigits t with
  | ([], _) => none
  | ('0' :: _ :: _, _) => none
  | (digits, left) => some (Nat.ofDigitChars 10 digits 0, left)

/-- Reads a point and the digits after it, if there is a point. -/
def readFraction? : Text → Option (Text × Text)
  | '.' :: rest =>
    match splitDigits rest with
    | ([], _) => none
    | (digits, left) => some (digits, left)
  | t => some ([], t)

/-- Reads the digits of an exponent whose sign is known. -/
def readPower? (negative : Bool) (t : Text) : Option (Option Int × Text) :=
  match splitDigits t with
  | ([], _) => none
  | (digits, left) =>
    let power : Int := Nat.ofDigitChars 10 digits 0
    some (some (if negative then -power else power), left)

/-- Reads an exponent, if there is one. -/
def readExponent? : Text → Option (Option Int × Text)
  | c :: rest =>
    if c = 'e' ∨ c = 'E' then
      match rest with
      | '+' :: digits => readPower? false digits
      | '-' :: digits => readPower? true digits
      | digits => readPower? false digits
    else some (none, c :: rest)
  | [] => some (none, [])

/-- Reads the parts of a numeral that follow its sign. -/
def readUnsigned? (negative : Bool) (t : Text) : Option (Numeral × Text) := do
  let (whole, t) ← readWhole? t
  let (fraction, t) ← readFraction? t
  let (exponent, t) ← readExponent? t
  return (⟨negative, whole, fraction, exponent⟩, t)

/-- Reads a numeral. -/
def read? : Text → Option (Numeral × Text)
  | '-' :: rest => readUnsigned? true rest
  | t => readUnsigned? false t

end Numeral

/-! ## Values -/

namespace Value

mutual

/-- Reads a value, with the gap before it. -/
def readValue? : Nat → Text → Option (Value × Text)
  | 0, _ => none
  | fuel + 1, t =>
    match skipGap t with
    | '\x7b' :: rest =>
      match skipGap rest with
      | '\x7d' :: left => some (.object [], left)
      | inside => do
        let (members, left) ← readMembers? fuel inside
        return (.object members, left)
    | '[' :: rest =>
      match skipGap rest with
      | ']' :: left => some (.array [], left)
      | inside => do
        let (values, left) ← readElements? fuel inside
        return (.array values, left)
    | '"' :: rest => do
      let (pieces, left) ← Piece.readString? rest
      return (.string pieces, left)
    | 'n' :: 'u' :: 'l' :: 'l' :: left => some (.null, left)
    | 't' :: 'r' :: 'u' :: 'e' :: left => some (.bool true, left)
    | 'f' :: 'a' :: 'l' :: 's' :: 'e' :: left => some (.bool false, left)
    | start => do
      let (n, left) ← Numeral.read? start
      return (.number n, left)

/-- Reads the elements of an array, of which there is at least one, and its closing bracket. -/
def readElements? : Nat → Text → Option (List Value × Text)
  | 0, _ => none
  | fuel + 1, t => do
    let (v, t) ← readValue? fuel t
    match skipGap t with
    | ']' :: left => return ([v], left)
    | ',' :: rest =>
      let (values, left) ← readElements? fuel rest
      return (v :: values, left)
    | _ => none

/-- Reads the members of an object, of which there is at least one, and its closing bracket. -/
def readMembers? : Nat → Text → Option (List (List Piece × Value) × Text)
  | 0, _ => none
  | fuel + 1, t =>
    match skipGap t with
    | '"' :: rest => do
      let (key, t) ← Piece.readString? rest
      match skipGap t with
      | ':' :: rest =>
        let (v, t) ← readValue? fuel rest
        match skipGap t with
        | '\x7d' :: left => return ([(key, v)], left)
        | ',' :: rest =>
          let (members, left) ← readMembers? fuel rest
          return ((key, v) :: members, left)
        | _ => none
      | _ => none
    | _ => none

end

/-- The value that a document holds; `none` if it is not well formed. -/
def read? (t : Text) : Option Value := do
  let (v, left) ← readValue? (2 * t.length + 2) t
  if skipGap left = [] then some v else none

end Value

end BarcodeField.Json
