import BarcodeField.Json.Numeral

/-!
# JSON values

A value keeps what a document says and in which order: members may repeat, numbers are numerals, and
strings are sequences of pieces, because an escape can name half of a surrogate pair, which is no
character. Such a string is well formed but is not text; `text?` tells the two apart.

A value is **holdable** (`Value.isHoldable`) when it can be stored before its meaning is known: its strings
are text, its numbers are in double precision's range, and it is nested no deeper than a given number of
levels.
-/

namespace BarcodeField.Json

/-! ## Strings -/

/-- What one character or escape of a string stands for: a character, or the surrogate code of an escape
that is half of a pair. -/
inductive Piece where
  | char (c : Char)
  | surrogate (code : Nat)
deriving DecidableEq, Repr

namespace Piece

/-- The character that a leading and a trailing surrogate stand for together. -/
def pair? (leading trailing : Nat) : Option Char :=
  if leading < 0xDC00 ∧ 0xDC00 ≤ trailing then
    some (Char.ofNat (0x10000 + (leading - 0xD800) * 0x400 + (trailing - 0xDC00)))
  else none

/-- The text that pieces make up; `none` if a surrogate has no partner beside it. -/
def text? : List Piece → Option Text
  | [] => some []
  | .char c :: rest => (text? rest).map (c :: ·)
  | .surrogate leading :: .surrogate trailing :: rest => do
    let c ← pair? leading trailing
    (text? rest).map (c :: ·)
  | .surrogate _ :: _ => none

/-- The pieces of a text. -/
def ofText (t : Text) : List Piece := t.map .char

@[simp] theorem text?_ofText (t : Text) : text? (ofText t) = some t := by
  induction t with
  | nil => rfl
  | cons c rest ih =>
    show (text? (ofText rest)).map (c :: ·) = _
    rw [ih]
    rfl

end Piece

/-! ## Values -/

/-- A JSON value. -/
inductive Value where
  | null
  | bool (b : Bool)
  | number (n : Numeral)
  | string (pieces : List Piece)
  | array (values : List Value)
  | object (members : List (List Piece × Value))

namespace Value

instance : Inhabited Value := ⟨.null⟩

/-- A text as a string. -/
def text (t : Text) : Value := .string (Piece.ofText t)

/-- An integer as a number. -/
def integer (i : Int) : Value := .number (.ofInt i)

/-- A single-precision number; what is not finite is written as null. -/
def single (x : Single) : Value :=
  match Numeral.ofSingle? x with
  | some n => .number n
  | none => .null

/-- An object with the members given. -/
def record (members : List (String × Value)) : Value :=
  .object (members.map fun m => (Piece.ofText m.1.toList, m.2))

/-! ## Looking inside -/

def bool? : Value → Option Bool
  | .bool b => some b
  | _ => none

def text? : Value → Option Text
  | .string pieces => Piece.text? pieces
  | _ => none

def single? : Value → Option Single
  | .number n => n.single?
  | _ => none

def int32? : Value → Option Int32
  | .number n => n.int32?
  | _ => none

def array? : Value → Option (List Value)
  | .array values => some values
  | _ => none

def isNull : Value → Bool
  | .null => true
  | _ => false

/-- Whether the value is an object without members. -/
def isEmptyObject : Value → Bool
  | .object [] => true
  | _ => false

/-! ## Values that can be held -/

mutual

/-- Whether the strings of a value are text, its numbers are in range, and no more than `levels` arrays
and objects stand one inside the other. -/
def isHoldable (levels : Nat) : Value → Bool
  | .null => true
  | .bool _ => true
  | .number n => n.double?.isSome
  | .string pieces => (Piece.text? pieces).isSome
  | .array values => decide (0 < levels) && areHoldable (levels - 1) values
  | .object members => decide (0 < levels) && membersHoldable (levels - 1) members

def areHoldable (levels : Nat) : List Value → Bool
  | [] => true
  | v :: rest => v.isHoldable levels && areHoldable levels rest

def membersHoldable (levels : Nat) : List (List Piece × Value) → Bool
  | [] => true
  | (key, v) :: rest =>
    (Piece.text? key).isSome && v.isHoldable levels && membersHoldable levels rest

end

end Value

end BarcodeField.Json
