import BarcodeField.Json.Value

/-!
# Records in JSON

A record has fields of fixed names. A document may write it as an object, in which the names can stand in
any order and names that the record does not know are passed over, or as an array of the values in the
record's own order, from whose end values may be left off. `Value.fields?` brings both to one form, the
list of the fields' values with a gap for each that is missing; whether a gap may stand is for the reader
of the record to say.

A name out of a fixed set is written as a string, or as an object whose only member bears the name and
holds nothing.
-/

namespace BarcodeField.Json.Value

/-! ## Records -/

/-- Members with their names as text; `none` if a name is not text. -/
def namedMembers? (members : List (List Piece × Value)) : Option (List (Text × Value)) :=
  members.mapM fun m => (Piece.text? m.1).map (·, m.2)

/-- The value of the member with a name, or a gap if there is none; `none` if there are several. -/
def member? (members : List (Text × Value)) (name : Text) : Option (Option Value) :=
  match members.filter fun m => m.1 == name with
  | [] => some none
  | [m] => some (some m.2)
  | _ => none

/-- The values of a record's fields in the order of their names, with a gap for each missing field. -/
def fields? (names : List String) : Value → Option (List (Option Value))
  | .object members => do
    let members ← namedMembers? members
    names.mapM fun name => member? members name.toList
  | .array values =>
    if values.length ≤ names.length then
      some (values.map some ++ List.replicate (names.length - values.length) none)
    else none
  | _ => none

/-- Reads a field that may be missing. -/
def orElse {α : Type} (fallback : α) (read : Value → Option α) : Option Value → Option α
  | none => some fallback
  | some v => read v

/-! ## Names out of a fixed set -/

/-- The name that a value gives, where `holdsNothing` says which values an object may hold beside it. -/
def choice? (holdsNothing : Value → Bool) : Value → Option Text
  | .string pieces => Piece.text? pieces
  | .object [(key, v)] => if holdsNothing v then Piece.text? key else none
  | _ => none

end BarcodeField.Json.Value
