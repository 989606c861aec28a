import BarcodeField.Text

/-!
# Modes of a Code 128 field

A field carries a mode flag, or none. Blanks around the flag do not count, an absent or blank flag is
`N`, and upper and lower case differ. A flag that is none of `N`, `A`, `D` and `U` is kept: what becomes
of it is a policy of the profile.
-/

namespace BarcodeField.Code128

/-- How the data of a field is to be taken. -/
inductive Mode where
  /-- `N`: a start code selects the subset, and `>8` stands for FNC1. -/
  | normal
  /-- `A`: the data is literal, and the encoder chooses subsets. -/
  | automatic
  /-- `D`: UCC/EAN data, which begins with FNC1. -/
  | uccEan
  /-- `U`: a UCC case code with a check digit. -/
  | uccCase
  /-- Any other flag, without the blanks around it. -/
  | unknown (flag : Text)
deriving DecidableEq, Repr

/-- What to do with a mode flag that is unknown. -/
inductive UnknownModePolicy where
  /-- Take the field as in mode `N`. -/
  | normal
  /-- Encode the data in subset B as it stands. -/
  | passthrough
  /-- Refuse the field. -/
  | reject
deriving DecidableEq, Repr, Inhabited

namespace Mode

/-- The mode of a flag. -/
def ofFlag (flag : Option Text) : Mode :=
  match Text.trim (flag.getD []) with
  | [] => .normal
  | ['N'] => .normal
  | ['A'] => .automatic
  | ['D'] => .uccEan
  | ['U'] => .uccCase
  | other => .unknown other

/-- The flag of a mode. -/
def flag : Mode → Text
  | .normal => ['N']
  | .automatic => ['A']
  | .uccEan => ['D']
  | .uccCase => ['U']
  | .unknown flag => flag

end Mode

namespace UnknownModePolicy

/-- Every policy. -/
def all : List UnknownModePolicy := [.normal, .passthrough, .reject]

/-- The name that stands for a policy in documents. -/
def name : UnknownModePolicy → String
  | .normal => "normal"
  | .passthrough => "passthrough"
  | .reject => "reject"

/-- The policy of a name. -/
def ofName? (t : Text) : Option UnknownModePolicy := all.find? fun p => p.name.toList == t

theorem ofName?_name (p : UnknownModePolicy) : ofName? p.name.toList = some p := by
  cases p <;> decide

end UnknownModePolicy

end BarcodeField.Code128
