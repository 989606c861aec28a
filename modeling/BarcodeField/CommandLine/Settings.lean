import BarcodeField.CommandLine.Terminal
import BarcodeField.Field
import BarcodeField.Single.Literal

/-!
# Options and their values

What may be set on a command line, under which names, and which values each option takes. Three options
belong to every command and may also stand before it; the others describe a field. An option is set at
most once on each side of the command's name, except that `--verbose` counts.

A height is written as a whole number with or without a sign. The digits are first gathered into a 64-bit
number, which may run over before a later character is seen to be no digit; what comes out must then be a
32-bit one.
-/

namespace BarcodeField.CommandLine

/-! ## Names -/

/-- An option. -/
inductive Opt where
  | output
  | profile
  | verbose
  | help
  | version
  | mode
  | moduleWidth
  | height
  | line
  | above
  | orientation
  | x
  | y
  | origin
deriving DecidableEq, Repr

namespace Opt

/-- The name of an option, without the dashes before it. -/
def name : Opt → String
  | .output => "output"
  | .profile => "profile"
  | .verbose => "verbose"
  | .help => "help"
  | .version => "version"
  | .mode => "mode"
  | .moduleWidth => "module-width"
  | .height => "height"
  | .line => "line"
  | .above => "above"
  | .orientation => "orientation"
  | .x => "x"
  | .y => "y"
  | .origin => "origin"

/-- The letter of an option that has one. -/
def letter? : Opt → Option Char
  | .verbose => some 'v'
  | .help => some 'h'
  | .version => some 'V'
  | _ => none

/-- Whether a value follows the option. -/
def takesValue : Opt → Bool
  | .verbose | .help | .version | .origin => false
  | _ => true

/-- What stands for the option's value in a message. -/
def valueName (opt : Opt) : String :=
  String.ofList (opt.name.toList.map fun c => if c = '-' then '_' else c.toUpper)

end Opt

/-! ## Refusals -/

/-- Why arguments are refused. -/
inductive Refusal where
  /-- They do not form a command. -/
  | usage
  /-- An option does not take its value, for a reason that may go without saying. -/
  | value (opt : Opt) (value : Text) (reason : Option String)
deriving DecidableEq

namespace Refusal

/-- What is said about a refused value, as a terminal takes it; other refusals go without a message. -/
def message? : Refusal → Option Text
  | .usage => none
  | .value opt given reason =>
    let name := opt.name
    let valueName := opt.valueName
    let option := Terminal.coloured "1" s!"--{name} <{valueName}>".toList
    let because := match reason with
      | none => []
      | some reason => ": ".toList ++ reason.toList
    some (Terminal.coloured "31" "error:".toList ++ " invalid value '".toList ++
      Terminal.coloured "33" given ++ "' for '".toList ++ option ++ "'".toList ++ because ++
      "\n\nFor more information, try '".toList ++ Terminal.coloured "1" "--help".toList ++ "'.\n".toList)

/-- The first line of that message, as it reads where there is no terminal. -/
def firstLine? (refusal : Refusal) : Option String :=
  refusal.message?.map fun message => String.ofList (Terminal.plain message).firstLine

end Refusal

/-! ## Heights -/

/-- Why a text is no height. -/
inductive HeightFault where
  | empty
  | notDigit
  | tooLarge
  | tooSmall
  | outOfRange (value : Int)
deriving DecidableEq, Repr

namespace HeightFault

/-- The fault in words. -/
def message : HeightFault → String
  | .empty => "cannot parse integer from empty string"
  | .notDigit => "invalid digit found in string"
  | .tooLarge => "number too large to fit in target type"
  | .tooSmall => "number too small to fit in target type"
  | .outOfRange value => s!"{value} is not in -2147483648..=2147483647"

end HeightFault

/-- Gathers digits behind a magnitude that is already known. -/
def gather (negative : Bool) (magnitude : Nat) : Text → Except HeightFault Nat
  | [] => .ok magnitude
  | c :: rest =>
    if c.isDigit then
      let next := magnitude * 10 + (c.toNat - '0'.toNat)
      if negative ∧ 1 <<< 63 < next then .error .tooSmall
      else if ¬negative ∧ 1 <<< 63 ≤ next then .error .tooLarge
      else gather negative next rest
    else .error .notDigit

/-- The 64-bit number that a text gives. -/
def wholeNumber (t : Text) : Except HeightFault Int :=
  match t with
  | [] => .error .empty
  | ['-'] => .error .notDigit
  | ['+'] => .error .notDigit
  | '-' :: digits => (gather true 0 digits).map fun n => -(n : Int)
  | '+' :: digits => (gather false 0 digits).map fun n => (n : Int)
  | digits => (gather false 0 digits).map fun n => (n : Int)

/-- The height that a text gives. -/
def height (t : Text) : Except HeightFault Int32 := do
  let value ← wholeNumber t
  if Int32.minValue.toInt ≤ value ∧ value ≤ Int32.maxValue.toInt then .ok (Int32.ofInt value)
  else .error (.outOfRange value)

/-! ## Settings -/

/-- The two ways to print a result. -/
inductive Format where
  | pretty
  | json
deriving DecidableEq, Repr, Inhabited

/-- The options that were set, on one side of the command's name. -/
structure Settings where
  output : Option Format := none
  profile : Option Text := none
  verbosity : Nat := 0
  mode : Option Text := none
  moduleWidth : Option Single := none
  height : Option Int32 := none
  line : Option Bool := none
  above : Option Bool := none
  orientation : Option Orientation := none
  x : Option Single := none
  y : Option Single := none
  origin : Bool := false

/-- A value out of a fixed set; a missing one is a matter of form, not of the value. -/
def choice {α : Type} (opt : Opt) (values : List (String × α)) (t : Text) : Except Refusal α :=
  match values.find? fun v => v.1.toList == t with
  | some v => .ok v.2
  | none => if t = [] then .error .usage else .error (.value opt t none)

/-- Yes or no, by a letter of either case. -/
def yesNo (opt : Opt) (t : Text) : Except Refusal Bool :=
  choice opt [("y", true), ("Y", true), ("n", false), ("N", false)] t

/-- A number. -/
def number (opt : Opt) (t : Text) : Except Refusal Single :=
  match Single.ofLiteral t with
  | .ok x => .ok x
  | .error fault => .error (.value opt t (some fault.message))

/-- A number above zero. -/
def positiveNumber (opt : Opt) (t : Text) : Except Refusal Single := do
  let x ← number opt t
  if x.isPositive then return x
  else
    let written := String.ofList t
    throw (.value opt t (some s!"{written} must be > 0"))

/-- A letter that names an orientation. -/
def orientationLetter (opt : Opt) (t : Text) : Except Refusal Orientation :=
  let read := match t with
    | [c] => Orientation.ofCode? c
    | _ => none
  match read with
  | some o => .ok o
  | none =>
    let written := String.ofList t
    .error (.value opt t (some s!"'{written}' is not one of N, R, I, B"))

/-- A height. -/
def heightNumber (opt : Opt) (t : Text) : Except Refusal Int32 :=
  match CommandLine.height t with
  | .ok h => .ok h
  | .error fault => .error (.value opt t (some fault.message))

namespace Settings

/-- The setting's new value, unless it has one already. -/
def once {α : Type} (old : Option α) (new : Except Refusal α) : Except Refusal (Option α) :=
  match old with
  | some _ => .error .usage
  | none => new.map some

/-- Sets an option that takes a value. -/
def set (s : Settings) (opt : Opt) (t : Text) : Except Refusal Settings := do
  match opt with
  | .output =>
    return { s with output := ← once s.output (choice opt [("pretty", .pretty), ("json", .json)] t) }
  | .profile => return { s with profile := ← once s.profile (.ok t) }
  | .mode => return { s with mode := ← once s.mode (.ok t) }
  | .moduleWidth => return { s with moduleWidth := ← once s.moduleWidth (positiveNumber opt t) }
  | .height => return { s with height := ← once s.height (heightNumber opt t) }
  | .line => return { s with line := ← once s.line (yesNo opt t) }
  | .above => return { s with above := ← once s.above (yesNo opt t) }
  | .orientation => return { s with orientation := ← once s.orientation (orientationLetter opt t) }
  | .x => return { s with x := ← once s.x (number opt t) }
  | .y => return { s with y := ← once s.y (number opt t) }
  | .verbose | .help | .version | .origin => throw .usage

end Settings

end BarcodeField.CommandLine
