import BarcodeField.CommandLine.Settings

/-!
# Arguments

Arguments are read from left to right, once for the options before the command's name and once for what
follows it. A value may be joined to its option by an equals sign, and is then settled at once; a value
in the argument after its option is settled when the next option or plain argument comes, or at the end.
So an error in what follows can come before the error of a value, and `Walk` keeps the option that waits.

An argument that begins with a dash and is no known option is refused, except while the data of a field is
still to come: then it is that data, or the value of the option that waits for one.
-/

namespace BarcodeField.CommandLine

/-! ## Places -/

/-- Where an argument stands: before the command's name, or behind one of the four. -/
inductive Level where
  | root
  | code128
  | code39
  | checkDigit
  | profile
deriving DecidableEq, Repr

namespace Level

/-- The command of a name. -/
def ofName? (t : Text) : Option Level :=
  if t = "code128".toList then some .code128
  else if t = "code39".toList then some .code39
  else if t = "check-digit".toList then some .checkDigit
  else if t = "profile".toList then some .profile
  else none

/-- The options that may stand here. -/
def options : Level → List Opt
  | .root => [.output, .profile, .verbose, .help, .version]
  | .code128 => [.output, .profile, .verbose, .help, .mode] ++ fieldOptions
  | .code39 => [.output, .profile, .verbose, .help] ++ fieldOptions
  | .checkDigit | .profile => [.output, .profile, .verbose, .help]
where
  fieldOptions : List Opt :=
    [.moduleWidth, .height, .line, .above, .orientation, .x, .y, .origin]

/-- The option of a name. -/
def named? (level : Level) (name : Text) : Option Opt :=
  level.options.find? fun opt => opt.name.toList == name

/-- The option of a letter. -/
def lettered? (level : Level) (letter : Char) : Option Opt :=
  level.options.find? fun opt => opt.letter? == some letter

/-- Whether one plain argument belongs here. -/
def takesData : Level → Bool
  | .code128 | .code39 | .checkDigit => true
  | .root | .profile => false

/-- Whether that argument may begin with a dash. -/
def takesDashes : Level → Bool
  | .code128 | .code39 => true
  | .root | .checkDigit | .profile => false

end Level

/-! ## One argument -/

/-- What an argument looks like. -/
inductive Shape where
  /-- Two dashes, which end the options. -/
  | separator
  /-- Two dashes and a name, with the value joined to it. -/
  | long (name : Text) (joined : Option Text)
  /-- One dash and letters. -/
  | short (letters : Text)
  /-- Anything else, a single dash too. -/
  | plain
deriving DecidableEq, Repr

/-- The shape of an argument. -/
def Shape.of : Text → Shape
  | ['-', '-'] => .separator
  | '-' :: '-' :: rest =>
    match rest.dropWhile (· != '=') with
    | [] => .long rest none
    | _ :: joined => .long (rest.takeWhile (· != '=')) (some joined)
  | ['-'] => .plain
  | '-' :: letters => .short letters
  | _ => .plain

/-- What ends the reading of arguments early. -/
inductive Stop where
  | refused (refusal : Refusal)
  | help
  | version
deriving DecidableEq

/-- How far the reading of arguments has come. -/
structure Walk where
  settings : Settings := {}
  /-- An option whose value is not settled yet, with the value if it has come. -/
  waiting : Option (Opt × Option Text) := none
  /-- The plain argument. -/
  data : Option Text := none
  /-- Whether two dashes have ended the options. -/
  isClosed : Bool := false

namespace Walk

/-- Refuses the arguments for their form. -/
def refuse {α : Type} : Except Stop α := .error (.refused .usage)

/-- Sets an option to its value. -/
def assign (w : Walk) (opt : Opt) (t : Text) : Except Stop Walk :=
  match w.settings.set opt t with
  | .ok settings => .ok { w with settings := settings }
  | .error refusal => .error (.refused refusal)

/-- Settles the option that waits, which must have its value by now. -/
def settle (w : Walk) : Except Stop Walk :=
  match w.waiting with
  | none => .ok w
  | some (_, none) => refuse
  | some (opt, some t) => { w with waiting := none }.assign opt t

/-- Whether an option waits for the next argument. -/
def awaitsValue (w : Walk) : Bool :=
  match w.waiting with
  | some (_, none) => true
  | _ => false

/-- Switches on an option that takes no value. -/
def switch (w : Walk) (opt : Opt) : Except Stop Walk := do
  let w ← w.settle
  match opt with
  | .help => throw .help
  | .version => throw .version
  | .verbose => return { w with settings.verbosity := w.settings.verbosity + 1 }
  | .origin => if w.settings.origin then refuse else return { w with settings.origin := true }
  | _ => refuse

/-- Takes an option, with the value joined to it if there is one. -/
def takeOption (w : Walk) (opt : Opt) (joined : Option Text) : Except Stop Walk :=
  match opt.takesValue, joined with
  | true, some t => do (← w.settle).assign opt t
  | true, none => do return { ← w.settle with waiting := some (opt, none) }
  | false, some _ => refuse
  | false, none => w.switch opt

/-- Takes options by their letters. -/
def takeLetters (level : Level) (w : Walk) : Text → Except Stop Walk
  | [] => .ok w
  | letter :: rest =>
    match level.lettered? letter with
    | none => refuse
    | some opt => do takeLetters level (← w.switch opt) rest

/-- Whether the data is still to come and may begin with a dash. -/
def takesDashes (level : Level) (w : Walk) : Bool := level.takesDashes && w.data.isNone

/-- Takes the plain argument. -/
def takeData (level : Level) (w : Walk) (t : Text) : Except Stop Walk :=
  if level.takesData && w.data.isNone then do return { ← w.settle with data := some t }
  else refuse

/-- Takes a value for the option that awaits one, or else the plain argument. -/
def takePlain (level : Level) (w : Walk) (t : Text) : Except Stop Walk :=
  match w.waiting with
  | some (opt, none) => .ok { w with waiting := some (opt, some t) }
  | _ => w.takeData level t

/-- Takes an argument. -/
def take (level : Level) (w : Walk) (t : Text) : Except Stop Walk :=
  if w.isClosed then w.takeData level t
  else
    match Shape.of t with
    | .separator => .ok { w with isClosed := true }
    | .plain => w.takePlain level t
    | .long name joined =>
      match level.named? name with
      | some opt => w.takeOption opt joined
      | none => if w.takesDashes level then w.takePlain level t else refuse
    | .short letters =>
      if w.takesDashes level && letters.any fun c => (level.lettered? c).isNone then
        w.takePlain level t
      else w.takeLetters level letters

end Walk

/-! ## All arguments -/

/-- What a command is to do. -/
inductive Command where
  | plan (field : Field)
  | checkDigit (data : Text)
  | profile
deriving DecidableEq

/-- A command, with the way to print its result and the profile to use if they are asked for. -/
structure Invocation where
  format : Option Format
  profilePath : Option Text
  command : Command
deriving DecidableEq

/-- The field that settings describe, with what stands in for those that were not made. -/
def Settings.field (s : Settings) (kind : FieldKind) (data : Text) : Field where
  kind := kind
  data := data
  moduleWidth := s.moduleWidth.getD (.ofInt 2)
  height := s.height.getD 100
  line := ⟨s.line.getD true, s.above.getD false⟩
  placement := ⟨s.x.getD (.ofInt 0), s.y.getD (.ofInt 0), s.origin, s.orientation.getD .normal⟩

/-- The command of a level, once its arguments are read; data that belongs to it must be there. -/
def Walk.command (level : Level) (w : Walk) : Except Stop Command :=
  match level, w.data with
  | .code128, some data => .ok (.plan (w.settings.field (.code128 w.settings.mode) data))
  | .code39, some data => .ok (.plan (w.settings.field .code39 data))
  | .checkDigit, some data => .ok (.checkDigit data)
  | .profile, none => .ok .profile
  | _, _ => Walk.refuse

/-- Reads what follows a command's name, and then settles what stood before it. -/
def parseCommand (before : Walk) (level : Level) (args : List Text) : Except Stop Invocation := do
  let w ← args.foldlM (Walk.take level) {}
  let w ← w.settle
  let command ← w.command level
  let before ← before.settle
  return {
    format := w.settings.output.or before.settings.output
    profilePath := w.settings.profile.or before.settings.profile
    command := command }

/-- Whether there is help about what arguments name: the program, a command, or help itself. -/
def isHelpTopic : List Text → Bool
  | [] => true
  | [t] => t == "help".toList || (Level.ofName? t).isSome
  | _ => false

/-- Reads the options before a command's name, up to that name. A call for help comes before any value
that is not settled yet. -/
def parseFrom (w : Walk) : List Text → Except Stop Invocation
  | [] => do
    let _ ← w.settle
    Walk.refuse
  | t :: rest =>
    let command := if w.isClosed || w.awaitsValue then none else Level.ofName? t
    match command with
    | some level => parseCommand w level rest
    | none =>
      if !w.isClosed && !w.awaitsValue && t == "help".toList then
        if isHelpTopic rest then .error .help else Walk.refuse
      else do parseFrom (← w.take .root t) rest

/-- The command that arguments give. -/
def parse (args : List Text) : Except Stop Invocation := parseFrom {} args

end BarcodeField.CommandLine
