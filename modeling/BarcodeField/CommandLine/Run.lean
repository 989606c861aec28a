import BarcodeField.CheckDigit
import BarcodeField.CommandLine.Arguments
import BarcodeField.Document.Field
import BarcodeField.Document.Profile
import BarcodeField.Escape

/-!
# Running a command

What a command line comes to: an exit code, and what it writes. A profile is loaded before the command is
carried out, also for a command that has no use for it, so a profile that cannot be loaded is what fails.

Each result is printed as an indented document or, for a person at a terminal, as coloured lines. A
profile is printed as a document either way.
-/

namespace BarcodeField.CommandLine

/-! ## Printed results -/

/-- A document and the end of its last line. -/
def document (v : Json.Value) : Text := v.indented ++ ['\n']

/-- A line with a name, brought to a fixed width, and a value. -/
def line (name : String) (value : Text) : Text :=
  Terminal.coloured "36" (Text.padEnd 14 name.toList) ++ value ++ ['\n']

/-- A plan as it is printed. -/
def planReport (format : Format) (plan : Plan) : Text :=
  match format with
  | .json => document plan.toValue
  | .pretty =>
    line "symbology" plan.content.symbology.name.toList ++
    line "encode" (Escape.showFnc1 plan.content.payload) ++
    line "label" plan.content.line ++
    line "font" (plan.font ++ " @ ".toList ++ plan.fontSize.display) ++
    line "label height" (Text.ofInt plan.line.height.toInt ++ " (offset ".toList ++
      Text.ofInt plan.line.offset.toInt ++ [')']) ++
    line "symbol height" (Text.ofInt plan.symbolHeight.toInt)

/-- Case code data and its check digit as they are printed. -/
def checkDigitReport (format : Format) (data : Text) (digit : Fin 10) : Text :=
  match format with
  | .json => document (.record [("check_digit", .integer digit.val), ("data", .text data)])
  | .pretty => data ++ Terminal.coloured "32" [CheckDigit.digitChar digit] ++ ['\n']

/-- A profile as it is printed. -/
def profileReport (p : Profile) : Text := document p.toValue

/-! ## Failures -/

/-- Why a command that was understood fails. -/
inductive Failure where
  /-- The profile's file could not be read. -/
  | unreadable (path : Text) (reason : String)
  /-- The profile's file does not hold a profile. -/
  | malformed (path : Text)
  /-- The profile breaks a rule. -/
  | invalid (path : Text) (fault : ProfileFault)
  /-- The field cannot be planned. -/
  | plan (fault : Fault)
deriving DecidableEq

namespace Failure

/-- What the command was doing. -/
def context : Failure → String
  | .unreadable path _ =>
    let path := String.ofList path
    s!"failed to read profile '{path}'"
  | .malformed path | .invalid path _ =>
    let path := String.ofList path
    s!"invalid profile '{path}'"
  | .plan _ => "failed to interpret field"

/-- A cause on lines of its own, set in by four spaces. -/
def indent (cause : String) : String :=
  String.ofList ("    ".toList ++
    cause.toList.flatMap fun c => if c = '\n' then "\n    ".toList else [c])

/-- Why it failed. A document's own trouble is the first of two causes, of which the text stops at what
is wrong with the document. -/
def cause : Failure → String
  | .unreadable _ reason => indent reason ++ "\n"
  | .malformed _ => "    0: invalid profile JSON"
  | .invalid _ fault => indent fault.message ++ "\n"
  | .plan fault => indent fault.message ++ "\n"

/-- The failure in words. -/
def message (failure : Failure) : String :=
  let context := failure.context
  let cause := failure.cause
  s!"Error: {context}\n\nCaused by:\n{cause}"

end Failure

/-! ## Outcomes -/

/-- The exit code of a program run, and what it writes. -/
structure Outcome where
  exit : Nat
  out : String
  err : Option String
deriving DecidableEq

namespace Outcome

/-- Success, with a result. -/
def success (result : Text) : Outcome := ⟨0, String.ofList result, none⟩

/-- Failure of a command that was understood. -/
def failure (f : Failure) : Outcome := ⟨1, "", some f.message⟩

/-- The end of a run that never came to a command. -/
def stopped : Stop → Outcome
  | .refused refusal => ⟨2, "", refusal.firstLine?⟩
  | .help => ⟨0, "", none⟩
  | .version => ⟨0, "zplbc 0.1.0\n", none⟩

end Outcome

/-! ## Commands -/

/-- The profile of a file, given what reading it came to. -/
def profileOf (path : Text) : Except String Text → Except Failure Profile
  | .error reason => .error (.unreadable path reason)
  | .ok document =>
    match Profile.load document with
    | .ok p => .ok p
    | .error .unreadable => .error (.malformed path)
    | .error (.invalid fault) => .error (.invalid path fault)

/-- Carries out a command under a profile. -/
def Command.carryOut (command : Command) (format : Format) (p : Profile) : Except Failure Text :=
  match command with
  | .plan field =>
    match Id.run (field.plan p.measure (some p)) with
    | .ok planned => .ok (planReport format planned)
    | .error fault => .error (.plan fault)
  | .checkDigit digits =>
    let data := CheckDigit.pad digits
    .ok (checkDigitReport format data (CheckDigit.digit data))
  | .profile => .ok (profileReport p)

/-- What an invocation comes to under a profile, or under the failure to load one. -/
def Invocation.outcome (i : Invocation) (usual : Format) (profile : Except Failure Profile) : Outcome :=
  match profile.bind (i.command.carryOut (i.format.getD usual)) with
  | .ok result => .success result
  | .error failure => .failure failure

/-- What a command line comes to, where `usual` is the format of a result if none is asked for, and
`read` gives the text of a file. No file is read but the profile's. -/
def run {m : Type → Type} [Monad m] (usual : Format) (read : Text → m (Except String Text))
    (args : List Text) : m Outcome := do
  match parse args with
  | .error stop => return .stopped stop
  | .ok i =>
    match i.profilePath with
    | none => return i.outcome usual (.ok .standard)
    | some path => return i.outcome usual (profileOf path (← read path))

end BarcodeField.CommandLine
