import BarcodeField.CommandLine.Run

/-!
# The program

Reads the profile's file where a command names one, and writes what the command comes to: lines for a
person where a terminal takes them, and a document otherwise.
-/

open BarcodeField BarcodeField.CommandLine

/-- The text of a file, or why there is none. -/
def readText (path : Text) : IO (Except String Text) := do
  try
    let text ← IO.FS.readFile (String.ofList path)
    return .ok text.toList
  catch
    | .noFileOrDirectory .. => return .error "No such file or directory (os error 2)"
    | .permissionDenied .. => return .error "Permission denied (os error 13)"
    | fault => return .error (toString fault)

def main (args : List String) : IO UInt32 := do
  let out ← IO.getStdout
  let usual := if ← out.isTty then Format.pretty else Format.json
  let outcome ← run usual readText (args.map String.toList)
  out.putStr outcome.out
  match outcome.err with
  | some text => (← IO.getStderr).putStr text
  | none => pure ()
  return outcome.exit.toUInt32
