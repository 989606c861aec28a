import BarcodeField.Draw

/-!
# Traces of drawing

A trace says which calls drawing makes on its parties. It is not kept by `drawField`, which knows nothing
of it: `Parties.traced` puts a note before each call of given parties, and otherwise lets them answer as
they would. `traceAll` draws fields so, one after the other, and tells the calls of one from those of the
next.
-/

namespace BarcodeField

/-! ## Calls -/

/-- A call on one of the parties. -/
inductive Call where
  | measure (key : Text) (size : Single)
  | encode (request : EncodeRequest)
  | draw (request : DrawRequest)
deriving DecidableEq

/-- What has been asked of parties, and how many draws the canvas has accepted. -/
structure Trace where
  calls : List Call
  drawn : Nat
deriving DecidableEq

namespace Trace

/-- The trace with one more call. -/
def note (trace : Trace) (call : Call) : Trace := { trace with calls := trace.calls ++ [call] }

/-- The trace with the canvas's answer to a draw. -/
def count {α : Type} (trace : Trace) : Except String α → Trace
  | .ok _ => { trace with drawn := trace.drawn + 1 }
  | .error _ => trace

end Trace

variable {m : Type → Type} [Monad m]

/-- Parties whose calls are noted before they are answered. -/
def Parties.traced (parties : Parties m) : Parties (StateT Trace m) where
  fonts := parties.fonts.noting fun trace request => trace.note (.measure request.1 request.2)
  encoder request := do
    modify (·.note (.encode request))
    parties.encoder request
  canvas request := do
    modify (·.note (.draw request))
    let answer ← parties.canvas request
    modify (·.count answer)
    return answer

/-! ## Runs -/

/-- What drawing one field of several came to: its own calls, its result, and the draws that the canvas
has accepted up to then. -/
structure Step where
  calls : List Call
  result : Except DrawFault Plan
  drawn : Nat

/-- Draws fields one after the other, where the canvas has accepted some draws before. -/
def traceFrom (parties : Parties m) (profile : Option Profile) (drawn : Nat) :
    List Field → m (List Step)
  | [] => return []
  | field :: rest => do
    let (result, trace) ← (drawField parties.traced profile field).run ⟨[], drawn⟩
    let steps ← traceFrom parties profile trace.drawn rest
    return ⟨trace.calls, result, trace.drawn⟩ :: steps

/-- Draws fields one after the other on a new canvas. -/
def traceAll (parties : Parties m) (profile : Option Profile) (fields : List Field) : m (List Step) :=
  traceFrom parties profile 0 fields

end BarcodeField
