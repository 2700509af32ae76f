import HandheldUI.Log

/-!
Faults that the interface reports. None of them stops it.
-/

namespace HandheldUI

inductive FaultCode where
  | focusFull | focusBare | unfocusedOverlay | noSuchCell
  deriving DecidableEq, Repr

namespace FaultCode

def all : List FaultCode := [focusFull, focusBare, unfocusedOverlay, noSuchCell]

def name : FaultCode → String
  | focusFull => "FOCUS_STACK_OVERFLOW"
  | focusBare => "FOCUS_STACK_UNDERFLOW"
  | unfocusedOverlay => "MODAL_OWNERSHIP_MISMATCH"
  | noSuchCell => "INVALID_GRID_INDEX"

end FaultCode

/-- A fault with a context of type `κ`. -/
structure Fault (κ : Type) where
  code : FaultCode
  message : String
  context : Option κ := none
  recoverable : Bool := true
  deriving Repr

/-- A fault as a log line: its message, and its context where it has one. -/
def Fault.line {α : Type} (level : Log.Level) (f : Fault (Log.Context α)) :
    Log.Line (Log.Arg α) where
  level
  message := f.message
  args := f.context.toList.map .context

end HandheldUI
