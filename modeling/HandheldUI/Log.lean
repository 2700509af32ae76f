/-!
Log lines and where they go.
-/

namespace HandheldUI.Log

inductive Level where
  | debug | warn | error
  deriving DecidableEq, Repr

def Level.name : Level → String
  | debug => "debug"
  | warn => "warn"
  | error => "error"

/-- A message with arguments of type `β`. -/
structure Line (β : Type) where
  level : Level
  message : String
  args : List β := []
  deriving Repr

/-- A single value in a log line, numbers being of type `α`. -/
inductive Value (α : Type) where
  | text (s : String)
  | number (x : α)
  | count (n : Nat)
  | flag (b : Bool)
  deriving Repr

/-- An error that was raised: what kind it is, and what it says. -/
structure Raised where
  kind : String := "Error"
  message : String
  deriving DecidableEq, Repr

/-- Named values that describe a fault. -/
abbrev Context (α : Type) := List (String × Value α)

/-- An argument of a log line. -/
inductive Arg (α : Type) where
  | value (v : Value α)
  | cells (cs : List Nat)
  | context (c : Context α)
  /-- A listener gave up with this error. -/
  | raised (x : Raised)
  deriving Repr

/-- Where the lines of a component go. The console drops debug lines unless they are asked for. -/
inductive Sink where
  | recording
  | console (tag : String) (debug : Bool)
  | silent
  deriving DecidableEq, Repr

variable {β : Type}

/-- The line that arrives, if one does. The console marks it with the component's tag. -/
def Sink.write (l : Line β) : Sink → Option (Line β)
  | recording => some l
  | console tag debug =>
    if l.level = .debug ∧ debug = false then none
    else some { l with message := "[" ++ tag ++ "] " ++ l.message }
  | silent => none

end HandheldUI.Log
