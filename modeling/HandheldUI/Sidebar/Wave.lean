import HandheldUI.Scalar

/-!
The wave behind the sidebar: two layers, each with a phase that grows with real time and wraps.
-/

namespace HandheldUI.Sidebar

variable {α : Type} [Scalar α]

/-- π as the nearest machine number. -/
def pi : α := Scalar.ofNat 884279719003555 / Scalar.ofNat 281474976710656

/-- Phases wrap at a large multiple of 2π, to stay precise over a long time. -/
def wrap : α := 1000 * 2 * pi

/-- Radians per second. -/
def bottomSpeed : α := 0.7
def topSpeed : α := 1.1

structure Phases (α : Type) where
  bottom : α
  top : α
  deriving Repr, DecidableEq

structure Wave (α : Type) where
  phases : Phases α
  /-- When the phases last moved, in microseconds. -/
  last? : Option α := none
  deriving Repr

namespace Wave

def initial : Wave α := { phases := ⟨0, 0⟩ }

def shift (phase speed seconds : α) : α := Scalar.rem (phase + speed * seconds) wrap

/-- Moves both layers by the time since they last moved. The first time only starts the count, and a
clock that went back moves nothing. -/
def advance (now : α) (w : Wave α) : Wave α :=
  match w.last? with
  | none => { w with last? := some now }
  | some last =>
    let seconds := Scalar.max 0 (now - last) / 1000000
    { phases :=
        ⟨shift w.phases.bottom bottomSpeed seconds, shift w.phases.top topSpeed seconds⟩
      last? := some now }

/-- Counts the time anew from now on. -/
def restart (now : α) (w : Wave α) : Wave α := { w with last? := some now }

def restore (p : Phases α) (w : Wave α) : Wave α := { w with phases := p }

end Wave

end HandheldUI.Sidebar
