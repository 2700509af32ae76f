import HandheldUI.Geometry

/-!
The input of a frame. A button has an edge where this frame and the one before differ. After a
change of screen the held buttons are barred, each until a frame without it, and the touch until
the finger is up.
-/

namespace HandheldUI

inductive Button where
  | circle | cross | down | lTrigger | left | rTrigger | right | select | square | start | triangle
  | up
  deriving DecidableEq, Repr

namespace Button

/-- All buttons in the order of their names. -/
def all : List Button :=
  [circle, cross, down, lTrigger, left, rTrigger, right, select, square, start, triangle, up]

def dpad : List Button := [up, down, left, right]

def name : Button → String
  | circle => "circle"
  | cross => "cross"
  | down => "down"
  | lTrigger => "l-trigger"
  | left => "left"
  | rTrigger => "r-trigger"
  | right => "right"
  | select => "select"
  | square => "square"
  | start => "start"
  | triangle => "triangle"
  | up => "up"

end Button

/-- The controls in a frame: the buttons held, those held in the frame before, and the touch. -/
structure Controls (α : Type) where
  held : List Button
  before : List Button
  touch : Touch α
  deriving Repr

structure Input (α : Type) where
  now : Controls α
  /-- Buttons that do not count until they are let go. -/
  barred : List Button := []
  /-- The touch does not count until the finger is up. -/
  touchBarred : Bool := false
  deriving Repr

variable {α : Type}

/-- No button and no finger. -/
def Controls.idle [Scalar α] : Controls α := ⟨[], [], .none⟩

namespace Input

def initial [Scalar α] : Input α := { now := .idle }

def touch (i : Input α) : Touch α := i.now.touch

def holds (b : Button) (i : Input α) : Bool := b ∈ i.now.held

def bars (b : Button) (i : Input α) : Bool := b ∈ i.barred

/-- `b` went down in this frame. Muted input has no edges, a barred button none of this kind. -/
def pressed (muted : Bool) (b : Button) (i : Input α) : Bool :=
  !muted && !i.bars b && i.holds b && b ∉ i.now.before

/-- `b` went up in this frame. -/
def released (muted : Bool) (b : Button) (i : Input α) : Bool :=
  !muted && !i.holds b && b ∈ i.now.before

/-- Keeps the bars of the buttons that are still held. -/
def freeButtons (i : Input α) : Input α :=
  { i with barred := i.barred.filter (· ∈ i.now.held) }

/-- Takes in the controls of the next frame. -/
def take (c : Controls α) (i : Input α) : Input α := freeButtons { i with now := c }

def barTouch (i : Input α) : Input α := { i with touchBarred := true }

/-- Bars every held button, and the touch. -/
def barAll (i : Input α) : Input α :=
  { i with
    barred := i.barred ++ i.now.held.filter (· ∉ i.barred)
    touchBarred := true }

/-- The touch is barred and need not be any longer: the finger is up. -/
def touchDone (i : Input α) : Bool := i.touchBarred && !i.touch.down

/-- Frees the touch once the finger is up. -/
def freeTouch (i : Input α) : Input α :=
  if i.touchDone then { i with touchBarred := false } else i

/-- What may be asked of the input. -/
inductive Call (α : Type) where
  | take (c : Controls α)
  | barTouch
  | barAll
  | freeTouch
  | freeButtons
  deriving Repr

def Call.run : Call α → Input α → Input α
  | take c => Input.take c
  | barTouch => Input.barTouch
  | barAll => Input.barAll
  | freeTouch => Input.freeTouch
  | freeButtons => Input.freeButtons

end Input

end HandheldUI
