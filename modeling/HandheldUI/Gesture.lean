import HandheldUI.Action
import HandheldUI.Geometry

/-!
Gestures. A contact lasts from the sample that puts the finger down to the one that lifts it. Once
it has travelled beyond the threshold it is a swipe and stays one; a contact that never did is a
tap, at the point and on the target where it began.
-/

namespace HandheldUI

/-- A contact in progress, with the target that lay under the finger when it began. -/
structure Contact (α τ : Type) where
  start : Point α
  target : Option τ
  last : Point α
  swipe : Bool := false
  deriving Repr

/-- What one sample means. A delta leads from the finger back to where the contact began. -/
inductive Gesture (α τ : Type) where
  | idle
  | press (point : Point α) (target : Option τ)
  | hold (point : Point α)
  | drag (point delta : Point α)
  | tap (point : Point α) (target : Option τ)
  | swipeEnd (delta : Point α)
  deriving DecidableEq, Repr

variable {α τ : Type} [Scalar α]

namespace Contact

def delta (c : Contact α τ) : Point α := ⟨c.start.x - c.last.x, c.start.y - c.last.y⟩

/-- The contact with its finger at `p`. -/
def move (threshold : α) (p : Point α) (c : Contact α τ) : Contact α τ :=
  { c with
    last := p
    swipe := c.swipe || threshold * threshold < p.distSq c.start }

/-- What lifting the finger means. -/
def release (c : Contact α τ) : Gesture α τ :=
  if c.swipe then .swipeEnd c.delta else .tap c.start c.target

/-- What the finger means while it is down. -/
def motion (c : Contact α τ) : Gesture α τ :=
  if c.swipe then .drag c.last c.delta else .hold c.last

end Contact

namespace Gesture

/-- How far a tap may travel where nothing else is said. -/
def defaultThreshold : α := 25

/-- What lies under a point, and how far a tap may travel. -/
structure Env (α τ : Type) where
  target? : Option (Point α → Option τ) := none
  threshold : α

/-- A classifier holds the contact in progress. It announces nothing, and remarks the point that it
looks up a target for. -/
abbrev Op (α τ : Type) := Action (Env α τ) (Option (Contact α τ)) Empty (Point α)

def lookUp (p : Point α) : Op α τ (Option τ) := do
  match (← read).target? with
  | none => return none
  | some target =>
    .say p
    return target p

def classify (t : Touch α) : Op α τ (Gesture α τ) := do
  match ← get, t.down with
  | none, false => return .idle
  | some c, false =>
    set (none : Option (Contact α τ))
    return c.release
  | none, true =>
    let target ← lookUp t.point
    set (some ({ start := t.point, target, last := t.point } : Contact α τ))
    return .press t.point target
  | some c, true =>
    let c := c.move (← read).threshold t.point
    set (some c)
    return c.motion

end Gesture

end HandheldUI
