import HandheldUI.Scalar

/-!
Points, rectangles and the touch panel.
-/

namespace HandheldUI

structure Point (α : Type) where
  x : α
  y : α
  deriving Repr, DecidableEq

/-- A rectangle; all four edges belong to it. -/
structure Rect (α : Type) where
  x : α
  y : α
  w : α
  h : α
  deriving Repr, DecidableEq

/-- One sample of the touch panel, in screen pixels. -/
structure Touch (α : Type) where
  down : Bool
  point : Point α
  deriving Repr, DecidableEq

def screenWidth : Nat := 960
def screenHeight : Nat := 544

/-- The panel is finer than the screen. -/
def panelWidth : Nat := 1920
def panelHeight : Nat := 1088

variable {α : Type} [Scalar α]

namespace Point

def origin : Point α := ⟨0, 0⟩

/-- The squared distance from `q` to `p`. -/
def distSq (p q : Point α) : α :=
  let dx := p.x - q.x
  let dy := p.y - q.y
  dx * dx + dy * dy

/-- Whether `p` lies in the circle around `center`. -/
def isNear (p center : Point α) (radius : α) : Bool :=
  p.distSq center ≤ radius * radius

end Point

namespace Rect

def map {β : Type} (f : α → β) (r : Rect α) : Rect β := ⟨f r.x, f r.y, f r.w, f r.h⟩

def contains (r : Rect α) (p : Point α) : Bool :=
  r.x ≤ p.x ∧ p.x ≤ r.x + r.w ∧ r.y ≤ p.y ∧ p.y ≤ r.y + r.h

/-- Grown by `d` on every side. -/
def pad (r : Rect α) (d : α) : Rect α :=
  ⟨r.x - d, r.y - d, r.w + d * 2, r.h + d * 2⟩

end Rect

namespace Touch

/-- No finger. -/
def none : Touch α := ⟨false, .origin⟩

/-- A report of the panel in screen pixels. -/
def ofPanel (down : Bool) (x y : α) : Touch α where
  down
  point :=
    ⟨x * Scalar.ofNat screenWidth / Scalar.ofNat panelWidth,
      y * Scalar.ofNat screenHeight / Scalar.ofNat panelHeight⟩

end Touch

end HandheldUI
