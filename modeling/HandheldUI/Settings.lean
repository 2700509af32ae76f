import HandheldUI.Scalar

/-!
Settings. They may change while the interface runs, which reads them again whenever it uses them.
-/

namespace HandheldUI

structure Settings (α : Type) where
  /-- The sidebar does not collapse because the content is used. -/
  pinned : Bool
  /-- Debug lines reach the console. -/
  verbose : Bool
  /-- How many milliseconds the sidebar takes to collapse or expand. -/
  slideMs : α
  /-- How many pixels a finger travels before a touch is a swipe. -/
  swipePx : α
  deriving Repr

namespace Settings

/-- Settings of which some are given. -/
structure Patch (α : Type) where
  pinned : Option Bool := none
  verbose : Option Bool := none
  slideMs : Option α := none
  swipePx : Option α := none

variable {α : Type} [Scalar α]

def standard : Settings α where
  pinned := false
  verbose := false
  slideMs := 280
  swipePx := 25

/-- The settings with those of the patch put over them, as they are. -/
def patched (p : Patch α) (s : Settings α) : Settings α where
  pinned := p.pinned.getD s.pinned
  verbose := p.verbose.getD s.verbose
  slideMs := p.slideMs.getD s.slideMs
  swipePx := p.swipePx.getD s.swipePx

/-- A length or a time makes sense if it is finite and above 0. -/
def sensible (x : α) : Bool := Scalar.isFinite x && 0 < x

/-- The settings with each number that makes no sense put back to its standard value. -/
def sane (s : Settings α) : Settings α :=
  let d : Settings α := standard
  { s with
    slideMs := if sensible s.slideMs then s.slideMs else d.slideMs
    swipePx := if sensible s.swipePx then s.swipePx else d.swipePx }

end Settings

end HandheldUI
