import HandheldUI.Geometry
import HandheldUI.Screen

/-!
The looks of the sidebar. While it is in, a pill stands in its place. Collapsing eases the sidebar
in over the whole time and lets the pill grow near the end; expanding shrinks the pill first and
then widens the sidebar evenly.
-/

namespace HandheldUI.Sidebar

/-- Only `expanded` and `collapsed` take requests. -/
inductive Phase where
  | expanded | collapsing | collapsed | expanding
  deriving DecidableEq, Repr

def Phase.all : List Phase := [.expanded, .collapsing, .collapsed, .expanding]

def Phase.name : Phase → String
  | expanded => "expanded"
  | collapsing => "collapsing"
  | collapsed => "collapsed"
  | expanding => "expanding"

/-- Where a phase leads that does not last. -/
def Phase.end? : Phase → Option Phase
  | collapsing => some .collapsed
  | expanding => some .expanded
  | _ => none

/-- The width of the sidebar, and the width of the pill and how opaque it is. -/
structure Look (α : Type) where
  width : α
  pill : α
  opacity : α
  deriving Repr, DecidableEq

/-! Measures, in pixels. -/

def fullWidth : Nat := 130
def pillX : Nat := 16
def pillY : Nat := 16
def pillFullWidth : Nat := 140
def pillHeight : Nat := 44
def pillRadius : Nat := 22
/-- How far beside the pill a touch still counts. -/
def pillMargin : Nat := 8
def iconX : Nat := 50
def firstIconY : Nat := 152
def iconSpacing : Nat := 80
def iconRadius : Nat := 30

variable {α : Type} [Scalar α]

/-- The pill is hidden up to this progress of a collapse. -/
def pillStart : α := 0.71

/-- The pill is gone from this progress of an expansion on. -/
def pillEnd : α := 0.29

/-- The cubic that starts and ends slowly, for `t` within 0 and 1. The cube is taken as a product.
Powers are computed only approximately, so that a cube taken by a power function may differ from it
in the last digit. -/
def eased (t : α) : α :=
  if t < 0.5 then 4 * t * t * t
  else
    let u := -2 * t + 2
    1 - u * u * u / 2

namespace Look

def collapsed : Look α := ⟨0, Scalar.ofNat pillFullWidth, 1⟩

def expanded : Look α := ⟨Scalar.ofNat fullWidth, Scalar.ofNat pillHeight, 0⟩

/-- A sidebar of this width with a pill grown to the share `s`. -/
def withPill (width s : α) : Look α :=
  ⟨width, Scalar.ofNat pillHeight + Scalar.ofNat (pillFullWidth - pillHeight) * s, s⟩

def withoutPill (width : α) : Look α := ⟨width, Scalar.ofNat pillHeight, 0⟩

/-- The looks in a phase at a progress, which is brought within 0 and 1. -/
def during (phase : Phase) (progress : α) : Look α :=
  let p := Scalar.toUnit progress
  match phase with
  | .collapsed => collapsed
  | .expanded => expanded
  | .collapsing =>
    if 1 ≤ p then collapsed
    else
      let width := Scalar.ofNat fullWidth * (1 - eased p)
      if p ≤ pillStart then withoutPill width
      else withPill width (Scalar.toUnit ((p - pillStart) / (1 - pillStart)))
  | .expanding =>
    if 1 ≤ p then expanded
    else if p < pillEnd then withPill 0 (Scalar.toUnit (1 - p / pillEnd))
    else withoutPill (Scalar.ofNat fullWidth * Scalar.toUnit ((p - pillEnd) / (1 - pillEnd)))

end Look

/-- The pill at a width. -/
def pillRect (width : α) : Rect α :=
  ⟨Scalar.ofNat pillX, Scalar.ofNat pillY, width, Scalar.ofNat pillHeight⟩

/-- An icon of the sidebar and the screen it leads to. -/
structure Icon (α : Type) where
  screen : Screen
  center : Point α
  deriving Repr

/-- The icons, from the top down. -/
def icons : List (Icon α) :=
  Screen.inSidebar.mapIdx fun i screen =>
    ⟨screen, Scalar.ofNat iconX, Scalar.ofNat (firstIconY + i * iconSpacing)⟩

end HandheldUI.Sidebar
