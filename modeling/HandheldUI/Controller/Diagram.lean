import HandheldUI.Geometry

/-!
The controller diagram and the grids on it. The diagram is centred in the space that the sidebar
leaves, in whole pixels. Each of its two panels carries a grid of cells, numbered row by row.
-/

namespace HandheldUI.Controller

/-- A touch surface of the device. -/
inductive Panel where
  | front | rear
  deriving DecidableEq, Repr

def Panel.all : List Panel := [.front, .rear]

def Panel.name : Panel → String
  | front => "front"
  | rear => "rear"

/-- A grid, and where it lies in the diagram as shares of the diagram's width and height. -/
structure Layout (α : Type) where
  panel : Panel
  cols : α
  rows : α
  area : Rect α
  deriving Repr

/-! Measures, in pixels. -/

def contentY : Nat := 60
def widestDiagram : Nat := 720
def diagramHeight : Nat := 330
/-- What the diagram leaves free of its space, where there is more than that. -/
def diagramPadding : Nat := 40
/-- Room for the title and the name of the preset. -/
def titleHeight : Nat := 60

def diagramWidth (space : Nat) : Nat :=
  if space ≤ diagramPadding then space else Nat.min widestDiagram (space - diagramPadding)

/-- The diagram in the space to the right of `left`. -/
def diagramAt (left : Nat) : Rect Nat :=
  let space := screenWidth - left
  let width := diagramWidth space
  ⟨left + (space - width) / 2, contentY + titleHeight, width, diagramHeight⟩

variable {α : Type} [Scalar α]

/-- The whole pixels that a sidebar of this width takes from the screen. One that leaves no space is
disregarded. -/
def taken (sidebarWidth : α) : Nat :=
  match Scalar.truncate? sidebarWidth with
  | some (.ofNat n) => if n < screenWidth then n else 0
  | _ => 0

/-- The diagram beside a sidebar of this width. -/
def diagram (sidebarWidth : α) : Rect α := (diagramAt (taken sidebarWidth)).map Scalar.ofNat

namespace Layout

/-- The area of the grid in whole pixels, one pixel at least. -/
def areaIn (l : Layout α) (d : Rect α) : Rect α where
  x := d.x + Scalar.trunc (d.w * l.area.x)
  y := d.y + Scalar.trunc (d.h * l.area.y)
  w := Scalar.max 1 (Scalar.trunc (d.w * l.area.w))
  h := Scalar.max 1 (Scalar.trunc (d.h * l.area.h))

/-- The number of the strip, of `n` equal ones over a length, that an offset falls into. -/
def strip (offset length n : α) : α :=
  Scalar.min (n - 1) (Scalar.max 0 (Scalar.trunc (offset / length * n)))

/-- The cell under a point. The right and the lower edge of the area lie outside. -/
def cellAt? (l : Layout α) (d : Rect α) (p : Point α) : Option α :=
  let a := l.areaIn d
  if p.x < a.x ∨ a.x + a.w ≤ p.x ∨ p.y < a.y ∨ a.y + a.h ≤ p.y then none
  else some (strip (p.y - a.y) a.h l.rows * l.cols + strip (p.x - a.x) a.w l.cols)

/-- `i` brought into 0 … n - 1 by steps of `n`. -/
def wrapInto (n i : α) : α := Scalar.rem (Scalar.rem i n + n) n

/-- A cell number moved by rows and columns, going round on both axes. -/
def neighbor (l : Layout α) (cell rows cols : α) : α :=
  wrapInto l.rows (Scalar.trunc (cell / l.cols) + rows) * l.cols +
    wrapInto l.cols (Scalar.rem cell l.cols + cols)

end Layout

namespace Panel

def cols : Panel → Nat
  | front => 6
  | rear => 4

def rows : Panel → Nat
  | front => 3
  | rear => 3

def cells (p : Panel) : Nat := p.rows * p.cols

/-- The grid of a panel. -/
def layout (p : Panel) : Layout α where
  panel := p
  cols := Scalar.ofNat p.cols
  rows := Scalar.ofNat p.rows
  area :=
    match p with
    | front => ⟨0.25, 0.125, 0.5, 0.75⟩
    | rear => ⟨0.125, 0.25, 0.75, 0.5⟩

end Panel

end HandheldUI.Controller
