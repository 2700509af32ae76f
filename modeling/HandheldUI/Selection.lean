import HandheldUI.Action
import HandheldUI.Fault
import HandheldUI.Scalar
import HandheldUI.Scalar.Numeral

/-!
Selection of cells by dragging. The trail holds the cells of the drag in the order in which the
finger reached them; going back to the cell before the last one undoes the last one. Cells may also
be inserted or erased without a drag.
-/

namespace HandheldUI

structure Selection where
  /-- Which cells are selected. -/
  marks : Array Bool
  /-- The cells of the drag, the last one first. -/
  back : List Nat := []
  /-- How many cells are selected. -/
  size : Nat := 0
  deriving DecidableEq, Repr

namespace Selection

/-- Of `n` cells none. -/
def empty (n : Nat) : Selection := { marks := Array.replicate n false }

/-- How many cells there are to select from. -/
def cells (s : Selection) : Nat := s.marks.size

def has (s : Selection) (c : Nat) : Bool := s.marks.getD c false

/-- The selected cells, ascending. -/
def toList (s : Selection) : List Nat := (List.range s.cells).filter s.has

/-- The cells of the drag in the order in which the finger reached them. -/
def trail (s : Selection) : List Nat := s.back.reverse

def mark (c : Nat) (s : Selection) : Selection :=
  { s with marks := s.marks.setIfInBounds c true, size := s.size + 1 }

def unmark (c : Nat) (s : Selection) : Selection :=
  if s.has c then { s with marks := s.marks.setIfInBounds c false, size := s.size - 1 } else s

/-- The dragging finger is on a cell: resting does nothing, a step back undoes the last cell, and a
cell that is not selected yet joins the trail. -/
def reached (c : Nat) (s : Selection) : Selection :=
  match s.back with
  | last :: rest =>
    if last = c then s
    else if rest.head? = some c then { s.unmark last with back := rest }
    else if s.has c then s
    else { s.mark c with back := c :: s.back }
  | [] => if s.has c then s else { s.mark c with back := [c] }

/-- Selects a cell, leaving the trail as it is. -/
def inserted (c : Nat) (s : Selection) : Selection := if s.has c then s else s.mark c

/-- Drops a cell from the selection and from the trail. -/
def erased (c : Nat) (s : Selection) : Selection :=
  if s.has c then { s.unmark c with back := s.back.filter (· ≠ c) } else s

/-- Starts a new trail and keeps the selection. -/
def startTrail (s : Selection) : Selection := { s with back := [] }

def clear (s : Selection) : Selection := empty s.cells

variable {α : Type}

/-- A number that is no cell was given for one. -/
structure OutOfRange (α : Type) where
  given : α
  cells : Nat
  deriving Repr

def OutOfRange.fault (gridName : String) (o : OutOfRange α) : Fault (Log.Context α) where
  code := .noSuchCell
  message := "Ignoring out-of-range cell"
  context := some
    [("grid", .text gridName), ("index", .number o.given), ("cellCount", .count o.cells)]

def OutOfRange.line (gridName : String) (o : OutOfRange α) : Log.Line (Log.Arg α) :=
  (o.fault gridName).line .warn

abbrev Op (α : Type) := Action Unit Selection Empty (OutOfRange α)

variable [Scalar α]

/-- Does `f` with the cell that `x` is. A number that is none is remarked on and ignored. -/
def withCell (f : Nat → Selection → Selection) (x : α) : Op α Unit := do
  let s ← get
  match Scalar.index? x s.cells with
  | some c => set (f c s)
  | none => .say ⟨x, s.cells⟩

def reach : α → Op α Unit := withCell reached
def insert : α → Op α Unit := withCell inserted
def erase : α → Op α Unit := withCell erased

/-- Whether `x` is a selected cell. -/
def contains (x : α) (s : Selection) : Bool := ((Scalar.index? x s.cells).map s.has).getD false

/-- Writes the selected cells into a buffer, ascending and in place of what it holds, and says how
many they are. -/
def writeTo (buffer : Array α) (s : Selection) : Array α × Nat :=
  let written := (List.range s.cells).foldl
    (fun b c => if s.has c then b.push (Scalar.ofNat c) else b) (buffer.shrink 0)
  (written, written.size)

/-- What may be asked of a selection. A cell is given as any number. -/
inductive Call (α : Type) where
  | reach (x : α)
  | insert (x : α)
  | erase (x : α)
  | startTrail
  | clear
  deriving Repr

def Call.run : Call α → Op α Unit
  | reach x => Selection.reach x
  | insert x => Selection.insert x
  | erase x => Selection.erase x
  | startTrail => modify Selection.startTrail
  | clear => modify Selection.clear

/-- Why there is no selection from this many cells. -/
inductive CreateError where
  | notPositiveInteger (cells : Float)
  /-- More than an array can have entries. -/
  | tooMany

def CreateError.message : CreateError → String
  | notPositiveInteger n =>
    "SelectionGrid cellCount must be a positive integer: " ++ Numeral.text n
  | tooMany => "Invalid array length"

/-- An array has fewer entries than this. -/
def arrayBound : Nat := Nat.pow 2 32

def create? (n : Float) : Except CreateError Selection :=
  match Scalar.integer? n with
  | some (.ofNat (k + 1)) => if k + 1 < arrayBound then .ok (empty (k + 1)) else .error .tooMany
  | _ => .error (.notPositiveInteger n)

end Selection

end HandheldUI
