import Mathlib.Algebra.Order.Ring.Rat
import HandheldUI.Controller.Diagram

/-! Grids of exact shape, and the numbers of their cells: row by row, so that a number and the two
places of its cell determine each other. -/

namespace HandheldUI.Controller

section Numbers

variable {rows cols r c r' c' : Nat}

theorem number_lt (hr : r < rows) (hc : c < cols) : r * cols + c < rows * cols := by
  have h : (r + 1) * cols ≤ rows * cols := Nat.mul_le_mul_right _ hr
  rw [Nat.add_mul, Nat.one_mul] at h
  omega

theorem number_div (hc : c < cols) : (r * cols + c) / cols = r := by
  rw [Nat.mul_comm, Nat.mul_add_div (Nat.zero_lt_of_lt hc), Nat.div_eq_of_lt hc, Nat.add_zero]

theorem number_mod (hc : c < cols) : (r * cols + c) % cols = c := Nat.mul_add_mod_of_lt hc

theorem number_inj (hc : c < cols) (hc' : c' < cols) :
    r * cols + c = r' * cols + c' ↔ r = r' ∧ c = c' := by
  constructor
  · intro h
    have hrow := congrArg (· / cols) h
    have hcol := congrArg (· % cols) h
    simp only [number_div hc, number_div hc'] at hrow
    simp only [number_mod hc, number_mod hc'] at hcol
    exact ⟨hrow, hcol⟩
  · rintro ⟨rfl, rfl⟩
    rfl

end Numbers

/-- The grid has so many rows and columns, and some of both. -/
structure Layout.IsGrid (l : Layout Rat) (rows cols : Nat) : Prop where
  rows_eq : l.rows = rows
  cols_eq : l.cols = cols
  rows_pos : 0 < rows
  cols_pos : 0 < cols

theorem Panel.isGrid_layout (p : Panel) : (p.layout : Layout Rat).IsGrid p.rows p.cols := by
  cases p <;> exact ⟨rfl, rfl, by decide, by decide⟩

end HandheldUI.Controller
