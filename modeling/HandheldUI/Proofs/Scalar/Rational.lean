import Mathlib.Algebra.Order.Floor.Semifield
import Mathlib.Data.Rat.Floor
import Mathlib.Order.Interval.Set.Basic
import HandheldUI.Scalar

/-! The operations on exact numbers. Truncation and remainder go toward zero: on what is not below
zero they are the floor, and on whole numbers the truncating division of integers. Comparisons are
those of the order, and to bring a number within 0 and 1 is to take the nearest number there. -/

namespace HandheldUI.Scalar

section Truncation

variable {x : Rat}

theorem tdiv_den_of_nonneg (h : 0 ≤ x) : x.num.tdiv x.den = ⌊x⌋ := by
  rw [Rat.floor_def', Int.tdiv_eq_ediv_of_nonneg (Rat.num_nonneg.2 h)]

theorem trunc_of_nonneg (h : 0 ≤ x) : trunc x = (⌊x⌋₊ : Rat) := by
  calc trunc x = ((x.num.tdiv x.den : Int) : Rat) := rfl
    _ = (⌊x⌋₊ : Rat) := by rw [tdiv_den_of_nonneg h, natCast_floor_eq_intCast_floor h]

theorem trunc_neg (x : Rat) : trunc (-x) = -trunc x := by
  have hneg : (-x).num.tdiv (-x).den = -x.num.tdiv x.den := by
    rw [Rat.neg_num, Rat.neg_den, Int.neg_tdiv]
  calc trunc (-x) = (((-x).num.tdiv (-x).den : Int) : Rat) := rfl
    _ = -trunc x := by
      rw [hneg, Int.cast_neg]
      rfl

theorem trunc_natCast_div (k n : Nat) : trunc ((k : Rat) / n) = (k / n : Nat) := by
  rw [trunc_of_nonneg (div_nonneg k.cast_nonneg n.cast_nonneg), Nat.floor_div_eq_div]

theorem trunc_intCast_div (a : Int) (n : Nat) : trunc ((a : Rat) / n) = (a.tdiv n : Int) := by
  have hnat (k : Nat) : trunc (((k : Int) : Rat) / n) = ((k : Int).tdiv n : Int) := by
    rw [Int.cast_natCast, trunc_natCast_div]
    rfl
  -- a negative dividend goes by its opposite: on both sides only the sign changes
  obtain ⟨k, rfl | rfl⟩ := a.eq_nat_or_neg
  · exact hnat k
  · rw [Int.cast_neg, neg_div, trunc_neg, hnat, Int.neg_tdiv, Int.cast_neg]

end Truncation

section Remainders

theorem rem_eq (x y : Rat) : rem x y = x - y * trunc (x / y) := rfl

theorem rem_intCast (a : Int) (n : Nat) : rem (a : Rat) n = (a.tmod n : Int) := by
  rw [rem_eq, trunc_intCast_div, Int.tmod_def]
  push_cast
  rfl

end Remainders

section Order

variable (x y : Rat)

theorem max_eq_max : Scalar.max x y = Max.max x y := by
  unfold Scalar.max
  split
  · next h =>
    exact (max_eq_right (le_of_lt h)).symm
  · next h =>
    rw [if_pos (not_lt.1 h), max_eq_left (not_lt.1 h)]

theorem min_eq_min : Scalar.min x y = Min.min x y := by
  unfold Scalar.min
  split
  · next h =>
    exact (min_eq_right (le_of_lt h)).symm
  · next h =>
    rw [if_pos (not_lt.1 h), min_eq_left (not_lt.1 h)]

end Order

section Bounds

variable {x : Rat}

theorem toUnit_eq (x : Rat) : toUnit x = Max.max 0 (Min.min 1 x) := by
  unfold toUnit
  split
  · next h0 =>
    have h0 : 0 < x := h0
    split
    · next h1 =>
      have h1 : 1 < x := h1
      rw [min_eq_left h1.le, max_eq_right zero_le_one]
    · next h1 =>
      have h1 : ¬1 < x := h1
      rw [min_eq_right (not_lt.1 h1), max_eq_right h0.le]
  · next h0 =>
    have h0 : ¬0 < x := h0
    rw [max_eq_left ((min_le_right _ _).trans (not_lt.1 h0))]

theorem monotone_toUnit : Monotone (toUnit : Rat → Rat) := by
  intro x y h
  rw [toUnit_eq, toUnit_eq]
  exact max_le_max_left 0 (min_le_min_left 1 h)

theorem toUnit_mem (x : Rat) : toUnit x ∈ Set.Icc 0 1 := by
  rw [toUnit_eq]
  exact ⟨le_max_left _ _, max_le zero_le_one (min_le_left _ _)⟩

theorem toUnit_of_nonpos (h : x ≤ 0) : toUnit x = 0 := by
  rw [toUnit_eq, max_eq_left ((min_le_right _ _).trans h)]

theorem toUnit_of_one_le (h : 1 ≤ x) : toUnit x = 1 := by
  rw [toUnit_eq, min_eq_left h, max_eq_right zero_le_one]

end Bounds

end HandheldUI.Scalar
