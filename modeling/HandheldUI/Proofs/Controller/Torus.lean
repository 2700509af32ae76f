import Mathlib.Algebra.BigOperators.Group.List.Basic
import Mathlib.Algebra.Group.Prod
import Mathlib.Data.Int.ModEq
import Mathlib.Data.List.Induction
import HandheldUI.Proofs.Action.History
import HandheldUI.Proofs.Controller.Grid
import HandheldUI.Proofs.Controller.Slot
import HandheldUI.Proofs.Scalar.Rational

/-! The cursor of a grid moves on a torus, on exact numbers. A cell is where a row and a column
meet, either of them counted on past the edges; a move adds to both, so that moves add up. -/

namespace HandheldUI.Controller

section Torus

/-- The cell where a row and a column meet, both of them going round. -/
def onTorus (rows cols : Nat) (r c : Int) : Nat := (r % rows).toNat * cols + (c % cols).toNat

variable {rows cols k : Nat} {r c r' c' : Int}

theorem emod_toNat_lt {n : Nat} (pos : 0 < n) (i : Int) : (i % n).toNat < n := by
  have hlt : i % n < n := Int.emod_lt_of_pos i (Int.natCast_pos.2 pos)
  omega

theorem emod_toNat {n : Nat} (pos : 0 < n) (i : Int) : ((i % n).toNat : Int) = i % n :=
  Int.toNat_of_nonneg (Int.emod_nonneg i (Int.natCast_ne_zero.2 pos.ne'))

theorem onTorus_lt (hrows : 0 < rows) (hcols : 0 < cols) (r c : Int) :
    onTorus rows cols r c < rows * cols :=
  number_lt (emod_toNat_lt hrows r) (emod_toNat_lt hcols c)

theorem onTorus_div (hcols : 0 < cols) (r c : Int) :
    onTorus rows cols r c / cols = (r % rows).toNat := number_div (emod_toNat_lt hcols c)

theorem onTorus_mod (hcols : 0 < cols) (r c : Int) :
    onTorus rows cols r c % cols = (c % cols).toNat := number_mod (emod_toNat_lt hcols c)

theorem onTorus_div_modEq (hrows : 0 < rows) (hcols : 0 < cols) (r c : Int) :
    ((onTorus rows cols r c / cols : Nat) : Int) ≡ r [ZMOD rows] := by
  rw [onTorus_div hcols, emod_toNat hrows]
  exact Int.mod_modEq r rows

theorem onTorus_mod_modEq (hcols : 0 < cols) (r c : Int) :
    ((onTorus rows cols r c % cols : Nat) : Int) ≡ c [ZMOD cols] := by
  rw [onTorus_mod hcols, emod_toNat hcols]
  exact Int.mod_modEq c cols

theorem onTorus_congr (hr : r ≡ r' [ZMOD rows]) (hc : c ≡ c' [ZMOD cols]) :
    onTorus rows cols r c = onTorus rows cols r' c' := by
  rw [onTorus, hr, hc, onTorus]

/-- A cell is where its own row and column meet. -/
theorem onTorus_self (hcols : 0 < cols) (hk : k < rows * cols) :
    onTorus rows cols (k / cols : Nat) (k % cols : Nat) = k := by
  have hrow : k / cols < rows := (Nat.div_lt_iff_lt_mul hcols).2 hk
  rw [onTorus, ← Int.natCast_mod, ← Int.natCast_mod, Int.toNat_natCast, Int.toNat_natCast,
    Nat.mod_eq_of_lt hrow, Nat.mod_mod, Nat.div_add_mod']

end Torus

namespace Layout

/-- The remainder of a negative number is brought into range by one more divisor. -/
theorem wrapInto_intCast {n : Nat} (pos : 0 < n) (i : Int) :
    wrapInto (n : Rat) i = ((i % n).toNat : Rat) := by
  have hlow : -(n : Int) < i.tmod n := Int.lt_tmod_of_pos i (Int.natCast_pos.2 pos)
  -- above zero both kinds of remainder agree, and both forget the divisor that was added
  have htwice : (i.tmod n + n).tmod n = i % n := by
    rw [Int.tmod_eq_emod_of_nonneg (by omega), Int.add_emod_right, Int.tmod_def,
      Int.sub_mul_emod_self_left]
  calc wrapInto (n : Rat) i = Scalar.rem ((i.tmod n + n : Int) : Rat) n := by
        rw [wrapInto, Scalar.rem_intCast]
        push_cast
        rfl
    _ = ((i % n).toNat : Rat) := by
        rw [Scalar.rem_intCast, htwice, ← Int.cast_natCast (i % n).toNat, emod_toNat pos]

variable {l : Layout Rat} {rows cols k : Nat}

theorem neighbor_eq (hl : l.IsGrid rows cols) (k : Nat) (r c : Int) :
    l.neighbor k r c =
      (onTorus rows cols ((k / cols : Nat) + r) ((k % cols : Nat) + c) : Nat) := by
  have hrow : Scalar.trunc ((k : Rat) / cols) + r = (((k / cols : Nat) + r : Int) : Rat) := by
    rw [Scalar.trunc_natCast_div]
    push_cast
    rfl
  have hcol : Scalar.rem (k : Rat) cols + c = (((k % cols : Nat) + c : Int) : Rat) := by
    have hrem : Scalar.rem (k : Rat) cols = ((k % cols : Nat) : Rat) :=
      Scalar.rem_intCast k cols
    rw [hrem]
    push_cast
    rfl
  calc l.neighbor k r c
      = wrapInto (rows : Rat) (((k / cols : Nat) + r : Int) : Rat) * cols +
          wrapInto (cols : Rat) (((k % cols : Nat) + c : Int) : Rat) := by
        rw [← hrow, ← hcol, ← hl.rows_eq, ← hl.cols_eq]
        rfl
    _ = (onTorus rows cols ((k / cols : Nat) + r) ((k % cols : Nat) + c) : Nat) := by
        rw [wrapInto_intCast hl.rows_pos, wrapInto_intCast hl.cols_pos, onTorus]
        push_cast
        rfl

/-- Moves add up: that the first one is reduced before the second makes no difference. -/
theorem neighbor_neighbor (hl : l.IsGrid rows cols) (k : Nat) (r₁ c₁ r₂ c₂ : Int) :
    l.neighbor (l.neighbor k r₁ c₁) r₂ c₂ = l.neighbor k (r₁ + r₂) (c₁ + c₂) := by
  have hrow := (onTorus_div_modEq hl.rows_pos hl.cols_pos ((k / cols : Nat) + r₁)
    ((k % cols : Nat) + c₁)).add_right r₂
  have hcol := (@onTorus_mod_modEq rows cols hl.cols_pos ((k / cols : Nat) + r₁)
    ((k % cols : Nat) + c₁)).add_right c₂
  rw [add_assoc] at hrow hcol
  rw [← Int.cast_add, ← Int.cast_add, neighbor_eq hl, neighbor_eq hl, neighbor_eq hl,
    onTorus_congr hrow hcol]

/-- Going round any number of times leads back. -/
theorem neighbor_around (hl : l.IsGrid rows cols) (hk : k < rows * cols) (i j : Int) :
    l.neighbor k (i * rows) (j * cols) = k := by
  have hround (n m : Nat) (i : Int) : m + i * n ≡ m [ZMOD n] := Int.add_mul_emod_self_right ..
  have hcast (i : Int) (n : Nat) : (i : Rat) * n = ((i * n : Int) : Rat) := by push_cast; rfl
  rw [hcast, hcast, neighbor_eq hl,
    onTorus_congr (hround rows _ i) (hround cols _ j), onTorus_self hl.cols_pos hk]

theorem neighbor_zero (hl : l.IsGrid rows cols) (hk : k < rows * cols) : l.neighbor k 0 0 = k := by
  have h := neighbor_around hl hk 0 0
  rwa [Int.cast_zero, zero_mul, zero_mul] at h

theorem neighbor_back (hl : l.IsGrid rows cols) (hk : k < rows * cols) (r c : Int) :
    l.neighbor (l.neighbor k r c) (-r) (-c) = k := by
  have hback := neighbor_neighbor hl k r c (-r) (-c)
  rw [Int.cast_neg, Int.cast_neg, add_neg_cancel, add_neg_cancel] at hback
  rw [hback, neighbor_zero hl hk]

/-- On a grid of any shape a move leads from cell to cell, by as many rows and columns as it says;
moves add up, and going round leads back, so that every move can be undone. A move along one axis
leaves the place on the other. -/
theorem neighbor_on_torus (hl : l.IsGrid rows cols) (hk : k < rows * cols) :
    (∀ r c : Int, ∃ j < rows * cols, l.neighbor k r c = (j : Nat) ∧
      ((j / cols : Nat) : Int) ≡ (k / cols : Nat) + r [ZMOD rows] ∧
      ((j % cols : Nat) : Int) ≡ (k % cols : Nat) + c [ZMOD cols]) ∧
    (∀ r₁ c₁ r₂ c₂ : Int,
      l.neighbor (l.neighbor k r₁ c₁) r₂ c₂ = l.neighbor k (r₁ + r₂) (c₁ + c₂)) ∧
    l.neighbor k 0 0 = k ∧
    (∀ i j : Int, l.neighbor k (i * rows) (j * cols) = k) ∧
    (∀ r c : Int, l.neighbor (l.neighbor k r c) (-r) (-c) = k) ∧
    (∀ r : Int, ∃ j < rows * cols, l.neighbor k r 0 = (j : Nat) ∧ j % cols = k % cols) ∧
    ∀ c : Int, ∃ j < rows * cols, l.neighbor k 0 c = (j : Nat) ∧ j / cols = k / cols := by
  have hcell (r c : Int) : onTorus rows cols ((k / cols : Nat) + r) ((k % cols : Nat) + c) <
      rows * cols := onTorus_lt hl.rows_pos hl.cols_pos _ _
  refine ⟨fun r c => ⟨_, hcell r c, neighbor_eq hl k r c, ?_, ?_⟩, neighbor_neighbor hl k,
    neighbor_zero hl hk, neighbor_around hl hk, neighbor_back hl hk, fun r => ?_, fun c => ?_⟩
  · exact onTorus_div_modEq hl.rows_pos hl.cols_pos _ _
  · exact onTorus_mod_modEq hl.cols_pos _ _
  · have hrow := neighbor_eq hl k r 0
    rw [Int.cast_zero] at hrow
    refine ⟨_, hcell r 0, hrow, ?_⟩
    rw [onTorus_mod hl.cols_pos, add_zero, ← Int.natCast_mod, Int.toNat_natCast, Nat.mod_mod]
  -- a row below the last one is its own remainder
  · have hcol := neighbor_eq hl k 0 c
    have hlt : k / cols < rows := (Nat.div_lt_iff_lt_mul hl.cols_pos).2 hk
    rw [Int.cast_zero] at hcol
    refine ⟨_, hcell 0 c, hcol, ?_⟩
    rw [onTorus_div hl.cols_pos, add_zero, ← Int.natCast_mod, Int.toNat_natCast,
      Nat.mod_eq_of_lt hlt]

/-- A move over the left and the upper edge, several times round. -/
theorem neighbor_on_torus_front : (Panel.front.layout : Layout Rat).IsGrid 3 6 ∧ 14 < 3 * 6 ∧
    (Panel.front.layout : Layout Rat).neighbor 14 (-7) (-20) = 6 ∧
    (Panel.front.layout : Layout Rat).neighbor ((Panel.front.layout : Layout Rat).neighbor
      (14 : Nat) (-7 : Int) (-20 : Int)) (-(-7 : Int)) (-(-20 : Int)) = (14 : Nat) := by
  obtain ⟨-, -, -, -, hback, -, -⟩ :=
    neighbor_on_torus Panel.front.isGrid_layout (by decide : 14 < 3 * 6)
  exact ⟨Panel.front.isGrid_layout, by decide, by decide +kernel, hback (-7) (-20)⟩

end Layout

section Steps

open HandheldUI.Action

/-- The rows and the columns of all steps together. -/
def moved (h : List (Env Rat × (Int × Int))) : Int × Int := (h.map Prod.snd).sum

theorem moved_concat (h : List (Env Rat × (Int × Int))) (y : Env Rat × (Int × Int)) :
    moved (h ++ [y]) = moved h + y.2 := by
  rw [moved, List.map_append, List.sum_append, List.map_singleton, List.sum_singleton, moved]

/-- After any number of steps the cursor is where one step by their sum would have led. -/
theorem cursor_after_steps {p : Panel} {s : State Rat} {k : Nat} (hk : k < p.cells)
    (hs : (s.slot p).drag.cursor = k) (h : List (Env Rat × (Int × Int))) :
    ((reached (fun m : Int × Int => step p (m.1 : Rat) m.2) s h).slot p).drag.cursor =
      (p.layout : Layout Rat).neighbor k (moved h).1 (moved h).2 := by
  induction h using List.reverseRecOn with
  | nil => exact hs.trans (Layout.neighbor_zero p.isGrid_layout hk).symm
  | append_singleton h y ih =>
    rw [reached_concat, quiet_step, slot_setSlot, Slot.step]
    dsimp only
    rw [ih, Layout.neighbor_neighbor p.isGrid_layout, moved_concat, Prod.fst_add, Prod.snd_add,
      Int.cast_add, Int.cast_add]

end Steps

end HandheldUI.Controller
