import HandheldUI.Proofs.Controller.Grid
import HandheldUI.Proofs.Scalar.Whole

/-! The cells of a grid as machine numbers. Whatever finger and sidebar are, the cell under a point
is a cell of the grid or no number; and a cursor that moves by whole numbers of rows and columns
stays on the grid. -/

namespace HandheldUI.Controller

open Binary64

section Strips

/-- What the number of a strip can be: one of the `n` numbers, or none. -/
def IsStrip (n : Nat) (x : Float) : Prop := x = packed .notANumber ∨ ∃ k < n, x = Float.ofNat k

instance (n : Nat) (x : Float) : Decidable (IsStrip n x) := inferInstanceAs (Decidable (_ ∨ _))

variable {n : Nat}

/-- A number brought between 0 and the last strip. -/
theorem isStrip_clamped (pos : 0 < n) (hn : n < 8) (x : Float) :
    IsStrip n (Scalar.min (Float.ofNat (n - 1)) (Scalar.max (Float.ofNat 0) (Scalar.trunc x))) := by
  have hinside : ∀ n < 8, ∀ k < n,
      Scalar.min (Float.ofNat (n - 1)) (Float.ofNat k) = Float.ofNat k := by
    decide +kernel
  -- what has no integer part is one of three numbers, and the rest goes by its integer part
  cases hx : Scalar.truncate? x with
  | none =>
    have hspecial : ∀ n < 8, 0 < n → ∀ u ∈ [.notANumber, .infinity .positive, .infinity .negative],
        IsStrip n (Scalar.min (Float.ofNat (n - 1)) (Scalar.max (Float.ofNat 0) (packed u))) := by
      decide +kernel
    have htrunc : Scalar.trunc x = x := by rw [Scalar.trunc, hx]
    rw [htrunc]
    rcases eq_packed_of_parts?_eq_none x (Option.map_eq_none_iff.1 hx) with rfl | ⟨⟨⟩, rfl⟩ <;>
      exact hspecial n hn pos _ (by simp)
  | some i =>
    have htrunc : Scalar.trunc x = Float.ofInt i := by
      rw [Scalar.trunc, hx]
      rfl
    rw [htrunc]
    refine .inr ?_
    cases i with
    | negSucc k =>
      have hneg : Float.ofInt (.negSucc k) < Float.ofNat 0 := neg_ofNat_lt (Nat.succ_pos k)
      rw [max_of_gt hneg]
      exact ⟨0, pos, hinside n hn 0 pos⟩
    | ofNat k =>
      change ∃ r < n, Scalar.min _ (Scalar.max _ (Float.ofNat k)) = _
      rw [max_zero_ofNat]
      rcases Nat.lt_or_ge k n with hk | hk
      · exact ⟨k, hk, hinside n hn k hk⟩
      · exact ⟨n - 1, by omega, min_of_lt (ofNat_lt_ofNat (by omega) (by omega))⟩

/-- The largest strip for what lies beyond it, the first one for what lies before it. -/
theorem isStrip_strip (offset length : Float) (pos : 0 < n) (hn : n < 8) :
    IsStrip n (Layout.strip offset length (Float.ofNat n)) := by
  have hlast : ∀ n < 8, 0 < n → Float.ofNat n - Float.ofNat 1 = Float.ofNat (n - 1) := by
    decide +kernel
  change IsStrip n (Scalar.min (Float.ofNat n - Float.ofNat 1)
    (Scalar.max (Float.ofNat 0) (Scalar.trunc (offset / length * Float.ofNat n))))
  rw [hlast n hn pos]
  exact isStrip_clamped pos hn _

end Strips

section Cells

theorem nan_mul (x : Float) : packed .notANumber * x = packed .notANumber := rfl

theorem nan_add (x : Float) : packed .notANumber + x = packed .notANumber := rfl

theorem add_nan (x : Float) : x + packed .notANumber = packed .notANumber := by
  rw [add_eq_packed]
  cases unpacked x <;> rfl

theorem panel_bounds (p : Panel) : 0 < p.rows ∧ p.rows < 8 ∧ 0 < p.cols ∧ p.cols < 8 := by
  cases p <;> decide

/-- The number of the cell in a row and a column. -/
theorem ofNat_cell (p : Panel) : ∀ a < p.rows, ∀ b < p.cols,
    Float.ofNat a * Float.ofNat p.cols + Float.ofNat b = Float.ofNat (a * p.cols + b) := by
  cases p <;> decide +kernel

variable {p : Panel}

/-- A number that is one of the panel's cells. -/
def Panel.IsCell (p : Panel) (x : Float) : Prop := ∃ c < p.cells, x = Float.ofNat c

theorem cell_lt {a b : Nat} (ha : a < p.rows) (hb : b < p.cols) : a * p.cols + b < p.cells :=
  number_lt ha hb

/-- The cell under a point, if it is a number at all, is one of the grid. -/
theorem isCell_of_cellAt? {d : Rect Float} {t : Point Float} {cell : Float}
    (h : p.layout.cellAt? d t = some cell) (hpos : Float.ofNat 0 ≤ cell) : p.IsCell cell := by
  have hnan : ¬Float.ofNat 0 ≤ packed .notANumber := by decide +kernel
  have hcell (a : Float) (ha : IsStrip p.rows a) (b : Float) (hb : IsStrip p.cols b)
      (hpos : Float.ofNat 0 ≤ a * Float.ofNat p.cols + b) :
      p.IsCell (a * Float.ofNat p.cols + b) := by
    rcases ha with rfl | ⟨a, ha, rfl⟩
    · rw [nan_mul, nan_add] at hpos
      exact absurd hpos hnan
    · rcases hb with rfl | ⟨b, hb, rfl⟩
      · rw [add_nan] at hpos
        exact absurd hpos hnan
      · exact ⟨a * p.cols + b, cell_lt ha hb, ofNat_cell p a ha b hb⟩
  unfold Layout.cellAt? at h
  dsimp only at h
  split at h
  · cases h
  · obtain rfl := Option.some.inj h
    obtain ⟨hr, hr', hc, hc'⟩ := panel_bounds p
    exact hcell _ (isStrip_strip _ _ hr hr') _ (isStrip_strip _ _ hc hc') hpos

/-- A whole number of steps from `k`, going round. -/
theorem exists_wrapInto {n k : Nat} {x : Float} (hx : IsWhole (unpacked x)) (pos : 0 < n)
    (hn : n < 8) (hk : k < 8) :
    ∃ r < n, Layout.wrapInto (Float.ofNat n) (Float.ofNat k + x) = Float.ofNat r := by
  have hsecond : ∀ n < 8, ∀ r < n, ∀ b,
      Scalar.rem (ofSigned b r + Float.ofNat n) (Float.ofNat n) =
        Float.ofNat (if b then (n - r) % n else r) := by
    decide +kernel
  -- the first remainder may be below zero, or a zero with a sign; the second one is neither
  obtain ⟨b, r, hr, hrem⟩ := rem_ofNat (isWhole_ofNat_add hx (by omega : k < 2 ^ 53)) pos hn
  refine ⟨if b then (n - r) % n else r, ?_, ?_⟩
  · split
    · exact Nat.mod_lt _ pos
    · exact hr
  · rw [Layout.wrapInto, hrem]
    exact hsecond n hn r hr b

theorem row_and_column (p : Panel) : ∀ c < p.cells,
    Scalar.trunc (Float.ofNat c / Float.ofNat p.cols) = Float.ofNat (c / p.cols) ∧
      Scalar.rem (Float.ofNat c) (Float.ofNat p.cols) = Float.ofNat (c % p.cols) := by
  cases p <;> decide +kernel

/-- Moving by whole numbers of rows and columns leads from cell to cell. -/
theorem Panel.IsCell.neighbor {cell : Float} (h : p.IsCell cell) {rows cols : Float}
    (hrows : IsWhole (unpacked rows)) (hcols : IsWhole (unpacked cols)) :
    p.IsCell (p.layout.neighbor cell rows cols) := by
  obtain ⟨c, hc, rfl⟩ := h
  obtain ⟨hr, hr', hc', hc''⟩ := panel_bounds p
  have hrow : c / p.cols < p.rows := (Nat.div_lt_iff_lt_mul hc').2 hc
  have hcol : c % p.cols < p.cols := Nat.mod_lt c hc'
  obtain ⟨htrunc, hrem⟩ := row_and_column p c hc
  obtain ⟨a, ha, hwrap⟩ := exists_wrapInto hrows hr hr' (k := c / p.cols) (by omega)
  obtain ⟨b, hb, hwrap'⟩ := exists_wrapInto hcols hc' hc'' (k := c % p.cols) (by omega)
  refine ⟨a * p.cols + b, cell_lt ha hb, ?_⟩
  change Layout.wrapInto (Float.ofNat p.rows)
      (Scalar.trunc (Float.ofNat c / Float.ofNat p.cols) + rows) * Float.ofNat p.cols +
    Layout.wrapInto (Float.ofNat p.cols) (Scalar.rem (Float.ofNat c) (Float.ofNat p.cols) + cols) =
      _
  rw [htrunc, hrem, hwrap, hwrap', ofNat_cell p a ha b hb]

end Cells

end HandheldUI.Controller
