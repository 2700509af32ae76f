import Mathlib.Order.Interval.Set.Basic
import HandheldUI.Proofs.Controller.Grid
import HandheldUI.Proofs.Scalar.Rational

/-! The cells of a grid as a partition of its area, on exact numbers. Along an axis the area falls
into equal strips, each without its far end, and the number of the strip of a point is a floor. A
cell is where a row and a column meet. -/

namespace HandheldUI

/-- The points of a rectangle, without its right and its lower edge. -/
def Rect.halfOpen (a : Rect Rat) : Set (Point Rat) :=
  {t | t.x ∈ Set.Ico a.x (a.x + a.w) ∧ t.y ∈ Set.Ico a.y (a.y + a.h)}

theorem Rect.notMem_halfOpen_iff {a : Rect Rat} {t : Point Rat} : t ∉ a.halfOpen ↔
    t.x < a.x ∨ a.x + a.w ≤ t.x ∨ t.y < a.y ∨ a.y + a.h ≤ t.y := by
  rw [halfOpen, Set.mem_ofPred, Set.mem_Ico, Set.mem_Ico]
  simp only [not_and_or, not_le, not_lt, or_assoc]

namespace Controller.Layout

section Strips

/-- The `k`-th of `n` equal strips of a length, counted from 0. -/
def stripAt (start length n : Rat) (k : Nat) : Set Rat :=
  Set.Ico (start + k * length / n) (start + (k + 1) * length / n)

/-- The number of the strip that a point is in. -/
def stripOf (start length : Rat) (n : Nat) (t : Rat) : Nat := ⌊(t - start) / length * n⌋₊

/-- A strip is found as a number in range, so that nothing has to bring it there. -/
structure Unclamped (offset length n : Rat) : Prop where
  nonneg : 0 ≤ Scalar.trunc (offset / length * n)
  le_last : Scalar.trunc (offset / length * n) ≤ n - 1
  strip_eq : strip offset length n = Scalar.trunc (offset / length * n)

variable {start length t : Rat} {n k : Nat}

theorem mul_div_le_iff (hlength : 0 < length) (pos : 0 < n) (q s : Rat) :
    q * length / n ≤ s ↔ q ≤ s / length * n := by
  rw [div_le_iff₀ (Nat.cast_pos.2 pos), div_mul_eq_mul_div, le_div_iff₀ hlength]

theorem scaled_nonneg (hlength : 0 < length) (ht : start ≤ t) :
    0 ≤ (t - start) / length * n :=
  mul_nonneg (div_nonneg (sub_nonneg.2 ht) hlength.le) n.cast_nonneg

theorem mem_stripAt_iff (hlength : 0 < length) (pos : 0 < n) (ht : start ≤ t) :
    t ∈ stripAt start length n k ↔ stripOf start length n t = k := by
  -- scaled, the ends of the strip are the two numbers that a floor is between
  have hleft : start + k * length / n ≤ t ↔ (k : Rat) ≤ (t - start) / length * n := by
    rw [← le_sub_iff_add_le', mul_div_le_iff hlength pos]
  have hright : t < start + (k + 1) * length / n ↔ (t - start) / length * n < (k + 1 : Rat) := by
    rw [← sub_lt_iff_lt_add', ← not_le, mul_div_le_iff hlength pos, not_le]
  rw [stripOf, Nat.floor_eq_iff (scaled_nonneg hlength ht), stripAt, Set.mem_Ico, hleft, hright]

theorem stripAt_subset (hlength : 0 < length) (hk : k < n) :
    stripAt start length n k ⊆ Set.Ico start (start + length) := by
  have hfirst : 0 ≤ k * length / n := div_nonneg (mul_nonneg k.cast_nonneg hlength.le) n.cast_nonneg
  have hlast : (k + 1) * length / n ≤ length := by
    rw [mul_div_le_iff hlength (Nat.zero_lt_of_lt hk), div_self hlength.ne', one_mul]
    exact_mod_cast hk
  exact Set.Ico_subset_Ico (le_add_of_nonneg_right hfirst) (by gcongr)

theorem left_mem_stripAt (hlength : 0 < length) (pos : 0 < n) :
    start + k * length / n ∈ stripAt start length n k := by
  refine ⟨le_rfl, ?_⟩
  gcongr
  exact lt_add_one _

theorem stripOf_lt (pos : 0 < n) (ht : t ∈ Set.Ico start (start + length)) :
    stripOf start length n t < n := by
  have hlength : 0 < length := pos_of_lt_add_right (ht.1.trans_lt ht.2)
  have hshare : (t - start) / length < 1 := (div_lt_one hlength).2 (sub_lt_iff_lt_add'.2 ht.2)
  exact (Nat.floor_lt' pos.ne').2 (mul_lt_of_lt_one_left (Nat.cast_pos.2 pos) hshare)

theorem trunc_eq_stripOf (ht : t ∈ Set.Ico start (start + length)) :
    Scalar.trunc ((t - start) / length * n) = stripOf start length n t := by
  have hlength : 0 < length := pos_of_lt_add_right (ht.1.trans_lt ht.2)
  exact Scalar.trunc_of_nonneg (scaled_nonneg hlength ht.1)

theorem unclamped (pos : 0 < n) (ht : t ∈ Set.Ico start (start + length)) :
    Unclamped (t - start) length n := by
  have htrunc : Scalar.trunc ((t - start) / length * n) = stripOf start length n t :=
    trunc_eq_stripOf ht
  have hnonneg : 0 ≤ Scalar.trunc ((t - start) / length * n) := by
    rw [htrunc]
    exact Nat.cast_nonneg _
  have hlast : Scalar.trunc ((t - start) / length * n) ≤ n - 1 := by
    rw [htrunc, le_sub_iff_add_le]
    exact_mod_cast stripOf_lt pos ht
  refine ⟨hnonneg, hlast, ?_⟩
  rw [strip, Scalar.max_eq_max]
  change Scalar.min (n - 1 : Rat) (max 0 _) = _
  rw [max_eq_right hnonneg, Scalar.min_eq_min, min_eq_right hlast]

end Strips

section Tiles

/-- The points of the cell in a row and a column. -/
def tile (l : Layout Rat) (d : Rect Rat) (r c : Nat) : Set (Point Rat) :=
  {t | t.x ∈ stripAt (l.areaIn d).x (l.areaIn d).w l.cols c ∧
    t.y ∈ stripAt (l.areaIn d).y (l.areaIn d).h l.rows r}

variable {l : Layout Rat} {d : Rect Rat} {t : Point Rat} {rows cols r c k : Nat}

/-- There is something of every grid in any diagram. -/
theorem areaIn_pos (l : Layout Rat) (d : Rect Rat) : 0 < (l.areaIn d).w ∧ 0 < (l.areaIn d).h := by
  have hpos (x : Rat) : 0 < Scalar.max 1 x := by
    rw [Scalar.max_eq_max]
    exact zero_lt_one.trans_le (le_max_left 1 x)
  exact ⟨hpos _, hpos _⟩

theorem cellAt?_of_notMem (h : t ∉ (l.areaIn d).halfOpen) : l.cellAt? d t = none := by
  refine if_pos ?_
  rwa [Rect.notMem_halfOpen_iff] at h

theorem cellAt?_of_mem (hl : l.IsGrid rows cols) (h : t ∈ (l.areaIn d).halfOpen) :
    l.cellAt? d t = some ((stripOf (l.areaIn d).y (l.areaIn d).h rows t.y * cols +
      stripOf (l.areaIn d).x (l.areaIn d).w cols t.x : Nat) : Rat) := by
  have hx : strip (t.x - (l.areaIn d).x) (l.areaIn d).w l.cols =
      stripOf (l.areaIn d).x (l.areaIn d).w cols t.x := by
    rw [hl.cols_eq, (unclamped hl.cols_pos h.1).strip_eq, trunc_eq_stripOf h.1]
  have hy : strip (t.y - (l.areaIn d).y) (l.areaIn d).h l.rows =
      stripOf (l.areaIn d).y (l.areaIn d).h rows t.y := by
    rw [hl.rows_eq, (unclamped hl.rows_pos h.2).strip_eq, trunc_eq_stripOf h.2]
  -- the point is outside of none of the four edges, which leaves the second branch
  have hinside := mt Rect.notMem_halfOpen_iff.2 (not_not.2 h)
  rw [cellAt?, if_neg hinside, hx, hy, hl.cols_eq]
  push_cast
  rfl

theorem mem_tile_iff (hl : l.IsGrid rows cols) (h : t ∈ (l.areaIn d).halfOpen) :
    t ∈ l.tile d r c ↔ stripOf (l.areaIn d).y (l.areaIn d).h rows t.y = r ∧
      stripOf (l.areaIn d).x (l.areaIn d).w cols t.x = c := by
  obtain ⟨hw, hh⟩ := l.areaIn_pos d
  rw [← mem_stripAt_iff hw hl.cols_pos h.1.1, ← mem_stripAt_iff hh hl.rows_pos h.2.1, tile,
    ← hl.rows_eq, ← hl.cols_eq]
  exact and_comm

theorem tile_subset (hl : l.IsGrid rows cols) (hr : r < rows) (hc : c < cols) :
    l.tile d r c ⊆ (l.areaIn d).halfOpen := by
  obtain ⟨hw, hh⟩ := l.areaIn_pos d
  rintro t ⟨hx, hy⟩
  rw [hl.cols_eq] at hx
  rw [hl.rows_eq] at hy
  exact ⟨stripAt_subset hw hc hx, stripAt_subset hh hr hy⟩

theorem IsGrid.tile_nonempty (hl : l.IsGrid rows cols) (d : Rect Rat) (r c : Nat) :
    (l.tile d r c).Nonempty := by
  obtain ⟨hw, hh⟩ := l.areaIn_pos d
  refine ⟨⟨(l.areaIn d).x + c * (l.areaIn d).w / cols,
    (l.areaIn d).y + r * (l.areaIn d).h / rows⟩, ?_, ?_⟩
  · rw [hl.cols_eq]
    exact left_mem_stripAt hw hl.cols_pos
  · rw [hl.rows_eq]
    exact left_mem_stripAt hh hl.rows_pos

/-- The cell of a number is found under the points of its tile, and under no others. -/
theorem cellAt?_eq_some_iff (hl : l.IsGrid rows cols) (hr : r < rows) (hc : c < cols) :
    l.cellAt? d t = some ((r * cols + c : Nat) : Rat) ↔ t ∈ l.tile d r c := by
  by_cases ht : t ∈ (l.areaIn d).halfOpen
  · rw [cellAt?_of_mem hl ht, mem_tile_iff hl ht, Option.some_inj, Nat.cast_inj]
    exact number_inj (stripOf_lt hl.cols_pos ht.1) hc
  · rw [cellAt?_of_notMem ht]
    exact iff_of_false (by simp) fun h => ht (tile_subset hl hr hc h)

/-- Every point of the area is on one tile. -/
theorem existsUnique_tile (hl : l.IsGrid rows cols) (h : t ∈ (l.areaIn d).halfOpen) :
    ∃! q : Nat × Nat, q.1 < rows ∧ q.2 < cols ∧ t ∈ l.tile d q.1 q.2 := by
  refine ⟨(stripOf (l.areaIn d).y (l.areaIn d).h rows t.y,
    stripOf (l.areaIn d).x (l.areaIn d).w cols t.x), ⟨?_, ?_, ?_⟩, ?_⟩
  · exact stripOf_lt hl.rows_pos h.2
  · exact stripOf_lt hl.cols_pos h.1
  · exact (mem_tile_iff hl h).2 ⟨rfl, rfl⟩
  · rintro ⟨r, c⟩ ⟨-, -, ht⟩
    obtain ⟨hr, hc⟩ := (mem_tile_iff hl h).1 ht
    exact Prod.ext hr.symm hc.symm

/-- Every number is that of one tile. -/
theorem existsUnique_tile_of_number (hl : l.IsGrid rows cols) (hk : k < rows * cols) :
    ∃! q : Nat × Nat, q.1 < rows ∧ q.2 < cols ∧
      {t | l.cellAt? d t = some (k : Rat)} = l.tile d q.1 q.2 := by
  have htile {r c : Nat} (hr : r < rows) (hc : c < cols) :
      {t | l.cellAt? d t = some ((r * cols + c : Nat) : Rat)} = l.tile d r c :=
    Set.ext fun _ => cellAt?_eq_some_iff hl hr hc
  have hrow : k / cols < rows := (Nat.div_lt_iff_lt_mul hl.cols_pos).2 hk
  have hcol : k % cols < cols := Nat.mod_lt k hl.cols_pos
  refine ⟨(k / cols, k % cols), ⟨hrow, hcol, ?_⟩, ?_⟩
  · rw [← htile hrow hcol, Nat.div_add_mod']
  -- a tile has a point, and the number found there is that of the tile
  · rintro ⟨r, c⟩ ⟨hr, hc, h⟩
    obtain ⟨t, ht⟩ := hl.tile_nonempty d r c
    have hnumber : l.cellAt? d t = some ((r * cols + c : Nat) : Rat) :=
      (cellAt?_eq_some_iff hl hr hc).2 ht
    have hk' : l.cellAt? d t = some (k : Rat) := by
      rw [← h] at ht
      exact ht
    have heq : k = r * cols + c := by
      rw [hk', Option.some_inj, Nat.cast_inj] at hnumber
      exact hnumber
    rw [heq, number_div hc, number_mod hc]

end Tiles

/-- The cells partition the area of the grid, whatever the layout and the diagram: no cell is found
outside of the area; inside, the cell is the one in whose row and column the point lies, without
anything having to be brought into range; and every number is found, on one tile. -/
theorem cells_partition_area {l : Layout Rat} {rows cols : Nat} (hl : l.IsGrid rows cols)
    (d : Rect Rat) :
    (∀ t, l.cellAt? d t = none ↔ t ∉ (l.areaIn d).halfOpen) ∧
    (∀ t ∈ (l.areaIn d).halfOpen,
      (∃! q : Nat × Nat, q.1 < rows ∧ q.2 < cols ∧ t ∈ l.tile d q.1 q.2) ∧
      (∀ r < rows, ∀ c < cols, t ∈ l.tile d r c →
        l.cellAt? d t = some ((r * cols + c : Nat) : Rat)) ∧
      Unclamped (t.x - (l.areaIn d).x) (l.areaIn d).w l.cols ∧
      Unclamped (t.y - (l.areaIn d).y) (l.areaIn d).h l.rows) ∧
    ∀ k < rows * cols,
      (∃ t, l.cellAt? d t = some (k : Rat)) ∧
      ∃! q : Nat × Nat, q.1 < rows ∧ q.2 < cols ∧
        {t | l.cellAt? d t = some (k : Rat)} = l.tile d q.1 q.2 := by
  refine ⟨fun t => ⟨?_, cellAt?_of_notMem⟩, fun t ht => ⟨existsUnique_tile hl ht, ?_, ?_, ?_⟩,
    fun k hk => ⟨?_, existsUnique_tile_of_number hl hk⟩⟩
  · intro hnone ht
    rw [cellAt?_of_mem hl ht] at hnone
    cases hnone
  · intro r hr c hc htile
    exact (cellAt?_eq_some_iff hl hr hc).2 htile
  · rw [hl.cols_eq]
    exact unclamped hl.cols_pos ht.1
  · rw [hl.rows_eq]
    exact unclamped hl.rows_pos ht.2
  · obtain ⟨⟨r, c⟩, ⟨-, -, htile⟩, -⟩ := existsUnique_tile_of_number (d := d) hl hk
    obtain ⟨t, ht⟩ := hl.tile_nonempty d r c
    rw [← htile] at ht
    exact ⟨t, ht⟩

/-- The diagram beside a sidebar that leaves one pixel. -/
def onePixel : Rect Rat := diagram 959

/-- A grid one pixel wide still has all its columns. -/
theorem cells_partition_area_onePixel : (Panel.rear.layout : Layout Rat).IsGrid 3 4 ∧
    (⟨959.6, 300⟩ : Point Rat) ∈ (Panel.rear.layout.areaIn onePixel).halfOpen ∧
    (⟨959.6, 300⟩ : Point Rat) ∈ Panel.rear.layout.tile onePixel 1 2 ∧
    Panel.rear.layout.cellAt? onePixel ⟨959.6, 300⟩ = some ((1 * 4 + 2 : Nat) : Rat) ∧
    Panel.rear.layout.cellAt? onePixel ⟨960, 300⟩ = none ∧
    ∃! q : Nat × Nat, q.1 < 3 ∧ q.2 < 4 ∧
      {t | Panel.rear.layout.cellAt? onePixel t = some ((6 : Nat) : Rat)} =
        Panel.rear.layout.tile onePixel q.1 q.2 := by
  have harea : Panel.rear.layout.areaIn onePixel = ⟨959, 202, 1, 165⟩ := by decide +kernel
  have hcols : (Panel.rear.layout : Layout Rat).cols = 4 := by decide +kernel
  have hrows : (Panel.rear.layout : Layout Rat).rows = 3 := by decide +kernel
  have hinside : (⟨959.6, 300⟩ : Point Rat) ∈ (Panel.rear.layout.areaIn onePixel).halfOpen := by
    rw [harea]
    norm_num [Rect.halfOpen]
  have houtside : (⟨960, 300⟩ : Point Rat) ∉ (Panel.rear.layout.areaIn onePixel).halfOpen := by
    rw [harea]
    norm_num [Rect.halfOpen]
  have htile : (⟨959.6, 300⟩ : Point Rat) ∈ Panel.rear.layout.tile onePixel 1 2 := by
    rw [tile, harea, hcols, hrows]
    norm_num [stripAt]
  obtain ⟨hnone, hsome, hnumber⟩ := cells_partition_area Panel.rear.isGrid_layout onePixel
  obtain ⟨-, hcell, -, -⟩ := hsome _ hinside
  exact ⟨Panel.rear.isGrid_layout, hinside, htile, hcell 1 (by decide) 2 (by decide) htile,
    (hnone _).2 houtside, (hnumber 6 (by decide)).2⟩

end Controller.Layout

end HandheldUI
