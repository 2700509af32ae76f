import HandheldUI.Proofs.Controller.Settled
import HandheldUI.Proofs.Scalar.Exact
import HandheldUI.Proofs.Selection.Marks

/-! Where the diagram lies. Machine numbers are exact here: the diagram has whole pixels, and so has
the area of each grid, whose shares are eighths. So the whole pixels decide what lies in what, and
nothing of the diagram reaches into the sidebar. -/

namespace HandheldUI

/-- The rectangle lies within another one; they may touch. -/
structure Rect.Inside (a d : Rect Nat) : Prop where
  left : d.x ≤ a.x
  right : a.x + a.w ≤ d.x + d.w
  top : d.y ≤ a.y
  bottom : a.y + a.h ≤ d.y + d.h

namespace Controller

open Binary64

section Pixels

/-- The whole pixels of a sidebar that leaves some of the screen free, and none for any other. -/
def wholeWidth (width : Float) : Int :=
  ((Scalar.truncate? width).filter fun i : Int => 0 < i ∧ i < screenWidth).getD 0

theorem wholeWidth_eq (width : Float) : wholeWidth width = taken width := by
  unfold wholeWidth taken
  rcases Scalar.truncate? width with _ | k | k
  · rfl
  · by_cases hk : k < screenWidth
    -- a sidebar without a whole pixel covers nothing either way
    · rcases Nat.eq_zero_or_pos k with rfl | pos
      · simp [Option.filter_some, hk]
      · simp [Option.filter_some, hk, pos]
    · simp [Option.filter_some, hk]
  · simp [Option.filter_some]

theorem taken_lt (width : Float) : taken width < screenWidth := by
  unfold taken
  split
  · split
    · assumption
    · decide
  · decide

/-- The rectangle is in the middle of what the screen has to the right of `left`. -/
structure Beside (left : Int) (d : Rect Nat) : Prop where
  left_le : left ≤ d.x
  le_right : d.x + d.w ≤ screenWidth
  pos : 1 ≤ d.w
  le_widest : d.w ≤ widestDiagram
  centred : |(d.x - left) - (screenWidth - (d.x + d.w : Nat))| ≤ 1

theorem diagramWidth_bounds {space : Nat} (pos : 0 < space) :
    1 ≤ diagramWidth space ∧ diagramWidth space ≤ space ∧ diagramWidth space ≤ widestDiagram := by
  have hwidest : widestDiagram = 720 := rfl
  have hpadding : diagramPadding = 40 := rfl
  unfold diagramWidth
  split
  · omega
  · have hmin : Nat.min widestDiagram (space - diagramPadding) =
        min widestDiagram (space - diagramPadding) := rfl
    omega

theorem diagramAt_beside {left : Nat} (h : left < screenWidth) : Beside left (diagramAt left) := by
  obtain ⟨hpos, hspace, hwidest⟩ := diagramWidth_bounds (Nat.sub_pos_of_lt h)
  obtain ⟨width, hwidth⟩ : ∃ width, diagramWidth (screenWidth - left) = width := ⟨_, rfl⟩
  have hx : (diagramAt left).x = left + (screenWidth - left - width) / 2 := by
    rw [← hwidth]
    rfl
  have hw : (diagramAt left).w = width := hwidth
  rw [hwidth] at hpos hspace hwidest
  constructor
  · rw [hx]
    omega
  · rw [hx, hw]
    omega
  · rwa [hw]
  · rwa [hw]
  · rw [hx, hw, abs_le]
    omega

/-- The place of a panel's grid in the diagram, in eighths of the diagram. -/
def Panel.eighths : Panel → Rect Nat
  | front => ⟨2, 1, 4, 6⟩
  | rear => ⟨1, 2, 6, 4⟩

/-- The area of the grid in a diagram of whole pixels. -/
def Panel.pixels (p : Panel) (d : Rect Nat) : Rect Nat where
  x := d.x + d.w * p.eighths.x / 8
  y := d.y + d.h * p.eighths.y / 8
  w := max 1 (d.w * p.eighths.w / 8)
  h := max 1 (d.h * p.eighths.h / 8)

/-- Even a grid that is made one pixel wide fits in, as what is left of it is not all there is. -/
theorem share_le {w a b : Nat} (pos : 0 < w) (ha : a < 8) (hab : a + b ≤ 8) :
    w * a / 8 + max 1 (w * b / 8) ≤ w := by
  have hlow : w * a < w * 8 := Nat.mul_lt_mul_of_pos_left ha pos
  have hsum : w * a + w * b ≤ w * 8 := by
    rw [← Nat.mul_add]
    exact Nat.mul_le_mul_left w hab
  omega

theorem Panel.pixels_inside (p : Panel) {d : Rect Nat} (hw : 0 < d.w) (hh : 0 < d.h) :
    (p.pixels d).Inside d := by
  have hx : p.eighths.x < 8 ∧ p.eighths.x + p.eighths.w ≤ 8 := by cases p <;> decide
  have hy : p.eighths.y < 8 ∧ p.eighths.y + p.eighths.h ≤ 8 := by cases p <;> decide
  constructor
  · exact Nat.le_add_right _ _
  · have hle := share_le hw hx.1 hx.2
    rw [pixels, Nat.add_assoc]
    exact Nat.add_le_add_left hle d.x
  · exact Nat.le_add_right _ _
  · have hle := share_le hh hy.1 hy.2
    rw [pixels, Nat.add_assoc]
    exact Nat.add_le_add_left hle d.y

end Pixels

section Areas

/-- So many eighths, as a machine number. -/
structure IsShare (k : Nat) (s : Float) : Prop where
  le : k ≤ 8
  unsigned : Unsigned s
  valued : Valued (unpacked s) (k / 2 ^ 3)

theorem isShare_of_unpacked {s : Float} {k m : Nat} {e : Int} (pos : 0 < m)
    (hs : unpacked s = .finite .positive m e pos) (h : size m e = k / 2 ^ 3) (le : k ≤ 8) :
    IsShare k s := by
  refine ⟨le, congrArg sign? hs, ?_⟩
  rw [hs, ← h]
  exact .positive m e pos

theorem isShare_eighth : IsShare 1 0.125 :=
  isShare_of_unpacked (m := 2 ^ 52) (e := -55) (by decide) rfl (by norm_num [size]) (by decide)

theorem isShare_quarter : IsShare 2 0.25 :=
  isShare_of_unpacked (m := 2 ^ 52) (e := -54) (by decide) rfl (by norm_num [size]) (by decide)

theorem isShare_half : IsShare 4 0.5 :=
  isShare_of_unpacked (m := 2 ^ 52) (e := -53) (by decide) rfl (by norm_num [size]) (by decide)

theorem isShare_threeQuarters : IsShare 6 0.75 :=
  isShare_of_unpacked (m := 3 * 2 ^ 51) (e := -53) (by decide) rfl (by norm_num [size]) (by decide)

/-- Each grid has the shares that it says it has. -/
theorem Panel.isShare_area (p : Panel) :
    IsShare p.eighths.x (p.layout : Layout Float).area.x ∧
      IsShare p.eighths.y (p.layout : Layout Float).area.y ∧
      IsShare p.eighths.w (p.layout : Layout Float).area.w ∧
      IsShare p.eighths.h (p.layout : Layout Float).area.h := by
  cases p with
  | front => exact ⟨isShare_quarter, isShare_eighth, isShare_half, isShare_threeQuarters⟩
  | rear => exact ⟨isShare_eighth, isShare_quarter, isShare_threeQuarters, isShare_half⟩

variable {k w : Nat} {s : Float}

theorem IsShare.trunc_mul (hs : IsShare k s) (hw : w < 2 ^ 50) :
    Scalar.trunc (Scalar.ofNat w * s) = Scalar.ofNat (w * k / 8) := by
  have hle : w * k ≤ w * 8 := Nat.mul_le_mul_left w hs.le
  exact trunc_mul_share hs.unsigned hs.valued (by decide) (by omega) (by omega)

theorem IsShare.offset (hs : IsShare k s) (hw : w < 2 ^ 50) {x : Nat} (hx : x < 2 ^ 50) :
    Scalar.ofNat x + Scalar.trunc (Scalar.ofNat w * s) = Scalar.ofNat (x + w * k / 8) := by
  have hle : w * k ≤ w * 8 := Nat.mul_le_mul_left w hs.le
  rw [hs.trunc_mul hw]
  exact ofNat_add_ofNat (by omega)

theorem IsShare.extent (hs : IsShare k s) (hw : w < 2 ^ 50) :
    Scalar.max 1 (Scalar.trunc (Scalar.ofNat w * s)) = Scalar.ofNat (max 1 (w * k / 8)) := by
  have hle : w * k ≤ w * 8 := Nat.mul_le_mul_left w hs.le
  rw [hs.trunc_mul hw]
  exact max_ofNat (by decide) (by omega)

/-- The area of a grid is found without rounding. -/
theorem Panel.areaIn_map (p : Panel) {d : Rect Nat} (hx : d.x < 2 ^ 50) (hy : d.y < 2 ^ 50)
    (hw : d.w < 2 ^ 50) (hh : d.h < 2 ^ 50) :
    p.layout.areaIn (d.map Scalar.ofNat) = (p.pixels d).map (Scalar.ofNat : Nat → Float) := by
  obtain ⟨hsx, hsy, hsw, hsh⟩ := p.isShare_area
  exact (Rect.mk.injEq ..).mpr ⟨hsx.offset hw hx, hsy.offset hh hy, hsw.extent hw, hsh.extent hh⟩

end Areas

section Touches

variable {α : Type} [Scalar α] {p : Panel} {d : Rect α}

/-- No cell is to the left of the grid. -/
theorem Layout.cellAt?_eq_none (l : Layout α) {t : Point α} (h : t.x < (l.areaIn d).x) :
    l.cellAt? d t = none := if_pos (.inl h)

/-- A finger that is on no cell leaves what is selected, or starts or ends a drag. -/
theorem Slot.selection_dragTouch_of_none {i : Input α} (x : Slot α)
    (h : p.layout.cellAt? d i.touch.point = none) :
    (x.dragTouch p d i).selection = x.selection ∨
      (x.dragTouch p d i).selection = x.selection.clear := by
  unfold dragTouch finger
  rw [h]
  cases i.touch.down <;> cases i.touchBarred <;> cases x.drag.touching <;> simp [clear]

theorem has_of_dragTouch {r : Env α} {s : State α} {q : Panel} {c : Nat}
    (h : p.layout.cellAt? d s.input.touch.point = none)
    (hc : (((dragTouch p d).quiet r s).state.selections.get q).has c) :
    (s.selections.get q).has c := by
  change (((dragTouch p d).quiet r s).state.slot q).selection.has c at hc
  rw [quiet_dragTouch_state, slot_setInput] at hc
  by_cases hq : q = p
  · subst hq
    rw [slot_setSlot] at hc
    rcases (s.slot q).selection_dragTouch_of_none h with heq | heq <;> rw [heq] at hc
    · exact hc
    · rw [Selection.has_clear] at hc
      cases hc
  · rwa [slot_setSlot_of_ne _ _ hq] at hc

end Touches

/-- Whatever the width of the sidebar, the diagram lies in the space beside it, in whole pixels and
in the middle. Each grid lies in the diagram, so that no cell is under a point over the sidebar, and
a finger there selects nothing. -/
theorem diagram_beside_sidebar (width : Float) : ∃ d : Rect Nat,
    diagram width = d.map Scalar.ofNat ∧ Beside (wholeWidth width) d ∧
    ∀ p : Panel,
      (∃ a : Rect Nat, p.layout.areaIn (diagram width) = a.map Scalar.ofNat ∧
        0 < a.w ∧ 0 < a.h ∧ a.Inside d) ∧
      (∀ t : Point Float, t.x < Scalar.ofInt (wholeWidth width) →
        p.layout.cellAt? (diagram width) t = none) ∧
      ∀ (r : Env Float) (s : State Float), s.input.touch.point.x < Scalar.ofInt (wholeWidth width) →
        ∀ (q : Panel) (c : Nat),
          (((dragTouch p (diagram width)).quiet r s).state.selections.get q).has c →
            (s.selections.get q).has c := by
  obtain ⟨left, hleft⟩ : ∃ left, taken width = left := ⟨_, rfl⟩
  have hlt : left < screenWidth := hleft ▸ taken_lt width
  have hscreen : screenWidth = 960 := rfl
  rw [wholeWidth_eq, diagram, hleft]
  have hbeside : Beside left (diagramAt left) := diagramAt_beside hlt
  have hy : (diagramAt left).y = 120 := rfl
  have hh : (diagramAt left).h = 330 := rfl
  generalize diagramAt left = d at hbeside hy hh
  have hx : left ≤ d.x := by exact_mod_cast hbeside.left_le
  have hright : d.x + d.w ≤ screenWidth := hbeside.le_right
  have harea (p : Panel) : p.layout.areaIn (d.map Scalar.ofNat) =
      (p.pixels d).map (Scalar.ofNat : Nat → Float) :=
    p.areaIn_map (by omega) (by omega) (by omega) (by omega)
  have hinside (p : Panel) : (p.pixels d).Inside d := p.pixels_inside hbeside.pos (by omega)
  have hnone (p : Panel) (t : Point Float) (ht : t.x < Scalar.ofInt left) :
      p.layout.cellAt? (d.map Scalar.ofNat) t = none := by
    -- the grid begins with a natural that is no less than what the sidebar covers
    refine Layout.cellAt?_eq_none _ ?_
    have hle : left ≤ (p.pixels d).x := hx.trans (hinside p).left
    have hsmall : (p.pixels d).x < 2 ^ 53 := by
      have hr := (hinside p).right
      omega
    rw [harea]
    exact lt_of_lt_of_valued ht (valued_ofNat (by omega)) (valued_ofNat hsmall)
      (by exact_mod_cast hle)
  refine ⟨d, rfl, hbeside, fun p => ⟨⟨p.pixels d, harea p, ?_, ?_, hinside p⟩, hnone p, ?_⟩⟩
  · exact Nat.zero_lt_one.trans_le (Nat.le_max_left _ _)
  · exact Nat.zero_lt_one.trans_le (Nat.le_max_left _ _)
  · intro r s hs q c
    exact has_of_dragTouch (hnone p _ hs)

/-- A finger that has left the rear grid for the sidebar, with the fourth cell selected. -/
def strayed : State Float where
  pages := {
    page := .grid .rear
    drags := ⟨{ cursor := 0 }, { cursor := 3, touching := true }⟩ }
  selections := ⟨.empty Panel.front.cells, (Selection.empty Panel.rear.cells).mark 3⟩
  input := { now := ⟨[], [], ⟨true, ⟨958.75, 200⟩⟩⟩ }

/-- Beside a sidebar that leaves less than a pixel, the diagram is one pixel wide. -/
theorem diagram_beside_sidebar_onePixel :
    strayed.input.touch.point.x < Scalar.ofInt (wholeWidth 959.5) ∧
      Panel.rear.layout.cellAt? (diagram 959.5) strayed.input.touch.point = none ∧
      (((dragTouch .rear (diagram 959.5)).quiet unmeasured strayed).state.selections.get .rear).has 3 ∧
      (strayed.selections.get .rear).has 3 := by
  have hleft : strayed.input.touch.point.x < Scalar.ofInt (wholeWidth 959.5) := by decide +kernel
  have hhas : (((dragTouch .rear (diagram 959.5)).quiet unmeasured
      strayed).state.selections.get .rear).has 3 := by decide +kernel
  obtain ⟨d, -, -, hpanels⟩ := diagram_beside_sidebar 959.5
  obtain ⟨-, hnone, hsame⟩ := hpanels .rear
  exact ⟨hleft, hnone _ hleft, hhas, hsame unmeasured strayed hleft .rear 3 hhas⟩

end Controller

end HandheldUI
