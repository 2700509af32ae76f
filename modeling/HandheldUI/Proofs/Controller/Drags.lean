import Mathlib.Tactic.ByContra
import HandheldUI.Proofs.Controller.Slot
import HandheldUI.Proofs.Selection.Marks

/-! How the drags of a panel and its selection go together in a frame on its grid. A drag that
begins or ends makes the frame forget what was selected; a cell that joins the selection joins it
under a drag that is going on. -/

namespace HandheldUI

open HandheldUI.Action

namespace Controller

namespace Slot

variable {α : Type} [Scalar α] {x y : Slot α} {p : Panel} {d : Rect α} {muted : Bool} {i : Input α}
  {c : Nat}

section Flags

variable (x p d muted i)

theorem flags_finger (t : Point α) : (x.finger p d t).drag.touching = x.drag.touching ∧
    (x.finger p d t).drag.holding = x.drag.holding := by
  unfold finger
  repeat' split
  all_goals exact ⟨rfl, rfl⟩

theorem touching_dragTouch : (x.dragTouch p d i).drag.touching =
    (i.touch.down && (x.drag.touching || !i.touchBarred)) := by
  unfold dragTouch
  cases hd : i.touch.down
  · cases ht : x.drag.touching <;> simp [ht]
  · cases hb : i.touchBarred
    · cases ht : x.drag.touching <;> simp [ht, flags_finger]
    · simp

theorem holding_dragTouch : (x.dragTouch p d i).drag.holding = x.drag.holding := by
  unfold dragTouch
  cases hd : i.touch.down
  · cases ht : x.drag.touching <;> simp [clear]
  · cases hb : i.touchBarred
    · cases ht : x.drag.touching <;> simp [flags_finger, clear]
    · simp

theorem frame_dpad : (x.dpad p muted i).drag.touching = x.drag.touching ∧
    (x.dpad p muted i).drag.holding = x.drag.holding ∧
    (x.dpad p muted i).selection = x.selection := by
  unfold dpad
  repeat' split
  all_goals exact ⟨rfl, rfl, rfl⟩

theorem drag_holdOn : (x.holdOn i).drag = x.drag := by
  unfold holdOn
  split <;> rfl

theorem touching_holdCross : (x.holdCross muted i).drag.touching = x.drag.touching := by
  unfold holdCross
  repeat' split
  all_goals rfl

theorem holding_holdCross : (x.holdCross muted i).drag.holding =
    (i.pressed muted .cross || x.drag.holding && !i.released muted .cross) := by
  unfold holdCross
  cases hp : i.pressed muted .cross <;> cases hh : x.drag.holding <;>
    cases hr : i.released muted .cross <;> simp [hh]

theorem touching_drawn : (x.drawn p d muted i).drag.touching =
    (i.touch.down && (x.drag.touching || !i.touchBarred)) := by
  rw [drawn, drag_holdOn, (frame_dpad ..).1, touching_dragTouch]

theorem holding_drawn : (x.drawn p d muted i).drag.holding = x.drag.holding := by
  rw [drawn, drag_holdOn, (frame_dpad ..).2.1, holding_dragTouch]

theorem touching_gridInput : (x.gridInput p d muted i).drag.touching =
    (i.touch.down && (x.drag.touching || !i.touchBarred)) := by
  rw [gridInput, touching_holdCross, touching_drawn]

theorem holding_gridInput : (x.gridInput p d muted i).drag.holding =
    (i.pressed muted .cross || x.drag.holding && !i.released muted .cross) := by
  rw [gridInput, holding_holdCross, holding_drawn]

end Flags

/-- Panels that differ at most in what is selected. -/
structure Alike (x y : Slot α) : Prop where
  drag : x.drag = y.drag
  cells : x.selection.cells = y.selection.cells

namespace Alike

omit [Scalar α] in
theorem clear (h : Alike x y) : x.clear = y.clear := by
  simp only [Slot.clear, h.drag, Selection.clear_eq_clear h.cells]

theorem reach (h : Alike x y) (cell : α) : Alike (x.reach cell) (y.reach cell) where
  drag := h.drag
  cells := by simpa only [Slot.reach, Selection.cells_quiet_reach] using h.cells

theorem insert (h : Alike x y) (cell : α) : Alike (x.insert cell) (y.insert cell) where
  drag := h.drag
  cells := by simpa only [Slot.insert, Selection.cells_quiet_insert] using h.cells

theorem finger (h : Alike x y) (t : Point α) : Alike (x.finger p d t) (y.finger p d t) := by
  unfold Slot.finger
  split
  · split
    · have hr := h.reach ‹α›
      exact ⟨by simp only [hr.drag], hr.cells⟩
    · exact h
  · exact h

/-- A touch that begins or ends leaves nothing of the difference. -/
theorem dragTouch_eq (h : Alike x y)
    (hx : (x.dragTouch p d i).drag.touching ≠ x.drag.touching) :
    x.dragTouch p d i = y.dragTouch p d i := by
  rw [touching_dragTouch] at hx
  unfold Slot.dragTouch
  rw [← h.drag, ← h.clear]
  cases hd : i.touch.down <;> cases hb : i.touchBarred <;> cases ht : x.drag.touching <;>
    simp [hd, hb, ht] at hx ⊢

theorem dragTouch (h : Alike x y) : Alike (x.dragTouch p d i) (y.dragTouch p d i) := by
  unfold Slot.dragTouch
  rw [← h.drag, h.clear]
  split
  · split
    · exact h
    · refine finger ?_ _
      split
      · exact h
      · exact ⟨rfl, rfl⟩
  · split
    · exact ⟨rfl, rfl⟩
    · exact h

theorem dpad (h : Alike x y) : Alike (x.dpad p muted i) (y.dpad p muted i) := by
  have hs (rows cols : α) : Alike (x.step p rows cols) (y.step p rows cols) :=
    ⟨by simp only [Slot.step, h.drag], h.cells⟩
  unfold Slot.dpad
  repeat' split
  all_goals first | exact hs _ _ | exact h

theorem holdOn (h : Alike x y) : Alike (x.holdOn i) (y.holdOn i) := by
  unfold Slot.holdOn
  rw [h.drag]
  split
  · exact h.insert _
  · exact h

theorem drawn (h : Alike x y) : Alike (x.drawn p d muted i) (y.drawn p d muted i) :=
  h.dragTouch.dpad.holdOn

/-- So does a hold that ends. -/
theorem holdCross_eq (h : Alike x y) (hx : x.drag.holding)
    (hx' : ¬(x.holdCross muted i).drag.holding) : x.holdCross muted i = y.holdCross muted i := by
  rw [holding_holdCross] at hx'
  unfold Slot.holdCross
  rw [← h.drag, ← h.clear]
  cases hp : i.pressed muted .cross <;> cases hr : i.released muted .cross <;>
    simp [hp, hr, hx] at hx' ⊢

/-- A frame in which a drag begins or ends forgets what was selected. -/
theorem gridInput_eq (h : Alike x y)
    (hx : (x.gridInput p d muted i).drag.touching ≠ x.drag.touching ∨
      x.drag.holding ∧ ¬(x.gridInput p d muted i).drag.holding) :
    x.gridInput p d muted i = y.gridInput p d muted i := by
  rcases hx with ht | ⟨hh, hh'⟩
  · rw [gridInput, touching_holdCross, Slot.drawn, drag_holdOn, (frame_dpad ..).1] at ht
    rw [gridInput, gridInput, Slot.drawn, Slot.drawn, h.dragTouch_eq ht]
  · refine h.drawn.holdCross_eq ?_ hh'
    rwa [holding_drawn]

end Alike

theorem dragTouch_of_has (h : (x.dragTouch p d i).selection.has c) (hx : ¬x.selection.has c) :
    i.touch.down ∧ ¬i.touchBarred := by
  by_contra hn
  refine hx ?_
  unfold dragTouch at h
  cases hd : i.touch.down
  · cases ht : x.drag.touching
    · simpa [hd, ht] using h
    · simp [hd, ht, clear, Selection.has_clear] at h
  · cases hb : i.touchBarred
    · exact absurd ⟨hd, by simp [hb]⟩ hn
    · simpa [hd, hb] using h

theorem holdOn_of_has (h : (x.holdOn i).selection.has c) (hx : ¬x.selection.has c) :
    x.drag.holding ∧ i.holds .cross := by
  unfold holdOn at h
  split at h
  · simp_all
  · exact absurd h hx

theorem holdCross_of_has (h : (x.holdCross muted i).selection.has c) (hx : ¬x.selection.has c) :
    i.pressed muted .cross := by
  unfold holdCross at h
  split at h
  · assumption
  · split at h
    · simp [clear, Selection.has_clear] at h
    · exact absurd h hx

/-- A cell that joins the selection does so under a finger or under Cross. -/
theorem gridInput_of_has (h : (x.gridInput p d muted i).selection.has c)
    (hx : ¬x.selection.has c) :
    (x.gridInput p d muted i).drag.touching ∧ i.touch.down ∨
      (x.gridInput p d muted i).drag.holding ∧ i.holds .cross := by
  rw [touching_gridInput, holding_gridInput]
  by_cases hd : (x.drawn p d muted i).selection.has c
  -- the touch comes first, and what it has not added the held Cross has
  · by_cases ht : (x.dragTouch p d i).selection.has c
    · obtain ⟨hdown, hb⟩ := dragTouch_of_has ht hx
      exact .inl ⟨by simp [hdown, hb], hdown⟩
    · rw [← (frame_dpad (x.dragTouch p d i) p muted i).2.2] at ht
      obtain ⟨hh, hc⟩ := holdOn_of_has hd ht
      rw [(frame_dpad ..).2.1, holding_dragTouch] at hh
      exact .inr ⟨by simp [hh, Input.released, hc], hc⟩
  · have hp := holdCross_of_has h hd
    have hc : i.holds .cross := by
      simp only [Input.pressed, Bool.and_eq_true] at hp
      exact hp.1.2
    exact .inr ⟨by simp [hp], hc⟩

end Slot

end Controller

end HandheldUI
