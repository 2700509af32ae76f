import HandheldUI.Proofs.Controller.Frames
import HandheldUI.Proofs.Controller.Settled
import HandheldUI.Proofs.Input.TouchBar
import HandheldUI.Proofs.Selection.Trail

/-! A finger that drags over a grid, from where it comes down to where it is lifted. What it hands
over is the trail that it leaves on the cells, with every step back undone. -/

namespace HandheldUI.Controller

open HandheldUI.Action

variable {α : Type} [Scalar α]

/-- The cell under a point, if there is one. -/
def cellUnder? (p : Panel) (d : Rect α) (t : Point α) : Option Nat :=
  ((p.layout.cellAt? d t).filter (0 ≤ ·)).bind (Scalar.index? · p.cells)

theorem cellUnder?_eq_some {p : Panel} {d : Rect α} {t : Point α} {c : Nat} :
    cellUnder? p d t = some c ↔
      ∃ x, p.layout.cellAt? d t = some x ∧ 0 ≤ x ∧ Scalar.index? x p.cells = some c := by
  simp [cellUnder?, Option.bind_eq_some_iff, Option.filter_eq_some_iff, and_assoc]

namespace Slot

variable {x : Slot α} {p : Panel} {d : Rect α} {muted : Bool} {i : Input α}

/-- What a finger that is down adds to: the selection of its drag, or an empty one. -/
def traced (x : Slot α) : Selection := if x.drag.touching then x.selection else x.selection.clear

theorem selection_finger (hcells : x.selection.cells = p.cells) (t : Point α) :
    (x.finger p d t).selection =
      (cellUnder? p d t).elim x.selection fun c => x.selection.reached c := by
  unfold finger cellUnder?
  cases hcell : p.layout.cellAt? d t with
  | none => rfl
  | some cell =>
    by_cases h0 : 0 ≤ cell
    · simp only [Option.filter_some, h0, decide_true, if_true, Option.bind_some]
      change ((Selection.reach cell).quiet () x.selection).state = _
      rw [Selection.reach, Selection.quiet_withCell, hcells]
      cases Scalar.index? cell p.cells <;> rfl
    · simp only [Option.filter_some, h0, decide_false, Bool.false_eq_true, if_false,
        Option.bind_none]
      rfl

/-- Under a finger that is down, with Cross out of the game, the touch alone changes what is
selected. -/
theorem selection_gridInput_down (hd : i.touch.down) (hb : i.touchBarred = false)
    (hh : x.drag.holding = false) (hp : ¬i.pressed muted .cross)
    (hcells : x.selection.cells = p.cells) :
    (x.gridInput p d muted i).selection =
      (cellUnder? p d i.touch.point).elim x.traced fun c => x.traced.reached c := by
  have hcross : (x.gridInput p d muted i).selection = (x.dragTouch p d i).selection := by
    have hdrawn := holding_drawn x p d muted i
    have hdpad := frame_dpad (x.dragTouch p d i) p muted i
    rw [hh] at hdrawn
    rw [gridInput, holdCross, if_neg hp, hdrawn, if_neg (by simp), drawn, holdOn, hdpad.2.1,
      holding_dragTouch, hh, if_neg (by simp), hdpad.2.2]
  rw [hcross, dragTouch, if_pos hd, hb, if_neg (by simp), traced]
  cases x.drag.touching
  · exact selection_finger ((Selection.cells_clear _).trans hcells) _
  · exact selection_finger hcells _

end Slot

variable {p : Panel} {s : State α} {r : Env α} {c : Controls α} {back : List Nat}
  {h : List (Env α × Controls α)}

/-- A finger that is down, or comes down now, goes on from these cells. -/
structure Traces (p : Panel) (s : State α) (back : List Nat) : Prop where
  unbarred : s.input.touchBarred = false
  holding : (s.slot p).drag.holding = false
  cells : (s.slot p).selection.cells = p.cells
  follows : (s.slot p).traced.Follows back

theorem touching_frame_down (hw : Watches p r c s) (hb : s.input.touchBarred = false)
    (hd : c.touch.down) : (((frame c).quiet r s).state.slot p).drag.touching = true := by
  rw [touching_frame hw, hd, hb]
  simp

/-- A frame of the drag takes the finger one step on. -/
theorem Traces.next (hs : Traces p s back) (hw : Watches p r c s)
    (hp : ¬(s.input.take c).pressed r.muted .cross) (hd : c.touch.down) :
    Traces p ((frame c).quiet r s).state
      ((cellUnder? p (diagram r.sidebarWidth) c.touch.point).elim back
        (Selection.retrace back)) := by
  have htraced : (s.slot p).traced.cells = p.cells := by
    unfold Slot.traced
    split
    · exact hs.cells
    · exact (Selection.cells_clear _).trans hs.cells
  have hsel : ((s.slot p).gridInput p (diagram r.sidebarWidth) r.muted (s.input.take c)).selection =
      (cellUnder? p (diagram r.sidebarWidth) c.touch.point).elim (s.slot p).traced
        fun k => (s.slot p).traced.reached k :=
    Slot.selection_gridInput_down hd hs.unbarred hs.holding hp hs.cells
  refine ⟨?_, ?_, ?_, ?_⟩
  · have hbar : (s.input.take c).touchBarred = false := hs.unbarred
    rw [input_frame hw, Input.touchBarred_freeTouch, hbar, Bool.false_and]
  · rw [holding_frame hw, hs.holding]
    simpa using hp
  · rw [slot_frame hw, hsel]
    cases cellUnder? p (diagram r.sidebarWidth) c.touch.point with
    | none => exact htraced
    | some k => exact (Selection.cells_reached k _).trans htraced
  · rw [Slot.traced, if_pos (touching_frame_down hw hs.unbarred hd), slot_frame hw, hsel]
    cases hk : cellUnder? p (diagram r.sidebarWidth) c.touch.point with
    | none => exact hs.follows
    | some k =>
      obtain ⟨x, -, -, hx⟩ := cellUnder?_eq_some.1 hk
      exact hs.follows.reached (htraced ▸ Selection.lt_of_index? hx)

/-- The frame that lifts the finger hands over what was selected, and leaves an empty grid. -/
theorem Traces.lift (hs : Traces p s back) (ht : (s.slot p).drag.touching = true)
    (hw : Watches p r c s) (hp : ¬(s.input.take c).pressed r.muted .cross)
    (hup : ¬c.touch.down) :
    let u := ((frame c).quiet r s).state
    handOvers ((frame c).quiet r s).events = handed p (s.slot p).selection ∧
    (u.slot p).selection = .empty p.cells ∧ (u.slot p).drag.touching = false := by
  intro u
  have hgone : (u.slot p).drag.touching = false := by
    rw [touching_frame hw, Bool.eq_false_iff.2 hup, Bool.false_and]
  have hheld : (u.slot p).drag.holding = false := by
    rw [holding_frame hw, hs.holding]
    simpa using hp
  refine ⟨?_, ?_, hgone⟩
  · rw [handOvers_frame hw, ht, hs.holding]
    simp [hup]
  · rw [slot_frame hw] at hgone hheld ⊢
    rw [Slot.selection_gridInput hgone hheld, ht, Bool.true_or, if_pos rfl, Selection.clear,
      hs.cells]

/-- The cells that the finger was on, frame by frame. -/
def cellsUnder (p : Panel) (h : List (Env α × Controls α)) : List Nat :=
  h.filterMap fun y => cellUnder? p (diagram y.1.sidebarWidth) y.2.touch.point

/-- The grid gets to see the frame, and Cross does not go down in it. -/
def LeavesCross (p : Panel) (s : State α) (y : Env α × Controls α) : Prop :=
  Watches p y.1 y.2 s ∧ ¬(s.input.take y.2).pressed y.1.muted .cross

/-- The frames so far of a contact with the grid, before which no drag is under way. -/
structure Contact (p : Panel) (s : State α) (h : List (Env α × Controls α)) : Prop where
  -- so it is in every state that arises, by `Arises.onGrid`
  cells : (s.slot p).selection.cells = p.cells
  touching : (s.slot p).drag.touching = false
  holding : (s.slot p).drag.holding = false
  unbarred : s.input.touchBarred = false
  nonempty : h ≠ []
  down : ∀ y ∈ h, y.2.touch.down
  seen : History.Always (fun before => LeavesCross p (reached frame s before)) h

theorem Contact.start (hc : Contact p s h) : Traces p s [] where
  unbarred := hc.unbarred
  holding := hc.holding
  cells := hc.cells
  follows := by
    rw [Slot.traced, hc.touching, if_neg (by simp)]
    exact Selection.follows_clear _

/-- What the finger has been over after some frames, none of which hands anything over. -/
theorem Traces.frames (hs : Traces p s []) (hdown : ∀ y ∈ h, y.2.touch.down)
    (hseen : History.Always (fun before => LeavesCross p (reached frame s before)) h) :
    Traces p (reached frame s h) ((cellsUnder p h).foldl Selection.retrace []) ∧
      handOvers (quietRun frame h s).events = [] := by
  induction h using List.reverseRecOn with
  | nil => exact ⟨hs, rfl⟩
  | append_singleton h y ih =>
    obtain ⟨hbefore, hw, hp⟩ := History.always_concat.1 hseen
    obtain ⟨ht, hnone⟩ := ih (fun z hz => hdown z (List.mem_append_left _ hz)) hbefore
    have hd : y.2.touch.down := hdown y (by simp)
    constructor
    · have hstep := ht.next hw hp hd
      rw [reached_concat, cellsUnder, List.filterMap_append, List.foldl_append]
      -- a frame with no cell under the finger adds nothing to either side
      cases hk : cellUnder? p (diagram y.1.sidebarWidth) y.2.touch.point <;>
        simpa [cellsUnder, hk] using hstep
    · rw [handOvers_concat, hnone, List.nil_append, handOvers_frame hw, hd, ht.holding]
      simp

theorem Contact.touching_reached (hc : Contact p s h) :
    ((reached frame s h).slot p).drag.touching = true := by
  obtain ⟨before, y, rfl⟩ := (List.eq_nil_or_concat' h).resolve_left hc.nonempty
  obtain ⟨hbefore, hw, -⟩ := History.always_concat.1 hc.seen
  have ht := (hc.start.frames (fun z hz => hc.down z (List.mem_append_left _ hz)) hbefore).1
  rw [reached_concat]
  exact touching_frame_down hw ht.unbarred (hc.down y (by simp))

/-- After every frame of a contact the trail is the finger's path over the cells, wherever the
sidebar has moved the diagram to, with the steps back undone; these are the cells that are selected,
and none has been handed over. A frame without the finger hands them over, in ascending order, if
there are any, and leaves an empty grid. -/
theorem contact_hands_over_trail (hc : Contact p s h) :
    let t := reached frame s h
    let path := Selection.trailOver (cellsUnder p h)
    (t.slot p).selection.trail = path ∧ (t.slot p).selection.toList = path.mergeSort ∧
      (t.slot p).selection.size = path.length ∧ handOvers (quietRun frame h s).events = [] ∧
      ∀ r c, LeavesCross p t (r, c) → ¬c.touch.down →
        handOvers ((frame c).quiet r t).events =
          (if path = [] then [] else [.mapping p path.mergeSort false]) ∧
        (((frame c).quiet r t).state.slot p).selection = .empty p.cells ∧
        (((frame c).quiet r t).state.slot p).drag.touching = false := by
  intro t path
  obtain ⟨ht, hnone⟩ := hc.start.frames hc.down hc.seen
  have htouching : (t.slot p).drag.touching = true := hc.touching_reached
  have hfollows := ht.follows
  rw [Slot.traced, if_pos htouching] at hfollows
  have hlist : (t.slot p).selection.toList = path.mergeSort := hfollows.toList_eq
  refine ⟨congrArg List.reverse hfollows.back_eq, hlist, ?_, hnone, ?_⟩
  · exact hfollows.size_eq.trans List.length_reverse.symm
  · intro r c ⟨hw, hp⟩ hup
    obtain ⟨hhanded, hend⟩ := ht.lift htouching hw hp hup
    refine ⟨?_, hend⟩
    have hempty : path.mergeSort = [] ↔ path = [] := by
      rw [← List.length_eq_zero_iff, List.length_mergeSort, List.length_eq_zero_iff]
    rw [hhanded, handed, hlist]
    simp only [hempty]

section Swept

open Binary64

/-- Nothing keeps the input from the screen, beside a sidebar of this width. -/
def beside (width : Nat) : Env Float := ⟨false, false, false, Float.ofNat width⟩

def fingerOn (x y : Nat) : Controls Float := ⟨[], [], ⟨true, ⟨Float.ofNat x, Float.ofNat y⟩⟩⟩

/-- The grid of the front panel, just opened. -/
def opened : State Float := ((turnTo (.grid .front)).quiet (beside 0) .initial).state

/-- A finger goes three cells to the left, to the first column but one back, off the grid, then down
to the next row while the sidebar comes in, and across the cell where it came down. -/
def swept : List (Env Float × Controls Float) :=
  [(beside 0, fingerOn 430 170), (beside 0, fingerOn 370 170), (beside 0, fingerOn 310 170),
    (beside 0, fingerOn 370 170), (beside 0, fingerOn 10 170), (beside 130, fingerOn 370 260),
    (beside 0, fingerOn 430 170)]

instance (p : Panel) (s : State α) (y : Env α × Controls α) : Decidable (LeavesCross p s y) :=
  inferInstanceAs (Decidable (_ ∧ _))

theorem contact_swept : Contact .front opened swept where
  cells := by decide +kernel
  touching := by decide +kernel
  holding := by decide +kernel
  unbarred := by decide +kernel
  nonempty := by decide
  down := by decide +kernel
  seen := by decide +kernel

/-- What was reached last of all is handed over in the middle. -/
theorem contact_hands_over_trail_swept : Contact .front opened swept ∧
    ((reached frame opened swept).slot .front).selection.trail = [2, 1, 6] ∧
    handOvers ((frame .idle).quiet (beside 130) (reached frame opened swept)).events =
      [.mapping .front [1, 2, 6] false] := by
  have key := contact_hands_over_trail contact_swept
  have hpath : Selection.trailOver (cellsUnder .front swept) = [2, 1, 6] := by decide +kernel
  have hlast := key.2.2.2.2 (beside 130) .idle (by decide +kernel) (by decide)
  refine ⟨contact_swept, key.1.trans hpath, ?_⟩
  have hperm : [2, 1, 6].mergeSort.Perm [1, 2, 6] :=
    (List.mergeSort_perm _ _).trans (by decide)
  have hsorted : [2, 1, 6].mergeSort = [1, 2, 6] :=
    hperm.eq_of_pairwise' (List.pairwise_mergeSort' (· ≤ ·) _) (by decide)
  rw [hlast.1, hpath, hsorted, if_neg (by simp)]

end Swept

end HandheldUI.Controller
