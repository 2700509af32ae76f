import HandheldUI.Proofs.Controller.Frames
import HandheldUI.Proofs.Controller.Settled
import HandheldUI.Proofs.Selection.Trail

/-! Cross held over a grid while the arrows move the cursor, from its press to its release. What is
handed over is every cell that the cursor stood on at the end of a frame, the first one included. -/

namespace HandheldUI.Controller

open HandheldUI.Action

section Frames

variable {α : Type} [Scalar α]

/-- Where the cursor stands after each of the frames. -/
def cursors (p : Panel) : State α → List (Env α × Controls α) → List α
  | _, [] => []
  | s, y :: h =>
    let t := ((frame y.2).quiet y.1 s).state
    (t.slot p).drag.cursor :: cursors p t h

theorem cursors_concat (p : Panel) (s : State α) (h : List (Env α × Controls α))
    (y : Env α × Controls α) : cursors p s (h ++ [y]) =
      cursors p s h ++ [((reached frame s (h ++ [y])).slot p).drag.cursor] := by
  induction h generalizing s with
  | nil => rfl
  | cons z h ih => exact congrArg (_ :: ·) (ih _)

namespace Slot

variable {x : Slot α} {p : Panel} {d : Rect α} {muted : Bool} {i : Input α}

/-- Without a finger only the arrows and Cross are left. -/
theorem drawn_up (hd : ¬i.touch.down) (ht : x.drag.touching = false) :
    x.drawn p d muted i = (x.dpad p muted i).holdOn i := by
  rw [drawn, dragTouch, if_neg hd, ht, if_neg (by simp)]

theorem cursor_holdCross : (x.holdCross muted i).drag.cursor = x.drag.cursor := by
  unfold holdCross
  repeat' split
  all_goals rfl

theorem cursor_gridInput_up (hd : ¬i.touch.down) (ht : x.drag.touching = false) :
    (x.gridInput p d muted i).drag.cursor = (x.dpad p muted i).drag.cursor := by
  rw [gridInput, cursor_holdCross, drawn_up hd ht, drag_holdOn]

/-- The press forgets what was selected and takes the cell that the arrows have moved to. -/
theorem selection_gridInput_press (hd : ¬i.touch.down) (ht : x.drag.touching = false)
    (hp : i.pressed muted .cross) : (x.gridInput p d muted i).selection =
      ((Selection.reach (x.gridInput p d muted i).drag.cursor).quiet ()
        x.selection.clear).state := by
  have hcells : (x.drawn p d muted i).selection.cells = x.selection.cells := by
    rw [drawn_up hd ht, holdOn]
    split
    · rw [Slot.insert, Selection.cells_quiet_insert, (frame_dpad ..).2.2]
    · rw [(frame_dpad ..).2.2]
  rw [← Selection.clear_eq_clear hcells, gridInput, cursor_holdCross, holdCross, if_pos hp]
  rfl

/-- Held Cross takes the cell that the arrows have moved to. -/
theorem selection_gridInput_held (hd : ¬i.touch.down) (ht : x.drag.touching = false)
    (hh : x.drag.holding) (hc : i.holds .cross) (hp : ¬i.pressed muted .cross) :
    (x.gridInput p d muted i).selection =
      ((Selection.insert (x.gridInput p d muted i).drag.cursor).quiet () x.selection).state := by
  rw [cursor_gridInput_up hd ht, gridInput, holdCross, if_neg hp, Input.released_of_holds hc,
    Bool.and_false, if_neg (by simp), drawn_up hd ht, holdOn, (frame_dpad ..).2.1, hh, hc,
    Bool.and_self, if_pos rfl, Slot.insert, (frame_dpad ..).2.2]

end Slot

end Frames

section Grids

open Binary64

theorem stays_frame (c : Controls Float) : StaysOnGrid (frame c) :=
  (stays_onInput (Input.take c)).bind fun _ => stays_respond

variable {p : Panel} {s t : State Float} {r : Env Float} {c : Controls Float} {xs : List Float}

/-- Cross is held, and the selected cells are the ones that the cursor has been on. -/
structure Draws (p : Panel) (t : State Float) (xs : List Float) : Prop where
  onGrid : t.OnGrid
  touching : (t.slot p).drag.touching = false
  holding : (t.slot p).drag.holding = true
  mem_iff : ∀ x, x ∈ xs ↔ ∃ k, (t.slot p).selection.has k ∧ x = Float.ofNat k

theorem touching_frame_up (hw : Watches p r c s) (hd : ¬c.touch.down) :
    (((frame c).quiet r s).state.slot p).drag.touching = false := by
  rw [touching_frame hw, Bool.eq_false_iff.2 hd, Bool.false_and]

theorem index?_cursor (hs : s.OnGrid) : ∃ k < p.cells, (s.slot p).drag.cursor = Float.ofNat k ∧
    ∀ g : Selection, g.cells = p.cells →
      Scalar.index? (s.slot p).drag.cursor g.cells = some k := by
  obtain ⟨k, hk, hcursor⟩ := (hs p).cursor
  refine ⟨k, hk, hcursor, fun g hg => ?_⟩
  rw [hcursor, hg]
  exact index?_cell p k hk

theorem draws_of_press (hs : s.OnGrid) (ht : (s.slot p).drag.touching = false)
    (hw : Watches p r c s) (hd : ¬c.touch.down)
    (hp : (s.input.take c).pressed r.muted .cross) :
    Draws p ((frame c).quiet r s).state
      [(((frame c).quiet r s).state.slot p).drag.cursor] := by
  have hgrid : ((frame c).quiet r s).state.OnGrid := (stays_frame c r s hs).1
  refine ⟨hgrid, touching_frame_up hw hd, ?_, fun x => ?_⟩
  · rw [holding_frame hw, hp, Bool.true_or]
  -- the press clears the grid, so the cell reached is the only one
  · have hcells : (s.slot p).selection.clear.cells = p.cells :=
      (Selection.cells_clear _).trans (hs p).cells
    obtain ⟨k, hk, hcursor, hindex⟩ := index?_cursor hgrid (p := p)
    have hsel : (((frame c).quiet r s).state.slot p).selection =
        (s.slot p).selection.clear.reached k := by
      have hpress := Slot.selection_gridInput_press (p := p) (d := diagram r.sidebarWidth)
        (i := s.input.take c) hd ht hp
      rw [← slot_frame hw] at hpress
      rw [hpress, Selection.reach, Selection.quiet_withCell, hindex _ hcells]
      rfl
    have hone := (Selection.follows_clear (s.slot p).selection).reached (hcells ▸ hk)
    rw [List.mem_singleton, hsel, hcursor]
    constructor
    · intro hx
      exact ⟨k, (hone.has_iff k).2 List.mem_cons_self, hx⟩
    · rintro ⟨j, hj, hx⟩
      have hjk : j ∈ [k] := (hone.has_iff j).1 hj
      rw [hx, List.mem_singleton.1 hjk]

/-- A frame of the hold adds the cell that it leaves the cursor on. -/
theorem Draws.next (hs : Draws p s xs) (hw : Watches p r c s) (hd : ¬c.touch.down)
    (hheld : .cross ∈ c.held) (hbefore : .cross ∈ c.before) :
    Draws p ((frame c).quiet r s).state
      (xs ++ [(((frame c).quiet r s).state.slot p).drag.cursor]) := by
  have hgrid : ((frame c).quiet r s).state.OnGrid := (stays_frame c r s hs.onGrid).1
  have hc : (s.input.take c).holds .cross := decide_eq_true hheld
  have hb : Button.cross ∈ (s.input.take c).now.before := hbefore
  have hp : ¬(s.input.take c).pressed r.muted .cross := by simp [Input.pressed, hb]
  refine ⟨hgrid, touching_frame_up hw hd, ?_, fun x => ?_⟩
  · rw [holding_frame hw, hs.holding, Input.released_of_holds hc]
    simp
  · obtain ⟨k, hk, hcursor, hindex⟩ := index?_cursor hgrid (p := p)
    have hcells : (s.slot p).selection.cells = p.cells := (hs.onGrid p).cells
    have hsel : (((frame c).quiet r s).state.slot p).selection =
        (s.slot p).selection.inserted k := by
      have hheld := Slot.selection_gridInput_held (p := p) (d := diagram r.sidebarWidth)
        (i := s.input.take c) hd hs.touching hs.holding hc hp
      rw [← slot_frame hw] at hheld
      rw [hheld, Selection.insert, Selection.quiet_withCell, hindex _ hcells]
      rfl
    rw [List.mem_append, List.mem_singleton, hs.mem_iff, hsel, hcursor]
    simp only [Selection.has_inserted (hcells ▸ hk)]
    constructor
    · rintro (⟨j, hj, hx⟩ | hx)
      · exact ⟨j, .inr hj, hx⟩
      · exact ⟨k, .inl rfl, hx⟩
    · rintro ⟨j, rfl | hj, hx⟩
      · exact .inr hx
      · exact .inl ⟨j, hj, hx⟩

/-- Cross goes down on the grid, is held and goes up again, and no finger touches the screen. The
arrows are free. -/
structure CrossDrag (p : Panel) (s : State Float) (first : Env Float × Controls Float)
    (held : List (Env Float × Controls Float)) (last : Env Float × Controls Float) : Prop where
  -- so it is in every state that arises, by `Arises.onGrid`
  onGrid : s.OnGrid
  touching : (s.slot p).drag.touching = false
  up : ∀ y ∈ first :: held ++ [last], ¬y.2.touch.down
  seen : History.Always (fun before y => Watches p y.1 y.2 (reached frame s before))
    (first :: held ++ [last])
  press : (s.input.take first.2).pressed first.1.muted .cross
  hold : ∀ y ∈ held, .cross ∈ y.2.held ∧ .cross ∈ y.2.before
  release : last.1.muted = false ∧ .cross ∉ last.2.held ∧ .cross ∈ last.2.before

variable {first last : Env Float × Controls Float} {held : List (Env Float × Controls Float)}

theorem handOvers_frame_up (hw : Watches p r c s) (ht : (s.slot p).drag.touching = false)
    (hr : (s.input.take c).released r.muted .cross = false) :
    handOvers ((frame c).quiet r s).events = [] := by
  rw [handOvers_frame hw, ht, hr]
  simp

/-- Before the release nothing is handed over. -/
theorem draws_frames (hs : s.OnGrid) (ht : (s.slot p).drag.touching = false)
    (hup : ∀ y ∈ first :: held, ¬y.2.touch.down)
    (hseen : History.Always (fun before y => Watches p y.1 y.2 (reached frame s before))
      (first :: held))
    (hpress : (s.input.take first.2).pressed first.1.muted .cross)
    (hheld : ∀ y ∈ held, .cross ∈ y.2.held ∧ .cross ∈ y.2.before) :
    Draws p (reached frame s (first :: held)) (cursors p s (first :: held)) ∧
      handOvers (quietRun frame (first :: held) s).events = [] := by
  induction held using List.reverseRecOn with
  | nil =>
    have hw : Watches p first.1 first.2 s := hseen [] first [] rfl
    refine ⟨draws_of_press hs ht hw (hup first (by simp)) hpress, ?_⟩
    rw [← List.nil_append [first], handOvers_concat]
    exact handOvers_frame_up hw ht (Input.released_of_holds (Input.holds_of_pressed hpress))
  | append_singleton held y ih =>
    rw [← List.cons_append] at hseen ⊢
    obtain ⟨hbefore, hw⟩ := History.always_concat.1 hseen
    obtain ⟨hdraws, hnone⟩ := ih (fun z hz => hup z (List.mem_append_left _ hz))
      hbefore fun z hz => hheld z (List.mem_append_left _ hz)
    have hdown : ¬y.2.touch.down := hup y (by simp)
    obtain ⟨hy, hy'⟩ := hheld y (by simp)
    constructor
    · rw [cursors_concat, reached_concat]
      exact hdraws.next hw hdown hy hy'
    · rw [handOvers_concat, hnone, List.nil_append]
      exact handOvers_frame_up hw hdraws.touching (Input.released_of_holds (decide_eq_true hy))

theorem Draws.toList_ne_nil (hs : Draws p s xs) (hne : xs ≠ []) :
    (s.slot p).selection.toList ≠ [] := by
  obtain ⟨x, hx⟩ := List.exists_mem_of_ne_nil xs hne
  obtain ⟨k, hk, -⟩ := (hs.mem_iff x).1 hx
  exact List.ne_nil_of_mem (Selection.mem_toList.2 hk)

/-- The frame that lets Cross go hands over what was selected before it, and ends the drag. An arrow
in it moves the cursor all the same. -/
theorem Draws.release (hs : Draws p s xs) (hne : xs ≠ []) (hw : Watches p r c s)
    (hd : ¬c.touch.down) (hmuted : r.muted = false) (hheld : .cross ∉ c.held)
    (hbefore : .cross ∈ c.before) :
    let u := ((frame c).quiet r s).state
    handOvers ((frame c).quiet r s).events = [.mapping p (s.slot p).selection.toList false] ∧
    (u.slot p).selection = .empty p.cells ∧
    (u.slot p).drag.touching = false ∧ (u.slot p).drag.holding = false ∧
    (u.slot p).drag.cursor = ((s.slot p).dpad p r.muted (s.input.take c)).drag.cursor := by
  intro u
  have hc : ¬(s.input.take c).holds .cross := mt of_decide_eq_true hheld
  have hp : (s.input.take c).pressed r.muted .cross = false := by
    simp [Input.pressed, hc]
  have hr : (s.input.take c).released r.muted .cross = true := by
    have hb : Button.cross ∈ (s.input.take c).now.before := hbefore
    simp [Input.released, hmuted, hc, hb]
  have htouching : (u.slot p).drag.touching = false := touching_frame_up hw hd
  have hholding : (u.slot p).drag.holding = false := by
    rw [holding_frame hw, hp, hr]
    simp
  have hu : u.slot p = (s.slot p).gridInput p (diagram r.sidebarWidth) r.muted (s.input.take c) :=
    slot_frame hw
  refine ⟨?_, ?_, htouching, hholding, ?_⟩
  · have hsel : ((s.slot p).drawn p (diagram r.sidebarWidth) r.muted
        (s.input.take c)).selection = (s.slot p).selection :=
      selection_drawn hd (by simp [hs.touching]) hc
    rw [handOvers_frame hw, hs.touching, hs.holding, hp, hr, hsel, handed,
      if_neg (hs.toList_ne_nil hne)]
    simp
  · rw [hu] at htouching hholding ⊢
    rw [Slot.selection_gridInput htouching hholding, hs.holding, Bool.or_true, if_pos rfl,
      Selection.clear, (hs.onGrid p).cells]
  · rw [hu]
    exact Slot.cursor_gridInput_up hd hs.touching

/-- Whatever the arrows do, the cells handed over at the release are the ones on which the cursor
stood after the press and after each frame of the hold, in ascending order and each once. There is
no hand-over before, and none without a cell. The grid is empty and without a drag then; an arrow in
the frame of the release has moved the cursor all the same. -/
theorem cross_hands_over_cursors (hd : CrossDrag p s first held last) :
    let t := reached frame s (first :: held)
    let u := reached frame s (first :: held ++ [last])
    handOvers (quietRun frame (first :: held) s).events = [] ∧
    (∃ cells, cells ≠ [] ∧ cells.Pairwise (· < ·) ∧
      (∀ x, x ∈ cells.map Float.ofNat ↔ x ∈ cursors p s (first :: held)) ∧
      handOvers ((frame last.2).quiet last.1 t).events = [.mapping p cells false]) ∧
    (u.slot p).selection = .empty p.cells ∧
    (u.slot p).drag.touching = false ∧ (u.slot p).drag.holding = false ∧
    (u.slot p).drag.cursor =
      ((t.slot p).dpad p last.1.muted (t.input.take last.2)).drag.cursor := by
  intro t u
  obtain ⟨hbefore, hw⟩ := History.always_concat.1 hd.seen
  obtain ⟨hdraws, hnone⟩ := draws_frames hd.onGrid hd.touching
    (fun y hy => hd.up y (List.mem_append_left _ hy)) hbefore hd.press hd.hold
  have hup : ¬last.2.touch.down := hd.up last (by simp)
  obtain ⟨hmuted, hheld, hlast⟩ := hd.release
  have hu : u = ((frame last.2).quiet last.1 t).state := reached_concat ..
  -- the press left the cursor on a cell
  have hne : cursors p s (first :: held) ≠ [] := List.cons_ne_nil _ _
  obtain ⟨hhanded, hend⟩ := hdraws.release hne hw hup hmuted hheld hlast
  refine ⟨hnone, ⟨(t.slot p).selection.toList, hdraws.toList_ne_nil hne,
    Selection.pairwise_toList _, ?_, hhanded⟩, ?_⟩
  · intro x
    rw [hdraws.mem_iff, List.mem_map]
    simp only [Selection.mem_toList, eq_comm]
    rfl
  · rw [hu]
    exact hend

/-- The grid of the rear panel, just opened. -/
def shown : State Float := ((turnTo (.grid .rear)).quiet unmeasured .initial).state

def buttons (held before : List Button) : Env Float × Controls Float :=
  (unmeasured, ⟨held, before, .none⟩)

/-- Back to the first column and on, round the edge, with a rest on the way. -/
def leftward : List (Env Float × Controls Float) :=
  [buttons [.cross, .left] [.cross, .right], buttons [.cross] [.cross, .left],
    buttons [.cross, .left] [.cross]]

/-- Right goes down together with Cross, and Down while it is let go. -/
theorem crossDrag_leftward : CrossDrag .rear shown (buttons [.cross, .right] []) leftward
    (buttons [.down] [.cross, .left]) where
  onGrid := (stays_turnTo _ unmeasured _ (onGrid_initial .initial)).1
  touching := by decide +kernel
  up := by decide +kernel
  seen := by decide +kernel
  press := by decide +kernel
  hold := by decide
  release := by decide

theorem cross_hands_over_cursors_leftward :
    CrossDrag .rear shown (buttons [.cross, .right] []) leftward (buttons [.down] [.cross, .left]) ∧
    (∃ cells, cells ≠ [] ∧ cells.Pairwise (· < ·) ∧
      (∀ x, x ∈ cells.map Float.ofNat ↔
        x ∈ [Float.ofNat 1, Float.ofNat 0, Float.ofNat 0, Float.ofNat 3]) ∧
      handOvers ((frame ⟨[.down], [.cross, .left], .none⟩).quiet unmeasured
        (reached frame shown (buttons [.cross, .right] [] :: leftward))).events =
          [.mapping .rear cells false]) ∧
    ((reached frame shown (buttons [.cross, .right] [] :: leftward ++
      [buttons [.down] [.cross, .left]])).slot .rear).drag.cursor = Float.ofNat 7 := by
  have key := cross_hands_over_cursors crossDrag_leftward
  have hcursors : cursors .rear shown (buttons [.cross, .right] [] :: leftward) =
      [Float.ofNat 1, Float.ofNat 0, Float.ofNat 0, Float.ofNat 3] := by decide +kernel
  refine ⟨crossDrag_leftward, hcursors ▸ key.2.1, ?_⟩
  rw [key.2.2.2.2.2]
  decide +kernel

end Grids

end HandheldUI.Controller
