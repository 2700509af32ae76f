import HandheldUI.Proofs.Action.Upholds
import HandheldUI.Proofs.Controller.Cells
import HandheldUI.Proofs.Controller.OneGesture

/-! What the controller screen looks like between its calls. A grid has a selection only while it is
shown and dragged over, and the cursors stay on their grids, so that no frame names a cell that does
not exist. -/

namespace HandheldUI.Controller

open HandheldUI.Action

/-- A call of the screen, or a change of the input that it reads. -/
inductive Move (α : Type) where
  | call (c : Call α)
  | input (c : Input.Call α)

section Rest

variable {α : Type}

/-- A panel is dragged over on its own page only, and a selection is part of a drag. -/
structure AtRest (p : Panel) (s : State α) : Prop where
  page : (s.slot p).drag.touching ∨ (s.slot p).drag.holding → s.pages.page = .grid p
  selection : (s.slot p).drag.touching = false → (s.slot p).drag.holding = false →
    (s.slot p).selection = (s.slot p).selection.clear

variable {p : Panel} {s t : State α}

theorem AtRest.of_dropped (h : Slot.Dropped (s.slot p) (t.slot p)) : AtRest p t where
  page := by simp [h.touching, h.holding]
  selection _ _ := by rw [h.selection, Selection.clear_clear]

theorem AtRest.of_moved (hs : AtRest p s) (h : Slot.Moved (s.slot p) (t.slot p))
    (hpage : t.pages.page = s.pages.page) : AtRest p t where
  page := by
    rw [h.touching, h.holding, hpage]
    exact hs.page
  selection := by
    rw [h.touching, h.holding, h.selection]
    exact hs.selection

variable [Scalar α]

def Move.run : Move α → Op α Unit
  | call c => c.run
  | input c => onInput c.run

namespace Slot

variable {x : Slot α} {d : Rect α} {muted : Bool} {i : Input α}

theorem selection_dragTouch (h : (x.dragTouch p d i).drag.touching = false) :
    (x.dragTouch p d i).selection =
      if x.drag.touching then x.selection.clear else x.selection := by
  rw [touching_dragTouch] at h
  unfold dragTouch
  cases hd : i.touch.down <;> cases ht : x.drag.touching <;> cases hb : i.touchBarred <;>
    simp [hd, ht, hb, clear] at h ⊢

/-- A frame that ends without a drag leaves no selection that was part of one. -/
theorem selection_gridInput (ht : (x.gridInput p d muted i).drag.touching = false)
    (hh : (x.gridInput p d muted i).drag.holding = false) :
    (x.gridInput p d muted i).selection =
      if x.drag.touching || x.drag.holding then x.selection.clear else x.selection := by
  rw [gridInput, touching_holdCross, touching_drawn, ← touching_dragTouch (p := p) (d := d)] at ht
  have hsel := selection_dragTouch ht
  rw [holding_gridInput, Bool.or_eq_false_iff] at hh
  obtain ⟨hp, hr⟩ := hh
  -- Cross is up, or has nothing to draw, or else the frame would end with a drag
  have hcross : ¬((x.dragTouch p d i).dpad p muted i).drag.holding ∨ ¬i.holds .cross := by
    rw [(frame_dpad ..).2.1, holding_dragTouch]
    cases hh : x.drag.holding
    · exact .inl (by simp)
    · refine .inr fun hc => ?_
      simp [hh, Input.released, hc] at hr
  have hdrawn : (x.drawn p d muted i).selection = (x.dragTouch p d i).selection := by
    rw [drawn, holdOn, if_neg (by simpa [imp_iff_not_or] using hcross), (frame_dpad ..).2.2]
  rw [gridInput, holdCross, hp, holding_drawn]
  cases hh : x.drag.holding
  · simp [hdrawn, hsel]
  · have hrel : i.released muted .cross = true := by simpa [hh] using hr
    cases ht : x.drag.touching <;> simp [hrel, clear, hdrawn, hsel, ht]

end Slot

variable {r : Env α}

/-- What holds between two calls, whatever they are. -/
theorem AtRest.run (hs : AtRest p s) (m : Move α) : AtRest p (m.run.quiet r s).state := by
  have hpasses {t : State α} (h : Passes p s t) : AtRest p t := by
    rcases h with h | ⟨h, hpage⟩
    · exact .of_dropped h
    · exact hs.of_moved h hpage
  cases m with
  | input c => exact hpasses (.inr ⟨refl _, rfl⟩)
  | call c =>
    by_cases hc : c = .respond
    · subst hc
      by_cases hw : ¬r.hides ∧ s.pages.page = .grid p ∧ ¬s.input.pressed r.muted .circle
      -- the grid gets to see the frame
      · obtain ⟨hh, hpage, hcircle⟩ := hw
        rw [Move.run, Call.run, quiet_respond_grid hh hpage, if_neg hcircle, quiet_gridInput_state]
        constructor
        · exact fun _ => hpage
        · rw [slot_setInput, slot_setSlot]
          intro ht hh
          rw [Slot.selection_gridInput ht hh]
          cases hdrag : (s.slot p).drag.touching || (s.slot p).drag.holding
          · rw [Bool.or_eq_false_iff] at hdrag
            exact hs.selection hdrag.1 hdrag.2
          · simp
      · rcases respond_dropped_or_moved hw with h | ⟨h, hpage, -⟩
        · exact hpasses (.inl h)
        · exact hpasses (.inr ⟨h, hpage⟩)
    · exact hpasses (passes_run hc)

theorem atRest_reached (hs : AtRest p s) (h : List (Env α × Move α)) :
    AtRest p (reached Move.run s h) := by
  induction h using List.reverseRecOn with
  | nil => exact hs
  | append_singleton h y ih =>
    rw [reached_concat]
    exact ih.run y.2

theorem atRest_initial (i : Input α) : AtRest p (State.initial.setInput i) where
  page := by
    cases p <;> simp [State.slot, State.setInput, State.initial, Pages.initial, PerPanel.get]
  selection _ _ := by cases p <;> rfl

end Rest

section Grids

open Binary64

/-- The cursor is on the grid, and the selection is one of its cells. -/
structure Slot.OnGrid (p : Panel) (x : Slot Float) : Prop where
  cursor : p.IsCell x.drag.cursor
  cells : x.selection.cells = p.cells

def State.OnGrid (s : State Float) : Prop := ∀ p, (s.slot p).OnGrid p

/-- The note is not about a cell that does not exist. -/
def Note.InRange : Note Float → Prop
  | .outOfRange _ _ => False
  | _ => True

/-- Started with the cursors on their grids, the action leaves them there and names no cell that
does not exist. -/
abbrev StaysOnGrid {β : Type} (x : Op Float β) : Prop := Upholds State.OnGrid Note.InRange x

variable {p : Panel} {s : State Float}

theorem State.OnGrid.setSlot (hs : s.OnGrid) {x : Slot Float} (hx : x.OnGrid p) :
    (s.setSlot p x).OnGrid := by
  intro q
  by_cases hq : q = p
  · subst hq
    rw [slot_setSlot]
    exact hx
  · rw [slot_setSlot_of_ne _ _ hq]
    exact hs q

theorem stays_onInput (f : Input Float → Input Float) : StaysOnGrid (onInput f) :=
  .modify fun _ hs => hs

theorem stays_onPages {f : Pages Float → Pages Float} (hf : ∀ m, (f m).drags = m.drags) :
    StaysOnGrid (onPages f) := by
  refine .modify fun s hs p => ?_
  rw [State.slot, hf]
  exact hs p

theorem stays_onDrag {f : Drag Float → Drag Float}
    (hf : ∀ d, p.IsCell d.cursor → p.IsCell (f d).cursor) : StaysOnGrid (onDrag p f) := by
  refine .of_silent (fun r s hs => ?_) fun r s => by rw [quiet_onDrag]
  rw [quiet_onDrag]
  exact hs.setSlot ⟨hf _ (hs p).cursor, (hs p).cells⟩

theorem stays_clear : StaysOnGrid (clear p : Op Float Unit) := by
  refine .of_silent (fun r s hs => ?_) fun r s => by rw [quiet_clear]
  rw [quiet_clear]
  exact hs.setSlot ⟨(hs p).cursor, (Selection.cells_clear _).trans (hs p).cells⟩

theorem index?_cell (p : Panel) : ∀ c < p.cells,
    Scalar.index? (Float.ofNat c) p.cells = some c := by
  cases p <;> decide +kernel

/-- A cell of the grid is one that its selection knows. -/
theorem stays_onSelection {f : Nat → Selection → Selection}
    (hf : ∀ c g, (f c g).cells = g.cells) {cell : Float} (hcell : p.IsCell cell) :
    StaysOnGrid (onSelection p (Selection.withCell f cell)) := by
  obtain ⟨c, hc, rfl⟩ := hcell
  have hquiet {s : State Float} (hs : s.OnGrid) :
      (Selection.withCell f (Float.ofNat c)).quiet () (s.slot p).selection =
        ⟨f c (s.slot p).selection, [], ()⟩ := by
    have hindex := index?_cell p c hc
    rw [← (hs p).cells] at hindex
    simp [Selection.withCell, hindex]
  intro r s hs
  rw [quiet_onSelection, hquiet hs]
  exact ⟨hs.setSlot ⟨(hs p).cursor, (hf _ _).trans (hs p).cells⟩, by simp⟩

theorem stays_handOver : StaysOnGrid (handOver p : Op Float Unit) := by
  have hn (cells : List Nat) : Note.InRange (.selected p cells) := trivial
  unfold handOver
  with_reducible repeat' first
    | apply stays_clear | apply Upholds.ite | apply Upholds.get | apply Upholds.say
    | apply Upholds.announce | apply Upholds.pure | apply Upholds.bind | apply hn | intro _

theorem stays_startAfresh : StaysOnGrid (startAfresh : Op Float Unit) := by
  have hd {q : Panel} : StaysOnGrid
      (onDrag q fun d : Drag Float => { d with touching := false, holding := false }) :=
    stays_onDrag fun _ h => h
  have hp : StaysOnGrid (onPages fun m : Pages Float => { m with touched := false }) :=
    stays_onPages fun _ => rfl
  unfold startAfresh
  with_reducible repeat' first
    | apply stays_clear | apply hd | apply hp | apply Upholds.bind | intro _

theorem stays_turnTo (new : Page) : StaysOnGrid (turnTo new : Op Float Unit) := by
  have hd {q : Panel} {z : Float} (hz : z = Float.ofNat 0) :
      StaysOnGrid (onDrag q fun d => { d with cursor := z }) :=
    stays_onDrag fun _ _ => ⟨0, by cases q <;> decide, hz⟩
  have hp : StaysOnGrid (onPages fun m : Pages Float => { m with page := new }) :=
    stays_onPages fun _ => rfl
  have hn (old : Page) : Note.InRange (.turned old new) := trivial
  unfold turnTo
  with_reducible repeat' first
    | apply stays_startAfresh | apply hp | apply Upholds.ite | apply Upholds.get
    | apply Upholds.say | apply Upholds.announce | apply Upholds.pure | apply Upholds.bind
    | apply hn | intro _ | split
  all_goals exact hd rfl

theorem stays_step {rows cols : Float} (hrows : (Scalar.integer? rows).isSome)
    (hcols : (Scalar.integer? cols).isSome) : StaysOnGrid (step p rows cols) := by
  refine stays_onDrag fun d hd => ?_
  exact hd.neighbor (isWhole_of_isSome_integer? hrows) (isWhole_of_isSome_integer? hcols)

theorem stays_summaryTouch (d : Rect Float) : StaysOnGrid (summaryTouch d) := by
  have hp (b : Bool) : StaysOnGrid (onPages fun m : Pages Float => { m with touched := b }) :=
    stays_onPages fun _ => rfl
  unfold summaryTouch
  with_reducible repeat' first
    | apply stays_turnTo | apply stays_onInput | apply hp | apply Upholds.ite
    | apply Upholds.get | apply Upholds.pure | apply Upholds.bind | intro _

/-- What looks up the cursor may rely on it. -/
theorem stays_drag_bind {f : Drag Float → Op Float Unit}
    (hf : ∀ d, p.IsCell d.cursor → StaysOnGrid (f d)) : StaysOnGrid (drag p >>= f) :=
  (Upholds.get.bind fun _ => .pure _).bind_of (fun _ _ hs => (hs p).cursor) hf

theorem stays_pressed (b : Button) : StaysOnGrid (pressed b : Op Float Bool) :=
  Upholds.get.bind fun _ => Upholds.read.bind fun _ => .pure _

theorem stays_released (b : Button) : StaysOnGrid (released b : Op Float Bool) :=
  Upholds.get.bind fun _ => Upholds.read.bind fun _ => .pure _

theorem stays_dragTouch (d : Rect Float) : StaysOnGrid (dragTouch p d) := by
  have ht (b : Bool) : StaysOnGrid (onDrag p fun d : Drag Float => { d with touching := b }) :=
    stays_onDrag fun _ h => h
  have hreach {t : Point Float} {cell : Float} (h : p.layout.cellAt? d t = some cell)
      (hpos : 0 ≤ cell) : StaysOnGrid (onSelection p (Selection.reach cell)) :=
    stays_onSelection Selection.cells_reached (isCell_of_cellAt? h hpos)
  have hcursor {t : Point Float} {cell : Float} (h : p.layout.cellAt? d t = some cell)
      (hpos : 0 ≤ cell) : StaysOnGrid (onDrag p fun d => { d with cursor := cell }) :=
    stays_onDrag fun _ _ => isCell_of_cellAt? h hpos
  unfold dragTouch
  with_reducible repeat' first
    | apply stays_clear | apply stays_handOver | apply stays_onInput | apply stays_drag_bind
    | apply ht | apply Upholds.ite | apply Upholds.get | apply Upholds.pure | apply Upholds.bind
    | intro _ | split
  -- what is left are the writes of a cell that the finger is on
  all_goals with_reducible first | apply hreach | apply hcursor
  all_goals assumption

theorem stays_dpad : StaysOnGrid (dpad p : Op Float Unit) := by
  unfold dpad
  with_reducible repeat' first
    | apply stays_pressed | apply Upholds.ite | apply Upholds.pure | apply Upholds.bind | intro _
  all_goals refine stays_step ?_ ?_ <;> decide +kernel

theorem stays_holdCross : StaysOnGrid (holdCross p : Op Float Unit) := by
  have hh (b : Bool) : StaysOnGrid (onDrag p fun d : Drag Float => { d with holding := b }) :=
    stays_onDrag fun _ h => h
  unfold holdCross
  with_reducible repeat' first
    | apply stays_clear | apply stays_handOver | apply stays_pressed | apply stays_released
    | apply hh | apply stays_drag_bind | apply Upholds.ite | apply Upholds.pure
    | apply Upholds.bind | intro _
  all_goals exact stays_onSelection Selection.cells_reached ‹_›

theorem stays_gridInput (d : Rect Float) : StaysOnGrid (gridInput p d) := by
  unfold gridInput
  with_reducible repeat' first
    | apply stays_dragTouch | apply stays_dpad | apply stays_holdCross | apply stays_pressed
    | apply stays_drag_bind | apply Upholds.ite | apply Upholds.get | apply Upholds.announce
    | apply Upholds.pure | apply Upholds.bind | intro _
  all_goals exact stays_onSelection Selection.cells_inserted ‹_›

theorem stays_respond : StaysOnGrid (respond : Op Float Unit) := by
  unfold respond
  with_reducible repeat' first
    | apply stays_summaryTouch | apply stays_pressed | apply stays_turnTo
    | apply stays_gridInput | apply Upholds.ite | apply Upholds.get | apply Upholds.read
    | apply Upholds.pure | apply Upholds.bind | intro _ | split

/-- The steps that a call asks for are whole numbers of rows and columns. -/
def Move.IsWhole : Move Float → Prop
  | .call (.step _ rows cols) => (Scalar.integer? rows).isSome ∧ (Scalar.integer? cols).isSome
  | _ => True

theorem stays_run {m : Move Float} (hm : m.IsWhole) : StaysOnGrid m.run := by
  cases m with
  | input c => exact stays_onInput c.run
  | call c =>
    cases c with
    | turnTo page => exact stays_turnTo page
    | preselect q => exact stays_onPages fun _ => rfl
    | startAfresh => exact stays_startAfresh
    | step q rows cols => exact stays_step hm.1 hm.2
    | respond => exact stays_respond

theorem onGrid_initial (i : Input Float) : (State.initial.setInput i).OnGrid := by
  intro p
  cases p <;> exact ⟨⟨0, by decide, rfl⟩, rfl⟩

/-- A state that the screen gets to from its start, by calls and by changes of the input. -/
def Arises (s : State Float) : Prop :=
  ∃ i h, (∀ y ∈ h, Move.IsWhole y.2) ∧ s = reached Move.run (State.initial.setInput i) h

theorem Arises.onGrid (hs : Arises s) : s.OnGrid := by
  obtain ⟨i, h, hwhole, rfl⟩ := hs
  induction h using List.reverseRecOn with
  | nil => exact onGrid_initial i
  | append_singleton h y ih =>
    rw [reached_concat]
    exact (stays_run (hwhole y (by simp)) y.1 _ (ih fun z hz => hwhole z (by simp [hz]))).1

theorem Arises.atRest (hs : Arises s) : AtRest p s := by
  obtain ⟨i, h, -, rfl⟩ := hs
  exact atRest_reached (atRest_initial i) h

theorem Arises.selection_eq_empty (hs : Arises s) (ht : (s.slot p).drag.touching = false)
    (hh : (s.slot p).drag.holding = false) : (s.slot p).selection = .empty p.cells := by
  rw [hs.atRest.selection ht hh, Selection.clear, (hs.onGrid p).cells]

/-- A grid that is not shown has no selection and no drag, and the one that is shown has a selection
only while a finger or Cross drags over it. The cursors are cells of their grids, and no frame names
a cell that does not exist, whatever the finger, the buttons and the sidebar are. -/
theorem selected_under_drag (hs : Arises s) :
    (∀ p,
      (s.pages.page ≠ .grid p → (s.slot p).selection = .empty p.cells ∧
        (s.slot p).drag.touching = false ∧ (s.slot p).drag.holding = false) ∧
      ((s.slot p).selection ≠ .empty p.cells →
        (s.slot p).drag.touching = true ∨ (s.slot p).drag.holding = true) ∧
      p.IsCell (s.slot p).drag.cursor) ∧
    ∀ (r : Env Float) (p : Panel) (o : Selection.OutOfRange Float),
      .inr (.outOfRange p o) ∉ (respond.quiet r s).out := by
  refine ⟨fun p => ⟨fun hpage => ?_, fun hsel => ?_, (hs.onGrid p).cursor⟩, fun r p o ho => ?_⟩
  · have hdrag := mt hs.atRest.page hpage
    rw [not_or, Bool.not_eq_true, Bool.not_eq_true] at hdrag
    exact ⟨hs.selection_eq_empty hdrag.1 hdrag.2, hdrag⟩
  · by_contra hdrag
    rw [not_or, Bool.not_eq_true, Bool.not_eq_true] at hdrag
    exact hsel (hs.selection_eq_empty hdrag.1 hdrag.2)
  · exact (stays_respond r s hs.onGrid).2 _ ho

/-- A screen that nothing hides, beside a sidebar whose width is no number. -/
def unmeasured : Env Float := ⟨false, false, false, packed .notANumber⟩

/-- Cross goes down on the last cell, which a long way round leads to, and then Right beside it. -/
def heldRight : List (Env Float × Move Float) :=
  [(unmeasured, .call (.turnTo (.grid .rear))),
    (unmeasured, .call (.step .rear (Scalar.ofInt (-1)) (Scalar.ofInt (-(2 ^ 52 + 1))))),
    (unmeasured, .input (.take ⟨[.cross], [], .none⟩)),
    (unmeasured, .call .respond),
    (unmeasured, .input (.take ⟨[.cross, .right], [.cross], .none⟩)),
    (unmeasured, .call .respond)]

def rounded : State Float := reached Move.run (State.initial.setInput .initial) heldRight

theorem arises_rounded : Arises rounded := by
  have hstep : (Scalar.integer? (Scalar.ofInt (-1) : Float)).isSome ∧
      (Scalar.integer? (Scalar.ofInt (-(2 ^ 52 + 1)) : Float)).isSome := by decide +kernel
  refine ⟨.initial, heldRight, ?_, rfl⟩
  simp only [heldRight, List.forall_mem_cons]
  exact ⟨trivial, hstep, trivial, trivial, trivial, trivial, by simp⟩

/-- The selection goes round with the cursor, under Cross. -/
theorem selected_under_drag_rounded : Arises rounded ∧
    (rounded.slot .rear).selection.toList = [8, 11] ∧
    (rounded.slot .rear).drag.cursor = Scalar.ofNat 8 ∧
    (rounded.slot .rear).drag.touching = false ∧ (rounded.slot .rear).drag.holding = true ∧
    (rounded.slot .front).selection = .empty 18 ∧
    ∀ (r : Env Float) (p : Panel) (o : Selection.OutOfRange Float),
      .inr (.outOfRange p o) ∉ (respond.quiet r rounded).out := by
  have key := selected_under_drag arises_rounded
  have htouch : (rounded.slot .rear).drag.touching = false := by decide +kernel
  refine ⟨arises_rounded, by decide +kernel, by decide +kernel, htouch, ?_, ?_, key.2⟩
  · have hdrag := (key.1 .rear).2.1 (by decide +kernel)
    rw [htouch] at hdrag
    exact hdrag.resolve_left (by simp)
  · exact ((key.1 .front).1 (by decide +kernel)).1

end Grids

end HandheldUI.Controller
