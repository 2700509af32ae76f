import HandheldUI.Controller.Page
import HandheldUI.Proofs.Action.Quiet

/-! One panel of the controller screen as a value of its own: what a frame on its grid makes of the
panel is a function of that panel, of the input and of what is muted. -/

namespace HandheldUI

open HandheldUI.Action

namespace Input

variable {α : Type} (muted : Bool) (b : Button) (i : Input α)

theorem holds_of_pressed {muted : Bool} {b : Button} {i : Input α} (h : i.pressed muted b) :
    i.holds b := by
  simp only [pressed, Bool.and_eq_true] at h
  exact h.1.2

theorem released_of_holds {muted : Bool} {b : Button} {i : Input α} (h : i.holds b) :
    i.released muted b = false := by
  simp [released, h]

@[simp] theorem pressed_freeTouch : i.freeTouch.pressed muted b = i.pressed muted b := by
  unfold freeTouch
  split <;> rfl

@[simp] theorem released_freeTouch : i.freeTouch.released muted b = i.released muted b := by
  unfold freeTouch
  split <;> rfl

@[simp] theorem holds_freeTouch : i.freeTouch.holds b = i.holds b := by
  unfold freeTouch
  split <;> rfl

end Input

namespace Controller

namespace PerPanel

variable {β : Type}

@[simp] theorem get_update_self (p : Panel) (f : β → β) (b : PerPanel β) :
    (b.update p f).get p = f (b.get p) := by cases p <;> rfl

theorem get_update_of_ne {p q : Panel} (h : q ≠ p) (f : β → β) (b : PerPanel β) :
    (b.update p f).get q = b.get q := by
  cases p <;> cases q <;> first | rfl | exact absurd rfl h

@[simp] theorem update_update (p : Panel) (f g : β → β) (b : PerPanel β) :
    (b.update p f).update p g = b.update p fun x => g (f x) := by cases p <;> rfl

end PerPanel

/-- What belongs to one panel. -/
structure Slot (α : Type) where
  drag : Drag α
  selection : Selection

def State.slot {α : Type} (p : Panel) (s : State α) : Slot α :=
  ⟨s.pages.drags.get p, s.selections.get p⟩

def State.setSlot {α : Type} (p : Panel) (x : Slot α) (s : State α) : State α :=
  { s with
    pages.drags := s.pages.drags.update p fun _ => x.drag
    selections := s.selections.update p fun _ => x.selection }

def State.setInput {α : Type} (i : Input α) (s : State α) : State α := { s with input := i }

section Laws

variable {α : Type} {p q : Panel} (x y : Slot α) (i : Input α) (s : State α)

@[simp] theorem slot_setSlot : (s.setSlot p x).slot p = x := by simp [State.slot, State.setSlot]

@[simp] theorem setSlot_setSlot : (s.setSlot p x).setSlot p y = s.setSlot p y := by
  simp [State.setSlot]

@[simp] theorem setSlot_slot : s.setSlot p (s.slot p) = s := by
  obtain ⟨⟨page, opens, touched, ⟨_, _⟩⟩, ⟨_, _⟩, input⟩ := s
  cases p <;> rfl

theorem slot_setSlot_of_ne (h : q ≠ p) : (s.setSlot p x).slot q = s.slot q := by
  simp [State.slot, State.setSlot, PerPanel.get_update_of_ne h]

@[simp] theorem input_setSlot : (s.setSlot p x).input = s.input := rfl

@[simp] theorem page_setSlot : (s.setSlot p x).pages.page = s.pages.page := rfl

@[simp] theorem slot_setInput : (s.setInput i).slot p = s.slot p := rfl

@[simp] theorem input_setInput : (s.setInput i).input = i := rfl

@[simp] theorem page_setInput : (s.setInput i).pages.page = s.pages.page := rfl

@[simp] theorem setSlot_setInput : (s.setInput i).setSlot p x = (s.setSlot p x).setInput i := rfl

end Laws

variable {α : Type}

/-- What handing over a selection announces. -/
def handed (p : Panel) (g : Selection) : List Event :=
  if g.toList = [] then [] else [.mapping p g.toList false]

namespace Slot

def clear (x : Slot α) : Slot α := { x with selection := x.selection.clear }

variable [Scalar α]

def reach (cell : α) (x : Slot α) : Slot α :=
  { x with selection := ((Selection.reach cell).quiet () x.selection).state }

def insert (cell : α) (x : Slot α) : Slot α :=
  { x with selection := ((Selection.insert cell).quiet () x.selection).state }

/-- The finger is at a point. -/
def finger (p : Panel) (d : Rect α) (t : Point α) (x : Slot α) : Slot α :=
  match p.layout.cellAt? d t with
  | some cell => if 0 ≤ cell then { x.reach cell with drag.cursor := cell } else x
  | none => x

def dragTouch (p : Panel) (d : Rect α) (i : Input α) (x : Slot α) : Slot α :=
  if i.touch.down then
    if i.touchBarred then x
    else finger p d i.touch.point
      (if x.drag.touching then x else { x.clear with drag.touching := true })
  else if x.drag.touching then { x.clear with drag.touching := false }
  else x

def step (p : Panel) (rows cols : α) (x : Slot α) : Slot α :=
  { x with drag.cursor := p.layout.neighbor x.drag.cursor rows cols }

def dpad (p : Panel) (muted : Bool) (i : Input α) (x : Slot α) : Slot α :=
  if i.pressed muted .right then x.step p 0 1
  else if i.pressed muted .left then x.step p 0 (-1)
  else if i.pressed muted .down then x.step p 1 0
  else if i.pressed muted .up then x.step p (-1) 0
  else x

def holdOn (i : Input α) (x : Slot α) : Slot α :=
  if x.drag.holding && i.holds .cross then x.insert x.drag.cursor else x

def holdCross (muted : Bool) (i : Input α) (x : Slot α) : Slot α :=
  if i.pressed muted .cross then { x.clear.reach x.drag.cursor with drag.holding := true }
  else if x.drag.holding && i.released muted .cross then { x.clear with drag.holding := false }
  else x

@[simp] theorem dpad_freeTouch (p : Panel) (muted : Bool) (i : Input α) (x : Slot α) :
    x.dpad p muted i.freeTouch = x.dpad p muted i := by simp [dpad]

@[simp] theorem holdCross_freeTouch (muted : Bool) (i : Input α) (x : Slot α) :
    x.holdCross muted i.freeTouch = x.holdCross muted i := by simp [holdCross]

/-- The panel when Cross is about to be looked at. -/
def drawn (p : Panel) (d : Rect α) (muted : Bool) (i : Input α) (x : Slot α) : Slot α :=
  ((x.dragTouch p d i).dpad p muted i).holdOn i

/-- What a frame on the grid of the panel makes of it. -/
def gridInput (p : Panel) (d : Rect α) (muted : Bool) (i : Input α) (x : Slot α) : Slot α :=
  (x.drawn p d muted i).holdCross muted i

end Slot

section Quiet

variable {r : Env α} {s : State α} {p : Panel}

@[simp] theorem quiet_pressed (b : Button) :
    (pressed b).quiet r s = ⟨s, [], s.input.pressed r.muted b⟩ := rfl

@[simp] theorem quiet_released (b : Button) :
    (released b).quiet r s = ⟨s, [], s.input.released r.muted b⟩ := rfl

@[simp] theorem quiet_onInput (f : Input α → Input α) :
    (onInput f).quiet r s = ⟨s.setInput (f s.input), [], ()⟩ := rfl

@[simp] theorem quiet_onDrag (f : Drag α → Drag α) :
    (onDrag p f).quiet r s = ⟨s.setSlot p { s.slot p with drag := f (s.slot p).drag }, [], ()⟩ := by
  obtain ⟨⟨page, opens, touched, ⟨_, _⟩⟩, ⟨_, _⟩, input⟩ := s
  cases p <;> rfl

@[simp] theorem quiet_clear : (clear p).quiet r s = ⟨s.setSlot p (s.slot p).clear, [], ()⟩ := by
  obtain ⟨⟨page, opens, touched, ⟨_, _⟩⟩, ⟨_, _⟩, input⟩ := s
  cases p <;> rfl

@[simp] theorem quiet_drag : (drag p).quiet r s = ⟨s, [], (s.slot p).drag⟩ := rfl

theorem quiet_onSelection {β : Type} (x : Selection.Op α β) :
    (onSelection p x).quiet r s =
      let y := x.quiet () (s.slot p).selection
      ⟨s.setSlot p { s.slot p with selection := y.state },
        y.out.map (Sum.map Empty.elim (.outOfRange p)), y.value⟩ := by
  rw [onSelection, quiet_within]
  obtain ⟨⟨page, opens, touched, ⟨_, _⟩⟩, ⟨_, _⟩, input⟩ := s
  cases p <;> rfl

@[simp] theorem events_onSelection {β : Type} (x : Selection.Op α β) :
    ((onSelection p x).quiet r s).events = [] := by
  rw [quiet_onSelection, Outcome.events_mk, List.filterMap_eq_nil_iff]
  intro e he
  obtain ⟨e, -, rfl⟩ := List.mem_map.1 he
  rcases e with e | e
  · exact e.elim
  · rfl

@[simp] theorem quiet_handOver_state :
    ((handOver p).quiet r s).state = s.setSlot p (s.slot p).clear := by
  unfold handOver
  by_cases h : (s.selections.get p).toList = [] <;> simp [h]

@[simp] theorem quiet_handOver_events :
    ((handOver p).quiet r s).events = handed p (s.slot p).selection := by
  unfold handOver handed
  by_cases h : (s.selections.get p).toList = []
  · simp [h, State.slot]
  · simp [h, State.slot]

end Quiet

variable [Scalar α] {r : Env α} {s : State α} {p : Panel}

@[simp] theorem quiet_reach (cell : α) :
    ((onSelection p (Selection.reach cell)).quiet r s).state =
      s.setSlot p ((s.slot p).reach cell) := by
  rw [quiet_onSelection]
  rfl

@[simp] theorem quiet_insert (cell : α) :
    ((onSelection p (Selection.insert cell)).quiet r s).state =
      s.setSlot p ((s.slot p).insert cell) := by
  rw [quiet_onSelection]
  rfl

theorem quiet_dragTouch_state (d : Rect α) : ((dragTouch p d).quiet r s).state =
    (s.setSlot p ((s.slot p).dragTouch p d s.input)).setInput s.input.freeTouch := by
  unfold dragTouch Slot.dragTouch
  cases hd : s.input.touch.down
  -- a bar on a finger that is up does not keep the grid from the touch
  · cases ht : (s.slot p).drag.touching <;> simp [hd, ht, Input.touchDone, Slot.clear]
  · cases hb : s.input.touchBarred
    · cases hc : p.layout.cellAt? d s.input.touch.point with
      | none =>
        cases ht : (s.slot p).drag.touching <;> simp [hd, hb, ht, hc, Slot.clear, Slot.finger]
      | some cell =>
        cases ht : (s.slot p).drag.touching <;> by_cases h₀ : 0 ≤ cell <;>
          simp [hd, hb, ht, hc, h₀, Slot.clear, Slot.finger, Slot.reach]
    · simp [hd, Input.touchDone, hb, Input.freeTouch]
      rfl

theorem quiet_dragTouch_events (d : Rect α) : ((dragTouch p d).quiet r s).events =
    if !s.input.touch.down && (s.slot p).drag.touching then handed p (s.slot p).selection
    else [] := by
  unfold dragTouch
  cases hd : s.input.touch.down
  · cases ht : (s.slot p).drag.touching <;> simp [hd, ht, Input.touchDone]
  · cases hb : s.input.touchBarred
    · cases hc : p.layout.cellAt? d s.input.touch.point with
      | none =>
        cases ht : (s.slot p).drag.touching <;> simp [hd, hb, ht, hc]
      | some cell =>
        cases ht : (s.slot p).drag.touching <;> by_cases h₀ : 0 ≤ cell <;>
          simp [hd, hb, ht, hc, h₀]
    · simp [hd, Input.touchDone, hb]

@[simp] theorem quiet_step (rows cols : α) :
    (step p rows cols).quiet r s = ⟨s.setSlot p ((s.slot p).step p rows cols), [], ()⟩ :=
  quiet_onDrag _

theorem quiet_dpad :
    (dpad p).quiet r s = ⟨s.setSlot p ((s.slot p).dpad p r.muted s.input), [], ()⟩ := by
  unfold dpad Slot.dpad
  cases hr : s.input.pressed r.muted .right <;> cases hl : s.input.pressed r.muted .left <;>
    cases hd : s.input.pressed r.muted .down <;> cases hu : s.input.pressed r.muted .up <;>
    simp [hr, hl, hd, hu]

theorem quiet_holdCross_state :
    ((holdCross p).quiet r s).state = s.setSlot p ((s.slot p).holdCross r.muted s.input) := by
  unfold holdCross Slot.holdCross
  cases hp : s.input.pressed r.muted .cross
  · cases hh : (s.slot p).drag.holding <;> cases hr : s.input.released r.muted .cross <;>
      simp [hp, hh, hr, Slot.clear]
  · simp [hp, Slot.clear, Slot.reach]

theorem quiet_holdCross_events : ((holdCross p).quiet r s).events =
    if !s.input.pressed r.muted .cross &&
        ((s.slot p).drag.holding && s.input.released r.muted .cross)
    then handed p (s.slot p).selection else [] := by
  unfold holdCross
  cases hp : s.input.pressed r.muted .cross
  · cases hh : (s.slot p).drag.holding <;> cases hr : s.input.released r.muted .cross <;>
      simp [hp, hh, hr]
  · simp [hp]

theorem quiet_gridInput_state (d : Rect α) : ((gridInput p d).quiet r s).state =
    (s.setSlot p ((s.slot p).gridInput p d r.muted s.input)).setInput s.input.freeTouch := by
  unfold gridInput Slot.gridInput Slot.drawn Slot.holdOn
  cases hh : (((s.slot p).dragTouch p d s.input).dpad p r.muted s.input).drag.holding <;>
    cases hc : s.input.holds .cross <;> cases ht : s.input.pressed r.muted .triangle <;>
    cases hs : s.input.pressed r.muted .square <;>
    simp [quiet_dragTouch_state, quiet_dpad, quiet_holdCross_state, hh, hc, ht, hs]

theorem quiet_gridInput_events (d : Rect α) : ((gridInput p d).quiet r s).events =
    (if !s.input.touch.down && (s.slot p).drag.touching then handed p (s.slot p).selection
      else []) ++
    (if s.input.pressed r.muted .triangle then [.mapping p [] true] else []) ++
    (if s.input.pressed r.muted .square then [.unmapping p] else []) ++
    (if !s.input.pressed r.muted .cross &&
        (((s.slot p).drawn p d r.muted s.input).drag.holding && s.input.released r.muted .cross)
      then handed p ((s.slot p).drawn p d r.muted s.input).selection else []) := by
  unfold gridInput Slot.drawn Slot.holdOn
  cases hh : (((s.slot p).dragTouch p d s.input).dpad p r.muted s.input).drag.holding <;>
    cases hc : s.input.holds .cross <;> cases ht : s.input.pressed r.muted .triangle <;>
    cases hs : s.input.pressed r.muted .square <;>
    simp [quiet_dragTouch_state, quiet_dragTouch_events, quiet_dpad, quiet_holdCross_events, hh, hc,
      ht, hs]

end Controller

end HandheldUI
