import HandheldUI.Proofs.Controller.OneGesture

/-! Frames of the controller screen, one after the other, while its grid gets to see them: what they
leave of a panel, and which selections they hand over. -/

namespace HandheldUI.Controller

open HandheldUI.Action

instance : DecidablePred Event.IsHandOver
  | .turned _ _ => isFalse id
  | .mapping _ _ true => isFalse id
  | .mapping _ _ false => isTrue trivial
  | .unmapping _ => isFalse id

/-- The selections that are handed over, among all that is announced. -/
def handOvers (events : List Event) : List Event := events.filter (·.IsHandOver)

theorem handOvers_append (xs ys : List Event) :
    handOvers (xs ++ ys) = handOvers xs ++ handOvers ys :=
  List.filter_append xs ys

theorem handOvers_handed (p : Panel) (g : Selection) : handOvers (handed p g) = handed p g := by
  unfold handed
  split <;> rfl

variable {α : Type} [Scalar α]

/-- The screen takes in the controls of a frame and responds to them. -/
def frame (c : Controls α) : Op α Unit := (Turn.frame c).run

variable {p : Panel} {r : Env α} {c : Controls α} {s : State α} {h : List (Env α × Controls α)}

theorem handOvers_concat (y : Env α × Controls α) :
    handOvers (quietRun frame (h ++ [y]) s).events =
      handOvers (quietRun frame h s).events ++
        handOvers ((frame y.2).quiet y.1 (reached frame s h)).events := by
  rw [events_quietRun_concat, handOvers_append]

section Watched

variable (hw : Watches p r c s)
include hw

theorem slot_frame : ((frame c).quiet r s).state.slot p =
    (s.slot p).gridInput p (diagram r.sidebarWidth) r.muted (s.input.take c) := by
  rw [frame, quiet_frame_of_watches hw, slot_setInput, slot_setSlot]

theorem touching_frame : (((frame c).quiet r s).state.slot p).drag.touching =
    (c.touch.down && ((s.slot p).drag.touching || !s.input.touchBarred)) := by
  rw [slot_frame hw, Slot.touching_gridInput]
  rfl

theorem holding_frame : (((frame c).quiet r s).state.slot p).drag.holding =
    ((s.input.take c).pressed r.muted .cross ||
      (s.slot p).drag.holding && !(s.input.take c).released r.muted .cross) := by
  rw [slot_frame hw, Slot.holding_gridInput]

theorem input_frame : ((frame c).quiet r s).state.input = (s.input.take c).freeTouch := by
  rw [frame, quiet_frame_of_watches hw, input_setInput]

/-- A finger hands over what was selected before the frame, Cross what is selected when it is looked
at. -/
theorem handOvers_frame : handOvers ((frame c).quiet r s).events =
    (if !c.touch.down && (s.slot p).drag.touching then handed p (s.slot p).selection else []) ++
    (if !(s.input.take c).pressed r.muted .cross &&
        ((s.slot p).drag.holding && (s.input.take c).released r.muted .cross)
      then handed p ((s.slot p).drawn p (diagram r.sidebarWidth) r.muted (s.input.take c)).selection
      else []) := by
  obtain ⟨hh, hp, hc⟩ := hw
  have hand (b : Bool) (g : Selection) :
      handOvers (if b then handed p g else []) = if b then handed p g else [] := by
    cases b
    · rfl
    · exact handOvers_handed p g
  -- the other announcements of a grid hand over nothing
  have whole (b : Bool) : handOvers (if b then [.mapping p [] true] else []) = [] := by
    cases b <;> rfl
  have unmap (b : Bool) : handOvers (if b then [.unmapping p] else []) = [] := by
    cases b <;> rfl
  rw [frame, events_frame, quiet_respond_grid hh (s := s.setInput (s.input.take c)) hp,
    input_setInput, if_neg hc, quiet_gridInput_events, Slot.holding_drawn, handOvers_append,
    handOvers_append, handOvers_append, hand, hand, whole, unmap, List.append_nil, List.append_nil]
  rfl

end Watched

end HandheldUI.Controller
