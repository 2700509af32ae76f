import Mathlib.Tactic.ByContra
import Mathlib.Tactic.Tauto
import HandheldUI.Proofs.Action.History
import HandheldUI.Proofs.Controller.Turns
import HandheldUI.Proofs.Interface.Covered

/-! Overlays that swallow the input. They take the edges from the buttons, and their cover keeps the
screen's handlers from the frame. One that is shown without a cover leaves to the screen what does
not need an edge: the finger, and a Cross that is held in a drag. -/

namespace HandheldUI

open HandheldUI.Action

variable {α : Type}

@[simp] theorem Input.pressed_muted (b : Button) (i : Input α) : i.pressed true b = false := by
  simp [Input.pressed]

@[simp] theorem Input.released_muted (b : Button) (i : Input α) : i.released true b = false := by
  simp [Input.released]

/-- A finger is down and not barred. -/
def Input.Counts (i : Input α) : Prop := i.touch.down ∧ ¬i.touchBarred

variable [Scalar α]

namespace Sidebar

variable {r : Env α} {s : State α}

theorem state_quiet_expand_ne (hs : s.isIn) : (expand.quiet r s).state ≠ s := by
  intro he
  have hp : (expand.quiet r s).state.phase = .expanding := by simp [expand, begin, hs]
  rw [he] at hp
  simp [State.isIn, hp] at hs

theorem state_quiet_collapse_eq_iff (hs : s.isOut) :
    ((collapse true).quiet r s).state = s ↔ r.settings.pinned := by
  constructor
  · intro he
    by_contra hr
    have hp : ((collapse true).quiet r s).state.phase = .collapsing := by
      simp [collapse, begin, hs, hr]
    rw [he] at hp
    simp [State.isOut, hp] at hs
  · intro hr
    simp [collapse, hr]

end Sidebar

namespace Navigation

variable {r : Env α} {s : State α}

/-- The input may differ. -/
structure Unmoved (s t : State α) : Prop where
  focus : t.focus = s.focus
  sidebar : t.sidebar = s.sidebar
  icon : t.icon = s.icon

/-- A point on the pill; or on an icon of a sidebar that is out, or to the right of it, unless it is
pinned. -/
def State.OnSidebar (pinned : Bool) (p : Point α) (s : State α) : Prop :=
  onPill p s ∨
    s.sidebar.isOut ∧ ((iconUnder? p).isSome ∨ Scalar.ofNat Sidebar.fullWidth < p.x ∧ ¬pinned)

theorem run_cross_of_muted (hr : r.muted) (screen : Screen) :
    (cross screen).run r s = .done s false := by
  unfold cross pressed
  by_cases hs : s.focus.isCovered
  · simp [hs]
  · simp [hs, hr]

omit [Scalar α] in
theorem quiet_pressed_of_muted (hr : r.muted) (b : Button) :
    (pressed b).quiet r s = ⟨s, [], false⟩ := by
  simp [pressed, hr]

theorem quiet_dpad_of_muted (hr : r.muted) (screen : Screen) :
    (dpad screen).quiet r s = ⟨s, [], none⟩ := by
  have hp (b : Button) : (pressed b).quiet r s = ⟨s, [], false⟩ := quiet_pressed_of_muted hr b
  unfold dpad
  cases hi : s.sidebar.isIn <;> cases hf : s.focus.inSidebar <;> simp [hp, hi, hf]

omit [Scalar α] in
theorem state_quiet_onSidebar (x : Sidebar.Op α Unit) : ((onSidebar x).quiet r s).state =
    { s with sidebar := (x.quiet ⟨r.now, r.settings⟩ s.sidebar).state } := by
  rw [onSidebar, quiet_within]
  rfl

theorem unmoved_touchSidebar_iff {t : Touch α} (ht : t.down) :
    let x := (touchSidebar t).quiet r s
    x.value.getD none = none ∧ Unmoved s x.state ↔ ¬s.OnSidebar r.settings.pinned t.point := by
  intro x
  have hx : x = (touchSidebar t).quiet r s := rfl
  unfold touchSidebar at hx
  rw [State.OnSidebar]
  by_cases hp : onPill t.point s
  -- the pill is there only while the sidebar is in, and so the sidebar begins to come out
  · have hin : s.sidebar.isIn := by
      rw [onPill, Bool.and_eq_true] at hp
      exact hp.1
    have hs : x.state.sidebar = (Sidebar.expand.quiet ⟨r.now, r.settings⟩ s.sidebar).state := by
      simp [hx, ht, hp, state_quiet_onSidebar, onInput]
    refine iff_of_false ?_ (by simp [hp])
    rintro ⟨-, hu⟩
    exact Sidebar.state_quiet_expand_ne hin (hs.symm.trans hu.sidebar)
  by_cases ho : s.sidebar.isOut
  · cases hi : iconUnder? t.point with
    | some icon =>
      have hv : x.value = some (some (iconScreen icon)) := by
        simp [hx, ht, hp, ho, hi, onInput]
      simp [hv, ho]
    | none =>
      by_cases hw : Scalar.ofNat Sidebar.fullWidth < t.point.x
      -- the sidebar is told to go in, which it does unless it is pinned
      · have hv : x.value = none := by simp [hx, ht, hp, ho, hi, hw, onInput]
        have hs : x.state = { s with
            sidebar := ((Sidebar.collapse true).quiet ⟨r.now, r.settings⟩ s.sidebar).state
            input := s.input.barTouch } := by
          simp [hx, ht, hp, ho, hi, hw, state_quiet_onSidebar, onInput]
        have hu : Unmoved s x.state ↔ r.settings.pinned := by
          rw [hs, ← Sidebar.state_quiet_collapse_eq_iff (r := ⟨r.now, r.settings⟩) ho]
          exact ⟨fun hu => hu.sidebar, fun he => ⟨rfl, he, rfl⟩⟩
        simp [hv, hu, hp, ho, hw]
      · have hx' : x = ⟨s, [], none⟩ := by simp [hx, ht, hp, hi, hw]
        simpa [hx', hp, hw] using (⟨rfl, rfl, rfl⟩ : Unmoved s s)
  · have hx' : x = ⟨s, [], none⟩ := by simp [hx, ht, hp, ho]
    simpa [hx', hp, ho] using (⟨rfl, rfl, rfl⟩ : Unmoved s s)

/-- Of muted input the shortcuts look at the touch alone, unless it is barred. -/
theorem quiet_shortcuts_of_muted (hr : r.muted) (hc : ¬s.focus.isCovered) (screen : Screen)
    (free : Bool) : (shortcuts screen free).quiet r s =
      if s.input.touchBarred && s.input.touch.down then ⟨s, [], none⟩
      else
        let x := (touchSidebar s.input.touch).quiet r { s with input := s.input.freeTouch }
        ⟨x.state, x.out, x.value.getD none⟩ := by
  have hp (b : Button) (s : State α) : (pressed b).quiet r s = ⟨s, [], false⟩ :=
    quiet_pressed_of_muted hr b
  have hd (s : State α) := quiet_dpad_of_muted (s := s) hr screen
  unfold shortcuts
  -- a bar outlives the frame only while the finger is down
  by_cases hb : s.input.touchBarred && s.input.touch.down
  · have hb' := hb
    rw [Bool.and_eq_true] at hb'
    simp [hc, hp, Input.touchDone, hb'.1, hb'.2]
  · have hn : ¬(s.input.touchBarred = true ∧ s.input.touchDone = false) := by
      cases hbar : s.input.touchBarred <;> simp [hbar, Input.touchDone] at hb ⊢
      exact hb
    rw [if_neg hb]
    cases hv : ((touchSidebar s.input.touch).quiet r
        { s with input := s.input.freeTouch }).value with
    | some answer => simp [hc, hp, hn, hv, onInput, Outcome.after]
    | none => cases free <;> simp [hc, hp, hd, hn, hv, onInput, Outcome.after]

theorem unmoved_shortcuts_iff (hr : r.muted) (hc : ¬s.focus.isCovered) (screen : Screen)
    (free : Bool) :
    let x := (shortcuts screen free).quiet r s
    x.value = none ∧ Unmoved s x.state ↔
      ¬(s.input.Counts ∧ s.OnSidebar r.settings.pinned s.input.touch.point) := by
  intro x
  have hx : x = _ := quiet_shortcuts_of_muted hr hc screen free
  rw [Input.Counts]
  by_cases hd : s.input.touch.down
  · by_cases hb : s.input.touchBarred
    · rw [if_pos (by simp [hb, hd])] at hx
      simpa [hx, hb] using (⟨rfl, rfl, rfl⟩ : Unmoved s s)
    · have hf : s.input.freeTouch = s.input := by simp [Input.freeTouch, Input.touchDone, hb]
      rw [if_neg (by simp [hb]), hf] at hx
      simp only [hx, hd, hb]
      simpa using unmoved_touchSidebar_iff hd
  · rw [if_neg (by simp [hd])] at hx
    have hn : touchSidebar s.input.touch = pure none := by simp [touchSidebar, hd]
    rw [hn] at hx
    simpa [hx, hd] using (⟨rfl, rfl, rfl⟩ : Unmoved s { s with input := s.input.freeTouch })

end Navigation

namespace Controller

/-- The input may differ, and what is remembered of the finger and of Cross. -/
structure Unmoved (s t : State α) : Prop where
  page : t.pages.page = s.pages.page
  selection : ∀ p, (t.slot p).selection = (s.slot p).selection
  cursor : ∀ p, (t.slot p).drag.cursor = (s.slot p).drag.cursor

/-- What does not need an edge opens a grid, or draws on the one that is shown. -/
def State.Draws (d : Rect α) (s : State α) : Prop :=
  match s.pages.page with
  | .summary => s.input.Counts ∧ ¬s.pages.touched ∧ d.contains s.input.touch.point
  | .grid p =>
    let x := s.slot p
    let y := (x.dragTouch p d s.input).holdOn s.input
    ¬(y.selection = x.selection ∧ y.drag.cursor = x.drag.cursor)

theorem Slot.gridInput_muted (p : Panel) (d : Rect α) (i : Input α) (x : Slot α) :
    x.gridInput p d true i = (x.dragTouch p d i).holdOn i := by
  have hd (y : Slot α) : y.dpad p true i = y := by simp [Slot.dpad]
  rw [Slot.gridInput, Slot.drawn, hd]
  simp [Slot.holdCross]

theorem Slot.dragTouch_of_not_counts (p : Panel) (d : Rect α) {i : Input α} {x : Slot α}
    (hi : ¬i.Counts) (hx : ¬x.drag.touching) : x.dragTouch p d i = x := by
  rw [Slot.dragTouch]
  by_cases hd : i.touch.down
  · have hb : i.touchBarred := not_not.1 fun hb => hi ⟨hd, hb⟩
    rw [if_pos hd, if_pos hb]
  · rw [if_neg hd, if_neg hx]

variable {r : Env α} {s : State α}

omit [Scalar α] in
theorem unmoved_of_pages {m : Pages α} (i : Input α) (hp : m.page = s.pages.page)
    (hd : m.drags = s.pages.drags) : Unmoved s { s with pages := m, input := i } := by
  refine ⟨hp, fun _ => rfl, fun p => ?_⟩
  rw [State.slot, hd]
  rfl

theorem unmoved_summaryTouch_iff (d : Rect α) (hp : s.pages.page = .summary) :
    Unmoved s ((summaryTouch d).quiet r s).state ↔ ¬s.Draws d := by
  have same : Unmoved s s := unmoved_of_pages s.input rfl rfl
  rw [State.Draws, hp, Input.Counts, state_quiet_summaryTouch]
  by_cases hd : s.input.touch.down
  · by_cases hb : s.input.touchBarred || s.pages.touched
    · rw [if_pos hd, if_pos hb]
      refine iff_of_true same ?_
      rw [Bool.or_eq_true] at hb
      tauto
    · rw [if_pos hd, if_neg hb]
      rw [Bool.or_eq_true, not_or] at hb
      by_cases hc : d.contains s.input.touch.point
      · refine iff_of_false (fun hu => ?_) (not_not.2 ⟨⟨hd, hb.1⟩, hb.2, hc⟩)
        have ht := hu.page
        simp [hc, hp, page_quiet_turnTo] at ht
      · refine iff_of_true ?_ fun h => hc h.2.2
        simp only [if_neg hc]
        exact unmoved_of_pages s.input rfl rfl
  · rw [if_neg hd]
    exact iff_of_true (unmoved_of_pages _ rfl rfl) fun h => hd h.1.1

theorem unmoved_gridInput_iff {p : Panel} (d : Rect α) (hr : r.muted)
    (hp : s.pages.page = .grid p) :
    Unmoved s ((gridInput p d).quiet r s).state ↔ ¬s.Draws d := by
  rw [State.Draws, hp, quiet_gridInput_state, hr, Slot.gridInput_muted, not_not]
  constructor
  · intro hu
    exact ⟨by simpa using hu.selection p, by simpa using hu.cursor p⟩
  · rintro ⟨hs, hc⟩
    refine ⟨rfl, fun q => ?_, fun q => ?_⟩
    · by_cases hq : q = p
      · subst hq
        simpa using hs
      · rw [slot_setInput, slot_setSlot_of_ne _ _ hq]
    · by_cases hq : q = p
      · subst hq
        simpa using hc
      · rw [slot_setInput, slot_setSlot_of_ne _ _ hq]

theorem unmoved_respond_iff (hr : r.muted) :
    Unmoved s (respond.quiet r s).state ↔ ¬(¬r.hides ∧ s.Draws (diagram r.sidebarWidth)) := by
  by_cases hh : r.hides
  · rw [quiet_respond_hidden hh]
    simpa [hh] using (⟨rfl, fun _ => rfl, fun _ => rfl⟩ : Unmoved s s)
  · cases hp : s.pages.page with
    | summary =>
      rw [quiet_respond_summary hh hp, unmoved_summaryTouch_iff _ hp]
      simp [hh]
    | grid p =>
      rw [quiet_respond_grid hh hp, if_neg (by simp [hr]), unmoved_gridInput_iff _ hr hp]
      simp [hh]

end Controller

namespace Interface

def asNavigation (s : Interface α) : Navigation.State α := ⟨s.focus, s.input, s.sidebar, s.icon⟩

def asController (s : Interface α) : Controller.State α := ⟨s.pages, s.selections, s.input⟩

/-- The screen is as it was: the focus, the sidebar and its icon, and the page, the selections and
the cursors of the controller screen. -/
structure Unmoved (s t : Interface α) : Prop where
  navigation : Navigation.Unmoved s.asNavigation t.asNavigation
  controller : Controller.Unmoved s.asController t.asController

/-- A finger that counts acts on the sidebar, and no cover keeps it from that. -/
def TouchesSidebar (r : Env α) (s : Interface α) : Prop :=
  ¬s.focus.isCovered ∧ s.input.Counts ∧
    s.asNavigation.OnSidebar r.settings.sane.pinned s.input.touch.point

/-- A finger or a held Cross acts on the controller screen, and neither the popup nor a cover keeps
it from that. -/
def DrawsOnPage (r : Env α) (s : Interface α) : Prop :=
  ¬(r.popup || s.focus.isCovered) ∧ s.asController.Draws (Controller.diagram s.sidebar.look.width)

variable {r : Env α} {s : Interface α}

theorem run_cross_of_muted (hs : s.overlays.mute) (screen : Screen) :
    (Call.cross screen).run.run r s = .done s (.flag false) := by
  have h : (Interface.cross screen).run r s = .done s false := by
    rw [Interface.cross, onNavigation, run_within, Navigation.run_cross_of_muted hs]
    rfl
  change ((Interface.cross screen).run r s).bind _ r = _
  rw [h]
  rfl

theorem quiet_run_shortcuts (screen : Screen) (free : Bool) :
    let x := (Call.shortcuts screen free).run.quiet r s
    let y := (Navigation.shortcuts screen free).quiet
      ⟨r.now, r.settings.sane, s.overlays.mute⟩ s.asNavigation
    x.value = .goTo y.value ∧ x.state.asNavigation = y.state ∧
      x.state.pages = s.pages ∧ x.state.selections = s.selections := by
  intro x y
  have hx : x = (Call.shortcuts screen free).run.quiet r s := rfl
  have hn : (onNavigation (Navigation.shortcuts screen free)).quiet r s =
      ⟨putNavigation y.state s, y.out.map (Sum.map .ofNavigation .ofNavigation), y.value⟩ := by
    rw [onNavigation, quiet_within]
    rfl
  rw [Call.run, quiet_map] at hx
  unfold Interface.shortcuts at hx
  cases hb : s.input.touchBarred <;> cases ht : y.state.input.touchBarred <;>
    simp [hx, hn, hb, ht, putNavigation, asNavigation, dropContact]

theorem unmoved_shortcuts_of_muted_iff (hs : s.overlays.mute) (screen : Screen) (free : Bool) :
    let x := (Call.shortcuts screen free).run.quiet r s
    x.value = .goTo none ∧ Unmoved s x.state ↔ ¬TouchesSidebar r s := by
  intro x
  rw [TouchesSidebar]
  have same : Unmoved s s := ⟨⟨rfl, rfl, rfl⟩, ⟨rfl, fun _ => rfl, fun _ => rfl⟩⟩
  by_cases hc : s.focus.isCovered
  · have hx : x = ⟨s, [], .goTo none⟩ := quiet_of_covered hc rfl r
    simpa [hx, hc] using same
  · obtain ⟨hv, hn, hp, hsel⟩ := quiet_run_shortcuts (r := r) (s := s) screen free
    have key := Navigation.unmoved_shortcuts_iff (r := ⟨r.now, r.settings.sane, s.overlays.mute⟩)
      (s := s.asNavigation) hs hc screen free
    have hu : Unmoved s x.state ↔ Navigation.Unmoved s.asNavigation x.state.asNavigation := by
      refine ⟨fun hu => hu.navigation, fun hu => ⟨hu, ?_, fun p => ?_, fun p => ?_⟩⟩ <;>
        simp only [Controller.State.slot, asController, x, hp, hsel]
    rw [hu, hn]
    change (_ = Answer.goTo none) ∧ _ ↔ _
    rw [hv, Answer.goTo.injEq]
    dsimp only at key
    rw [key]
    simp [hc, asNavigation]

theorem unmoved_controller_of_muted_iff (hs : s.overlays.mute) :
    Unmoved s (Call.controller.run.quiet r s).state ↔ ¬DrawsOnPage r s := by
  have hx : (Call.controller.run.quiet r s).state = putController
      (Controller.respond.quiet ⟨r.popup, s.focus.isCovered, s.overlays.mute, s.sidebar.look.width⟩
        s.asController).state s := by
    rw [Call.run, quiet_seqRight, quiet_pure, Outcome.state_after, Interface.controller,
      onController, quiet_within]
    rfl
  have key := Controller.unmoved_respond_iff
    (r := ⟨r.popup, s.focus.isCovered, s.overlays.mute, s.sidebar.look.width⟩)
    (s := s.asController) hs
  change _ ↔ ¬DrawsOnPage r s at key
  rw [hx, ← key]
  exact ⟨fun hu => hu.controller, fun hu => ⟨⟨rfl, rfl, rfl⟩, hu⟩⟩

/-- Neither a finger that counts nor a drag in progress. -/
def Still (s : Interface α) : Prop :=
  ¬s.input.Counts ∧ ∀ p, ¬(s.pages.drags.get p).touching ∧ ¬(s.pages.drags.get p).holding

theorem Still.not_touchesSidebar (h : s.Still) : ¬TouchesSidebar r s := fun ht => h.1 ht.2.1

theorem Still.not_drawsOnPage (h : s.Still) : ¬DrawsOnPage r s := by
  obtain ⟨hc, hd⟩ := h
  rintro ⟨-, hdraws⟩
  rw [Controller.State.Draws] at hdraws
  cases hp : s.asController.pages.page with
  | summary =>
    rw [hp] at hdraws
    exact hc hdraws.1
  | grid p =>
    rw [hp] at hdraws
    have ht : ¬(s.asController.slot p).drag.touching := (hd p).1
    have hh : ¬(s.asController.slot p).drag.holding := (hd p).2
    have hx := Controller.Slot.dragTouch_of_not_counts p
      (Controller.diagram s.sidebar.look.width) (i := s.asController.input) hc ht
    refine hdraws ?_
    simp [hx, Controller.Slot.holdOn, hh]

/-- Under an overlay that swallows the input no cross-over happens, no button has an edge, and
nothing at all gets past a cover. Without a cover a finger that counts and a held Cross do get
through, just where they act on something. -/
theorem muted_input (hs : s.overlays.mute) (r : Env α) (screen : Screen) (free : Bool) :
    let x := (Call.shortcuts screen free).run.quiet r s
    let y := Call.controller.run.quiet r s
    (Call.cross screen).run.run r s = .done s (.flag false) ∧
    (x.value = .goTo none ∧ Unmoved s x.state ↔ ¬TouchesSidebar r s) ∧
    (Unmoved s y.state ↔ ¬DrawsOnPage r s) ∧
    (s.focus.isCovered ∨ s.Still → ¬TouchesSidebar r s ∧ ¬DrawsOnPage r s) := by
  intro x y
  refine ⟨run_cross_of_muted hs screen, unmoved_shortcuts_of_muted_iff hs screen free,
    unmoved_controller_of_muted_iff hs, ?_⟩
  rintro (hc | hst)
  · exact ⟨fun h => h.1 hc, fun h => h.1 (by simp [hc])⟩
  · exact ⟨hst.not_touchesSidebar, hst.not_drawsOnPage⟩

def atStart : Env Rat := { now := 0, settings := .standard }

/-- The error popup is raised where three covers leave it no room, and these are taken off again;
then a finger comes down on the pill. -/
def refusedPopup : List (Env Rat × Call Rat) :=
  [.focus .cover, .focus .cover, .focus .cover, .overlay .errorPopup .raise, .focus .uncover,
    .focus .uncover, .focus .uncover, .sample ⟨[], [], ⟨true, ⟨80, 38⟩⟩⟩].map fun c => (atStart, c)

theorem muted_input_refusedPopup :
    let s := reached Call.run initial refusedPopup
    let x := (Call.shortcuts .main true).run.quiet atStart s
    s.overlays.mute ∧ (Call.cross .main).run.run atStart s = .done s (.flag false) ∧
    ¬(x.value = .goTo none ∧ Unmoved s x.state) ∧
    Unmoved s (Call.controller.run.quiet atStart s).state := by
  intro s x
  have hs : s.overlays.mute := by decide +kernel
  obtain ⟨hcross, hx, hy, -⟩ := muted_input hs atStart .main true
  have touches : TouchesSidebar atStart s :=
    ⟨by decide +kernel, ⟨by decide +kernel, by decide +kernel⟩, .inl (by decide +kernel)⟩
  have draws : ¬DrawsOnPage atStart s := by
    rintro ⟨-, -, -, hd⟩
    exact absurd hd (by decide +kernel)
  exact ⟨hs, hcross, fun h => hx.1 h touches, hy.2 draws⟩

/-- The error popup is raised and its cover taken off directly; then a finger comes down on the
pill. -/
def uncoveredPopup : List (Env Rat × Call Rat) :=
  [.overlay .errorPopup .raise, .focus .uncover, .sample ⟨[], [], ⟨true, ⟨80, 38⟩⟩⟩].map
    fun c => (atStart, c)

/-- The popup is shown, and the finger still has the sidebar come out. -/
theorem shortcuts_uncoveredPopup :
    let s := reached Call.run initial uncoveredPopup
    s.overlays.errorPopup.shown ∧ s.sidebar.phase = .collapsed ∧
    ((Call.shortcuts .main true).run.quiet atStart s).state.sidebar.phase = .expanding := by
  decide +kernel

end Interface

end HandheldUI
