import HandheldUI.Proofs.Focus.Covers
import HandheldUI.Proofs.Input.TouchBar
import HandheldUI.Proofs.Interface.BaseZone
import HandheldUI.Proofs.Interface.Muted
import HandheldUI.Proofs.Sidebar.Steps

/-! Moving right out of the sidebar. A screen asks for it twice in a frame, by the cross-over and by
the shortcuts, and each goes its own way there: only the cross-over tells every sidebar to go in.
Both leave the same behind, and the second to come finds nothing more to do. -/

namespace HandheldUI

open HandheldUI.Action

namespace Focus

theorem state_quiet_give (z : Zone) (f : Focus) : ((give z).quiet () f).state =
    if 0 < f.depth ∧ z ≠ .overlay then f else f.setTop { f.top with zone := z } := by
  unfold give
  by_cases h : 0 < f.depth ∧ z ≠ .overlay
  · simp [h]
  · by_cases hz : f.zone = z <;> simp [h, hz]

theorem zone_quiet_give {f : Focus} (hd : f.depth = 0) (z : Zone) :
    ((give z).quiet () f).state.zone = z := by
  rw [state_quiet_give, if_neg (by omega), zone, top_setTop]

theorem state_quiet_give_twice (z : Zone) (f : Focus) :
    let g := ((give z).quiet () f).state
    ((give z).quiet () g).state = g := by
  intro g
  have hg : g = _ := state_quiet_give z f
  rw [state_quiet_give]
  by_cases h : 0 < f.depth ∧ z ≠ .overlay
  · rw [if_pos h] at hg
    rw [hg, if_pos h]
  · rw [if_neg h] at hg
    have hd : g.depth = f.depth := by rw [hg, depth_setTop]
    rw [hd, if_neg h, hg]
    obtain ⟨b, covers⟩ := f
    cases covers <;> rfl

end Focus

namespace Sidebar

variable {α : Type} [Scalar α] {r : Env α} {s : State α}

theorem state_quiet_collapse_of_not_isOut (hs : ¬s.isOut) (byContent : Bool) :
    ((collapse byContent).quiet r s).state = s := by
  rw [quiet, run_collapse, if_neg hs]
  split <;> rfl

/-- A sidebar that was told to go in by the content has gone, or it is pinned. -/
theorem state_quiet_collapse_twice (later : α) :
    let t := ((collapse true).quiet r s).state
    ((collapse true).quiet { r with now := later } t).state = t := by
  intro t
  have ht : t = ((collapse true).quiet r s).state := rfl
  by_cases hp : r.settings.pinned
  · simp [collapse, hp]
  · refine state_quiet_collapse_of_not_isOut ?_ true
    by_cases ho : s.isOut
    · have hphase : t.phase = .collapsing := by simp [ht, collapse, begin, hp, ho]
      simp [State.isOut, hphase]
    · rwa [ht, state_quiet_collapse_of_not_isOut ho]

end Sidebar

namespace Navigation

variable {α : Type}

/-- No finger is down, and no button but Right goes down. -/
structure OnlyRight (r : Env α) (s : State α) : Prop where
  up : ¬s.input.touch.down
  right : ∀ b, s.input.pressed r.muted b → b = .right

variable [Scalar α] {r : Env α} {s : State α} {screen : Screen}

/-- The focus is told to go into the content, and the sidebar to go in. -/
def State.entered (r : Env α) (screen : Screen) (s : State α) : State α :=
  { s with
    focus := ((Focus.toContent screen).quiet () s.focus).state
    sidebar := ((Sidebar.collapse true).quiet ⟨r.now, r.settings⟩ s.sidebar).state }

/-- The sidebar has the input, and Right goes down. -/
def State.leaves (r : Env α) (s : State α) : Bool :=
  s.focus.inSidebar && s.input.pressed r.muted .right

omit [Scalar α] in
theorem quiet_pressed (b : Button) :
    (pressed b).quiet r s = ⟨s, [], s.input.pressed r.muted b⟩ := rfl

omit [Scalar α] in
theorem state_quiet_toContent :
    ((onFocus (Focus.toContent screen) : Op α Unit).quiet r s).state =
      { s with focus := ((Focus.toContent screen).quiet () s.focus).state } := by
  rw [onFocus, quiet_within]
  rfl

theorem state_quiet_enter :
    ((onSidebar (Sidebar.collapse true)).quiet r
      ((onFocus (Focus.toContent screen) : Op α Unit).quiet r s).state).state =
      s.entered r screen := by
  rw [state_quiet_onSidebar, state_quiet_toContent]
  rfl

theorem quiet_cross (hc : ¬s.focus.isCovered) (screen : Screen) :
    let x := (cross screen).quiet r s
    x.value = s.leaves r ∧ x.state = if s.leaves r then s.entered r screen else s := by
  unfold cross State.leaves
  cases hf : s.focus.inSidebar <;> cases hp : s.input.pressed r.muted .right <;>
    simp [hc, hf, hp, quiet_pressed, state_quiet_enter]

theorem State.entered_of_not_isOut (hs : ¬s.sidebar.isOut) : s.entered r screen =
    { s with focus := ((Focus.toContent screen).quiet () s.focus).state } := by
  rw [entered, Sidebar.state_quiet_collapse_of_not_isOut hs]

theorem State.entered_entered (later : α) :
    (s.entered r screen).entered { r with now := later } screen = s.entered r screen := by
  have hf := Focus.state_quiet_give_twice screen.content s.focus
  have hb := Sidebar.state_quiet_collapse_twice (r := ⟨r.now, r.settings⟩) (s := s.sidebar) later
  unfold entered Focus.toContent
  dsimp only at hf hb ⊢
  rw [hf, hb]

theorem State.not_isCovered_entered (hc : ¬s.focus.isCovered) :
    ¬(s.entered r screen).focus.isCovered := by
  have hf : (s.entered r screen).focus = _ := Focus.state_quiet_give screen.content s.focus
  rw [hf]
  by_cases h : 0 < s.focus.depth ∧ screen.content ≠ .overlay
  · rwa [if_pos h]
  · have hd : s.focus.depth = 0 := by
      have hz := Interface.content_ne_overlay screen
      by_contra hd
      exact h ⟨Nat.pos_of_ne_zero hd, hz⟩
    rw [if_neg h, Focus.isCovered, Focus.depth_setTop, hd]
    simp

namespace OnlyRight

omit [Scalar α] in
theorem pressed_eq_false (h : OnlyRight r s) {b : Button} (hb : b ≠ .right) :
    s.input.pressed r.muted b = false := by
  by_contra hp
  exact hb (h.right b (by simpa using hp))

theorem quiet_dpad (h : OnlyRight r s) (screen : Screen) :
    let x := (dpad screen).quiet r s
    x.value = none ∧ x.state = if s.leaves r then s.entered r screen else s := by
  have hcross := h.pressed_eq_false (b := .cross) (by decide)
  have hleft := h.pressed_eq_false (b := .left) (by decide)
  have hup := h.pressed_eq_false (b := .up) (by decide)
  have hdown := h.pressed_eq_false (b := .down) (by decide)
  unfold dpad State.leaves
  by_cases hi : s.sidebar.isIn
  -- the focus leaves, and a sidebar that is in would not have listened anyway
  · have ho : ¬s.sidebar.isOut := by
      rw [Sidebar.State.isIn, decide_eq_true_iff] at hi
      simp [Sidebar.State.isOut, hi]
    rw [State.entered_of_not_isOut ho]
    cases hf : s.focus.inSidebar <;> cases hp : s.input.pressed r.muted .right <;>
      simp [hi, hf, hp, hcross, hleft, quiet_pressed, state_quiet_toContent]
  · cases hf : s.focus.inSidebar <;> cases hp : s.input.pressed r.muted .right
    case true.true =>
      -- the sidebar may keep the input under an owner that cannot be moved
      have hin : (s.entered r screen).input = s.input := rfl
      cases hg : (s.entered r screen).focus.inSidebar <;>
        simp [hi, hf, hp, hg, hin, hcross, hleft, hup, hdown, quiet_pressed, state_quiet_enter]
    all_goals simp [hi, hf, hp, hcross, hleft, hup, hdown, quiet_pressed]

/-- The shortcuts come to the D-pad, at most with the touch no longer barred. -/
theorem quiet_shortcuts (h : OnlyRight r s) (hc : ¬s.focus.isCovered) (screen : Screen) :
    let x := (shortcuts screen true).quiet r s
    let y := (dpad screen).quiet r { s with input := s.input.freeTouch }
    x.value = y.value ∧ x.state = y.state := by
  have htriangle := h.pressed_eq_false (b := .triangle) (by decide)
  have hbar : ¬(s.input.touchBarred = true ∧ s.input.touchDone = false) := by
    simp [Input.touchDone, h.up]
  have htouch : touchSidebar s.input.touch = pure none := by simp [touchSidebar, h.up]
  unfold shortcuts
  simp [hc, hbar, htouch, htriangle, quiet_pressed, onInput]

omit [Scalar α] in
theorem freeTouch (h : OnlyRight r s) : OnlyRight r { s with input := s.input.freeTouch } := by
  refine ⟨?_, fun b hb => h.right b ?_⟩
  · rw [Input.touch_freeTouch]
    exact h.up
  · rwa [Input.pressed_freeTouch] at hb

/-- The shortcuts do what the cross-over does. -/
theorem quiet_shortcuts_eq (h : OnlyRight r s) (hc : ¬s.focus.isCovered) (screen : Screen) :
    let y := (shortcuts screen true).quiet r s
    y.value = none ∧ Unmoved (if s.leaves r then s.entered r screen else s) y.state := by
  intro y
  obtain ⟨hv, hs⟩ := h.quiet_shortcuts hc screen
  obtain ⟨hdv, hds⟩ := h.freeTouch.quiet_dpad screen
  have hl : State.leaves r { s with input := s.input.freeTouch } = s.leaves r := by
    rw [State.leaves, Input.pressed_freeTouch, State.leaves]
  refine ⟨hv.trans hdv, ?_⟩
  rw [show y.state = _ from hs.trans hds, hl]
  split <;> exact ⟨rfl, rfl, rfl⟩

end OnlyRight

/-- Where Right alone goes down, the shortcuts leave the focus and the sidebar as the cross-over
does. After a cross-over they change neither, whatever time it is then. -/
theorem moves_right_once (hc : ¬s.focus.isCovered) (h : OnlyRight r s) (screen : Screen) :
    let x := (cross screen).quiet r s
    let y := (shortcuts screen true).quiet r s
    y.value = none ∧ Unmoved x.state y.state ∧
    (x.value → ∀ later,
      let z := (shortcuts screen true).quiet { r with now := later } x.state
      z.value = none ∧ Unmoved x.state z.state) := by
  intro x y
  obtain ⟨hv, hs⟩ := quiet_cross (r := r) hc screen
  obtain ⟨hy, hu⟩ := h.quiet_shortcuts_eq hc screen
  refine ⟨hy, ?_, fun hx later => ?_⟩
  · rwa [show x.state = _ from hs]
  · have hx' : x.state = s.entered r screen := by
      rw [show x.state = _ from hs, if_pos (hv.symm.trans hx)]
    have h' : OnlyRight { r with now := later } (s.entered r screen) := ⟨h.up, h.right⟩
    obtain ⟨hz, hu⟩ := h'.quiet_shortcuts_eq (State.not_isCovered_entered hc) screen
    rw [State.entered_entered, ite_self] at hu
    rw [hx']
    exact ⟨hz, hu⟩

section Witness

def atFiveMs : Env Rat := { now := 5000, settings := .standard, muted := false }

/-- The sidebar is out and has the input. -/
def choosing : State Rat where
  focus := { base := { zone := .sidebar } }
  input := { now := ⟨[.right], [], .none⟩ }
  sidebar := { Sidebar.State.initial with phase := .expanded, look := .expanded }

theorem moves_right_once_choosing :
    let x := (cross .settings).quiet atFiveMs choosing
    let z := (shortcuts .settings true).quiet { atFiveMs with now := 5001 } x.state
    ¬choosing.focus.isCovered ∧ OnlyRight atFiveMs choosing ∧ x.value = true ∧
    x.state.focus.zone = .settings ∧ x.state.sidebar.phase = .collapsing ∧
    z.value = none ∧ Unmoved x.state z.state := by
  intro x z
  have hc : ¬choosing.focus.isCovered := by decide +kernel
  have h : OnlyRight atFiveMs choosing := by
    refine ⟨by decide +kernel, fun b hb => ?_⟩
    revert hb
    cases b <;> decide +kernel
  have hx : x.value = true := by decide +kernel
  obtain ⟨-, -, again⟩ := moves_right_once hc h .settings
  exact ⟨hc, h, hx, by decide +kernel, by decide +kernel, again hx 5001⟩

end Witness

end Navigation

end HandheldUI
