import HandheldUI.Action.Quiet
import HandheldUI.Interface

/-! The screen below an overlay. While the focus is covered, a frame's input reaches nothing there:
its handlers decline it before they look at the controls, announce nothing and say nothing. -/

namespace HandheldUI

open HandheldUI.Action

variable {α : Type}

section Handlers

variable [Scalar α]

theorem Navigation.run_cross_of_covered {s : Navigation.State α} (hs : s.focus.isCovered)
    (screen : Screen) (r : Navigation.Env α) : (cross screen).run r s = .done s false := by
  unfold cross
  rw [run_bind, run_get, Step.bind_done, if_pos hs]
  rfl

theorem Navigation.run_shortcuts_of_covered {s : Navigation.State α} (hs : s.focus.isCovered)
    (screen : Screen) (dpadFree : Bool) (r : Navigation.Env α) :
    (shortcuts screen dpadFree).run r s = .done s none := by
  unfold shortcuts
  rw [run_bind, run_get, Step.bind_done, if_pos hs]
  rfl

theorem Controller.run_respond_of_covered {r : Controller.Env α} (hr : r.covered)
    (s : Controller.State α) : respond.run r s = .done s () := by
  unfold respond
  rw [run_bind, run_read, Step.bind_done, if_pos (by simp [hr])]
  rfl

end Handlers

namespace Interface

/-- A call that takes in a frame's input, or gives it to the screen. -/
def Call.isFrameInput : Call α → Bool
  | sample _ | cross _ | shortcuts _ _ | controller => true
  | _ => false

/-- The state after a call that is declined. Controls are taken in all the same. -/
def Call.declinedIn : Call α → Interface α → Interface α
  | sample c, s => { s with raw := c, input := s.input.take c }
  | _, s => s

/-- The answer to a call that is declined. -/
def Call.declined : Call α → Answer α
  | cross _ => .flag false
  | shortcuts _ _ => .goTo none
  | _ => .done

variable {s : Interface α}

/-- `t` is `s` but for the controls taken in and the buttons that these leave barred. The touch's
bar is as before. -/
def DiffersInControls (s t : Interface α) : Prop :=
  t = { s with
    raw := t.raw
    input := { s.input with now := t.input.now, barred := t.input.barred } }

theorem DiffersInControls.trans {t u : Interface α} (h : DiffersInControls s t)
    (h' : DiffersInControls t u) : DiffersInControls s u := by
  rw [DiffersInControls] at h h'
  rw [h] at h'
  exact h'

theorem differsInControls_declinedIn (c : Call α) : DiffersInControls s (c.declinedIn s) := by
  cases c <;> rfl

theorem focus_declinedIn (c : Call α) : (c.declinedIn s).focus = s.focus := by
  cases c <;> rfl

variable [Scalar α]

/-- Such a call is over at once, and no listener could act on it. -/
theorem run_of_covered (hs : s.focus.isCovered) {c : Call α} (hc : c.isFrameInput) (r : Env α) :
    c.run.run r s = .done (c.declinedIn s) c.declined := by
  cases c with
  | sample c => rfl
  | cross screen =>
    have h : (Interface.cross screen).run r s = .done s false := by
      rw [Interface.cross, onNavigation, run_within, Navigation.run_cross_of_covered hs]
      rfl
    change ((Interface.cross screen).run r s).bind _ r = _
    rw [h]
    rfl
  | shortcuts screen free =>
    have hn : (onNavigation (Navigation.shortcuts screen free)).run r s = .done s none := by
      rw [onNavigation, run_within, Navigation.run_shortcuts_of_covered hs]
      rfl
    -- a contact is dropped only where a bar was taken away
    have h : (Interface.shortcuts screen free).run r s = .done s none := by
      unfold Interface.shortcuts
      rw [run_bind, run_get, Step.bind_done, run_bind, hn]
      simp
    change ((Interface.shortcuts screen free).run r s).bind _ r = _
    rw [h]
    rfl
  | controller =>
    have h : Interface.controller.run r s = .done s () := by
      rw [Interface.controller, onController, run_within, Controller.run_respond_of_covered hs]
      rfl
    change (Interface.controller.run r s).bind _ r = _
    rw [h]
    rfl
  | _ => simp [Call.isFrameInput] at hc

theorem quiet_of_covered (hs : s.focus.isCovered) {c : Call α} (hc : c.isFrameInput) (r : Env α) :
    c.run.quiet r s = ⟨c.declinedIn s, [], c.declined⟩ := by
  rw [Action.quiet, run_of_covered hs hc]
  rfl

/-- While the focus is covered, frames of any controls, at any time and under any settings, are
declined: nothing is announced or said, every answer is that of a call declined, and all but the
controls is as before. -/
theorem covered_frames (hs : s.focus.isCovered) {h : List (Env α × Call α)}
    (hc : ∀ y ∈ h, y.2.isFrameInput) :
    let x := quietRun Call.run h s
    x.out = [] ∧ x.value = h.map (fun y => y.2.declined) ∧ DiffersInControls s x.state := by
  induction h generalizing s with
  | nil => exact ⟨rfl, rfl, rfl⟩
  | cons y h ih =>
    obtain ⟨r, c⟩ := y
    have hx := quiet_of_covered hs (hc (r, c) List.mem_cons_self) r
    have hs' : (c.declinedIn s).focus.isCovered := by rwa [focus_declinedIn]
    have ⟨ho, hv, hd⟩ := ih hs' fun z hz => hc z (List.mem_cons_of_mem _ hz)
    simp only [quietRun, hx, Outcome.after_nil, List.map_cons]
    exact ⟨ho, congrArg _ hv, (differsInControls_declinedIn c).trans hd⟩

/-- A button for the sidebar, one for the focus, and a finger on the diagram. -/
def busyFrame : List (Env Rat × Call Rat) :=
  let env : Env Rat := { now := 0, settings := .standard }
  [(env, .sample ⟨[.triangle, .left], [], ⟨true, ⟨480, 200⟩⟩⟩), (env, .cross .main),
    (env, .shortcuts .main true), (env, .controller)]

theorem covered_frames_busyFrame :
    let s : Interface Rat := { initial with focus := { covers := [{ zone := .overlay }] } }
    let x := quietRun Call.run busyFrame s
    s.focus.isCovered ∧ (∀ y ∈ busyFrame, y.2.isFrameInput) ∧
    x.out = [] ∧ x.value = [.done, .flag false, .goTo none, .done] ∧
    DiffersInControls s x.state := by
  intro s x
  have hs : s.focus.isCovered := rfl
  have hc : ∀ y ∈ busyFrame, y.2.isFrameInput := by simp [busyFrame, Call.isFrameInput]
  have ⟨ho, hv, hd⟩ := covered_frames hs hc
  exact ⟨hs, hc, ho, hv, hd⟩

/-- Without the cover it moves the sidebar, the focus and the page. -/
example : (quietRun Call.run busyFrame initial).events =
    [.sidebar (.moved .collapsed .expanding), .focus (.moved .main .sidebar),
      .controller (.turned .summary (.grid .front))] := by decide +kernel

end Interface

end HandheldUI
