import Mathlib.Data.List.Induction
import HandheldUI.Proofs.Action.History
import HandheldUI.Proofs.Interface.SidebarCalls
import HandheldUI.Proofs.Sidebar.Steps

/-! A pinned sidebar that is out. Crossing over, a touch on the content and the D-pad ask for a
collapse that the pin refuses, and nothing else that a frame brings moves the sidebar, but Triangle
does. -/

namespace HandheldUI

open HandheldUI.Action

variable {α : Type} [Scalar α]

namespace Sidebar

/-- A sidebar that is out looks so. -/
def State.LooksOut (s : State α) : Prop := s.phase = .expanded → s.look = .expanded

/-- Whatever the surroundings are and whatever is announced. -/
abbrev KeepsLooks (x : Op α Unit) : Prop :=
  Action.Abides (fun _ => True) State.LooksOut (fun _ => True) x

variable {r : Env α} {s : State α}

theorem keepsLooks_begin {new : Phase} (hnew : new ≠ .expanded) :
    ((begin new).run r s).Abides (fun _ => True) State.LooksOut fun _ => True := by
  rw [run_begin]
  exact ⟨fun h => absurd h hnew, trivial, fun _ _ _ ht => ht⟩

theorem keepsLooks_collapse (byContent : Bool) :
    KeepsLooks (collapse byContent : Op α Unit) := by
  intro r s _ hs
  rw [run_collapse]
  split
  · exact hs
  · split
    · exact keepsLooks_begin (by decide)
    · exact hs

theorem keepsLooks_expand : KeepsLooks (expand : Op α Unit) := by
  intro r s _ hs
  rw [run_expand]
  split
  · exact keepsLooks_begin (by decide)
  · exact hs

theorem keepsLooks_flip : KeepsLooks (flip : Op α Unit) := by
  intro r s hr hs
  rw [run_flip]
  split
  · exact keepsLooks_collapse false r s hr hs
  · split
    · exact keepsLooks_expand r s hr hs
    · exact hs

theorem keepsLooks_shut : KeepsLooks (shut : Op α Unit) := by
  intro r s _ hs
  have hshut : s.shut.LooksOut := nofun
  rw [run_shut]
  split
  · exact hshut
  · exact ⟨hshut, trivial, fun _ _ _ ht => ht⟩

theorem keepsLooks_showToast : KeepsLooks (showToast : Op α Unit) := by
  intro r s _ hs
  rw [run_showToast]
  split
  · exact hs
  · exact ⟨hs, trivial, fun _ _ _ ht => ht⟩

theorem keepsLooks_advance : KeepsLooks (advance : Op α Unit) := by
  intro r s _ hs
  rw [run_advance]
  cases hend : s.phase.end? with
  | none => exact hs
  | some target =>
    dsimp only
    split
    -- the looks are drawn anew in the moment in which the phase changes
    · have harrived : (s.passing target 1).LooksOut := by
        intro (hphase : target = .expanded)
        subst hphase
        rfl
      refine ⟨harrived, trivial, fun r t hr ht => ?_⟩
      dsimp only
      split
      · exact keepsLooks_showToast r t hr ht
      · exact ht
    · intro (hphase : s.phase = .expanded)
      rw [hphase] at hend
      cases hend

theorem keepsLooks_run (c : Call) : KeepsLooks (c.run : Op α Unit) := by
  cases c with
  | collapse byContent => exact keepsLooks_collapse byContent
  | expand => exact keepsLooks_expand
  | flip => exact keepsLooks_flip
  | shut => exact keepsLooks_shut
  | advance => exact keepsLooks_advance
  | fadeToast =>
    intro r s _ hs
    rw [show Call.fadeToast.run.run r s = _ from run_fadeToast r s]
    simpa [Step.Abides, State.LooksOut] using hs
  | tick =>
    intro r s hr hs
    rw [show Call.tick.run.run r s = _ from run_tick r s]
    refine (keepsLooks_advance r s hr hs).bind hr fun _ r t _ ht => ?_
    simpa [Step.Abides, State.LooksOut] using ht

/-- The sidebar is out and looks so. -/
def State.StandsOut (s : State α) : Prop := s.phase = .expanded ∧ s.look = .expanded

def Event.IsMove : Event → Prop
  | .moved _ _ => True
  | .toast => False

/-- Where the sidebar is pinned it stays out, and no move is announced. -/
abbrev KeepsOut (x : Op α Unit) : Prop :=
  Action.Abides (fun r => r.settings.pinned) State.StandsOut (¬·.IsMove) x

theorem keepsOut_collapse : KeepsOut (collapse true : Op α Unit) := by
  intro r s hr hs
  rw [run_collapse, hr]
  exact hs

theorem keepsOut_expand : KeepsOut (expand : Op α Unit) := by
  intro r s _ hs
  have hin : ¬s.isIn := by simp [State.isIn, hs.1]
  rw [run_expand, if_neg hin]
  exact hs

theorem run_advance_of_out (hs : s.StandsOut) : advance.run r s = .done s () := by
  rw [run_advance, hs.1]
  rfl

theorem keepsOut_tick : KeepsOut (tick : Op α Unit) := by
  intro r s _ hs
  rw [run_tick, run_advance_of_out hs]
  simpa [Step.Abides, State.StandsOut] using hs

/-- Only these calls take a pinned sidebar in. -/
def Call.Withdraws : Call → Prop
  | .collapse byContent => byContent = false
  | .flip => True
  | .shut => True
  | _ => False

theorem keepsOut_run {c : Call} (hc : ¬c.Withdraws) : KeepsOut (c.run : Op α Unit) := by
  cases c with
  | collapse byContent =>
    obtain rfl : byContent = true := by simpa [Call.Withdraws] using hc
    exact keepsOut_collapse
  | expand => exact keepsOut_expand
  | flip => exact absurd trivial hc
  | shut => exact absurd trivial hc
  | advance =>
    intro r s _ hs
    rw [show Call.advance.run.run r s = _ from run_advance_of_out hs]
    exact hs
  | fadeToast =>
    intro r s _ hs
    rw [show Call.fadeToast.run.run r s = _ from run_fadeToast r s]
    simpa [Step.Abides, State.StandsOut] using hs
  | tick => exact keepsOut_tick

end Sidebar

namespace Interface

theorem looksOut_initial : (initial : Interface α).sidebar.LooksOut := by
  intro (h : Sidebar.Phase.collapsed = .expanded)
  cases h

theorem maintains_looksOut (c : Call α) :
    Maintains (fun _ => True) (fun u => u.sidebar.LooksOut) c.run := by
  intro r u _ hu
  have habides := abides_run (Sidebar.keepsLooks_collapse true) Sidebar.keepsLooks_expand
    (Sidebar.keepsLooks_run .tick) (c := c) (r := r) trivial hu
    (fun d _ => Sidebar.keepsLooks_run d) fun _ _ _ _ => Sidebar.keepsLooks_flip
  exact habides.keeps

/-- The call asks the sidebar neither to flip nor to come in for another reason than that the
content is used, and Triangle does not go down in it. -/
def Spares (u : Interface α) : Call α → Prop
  | .shortcuts _ _ => ¬u.input.pressed u.overlays.mute .triangle
  | .sidebar c => ¬c.Withdraws
  | _ => True

variable {s : Interface α} {r : Env α} {c : Call α}

/-- One call on a pinned sidebar that is out. -/
theorem standsOut_quiet_run (hr : r.settings.pinned) (hs : s.sidebar.StandsOut)
    (hc : Spares s c) : (c.run.quiet r s).state.sidebar.StandsOut ∧
      ∀ e ∈ (c.run.quiet r s).events, e.Allowed (¬·.IsMove) := by
  have habides := abides_run Sidebar.keepsOut_collapse Sidebar.keepsOut_expand
    Sidebar.keepsOut_tick (c := c) (r := r) hr hs
    (fun d hd => Sidebar.keepsOut_run (by subst hd; exact hc))
    fun screen free he hpress => by
      subst he
      exact absurd hpress hc
  have hr' : Admits (fun r => r.settings.pinned) r := hr
  exact ⟨habides.keeps.quiet hr', habides.events hr'⟩

variable {h : List (Env α × Call α)}

/-- From a state that was reached in any way, listeners and Triangle included, a sidebar that is out
stays out in its full width while it is pinned, and announces no move, unless Triangle goes down or
somebody asks the sidebar itself. -/
theorem pinned_stays_out (hs : Occurs (fun _ => True) Call.run initial s)
    (out : s.sidebar.phase = .expanded) (pinned : ∀ y ∈ h, y.1.settings.pinned)
    (spared : History.Always (fun before y => Spares (reached Call.run s before) y.2) h) :
    (reached Call.run s h).sidebar.phase = .expanded ∧
    (reached Call.run s h).sidebar.look.width = Scalar.ofNat 130 ∧
    ∀ old new, .sidebar (.moved old new) ∉ (quietRun Call.run h s).events := by
  have hlooks : s.sidebar.LooksOut := Maintains.occurs maintains_looksOut looksOut_initial hs
  have hrun : (reached Call.run s h).sidebar.StandsOut ∧
      ∀ e ∈ (quietRun Call.run h s).events, e.Allowed (¬·.IsMove) := by
    induction h using List.reverseRecOn with
    | nil => exact ⟨⟨out, hlooks out⟩, by simp [quietRun, Outcome.events]⟩
    | append_singleton h y ih =>
      obtain ⟨hbefore, hy⟩ := History.always_concat.1 spared
      obtain ⟨hout, hnone⟩ := ih (fun z hz => pinned z (List.mem_append_left _ hz)) hbefore
      obtain ⟨hout', hnone'⟩ := standsOut_quiet_run (pinned y (by simp)) hout hy
      rw [reached_concat, events_quietRun_concat]
      refine ⟨hout', fun e he => ?_⟩
      exact (List.mem_append.1 he).elim (hnone e) (hnone' e)
  obtain ⟨⟨hphase, hlook⟩, hnone⟩ := hrun
  refine ⟨hphase, by rw [hlook]; rfl, fun old new he => ?_⟩
  exact hnone _ he trivial

instance : DecidablePred Sidebar.Call.Withdraws
  | .collapse byContent => inferInstanceAs (Decidable (byContent = false))
  | .flip | .shut => isTrue trivial
  | .expand | .advance | .fadeToast | .tick => isFalse id

instance (u : Interface α) : DecidablePred (Spares u)
  | .shortcuts _ _ => inferInstanceAs (Decidable (¬u.input.pressed u.overlays.mute .triangle))
  | .sidebar c => inferInstanceAs (Decidable (¬c.Withdraws))
  | .sample _ | .cross _ | .gesture | .controller | .animate | .switchTo _ | .focus _
  | .overlay _ _ => isTrue trivial

def pinnedAt (now : Rat) : Env Rat := { now, settings := { Settings.standard with pinned := true } }

/-- The sidebar comes out. -/
def comingOut : List (Env Rat × Call Rat) :=
  [(pinnedAt 0, .sidebar .expand), (pinnedAt 400000, .animate)]

/-- A finger is on the content, and then Right goes down with the focus in the sidebar, beside a
Triangle that is held already. -/
def contentUsed : List (Env Rat × Call Rat) :=
  [(pinnedAt 500000, .sample ⟨[], [], ⟨true, ⟨500, 300⟩⟩⟩),
    (pinnedAt 500000, .shortcuts .main true),
    (pinnedAt 600000, .focus .toSidebar),
    (pinnedAt 600000, .sample ⟨[.right, .triangle], [.triangle], .none⟩),
    (pinnedAt 600000, .cross .main),
    (pinnedAt 600000, .shortcuts .main true),
    (pinnedAt 900000, .animate)]

theorem pinned_stays_out_contentUsed :
    let s : Interface Rat := reached Call.run initial comingOut
    Occurs (fun _ => True) Call.run initial s ∧ s.sidebar.phase = .expanded ∧
    (∀ y ∈ contentUsed, y.1.settings.pinned) ∧
    History.Always (fun before y => Spares (reached Call.run s before) y.2) contentUsed ∧
    (reached Call.run s contentUsed).sidebar.look.width = 130 ∧
    ∀ old new, .sidebar (.moved old new) ∉ (quietRun Call.run contentUsed s).events := by
  intro s
  obtain ⟨trace, run⟩ : ∃ trace, Calls (fun _ => True) Call.run (initial : Interface Rat) trace s :=
    calls_quietRun Call.run comingOut (fun _ _ => trivial) initial
  have hs : Occurs (fun _ => True) Call.run initial s := ⟨trace, s, run, .inl rfl⟩
  have hout : s.sidebar.phase = .expanded := by decide +kernel
  have hpinned : ∀ y ∈ contentUsed, y.1.settings.pinned := by simp [contentUsed, pinnedAt]
  have hspared : History.Always (fun before y => Spares (reached Call.run s before) y.2)
      contentUsed := by decide +kernel
  obtain ⟨-, hwidth, hnone⟩ := pinned_stays_out hs hout hpinned hspared
  exact ⟨hs, hout, hpinned, hspared, hwidth, hnone⟩

end Interface

end HandheldUI
