import HandheldUI.Interface
import HandheldUI.Proofs.Action.Abides

/-! What the interface makes of its sidebar. It writes to it by calls of the sidebar only, so what
holds of the sidebar under those calls, listeners included, holds of it within the interface. -/

namespace HandheldUI

open HandheldUI.Action

variable {α β : Type} {admits : Sidebar.Env α → Prop} {J : Sidebar.State α → Prop}
  {E : Sidebar.Event → Prop}

namespace Navigation

/-- What the surroundings show of themselves to the sidebar is admitted. -/
def Admits (admits : Sidebar.Env α → Prop) (r : Env α) : Prop := admits ⟨r.now, r.settings⟩

/-- If it is an event of the sidebar, then it is one of these. -/
def Event.Allowed (E : Sidebar.Event → Prop) : Event → Prop
  | .sidebar e => E e
  | .focus _ => True

/-- The action of an interface that leaves the sidebar to calls that abide by this. -/
abbrev Abides (admits : Sidebar.Env α → Prop) (J : Sidebar.State α → Prop)
    (E : Sidebar.Event → Prop) (x : Op α β) : Prop :=
  Action.Abides (Admits admits) (fun s => J s.sidebar) (Event.Allowed E) x

theorem abides_onSidebar {x : Sidebar.Op α β} (hx : Action.Abides admits J E x) :
    Abides admits J E (onSidebar x) :=
  hx.within (fun _ _ h => h) (fun _ h => h) (fun _ _ _ h => h) fun _ h => h

theorem abides_onFocus (x : Focus.Op β) : Abides admits J E (onFocus x : Op α β) :=
  .elsewhere (fun _ _ h => h) fun _ => trivial

theorem abides_pressed (b : Button) : Abides admits J E (pressed b : Op α Bool) :=
  .bind .get fun _ => .bind .read fun _ => .pure _

theorem abides_highlight (icon : Nat) : Abides admits J E (highlight icon : Op α Unit) :=
  .modify fun _ hs => hs

theorem abides_onInput (f : Input α → Input α) : Abides admits J E (onInput f) :=
  .modify fun _ hs => hs

variable [Scalar α] {screen : Screen} {free : Bool}

section Content

variable (hcollapse : Action.Abides admits J E (Sidebar.collapse true))
include hcollapse

theorem abides_cross : Abides admits J E (cross screen) := by
  have hf (x : Focus.Op Unit) : Abides admits J E (onFocus x : Op α Unit) := abides_onFocus x
  have hp (b : Button) : Abides admits J E (pressed b : Op α Bool) := abides_pressed b
  have hc := abides_onSidebar hcollapse
  unfold cross
  with_reducible repeat' first
    | apply Action.Abides.bind | intro _ | apply Action.Abides.ite | apply hf | apply hc | apply hp
    | apply Action.Abides.get | apply Action.Abides.say | apply Action.Abides.pure

variable (hexpand : Action.Abides admits J E Sidebar.expand)
include hexpand

theorem abides_dpad : Abides admits J E (dpad screen : Op α (Option Screen)) := by
  have hf (x : Focus.Op Unit) : Abides admits J E (onFocus x : Op α Unit) := abides_onFocus x
  have hp (b : Button) : Abides admits J E (pressed b : Op α Bool) := abides_pressed b
  have hh (icon : Nat) : Abides admits J E (highlight icon : Op α Unit) := abides_highlight icon
  have hc := abides_onSidebar hcollapse
  have he := abides_onSidebar hexpand
  unfold dpad
  with_reducible repeat' first
    | apply Action.Abides.bind | intro _ | apply Action.Abides.ite | apply hf | apply hc | apply he
    | apply hp | apply hh | apply Action.Abides.get | apply Action.Abides.say
    | apply Action.Abides.pure

theorem abides_touchSidebar (t : Touch α) : Abides admits J E (touchSidebar t) := by
  have hf (x : Focus.Op Unit) : Abides admits J E (onFocus x : Op α Unit) := abides_onFocus x
  have hi (f : Input α → Input α) : Abides admits J E (onInput f) := abides_onInput f
  have hh (icon : Nat) : Abides admits J E (highlight icon : Op α Unit) := abides_highlight icon
  have hc := abides_onSidebar hcollapse
  have he := abides_onSidebar hexpand
  unfold touchSidebar
  with_reducible repeat' first
    | apply Action.Abides.bind | intro _ | apply Action.Abides.ite | apply hf | apply hc | apply he
    | apply hi | apply hh | apply Action.Abides.get | apply Action.Abides.pure | split

/-- The sidebar is flipped by a press of Triangle only. -/
theorem abides_shortcuts {r : Env α} {s : State α} (hr : Admits admits r) (hs : J s.sidebar)
    (hflip : s.input.pressed r.muted .triangle → Action.Abides admits J E Sidebar.flip) :
    ((shortcuts screen free).run r s).Abides (Admits admits) (fun s => J s.sidebar)
      (Event.Allowed E) := by
  have hd : Abides admits J E (dpad screen : Op α (Option Screen)) := abides_dpad hcollapse hexpand
  have ht (t : Touch α) : Abides admits J E (touchSidebar t) :=
    abides_touchSidebar hcollapse hexpand t
  have hi (f : Input α → Input α) : Abides admits J E (onInput f) := abides_onInput f
  have hp (b : Button) : Abides admits J E (pressed b : Op α Bool) := abides_pressed b
  by_cases hpress : s.input.pressed r.muted .triangle
  · have hf := abides_onSidebar (hflip hpress)
    refine (?_ : Abides admits J E (shortcuts screen free)) r s hr hs
    unfold shortcuts
    with_reducible repeat' first
      | apply Action.Abides.bind | intro _ | apply Action.Abides.ite | apply hf | apply hd
      | apply ht | apply hi | apply hp | apply Action.Abides.get | apply Action.Abides.pure | split
  -- without the press the flip is not reached, and asks nothing of the sidebar
  · have hquiet : (pressed .triangle : Op α Bool).run r s = .done s false := by
      rw [← Bool.eq_false_iff.2 hpress]
      rfl
    unfold shortcuts
    rw [run_bind, run_get, Step.bind_done, run_ite]
    split
    · exact hs
    · rw [run_bind, hquiet, Step.bind_done]
      dsimp only
      rw [if_neg Bool.false_ne_true]
      refine (?_ : Abides admits J E _) r s hr hs
      with_reducible repeat' first
        | apply Action.Abides.bind | intro _ | apply Action.Abides.ite | apply hd | apply ht
        | apply hi | apply Action.Abides.get | apply Action.Abides.pure | split

end Content

end Navigation

namespace Interface

/-- What the surroundings show of themselves to the sidebar is admitted. -/
def Admits [Scalar α] (admits : Sidebar.Env α → Prop) (r : Env α) : Prop :=
  admits ⟨r.now, r.settings.sane⟩

/-- If it is an event of the sidebar, then it is one of these. -/
def Event.Allowed (E : Sidebar.Event → Prop) : Event → Prop
  | .sidebar e => E e
  | _ => True

variable [Scalar α]

/-- The action of the interface that leaves the sidebar to calls that abide by this. -/
abbrev Abides (admits : Sidebar.Env α → Prop) (J : Sidebar.State α → Prop)
    (E : Sidebar.Event → Prop) (x : Op α β) : Prop :=
  Action.Abides (Admits admits) (fun u => J u.sidebar) (Event.Allowed E) x

theorem allowed_ofNavigation {e : Navigation.Event} (h : e.Allowed E) :
    (Event.ofNavigation e).Allowed E := by
  cases e with
  | sidebar e => exact h
  | focus e => trivial

theorem abides_run_onNavigation {x : Navigation.Op α β} {r : Env α} {u : Interface α}
    (hu : J u.sidebar)
    (hx : (x.run ⟨r.now, r.settings.sane, u.overlays.mute⟩
        ⟨u.focus, u.input, u.sidebar, u.icon⟩).Abides (Navigation.Admits admits)
      (fun s => J s.sidebar) (Navigation.Event.Allowed E)) :
    ((onNavigation x).run r u).Abides (Admits admits) (fun u => J u.sidebar) (Event.Allowed E) := by
  rw [onNavigation, run_within]
  refine hx.within ?_ ?_ ?_ ?_ hu
  · exact fun _ _ h => h
  · exact fun _ h => h
  · exact fun _ _ _ h => h
  · exact fun _ h => allowed_ofNavigation h

theorem abides_onNavigation {x : Navigation.Op α β} (hx : Navigation.Abides admits J E x) :
    Abides admits J E (onNavigation x) :=
  fun _ _ hr hu => abides_run_onNavigation hu (hx _ _ hr hu)

theorem abides_onController (x : Controller.Op α β) : Abides admits J E (onController x) :=
  .elsewhere (fun _ _ h => h) fun _ => trivial

theorem abides_onContact (x : Gesture.Op α α β) : Abides admits J E (onContact x) :=
  .elsewhere (fun _ _ h => h) nofun

theorem abides_onOverlay (o : Overlay) (x : Guard.Op β) : Abides admits J E (onOverlay o x) := by
  refine .elsewhere (fun _ _ h => h) fun e => ?_
  cases e <;> trivial

theorem abides_onInput (f : Input α → Input α) : Abides admits J E (onInput f) :=
  .modify fun _ hs => hs

theorem abides_dropContact : Abides admits J E (dropContact : Op α Unit) := .modify fun _ hs => hs

section Content

variable (hcollapse : Action.Abides admits J E (Sidebar.collapse true))
  (hexpand : Action.Abides admits J E Sidebar.expand)
include hcollapse hexpand

theorem abides_shortcuts {r : Env α} {u : Interface α} {screen : Screen} {free : Bool}
    (hr : Admits admits r) (hu : J u.sidebar)
    (hflip : u.input.pressed u.overlays.mute .triangle → Action.Abides admits J E Sidebar.flip) :
    ((shortcuts screen free).run r u).Abides (Admits admits) (fun u => J u.sidebar)
      (Event.Allowed E) := by
  have hn : ((onNavigation (Navigation.shortcuts screen free)).run r u).Abides (Admits admits)
      (fun u => J u.sidebar) (Event.Allowed E) :=
    abides_run_onNavigation hu (Navigation.abides_shortcuts hcollapse hexpand hr hu hflip)
  have hd : Abides admits J E (dropContact : Op α Unit) := abides_dropContact
  refine hn.bind hr fun next => (?_ : Abides admits J E _)
  with_reducible repeat' first
    | apply Action.Abides.bind | intro _ | apply Action.Abides.ite | apply hd
    | apply Action.Abides.get | apply Action.Abides.pure

/-- What the calls of the sidebar abide by that are asked for, the interface abides by. The use of
the content asks for a collapse or an expansion, and a press of Triangle for a flip. -/
theorem abides_run (htick : Action.Abides admits J E Sidebar.tick) {c : Call α} {r : Env α}
    {u : Interface α} (hr : Admits admits r) (hu : J u.sidebar)
    (hcall : ∀ d, c = .sidebar d → Action.Abides admits J E d.run)
    (hflip : ∀ screen free, c = .shortcuts screen free →
      u.input.pressed u.overlays.mute .triangle → Action.Abides admits J E Sidebar.flip) :
    (c.run.run r u).Abides (Admits admits) (fun u => J u.sidebar) (Event.Allowed E) := by
  have hd : Abides admits J E (dropContact : Op α Unit) := abides_dropContact
  have hi (f : Input α → Input α) : Abides admits J E (onInput f) := abides_onInput f
  have hs {x : Sidebar.Op α Unit} (hx : Action.Abides admits J E x) :
      Abides admits J E (onSidebar x) := abides_onNavigation (Navigation.abides_onSidebar hx)
  have hf {β : Type} (x : Focus.Op β) : Abides admits J E (onFocus x : Op α β) :=
    abides_onNavigation (Navigation.abides_onFocus x)
  cases c with
  | shortcuts screen free =>
    exact (abides_shortcuts hcollapse hexpand hr hu (hflip screen free rfl)).bind hr
      fun _ _ _ _ h => h
  | sample controls =>
    have hx : Abides admits J E (sample controls) := .bind (.modify fun _ h => h) fun _ => hi _
    exact hx.seqRight (.pure _) r u hr hu
  | cross screen =>
    have hx : Abides admits J E (cross screen : Op α Bool) :=
      abides_onNavigation (Navigation.abides_cross hcollapse)
    exact hx.map _ r u hr hu
  | gesture =>
    have hc (x : Gesture.Op α α (Gesture α α)) : Abides admits J E (onContact x) :=
      abides_onContact x
    refine Action.Abides.map _ ?_ r u hr hu
    unfold gesture
    with_reducible repeat' first
      | apply Action.Abides.bind | intro _ | apply Action.Abides.ite | apply hc | apply hd
      | apply hi | apply Action.Abides.get | apply Action.Abides.pure
  | controller => exact (abides_onController _).seqRight (.pure _) r u hr hu
  | animate => exact (hs htick).seqRight (.pure _) r u hr hu
  | switchTo screen =>
    have hc (x : Controller.Op α Unit) : Abides admits J E (onController x) :=
      abides_onController x
    have hh : Abides admits J E (onNavigation (modify (Navigation.highlightScreen screen))) :=
      abides_onNavigation (.modify fun s h => by
        unfold Navigation.highlightScreen
        split <;> exact h)
    refine Action.Abides.seqRight ?_ (.pure _) r u hr hu
    unfold switchTo
    with_reducible repeat' first
      | apply Action.Abides.bind | intro _ | apply Action.Abides.ite | apply hi | apply hd
      | apply hh | apply hf | apply hc | apply Action.Abides.get | apply Action.Abides.pure
  | focus c => exact (hf c.run).map _ r u hr hu
  | sidebar c => exact (hs (hcall c rfl)).seqRight (.pure _) r u hr hu
  | overlay o c => exact (abides_onOverlay o c.run).seqRight (.pure _) r u hr hu

end Content

end Interface

end HandheldUI
