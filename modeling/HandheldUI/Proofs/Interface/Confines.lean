import HandheldUI.Proofs.Focus.Sound
import HandheldUI.Interface

/-! Where the parts of the interface let the base owner go. The focus is written in three places: by
the sidebar's input, by a change of the screen, and by the overlays, which leave the base alone. -/

namespace HandheldUI

open HandheldUI.Action

variable {ρ ρ' σ σ' ε ε' ω ω' α β : Type} {A : Zone → Prop}

/-- Whatever the listeners do that keeps the focus based in `A`, the action does too. -/
abbrev Confines (A : Zone → Prop) (focus : σ → Focus) (x : Action ρ σ ε ω α) : Prop :=
  Maintains (fun _ => True) (fun s => (focus s).Based A) x

section

variable {v : View ρ' σ' ρ σ} {f : ε → ε'} {g : ω → ω'} {focus : σ' → Focus}

/-- The part holds the focus of the whole. -/
theorem keeps_within {part : σ → Focus} {x : Step ρ σ ε ω α} {t : σ'}
    (hx : x.Keeps (fun _ => True) fun s => (part s).Based A)
    (hget : ∀ t, part (v.get t) = focus t) (hput : ∀ s t, focus (v.put s t) = part s) :
    (x.within v f g t).Keeps (fun _ => True) fun t => (focus t).Based A := by
  refine hx.within (fun _ _ _ => trivial) ?_ ?_ ?_
  · intro t ht
    rwa [hget]
  · intro s t _ hs
    rwa [hput]
  · intro s hs
    rwa [hput]

namespace Confines

theorem within {part : σ → Focus} {x : Action ρ σ ε ω α} (hx : Confines A part x)
    (hget : ∀ t, part (v.get t) = focus t) (hput : ∀ s t, focus (v.put s t) = part s) :
    Confines A focus (x.within v f g) := by
  intro r t _ ht
  have hs : (part (v.get t)).Based A := by rwa [hget]
  exact keeps_within (hx _ _ trivial hs) hget hput

theorem elsewhere {x : Action ρ σ ε ω α} (h : ∀ s t, focus (v.put s t) = focus t) :
    Confines A focus (x.within v f g) := by
  refine Maintains.elsewhere ?_
  intro s t ht
  rwa [h]

end Confines

end

theorem Guard.confines_run (c : Guard.Call) : Confines A Seat.focus c.run := by
  have hf {x : Focus.Op Bool} (hx : Confines A id x) : Confines A Seat.focus (onFocus x) :=
    hx.within (fun _ => rfl) fun _ _ => rfl
  have hc := hf Focus.maintains_cover
  have hu : Confines A Seat.focus (discard (onFocus Focus.uncover)) :=
    (hf Focus.maintains_uncover).map _
  have hw (f : Guard → Guard) : Confines A Seat.focus (update f) := .modify fun _ hs => hs
  cases c with
  | raise =>
    unfold Call.run Guard.raise
    with_reducible repeat' first
      | apply Maintains.bind | intro _ | apply Maintains.ite | apply hc | apply hw
      | apply Maintains.get | apply Maintains.pure | apply Maintains.say
      | apply Maintains.announce
  | lower =>
    unfold Call.run Guard.lower
    with_reducible repeat' first
      | apply Maintains.bind | intro _ | apply Maintains.ite | apply hu | apply hw
      | apply Maintains.get | apply Maintains.pure | apply Maintains.say
      | apply Maintains.announce

namespace Navigation

theorem confines_onFocus {x : Focus.Op β} (hx : Confines A id x) :
    Confines A State.focus (onFocus x : Op α β) :=
  hx.within (fun _ => rfl) fun _ _ => rfl

theorem confines_toSidebar (hb : A .sidebar) :
    Confines A State.focus (onFocus Focus.toSidebar : Op α Unit) :=
  confines_onFocus (Focus.maintains_give hb)

theorem confines_toContent {screen : Screen} (hc : A screen.content) :
    Confines A State.focus (onFocus (Focus.toContent screen) : Op α Unit) :=
  confines_onFocus (Focus.maintains_give hc)

theorem confines_onSidebar (x : Sidebar.Op α β) : Confines A State.focus (onSidebar x) :=
  .elsewhere fun _ _ => rfl

theorem confines_pressed (b : Button) : Confines A State.focus (pressed b : Op α Bool) :=
  .bind .get fun _ => .bind .read fun _ => .pure _

theorem confines_highlight (icon : Nat) : Confines A State.focus (highlight icon : Op α Unit) :=
  .modify fun _ hs => hs

theorem confines_onInput (f : Input α → Input α) : Confines A State.focus (onInput f) :=
  .modify fun _ hs => hs

variable [Scalar α] {screen : Screen}

theorem confines_cross (hc : A screen.content) :
    Confines A State.focus (cross screen : Op α Bool) := by
  have ht := confines_toContent (α := α) hc
  have hs := confines_onSidebar (A := A) (α := α) (β := Unit)
  have hp := confines_pressed (A := A) (α := α)
  unfold cross
  with_reducible repeat' first
    | apply Maintains.bind | intro _ | apply Maintains.ite | apply ht | apply hs | apply hp
    | apply Maintains.get | apply Maintains.say | apply Maintains.pure

theorem confines_dpad (hb : A .sidebar) (hc : A screen.content) :
    Confines A State.focus (dpad screen : Op α (Option Screen)) := by
  have ht := confines_toContent (α := α) hc
  have hl := confines_toSidebar (α := α) hb
  have hs := confines_onSidebar (A := A) (α := α) (β := Unit)
  have hp := confines_pressed (A := A) (α := α)
  have hh := confines_highlight (A := A) (α := α)
  unfold dpad
  with_reducible repeat' first
    | apply Maintains.bind | intro _ | apply Maintains.ite | apply ht | apply hl | apply hs
    | apply hp | apply hh | apply Maintains.get | apply Maintains.say | apply Maintains.pure

theorem confines_touchSidebar (hb : A .sidebar) (t : Touch α) :
    Confines A State.focus (touchSidebar t) := by
  have hl := confines_toSidebar (α := α) hb
  have hs := confines_onSidebar (A := A) (α := α) (β := Unit)
  have hh := confines_highlight (A := A) (α := α)
  have hi := confines_onInput (A := A) (α := α)
  unfold touchSidebar
  with_reducible repeat' first
    | apply Maintains.bind | intro _ | apply Maintains.ite | apply hl | apply hs | apply hh
    | apply hi | apply Maintains.get | apply Maintains.pure | split

theorem confines_shortcuts (hb : A .sidebar) (hc : A screen.content) (free : Bool) :
    Confines A State.focus (shortcuts screen free : Op α (Option Screen)) := by
  have hd := confines_dpad (α := α) hb hc
  have ht := confines_touchSidebar (α := α) hb
  have hs := confines_onSidebar (A := A) (α := α) (β := Unit)
  have hp := confines_pressed (A := A) (α := α)
  have hi := confines_onInput (A := A) (α := α)
  unfold shortcuts
  with_reducible repeat' first
    | apply Maintains.bind | intro _ | apply Maintains.ite | apply hd | apply ht | apply hs
    | apply hp | apply hi | apply Maintains.get | apply Maintains.pure | split

end Navigation

namespace Interface

theorem confines_onController (x : Controller.Op α β) : Confines A focus (onController x) :=
  .elsewhere fun _ _ => rfl

theorem confines_onContact [Scalar α] (x : Gesture.Op α α β) : Confines A focus (onContact x) :=
  .elsewhere fun _ _ => rfl

theorem confines_onInput (f : Input α → Input α) : Confines A focus (onInput f) :=
  .modify fun _ hs => hs

theorem confines_dropContact : Confines A focus (dropContact : Op α Unit) := .modify fun _ hs => hs

theorem confines_onOverlay (o : Overlay) (c : Guard.Call) :
    Confines A focus (onOverlay o c.run : Op α Unit) :=
  (Guard.confines_run c).within (fun _ => rfl) fun _ _ => rfl

variable [Scalar α] {screen : Screen}

theorem confines_onNavigation {x : Navigation.Op α β} (hx : Confines A Navigation.State.focus x) :
    Confines A focus (onNavigation x) :=
  hx.within (fun _ => rfl) fun _ _ => rfl

/-- The call gives the input at most to the sidebar and to the content of `screen`. -/
def Call.keepsTo (screen : Screen) : Call α → Prop
  | cross s | shortcuts s _ => s = screen
  | focus c => ∀ z ∈ c.zone?, z = .sidebar ∨ z = screen.content
  | switchTo _ => False
  | _ => True

theorem confines_run (hb : A .sidebar) (hc : A screen.content) {c : Call α}
    (h : c.keepsTo screen) : Confines A focus c.run := by
  have hd := confines_dropContact (A := A) (α := α)
  have hi := confines_onInput (A := A) (α := α)
  have hs (x : Sidebar.Op α Unit) :=
    confines_onNavigation (A := A) (Navigation.confines_onSidebar x)
  cases c with
  | sample controls => exact .seqRight (.bind (.modify fun _ hs => hs) fun _ => hi _) (.pure _)
  | cross s =>
    subst h
    exact (confines_onNavigation (Navigation.confines_cross hc)).map _
  | shortcuts s free =>
    subst h
    have hn := confines_onNavigation (Navigation.confines_shortcuts (α := α) hb hc free)
    refine .map _ ?_
    unfold shortcuts
    with_reducible repeat' first
      | apply Maintains.bind | intro _ | apply Maintains.ite | apply hn | apply hd
      | apply Maintains.get | apply Maintains.pure
  | gesture =>
    have hg := confines_onContact (A := A) (α := α) (β := Gesture α α)
    refine .map _ ?_
    unfold gesture
    with_reducible repeat' first
      | apply Maintains.bind | intro _ | apply Maintains.ite | apply hg | apply hd | apply hi
      | apply Maintains.get | apply Maintains.pure
  | controller => exact .seqRight (confines_onController _) (.pure _)
  | animate => exact .seqRight (hs _) (.pure _)
  | switchTo s => exact h.elim
  | focus c =>
    have hz : ∀ z ∈ c.zone?, A z := by
      intro z hz
      rcases h z hz with rfl | rfl
      · exact hb
      · exact hc
    exact (confines_onNavigation (Navigation.confines_onFocus (Focus.maintains_run c hz))).map _
  | sidebar c => exact .seqRight (hs _) (.pure _)
  | overlay o c => exact .seqRight (confines_onOverlay o c) (.pure _)

end Interface

end HandheldUI
