import HandheldUI.Proofs.Interface.BaseZone
import HandheldUI.Proofs.Interface.Muted
import HandheldUI.Proofs.Navigation.Icons

/-! The screen that the shortcuts lead to, over whole runs of the interface. Two things hold at any
time and are all that the answer of the last call needs: an icon is highlighted, and the covers of the
focus are overlays'. -/

namespace HandheldUI

open HandheldUI.Action

variable {α β : Type}

namespace Navigation

/-- Whatever the listeners do that keeps an icon highlighted, the action does too. -/
abbrev KeepsIcon (x : Op α β) : Prop :=
  Maintains (fun _ => True) (fun s : State α => s.icon < iconCount) x

theorem keepsIcon_onFocus (x : Focus.Op β) : KeepsIcon (onFocus x : Op α β) :=
  .elsewhere fun _ _ hs => hs

theorem keepsIcon_onSidebar (x : Sidebar.Op α β) : KeepsIcon (onSidebar x) :=
  .elsewhere fun _ _ hs => hs

theorem keepsIcon_pressed (b : Button) : KeepsIcon (pressed b : Op α Bool) :=
  .bind .get fun _ => .bind .read fun _ => .pure _

theorem keepsIcon_onInput (f : Input α → Input α) : KeepsIcon (onInput f) :=
  .modify fun _ hs => hs

theorem keepsIcon_highlight {icon : Nat} (h : icon < iconCount) :
    KeepsIcon (highlight icon : Op α Unit) :=
  .modify fun _ _ => h

theorem keepsIcon_highlightScreen (screen : Screen) :
    KeepsIcon (modify (highlightScreen screen) : Op α Unit) := by
  refine .modify fun s hs => ?_
  unfold highlightScreen
  split
  · next icon h => exact (List.findIdx?_eq_some_iff_getElem.1 h).1
  · exact hs

variable [Scalar α]

theorem lt_of_iconUnder? {p : Point α} {icon : Nat} (h : iconUnder? p = some icon) :
    icon < iconCount := by
  obtain ⟨hlt, -⟩ := List.findIdx?_eq_some_iff_getElem.1 h
  simpa [Sidebar.icons, iconCount] using hlt

theorem keepsIcon_cross (screen : Screen) : KeepsIcon (cross screen : Op α Bool) := by
  unfold cross
  with_reducible repeat' first
    | apply Maintains.bind | intro _ | apply Maintains.ite | apply keepsIcon_onFocus
    | apply keepsIcon_onSidebar | apply keepsIcon_pressed | apply Maintains.get
    | apply Maintains.say | apply Maintains.pure

theorem keepsIcon_dpad (screen : Screen) : KeepsIcon (dpad screen : Op α (Option Screen)) := by
  have hcount (n : Nat) : n % iconCount < iconCount := Nat.mod_lt n (by decide)
  unfold dpad
  with_reducible repeat' first
    | apply Maintains.bind | intro _ | apply Maintains.ite | apply keepsIcon_onFocus
    | apply keepsIcon_onSidebar | apply keepsIcon_pressed | exact keepsIcon_highlight (hcount _)
    | apply Maintains.get | apply Maintains.say | apply Maintains.pure

theorem keepsIcon_touchSidebar (t : Touch α) : KeepsIcon (touchSidebar t) := by
  unfold touchSidebar
  with_reducible repeat' first
    | apply Maintains.bind | intro _ | apply Maintains.ite | apply keepsIcon_onFocus
    | apply keepsIcon_onSidebar | apply keepsIcon_onInput
    | exact keepsIcon_highlight (lt_of_iconUnder? ‹_›) | apply Maintains.get
    | apply Maintains.pure | split

theorem keepsIcon_shortcuts (screen : Screen) (free : Bool) :
    KeepsIcon (shortcuts screen free : Op α (Option Screen)) := by
  unfold shortcuts
  with_reducible repeat' first
    | apply Maintains.bind | intro _ | apply Maintains.ite | apply keepsIcon_dpad
    | apply keepsIcon_touchSidebar | apply keepsIcon_onSidebar | apply keepsIcon_pressed
    | apply keepsIcon_onInput | apply Maintains.get | apply Maintains.pure | split

end Navigation

namespace Interface

section Invariants

/-- Whatever the listeners do that keeps an icon highlighted, the action does too. -/
abbrev KeepsIcon (x : Op α β) : Prop :=
  Maintains (fun _ => True) (fun u : Interface α => u.icon < Navigation.iconCount) x

theorem keepsIcon_onController (x : Controller.Op α β) : KeepsIcon (onController x) :=
  .elsewhere fun _ _ hu => hu

theorem keepsIcon_onOverlay (o : Overlay) (x : Guard.Op β) : KeepsIcon (onOverlay o x : Op α β) :=
  .elsewhere fun _ _ hu => hu

theorem keepsIcon_onInput (f : Input α → Input α) : KeepsIcon (onInput f) :=
  .modify fun _ hu => hu

theorem keepsIcon_dropContact : KeepsIcon (dropContact : Op α Unit) := .modify fun _ hu => hu

variable [Scalar α]

theorem keepsIcon_onContact (x : Gesture.Op α α β) : KeepsIcon (onContact x) :=
  .elsewhere fun _ _ hu => hu

theorem keepsIcon_onNavigation {x : Navigation.Op α β} (hx : Navigation.KeepsIcon x) :
    KeepsIcon (onNavigation x) :=
  hx.within (fun _ _ _ => trivial) (fun _ hu => hu) fun _ _ _ hs => hs

theorem keepsIcon_run (c : Call α) : KeepsIcon c.run := by
  have hs (x : Sidebar.Op α Unit) : KeepsIcon (onSidebar x) :=
    keepsIcon_onNavigation (Navigation.keepsIcon_onSidebar x)
  have hf {γ : Type} (x : Focus.Op γ) : KeepsIcon (onFocus x : Op α γ) :=
    keepsIcon_onNavigation (Navigation.keepsIcon_onFocus x)
  cases c with
  | sample controls =>
    exact .seqRight (.bind (.modify fun _ hu => hu) fun _ => keepsIcon_onInput _) (.pure _)
  | cross screen => exact (keepsIcon_onNavigation (Navigation.keepsIcon_cross screen)).map _
  | shortcuts screen free =>
    have hn := keepsIcon_onNavigation (Navigation.keepsIcon_shortcuts (α := α) screen free)
    refine .map _ ?_
    unfold shortcuts
    with_reducible repeat' first
      | apply Maintains.bind | intro _ | apply Maintains.ite | apply hn
      | apply keepsIcon_dropContact | apply Maintains.get | apply Maintains.pure
  | gesture =>
    refine .map _ ?_
    unfold gesture
    with_reducible repeat' first
      | apply Maintains.bind | intro _ | apply Maintains.ite | apply keepsIcon_onContact
      | apply keepsIcon_dropContact | apply keepsIcon_onInput | apply Maintains.get
      | apply Maintains.pure
  | controller => exact .seqRight (keepsIcon_onController _) (.pure _)
  | animate => exact .seqRight (hs _) (.pure _)
  | switchTo screen =>
    have hn := keepsIcon_onNavigation (Navigation.keepsIcon_highlightScreen (α := α) screen)
    refine .seqRight ?_ (.pure _)
    unfold switchTo
    with_reducible repeat' first
      | apply Maintains.bind | intro _ | apply Maintains.ite | apply hn | apply hf
      | apply keepsIcon_onController | apply keepsIcon_dropContact | apply keepsIcon_onInput
      | apply Maintains.get | apply Maintains.pure
  | focus c => exact (hf _).map _
  | sidebar c => exact .seqRight (hs _) (.pure _)
  | overlay o c => exact .seqRight (keepsIcon_onOverlay o _) (.pure _)

/-- No call makes the focus unsound. -/
theorem confines_run_of_all (c : Call α) : Confines (fun _ => True) focus c.run := by
  have apt (screen : Screen) (h : c.keepsTo screen) : Confines (fun _ => True) focus c.run :=
    confines_run trivial trivial h
  cases c with
  | cross screen => exact apt screen rfl
  | shortcuts screen free => exact apt screen rfl
  | switchTo screen =>
    refine .seqRight (fun r s _ hs => ?_) (.pure _)
    exact keeps_switchTo hs.sound trivial (.inr trivial) r
  | focus c =>
    exact (confines_onNavigation
      (Navigation.confines_onFocus (Focus.maintains_run c fun _ _ => trivial))).map _
  | sample | gesture | controller | animate | sidebar | overlay => exact apt .main trivial

variable (h : List (Env α × Call α))

theorem occurs_reached : Occurs (fun _ => True) Call.run initial (reached Call.run initial h) := by
  have ⟨trace, run⟩ : ∃ trace, Calls (fun _ => True) Call.run initial trace
      (reached Call.run initial h) := calls_quietRun Call.run h (fun _ _ => trivial) initial
  exact ⟨trace, _, run, .inl rfl⟩

theorem icon_reached_lt : (reached Call.run initial h).icon < Navigation.iconCount := by
  have hi : (initial : Interface α).icon < Navigation.iconCount := Nat.succ_pos 3
  exact Maintains.occurs keepsIcon_run hi (occurs_reached h)

theorem sound_reached : (reached Call.run initial h).focus.Sound := by
  have hi : (initial : Interface α).focus.Based fun _ => True := ⟨Focus.sound_initial, trivial⟩
  have hb : (reached Call.run initial h).focus.Based fun _ => True :=
    Maintains.occurs confines_run_of_all hi (occurs_reached h)
  exact hb.sound

end Invariants

/-- What a screen comes out of the shortcuts with. The screen is that of the icon which is
highlighted, and the sidebar has the input, is not in, and is not covered. -/
structure Chosen (free : Bool) (u t : Interface Float) (shown : Screen) : Prop where
  screen : (Sidebar.icons[t.icon]? : Option (Sidebar.Icon Float)).map Sidebar.Icon.screen = some shown
  focus : t.focus.inSidebar
  bare : t.focus.depth = 0
  out : ¬t.sidebar.isIn
  cause : free ∧ u.input.pressed u.overlays.mute .cross ∨
    t.input.touchBarred ∧ u.input.touch.down ∧ Navigation.OnlyNear t.icon u.input.touch.point

theorem screen_icons {icon : Nat} (h : icon < Navigation.iconCount) :
    (Sidebar.icons[icon]? : Option (Sidebar.Icon Float)).map Sidebar.Icon.screen =
      some (Navigation.iconScreen icon) := by
  have hs : Screen.inSidebar[icon]? = some Screen.inSidebar[icon] := List.getElem?_eq_getElem h
  rw [Sidebar.icons, List.getElem?_mapIdx, hs, Navigation.iconScreen, List.getD_eq_getElem?_getD, hs]
  rfl

/-- An icon is always highlighted. A screen that the shortcuts answer with is that of the icon which
is highlighted then, on a sidebar that is not in, has the input and is not covered; and it comes from
Cross, or from a finger on this icon and no other, which is barred from then on. -/
theorem chosen_by_shortcuts (h : List (Env Float × Call Float)) :
    let u := reached Call.run initial h
    u.icon < 4 ∧ ∀ (r : Env Float) (screen shown : Screen) (free : Bool),
      let x := (Call.shortcuts screen free).run.quiet r u
      x.value = .goTo (some shown) → Chosen free u x.state shown := by
  intro u
  refine ⟨icon_reached_lt h, fun r screen shown free => ?_⟩
  intro x hx
  obtain ⟨hv, hn, -, -⟩ := quiet_run_shortcuts (r := r) (s := u) screen free
  have hshown := Answer.goTo.inj (hv.symm.trans hx)
  have hd : u.focus.depth = 0 := by
    by_contra hd
    have hc : u.focus.isCovered := (sound_reached h).isCovered_iff.2 (Nat.pos_of_ne_zero hd)
    have hnone := quiet_of_covered hc (c := .shortcuts screen free) rfl r
    rw [show x = _ from hnone] at hx
    cases hx
  have hicon : x.state.icon < Navigation.iconCount := by
    have hr := icon_reached_lt (h ++ [(r, .shortcuts screen free)])
    rwa [reached_concat] at hr
  obtain ⟨hchose, hcause⟩ := Navigation.chose_shortcuts (s := u.asNavigation) hd hshown
  rw [← hn] at hchose hcause
  refine ⟨?_, hchose.focus, hchose.bare, hchose.out, hcause.imp_right fun hc => ?_⟩
  · rw [screen_icons hicon, hchose.screen]
    rfl
  · exact ⟨hc.1, hc.2.1, Navigation.onlyNear_of_iconUnder? hc.2.2⟩

/-- The sidebar is asked for and comes out, and a finger goes down on its second icon. -/
def secondIcon : List (Env Float × Call Float) :=
  [({ now := 0, settings := .standard }, .sidebar .expand),
    ({ now := 1000000, settings := .standard }, .animate),
    ({ now := 1016000, settings := .standard }, .sample ⟨[], [], ⟨true, ⟨60, 220⟩⟩⟩)]

theorem chosen_by_shortcuts_secondIcon :
    let r : Env Float := { now := 1016000, settings := .standard }
    let u := reached Call.run initial secondIcon
    let x := (Call.shortcuts .main true).run.quiet r u
    x.value = .goTo (some .settings) ∧ Chosen true u x.state .settings ∧ x.state.icon = 1 := by
  intro r u x
  have hx : x.value = .goTo (some .settings) := by
    rw [show x.value = _ from (quiet_run_shortcuts .main true).1]
    exact congrArg Answer.goTo (by decide +kernel)
  exact ⟨hx, (chosen_by_shortcuts secondIcon).2 r .main .settings true hx, by decide +kernel⟩

end Interface

end HandheldUI
