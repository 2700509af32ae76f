import Mathlib.Data.List.Forall2
import HandheldUI.Interface
import HandheldUI.Proofs.Action.Alike
import HandheldUI.Proofs.Action.History

/-! A finger whose touch is barred. Where it is on the screen shows nowhere: not in what is
announced, said or answered, and not in the state but for the point that was sampled. -/

namespace HandheldUI

open HandheldUI.Action

variable {α β : Type}

namespace Input

/-- The same input with the finger at another point. -/
def fingerAt (p : Point α) (i : Input α) : Input α := { i with now.touch.point := p }

variable {ρ ρ' σ σ' ε ε' ω ω' : Type} {v : View Unit σ Unit (Input α)}

def moved (v : View Unit σ Unit (Input α)) (p : Point α) (s : σ) : σ :=
  v.put ((v.get s).fingerAt p) s

/-- The finger is down and barred, and where it is makes the only difference. -/
def Veiled (v : View Unit σ Unit (Input α)) (s t : σ) : Prop :=
  (v.get s).touchBarred ∧ (v.get s).touch.down ∧ ∃ p, t = moved v p s

/-- Nothing shows where a barred finger is. -/
abbrev Blind (v : View Unit σ Unit (Input α)) (x : Action ρ σ ε ω β) : Prop :=
  Alike (Veiled v) (fun _ => True) x

namespace Blind

/-- What is read of the state is not the point. -/
theorem get_bind {f : σ → Action ρ σ ε ω β} (hf : ∀ s p, f (moved v p s) = f s)
    (h : ∀ s, Blind v (f s)) : Blind v (MonadState.get >>= f) := by
  refine Alike.get_bind ?_
  intro r s t hst
  have ht := hst
  obtain ⟨-, -, p, rfl⟩ := ht
  rw [hf]
  exact h s r s _ hst

theorem modify {g : σ → σ} (hi : ∀ s, v.get (g s) = v.get s)
    (hg : ∀ s p, g (moved v p s) = moved v p (g s)) :
    Blind v (modify g : Action ρ σ ε ω Unit) := by
  refine Alike.modify ?_
  intro s t hst
  obtain ⟨hb, hd, p, rfl⟩ := hst
  rw [hg]
  exact ⟨by rwa [hi], by rwa [hi], p, rfl⟩

/-- A part of the state that does not have the input. -/
theorem elsewhere {w : View ρ σ ρ' σ'} {f : ε' → ε} {g : ω' → ω} (x : Action ρ' σ' ε' ω' β)
    (he : ∀ r s p, w.env r (moved v p s) = w.env r s) (hg : ∀ s p, w.get (moved v p s) = w.get s)
    (hp : ∀ a s p, w.put a (moved v p s) = moved v p (w.put a s))
    (hi : ∀ a s, v.get (w.put a s) = v.get s) : Blind v (x.within w f g) := by
  refine .within (.eq x) ?_ ?_ ?_ fun _ _ => trivial
  · intro r s t hst
    obtain ⟨-, -, p, rfl⟩ := hst
    exact (he r s p).symm
  · intro s t hst
    obtain ⟨-, -, p, rfl⟩ := hst
    exact (hg s p).symm
  · intro a b s t hab hst
    obtain ⟨hb, hd, p, rfl⟩ := hst
    rw [← hab, hp]
    exact ⟨by rwa [hi], by rwa [hi], p, rfl⟩

/-- A barred finger that is still down is left alone at once. -/
theorem of_barred (a : β) {f : σ → Action ρ σ ε ω β}
    (h : ∀ s, ((v.get s).touchBarred && !(v.get s).touchDone) = true → f s = Pure.pure a) :
    Blind v (MonadState.get >>= f) := by
  have bar {i : Input α} (hb : i.touchBarred) (hd : i.touch.down) :
      (i.touchBarred && !i.touchDone) = true := by
    simp [touchDone, hb, hd]
  refine Alike.get_bind ?_
  intro r s t hst
  have ht := hst
  obtain ⟨hb, hd, p, rfl⟩ := ht
  -- moving the finger leaves it down and barred, so that both runs stop here
  have hm : v.get (moved v p s) = (v.get s).fingerAt p := v.get_put _ _
  rw [h s (bar hb hd), h (moved v p s) (by rw [hm]; exact bar hb hd)]
  exact .done hst

end Blind

end Input

open Input

namespace Navigation

def State.setInput (s : State α) (i : Input α) : State α := { s with input := i }

def inputView : View Unit (State α) Unit (Input α) where
  env _ _ := ()
  get s := s.input
  put i s := s.setInput i

theorem blind_pressed (b : Button) : Blind inputView (pressed b : Op α Bool) :=
  Blind.get_bind (fun _ _ => rfl) fun _ => .bind .read fun _ => .pure _

theorem blind_onFocus (x : Focus.Op β) : Blind inputView (onFocus x : Op α β) :=
  .elsewhere x (fun _ _ _ => rfl) (fun _ _ => rfl) (fun _ _ _ => rfl) fun _ _ => rfl

theorem blind_onSidebar (x : Sidebar.Op α β) : Blind inputView (onSidebar x) :=
  .elsewhere x (fun _ _ _ => rfl) (fun _ _ => rfl) (fun _ _ _ => rfl) fun _ _ => rfl

variable [Scalar α]

theorem blind_cross (screen : Screen) : Blind inputView (cross screen : Op α Bool) := by
  have hp := blind_pressed (α := α)
  have hf := blind_onFocus (α := α) (β := Unit)
  have hs := blind_onSidebar (α := α) (β := Unit)
  unfold cross
  with_reducible repeat' first
    | apply Alike.ite | apply hp | apply hf | apply hs
    | apply Blind.get_bind fun _ _ => rfl
    | apply Alike.say trivial | apply Alike.pure | apply Alike.bind | intro _

/-- The sidebar does not get to see a barred finger. -/
theorem blind_shortcuts (screen : Screen) (free : Bool) :
    Blind inputView (shortcuts screen free : Op α (Option Screen)) := by
  have hp := blind_pressed (α := α)
  have hs := blind_onSidebar (α := α) (β := Unit)
  unfold shortcuts
  refine Blind.get_bind (fun _ _ => rfl) fun s => .ite (.pure _) (.bind (hp _) fun b => ?_)
  -- whether or not the button toggles the sidebar, the touch is looked at next
  extract_lets go
  have hgo (u : Unit) : Blind inputView (go u) := by
    exact .of_barred none fun s hs => if_pos hs
  exact .ite (.bind (hs _) hgo) (hgo ())

omit [Scalar α] in
theorem blind_highlightScreen (screen : Screen) :
    Blind inputView (modify (highlightScreen screen) : Op α Unit) := by
  unfold highlightScreen
  split
  · exact .modify (fun _ => rfl) fun _ _ => rfl
  · exact .modify (fun _ => rfl) fun _ _ => rfl

end Navigation

namespace Controller

def inputView : View Unit (State α) Unit (Input α) where
  env _ _ := ()
  get s := s.input
  put i s := { s with input := i }

theorem blind_pressed (b : Button) : Blind inputView (pressed b : Op α Bool) :=
  Blind.get_bind (fun _ _ => rfl) fun _ => .bind .read fun _ => .pure _

theorem blind_released (b : Button) : Blind inputView (released b : Op α Bool) :=
  Blind.get_bind (fun _ _ => rfl) fun _ => .bind .read fun _ => .pure _

theorem blind_drag (p : Panel) : Blind inputView (drag p : Op α (Drag α)) :=
  Blind.get_bind (fun _ _ => rfl) fun _ => .pure _

theorem blind_onPages (f : Pages α → Pages α) : Blind inputView (onPages f) :=
  .modify (fun _ => rfl) fun _ _ => rfl

theorem blind_onDrag (p : Panel) (f : Drag α → Drag α) : Blind inputView (onDrag p f) :=
  blind_onPages _

theorem blind_clear (p : Panel) : Blind inputView (clear p : Op α Unit) :=
  .modify (fun _ => rfl) fun _ _ => rfl

theorem blind_onSelection (p : Panel) (x : Selection.Op α β) : Blind inputView (onSelection p x) :=
  .elsewhere x (fun _ _ _ => rfl) (fun _ _ => rfl) (fun _ _ _ => rfl) fun _ _ => rfl

theorem blind_startAfresh : Blind inputView (startAfresh : Op α Unit) :=
  .bind (blind_clear _) fun _ => .bind (blind_clear _) fun _ => .bind (blind_onDrag _ _) fun _ =>
    .bind (blind_onDrag _ _) fun _ => blind_onPages _

theorem blind_handOver (p : Panel) : Blind inputView (handOver p : Op α Unit) :=
  Blind.get_bind (fun _ _ => rfl) fun _ => .bind (blind_clear _) fun _ =>
    .ite (.bind (.say trivial) fun _ => .announce _) (.pure _)

variable [Scalar α]

theorem blind_turnTo (new : Page) : Blind inputView (turnTo new : Op α Unit) := by
  have hs := blind_startAfresh (α := α)
  have hp := blind_onPages (α := α)
  have hd := blind_onDrag (α := α)
  unfold turnTo
  with_reducible repeat' first
    | apply Alike.ite | apply hs | apply hp | apply hd
    | apply Blind.get_bind fun _ _ => rfl
    | apply Alike.say trivial | apply Alike.announce | apply Alike.pure | apply Alike.bind
    | intro _ | split

theorem blind_dpad (p : Panel) : Blind inputView (dpad p : Op α Unit) := by
  have hp := blind_pressed (α := α)
  have hd (rows cols : α) : Blind inputView (step p rows cols) := blind_onDrag _ _
  unfold dpad
  with_reducible repeat' first
    | apply Alike.ite | apply hp | apply hd | apply Alike.pure | apply Alike.bind | intro _

theorem blind_holdCross (p : Panel) : Blind inputView (holdCross p : Op α Unit) := by
  have hp := blind_pressed (α := α)
  have hr := blind_released (α := α)
  have hd := blind_onDrag (α := α)
  have hc := blind_clear (α := α)
  have hs := blind_onSelection (α := α) (β := Unit)
  have hg := blind_drag (α := α)
  have hh := blind_handOver (α := α)
  unfold holdCross
  with_reducible repeat' first
    | apply Alike.ite | apply hp | apply hr | apply hd | apply hc | apply hs | apply hg | apply hh
    | apply Alike.pure | apply Alike.bind | intro _

/-- The summary does not get to see a barred finger. -/
theorem blind_summaryTouch (d : Rect α) : Blind inputView (summaryTouch d) := by
  unfold summaryTouch
  exact .of_barred () fun s hs => if_pos hs

/-- A grid does not get to see a barred finger. -/
theorem blind_dragTouch (p : Panel) (d : Rect α) : Blind inputView (dragTouch p d) := by
  unfold dragTouch
  exact .of_barred () fun s hs => if_pos hs

theorem blind_gridInput (p : Panel) (d : Rect α) : Blind inputView (gridInput p d) := by
  have ht := blind_dragTouch (α := α)
  have hd := blind_dpad (α := α) p
  have hs := blind_onSelection (α := α) (β := Unit)
  have hg := blind_drag (α := α) p
  have hp := blind_pressed (α := α)
  have hh := blind_holdCross (α := α) p
  unfold gridInput
  with_reducible repeat' first
    | apply Alike.ite | apply ht | apply hd | apply hs | apply hg | apply hp | apply hh
    | apply Blind.get_bind fun _ _ => rfl
    | apply Alike.announce | apply Alike.pure | apply Alike.bind | intro _

theorem blind_respond : Blind inputView (respond : Op α Unit) := by
  have hp := blind_pressed (α := α) .circle
  have ht := blind_turnTo (α := α) .summary
  unfold respond
  refine .bind .read fun env => .ite (.pure _) (Blind.get_bind (fun _ _ => rfl) fun s => ?_)
  split
  · exact blind_summaryTouch _
  · exact .bind hp fun _ => .ite ht (blind_gridInput _ _)

end Controller

namespace Interface

/-- The finger is down and barred, and where it is makes the only difference. -/
def Veiled (s t : Interface α) : Prop :=
  s.input.touchBarred ∧ s.input.touch.down ∧
    ∃ p q, t = { s with raw.touch.point := p, input := s.input.fingerAt q }

/-- Nothing shows where a barred finger is, and no target is looked up. -/
abbrev Blind (x : Op α β) : Prop := Alike Veiled (fun o => ∀ p, o ≠ .lookedUp p) x

theorem Blind.get_bind {f : Interface α → Op α β}
    (hf : ∀ s p q, f { s with raw.touch.point := p, input := s.input.fingerAt q } = f s)
    (h : ∀ s, Blind (f s)) : Blind (MonadState.get >>= f) := by
  refine Alike.get_bind ?_
  rintro r s _ ⟨hb, hd, p, q, rfl⟩
  rw [hf]
  exact h s r s _ ⟨hb, hd, p, q, rfl⟩

theorem blind_dropContact : Blind (dropContact : Op α Unit) := by
  refine .modify ?_
  rintro s _ ⟨hb, hd, p, q, rfl⟩
  exact ⟨hb, hd, p, q, rfl⟩

theorem blind_onController {x : Controller.Op α β} (hx : Input.Blind Controller.inputView x) :
    Blind (onController x) := by
  refine .within hx ?_ ?_ ?_ ?_
  · rintro r s _ ⟨-, -, p, q, rfl⟩
    rfl
  · rintro s _ ⟨hb, hd, p, q, rfl⟩
    exact ⟨hb, hd, q, rfl⟩
  · rintro a _ s _ ⟨hb, hd, q, rfl⟩ ⟨-, -, p, -, rfl⟩
    exact ⟨hb, hd, p, q, rfl⟩
  · simp

theorem blind_onOverlay (o : Overlay) (x : Guard.Op β) : Blind (onOverlay o x : Op α β) := by
  refine .within (.eq x) ?_ ?_ ?_ ?_
  · rintro r s _ -
    rfl
  · rintro s _ ⟨-, -, p, q, rfl⟩
    rfl
  · rintro a _ s _ rfl ⟨hb, hd, p, q, rfl⟩
    exact ⟨hb, hd, p, q, rfl⟩
  · rintro (_ | _) - p <;> simp [Note.ofSeat]

variable [Scalar α]

theorem blind_onNavigation {x : Navigation.Op α β} (hx : Input.Blind Navigation.inputView x) :
    Blind (onNavigation x) := by
  refine .within hx ?_ ?_ ?_ ?_
  · rintro r s _ ⟨-, -, p, q, rfl⟩
    rfl
  · rintro s _ ⟨hb, hd, p, q, rfl⟩
    exact ⟨hb, hd, q, rfl⟩
  · rintro a _ s _ ⟨hb, hd, q, rfl⟩ ⟨-, -, p, -, rfl⟩
    exact ⟨hb, hd, p, q, rfl⟩
  · rintro (_ | _ | _ | _) - p <;> simp [Note.ofNavigation]

theorem blind_gesture : Blind (gesture : Op α (Gesture α α)) := by
  have idle {r : Env α} {s : Interface α} (hb : s.input.touchBarred) (hd : s.input.touch.down) :
      gesture.run r s = .done s .idle := by
    unfold gesture
    simp [hb, hd, Input.touchDone]
  intro r s t hst
  have ht := hst
  obtain ⟨hb, hd, p, q, rfl⟩ := ht
  -- the bar comes before the point, so that no target is looked up
  rw [idle hb hd, idle (s := { s with raw.touch.point := p, input := s.input.fingerAt q }) hb hd]
  exact .done hst

theorem blind_shortcuts (screen : Screen) (free : Bool) :
    Blind (shortcuts screen free : Op α (Option Screen)) := by
  have hn := blind_onNavigation (Navigation.blind_shortcuts (α := α) screen free)
  have hd := blind_dropContact (α := α)
  unfold shortcuts
  with_reducible repeat' first
    | apply Alike.ite | apply hn | apply hd
    | apply Blind.get_bind fun _ _ _ => rfl | apply Alike.pure | apply Alike.bind | intro _

theorem blind_switchTo (screen : Screen) : Blind (switchTo screen : Op α Unit) := by
  have hi : Blind (onInput Input.barAll : Op α Unit) := by
    refine .modify ?_
    rintro s _ ⟨-, hd, p, q, rfl⟩
    exact ⟨rfl, hd, p, q, rfl⟩
  have hd := blind_dropContact (α := α)
  have hh := blind_onNavigation (Navigation.blind_highlightScreen (α := α) screen)
  have hf : Blind (onFocus (Focus.toContent screen) : Op α Unit) :=
    blind_onNavigation (Navigation.blind_onFocus _)
  have ht := blind_onController (Controller.blind_turnTo (α := α) .summary)
  unfold switchTo
  with_reducible repeat' first
    | apply Alike.ite | apply hi | apply hd | apply hh | apply hf | apply ht
    | apply Blind.get_bind fun _ _ _ => rfl | apply Alike.pure | apply Alike.bind | intro _

/-- The same call, but for where the finger is that a sample finds down. -/
inductive Call.SameButPoint : Call α → Call α → Prop where
  | sample (held before : List Button) (p q : Point α) :
    SameButPoint (.sample ⟨held, before, ⟨true, p⟩⟩) (.sample ⟨held, before, ⟨true, q⟩⟩)
  | other (c : Call α) : (∀ controls, c ≠ .sample controls) → SameButPoint c c

theorem blind_run {c : Call α} (hc : ∀ controls, c ≠ .sample controls) : Blind c.run := by
  cases c with
  | sample controls => exact absurd rfl (hc controls)
  | cross screen =>
    exact .bind (blind_onNavigation (Navigation.blind_cross screen)) fun _ => .pure _
  | shortcuts screen free => exact .bind (blind_shortcuts screen free) fun _ => .pure _
  | gesture => exact .bind blind_gesture fun _ => .pure _
  | controller => exact .bind (blind_onController Controller.blind_respond) fun _ => .pure _
  | animate => exact .bind (blind_onNavigation (Navigation.blind_onSidebar _)) fun _ => .pure _
  | switchTo screen => exact .bind (blind_switchTo screen) fun _ => .pure _
  | focus c => exact .bind (blind_onNavigation (Navigation.blind_onFocus _)) fun _ => .pure _
  | sidebar c => exact .bind (blind_onNavigation (Navigation.blind_onSidebar _)) fun _ => .pure _
  | overlay o c => exact .bind (blind_onOverlay o _) fun _ => .pure _

variable {r : Env α} {s t : Interface α} {c c' : Call α}

theorem alike_run (hc : c.SameButPoint c') (h : Veiled s t) :
    (c.run.run r s).Alike Veiled (fun o => ∀ p, o ≠ .lookedUp p) (c'.run.run r t) := by
  cases hc with
  | sample held before p q =>
    obtain ⟨hb, -, p', q', rfl⟩ := h
    exact .done ⟨hb, rfl, q, q, rfl⟩
  | other c hc => exact blind_run hc r s t h

/-- Two histories, in the same surroundings, of calls that are the same but for where a finger that
is down is. -/
abbrev SameButPoints (h k : List (Env α × Call α)) : Prop :=
  List.Forall₂ (fun x y => x.1 = y.1 ∧ x.2.SameButPoint y.2) h k

theorem Veiled.runs {h k : List (Env α × Call α)} (hs : Veiled s t) (hk : SameButPoints h k) :
    let x := quietRun Call.run h s
    let y := quietRun Call.run k t
    Veiled x.state y.state ∧ x.value = y.value ∧ x.out = y.out ∧
      ∀ p, .inr (.lookedUp p) ∉ x.out := by
  induction hk generalizing s t with
  | nil => exact ⟨hs, rfl, rfl, by simp [quietRun]⟩
  | @cons x y h k hxy hk ih =>
    obtain ⟨r, c⟩ := x
    obtain ⟨_, c'⟩ := y
    obtain ⟨rfl, hc⟩ := hxy
    obtain ⟨hst, hv, hout, hp⟩ := (alike_run hc hs).quiet r
    obtain ⟨hst', hv', hout', hp'⟩ := ih hst
    refine ⟨hst', congrArg₂ List.cons hv hv', congrArg₂ (· ++ ·) hout hout', ?_⟩
    intro p hm
    rcases List.mem_append.1 hm with hm | hm
    · exact hp _ hm p rfl
    · exact hp' p hm

/-- Two runs from a state with a barred finger, of the same calls in the same surroundings, the
finger staying down wherever it goes: they answer, announce and say the same, and end in states that
are equal but for where the finger is. It is still barred, and no target was looked up for it; and
the next call too is the same in both runs, whatever its listeners do. -/
theorem barred_finger_runs {s : Interface α} (hb : s.input.touchBarred) (hd : s.input.touch.down)
    {h k : List (Env α × Call α)} (hk : SameButPoints h k) :
    let x := quietRun Call.run h s
    let y := quietRun Call.run k s
    x.value = y.value ∧ x.out = y.out ∧ Veiled x.state y.state ∧
      x.state.input.touchBarred ∧ y.state.input.touchBarred ∧
      (∀ p, .inr (.lookedUp p) ∉ x.out ∧ .inr (.lookedUp p) ∉ y.out) ∧
      ∀ (r : Env α) (c c' : Call α), c.SameButPoint c' →
        (c.run.run r x.state).Alike Veiled (fun o => ∀ p, o ≠ .lookedUp p)
          (c'.run.run r y.state) := by
  intro x y
  have hs : Veiled s s := ⟨hb, hd, s.raw.touch.point, s.input.touch.point, rfl⟩
  obtain ⟨hst, hv, hout, hp⟩ : Veiled x.state y.state ∧ x.value = y.value ∧ x.out = y.out ∧ _ :=
    hs.runs hk
  have hby : y.state.input.touchBarred := by
    obtain ⟨hbx, -, p, q, he⟩ := hst
    rw [he]
    exact hbx
  refine ⟨hv, hout, hst, hst.1, hby, fun p => ⟨hp p, ?_⟩, fun r c c' hc => alike_run hc hst⟩
  rw [← hout]
  exact hp p

/-- A frame of the controller screen with the finger at a point, under which targets lie. -/
def touchedFrame (p : Point Rat) : List (Env Rat × Call Rat) :=
  let env : Env Rat := { now := 0, settings := .standard, target? := some fun p => some p.x }
  [.sample ⟨[], [], ⟨true, p⟩⟩, .shortcuts .controller true, .gesture, .controller].map fun c =>
    (env, c)

/-- The finger that opened the screen is led from its diagram into a corner. -/
theorem barred_finger_runs_touchedFrame :
    let s : Interface Rat := reached Call.run initial
      (touchedFrame ⟨80, 300⟩ ++ [({ now := 0, settings := .standard }, .switchTo .controller)])
    let x := quietRun Call.run (touchedFrame ⟨480, 200⟩) s
    let y := quietRun Call.run (touchedFrame ⟨960, 544⟩) s
    s.input.touchBarred ∧ s.input.touch.down ∧
      SameButPoints (touchedFrame ⟨480, 200⟩) (touchedFrame ⟨960, 544⟩) ∧
      x.value = y.value ∧ x.out = y.out ∧ Veiled x.state y.state := by
  intro s x y
  have hb : s.input.touchBarred := by decide +kernel
  have hd : s.input.touch.down := by decide +kernel
  have hk : SameButPoints (touchedFrame ⟨480, 200⟩) (touchedFrame ⟨960, 544⟩) :=
    .cons ⟨rfl, .sample _ _ _ _⟩ <| .cons ⟨rfl, .other _ nofun⟩ <| .cons ⟨rfl, .other _ nofun⟩ <|
      .cons ⟨rfl, .other _ nofun⟩ .nil
  obtain ⟨hv, hout, hst, -⟩ := barred_finger_runs hb hd hk
  exact ⟨hb, hd, hk, hv, hout, hst⟩

/-- A finger that is not barred opens a grid from the diagram, and nothing from the corner. -/
example : (quietRun Call.run (touchedFrame ⟨480, 200⟩) initial).events =
      [.controller (.turned .summary (.grid .front))] ∧
    (quietRun Call.run (touchedFrame ⟨960, 544⟩) initial).events = [] := by
  decide +kernel

end Interface

end HandheldUI
