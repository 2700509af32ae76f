import Mathlib.Data.List.Induction
import Mathlib.Tactic.ByContra
import HandheldUI.Proofs.Action.History
import HandheldUI.Proofs.Input.TouchBar

/-! A contact that was barred while its finger was down. -/

namespace HandheldUI.Interface

open HandheldUI.Action

section

variable {α β : Type}

theorem settles_onController {x : Controller.Op α β} (h : Controller.Settles x) :
    Relates (InvImage Input.Settles input) (onController x) :=
  .within h fun _ _ h => h

theorem leaves_onController_input {x : Controller.Op α β} (h : Leaves Controller.State.input x) :
    Leaves input (onController x) :=
  Relates.within h fun _ _ h => h

theorem leaves_onController_contact (x : Controller.Op α β) : Leaves contact (onController x) :=
  Leaves.within fun _ _ => rfl

variable [Scalar α]

theorem settles_onNavigation {x : Navigation.Op α β} (h : Navigation.Settles x) :
    Relates (InvImage Input.Settles input) (onNavigation x) :=
  .within h fun _ _ h => h

theorem leaves_onNavigation_input {x : Navigation.Op α β} (h : Leaves Navigation.State.input x) :
    Leaves input (onNavigation x) :=
  Relates.within h fun _ _ h => h

theorem leaves_onNavigation_contact (x : Navigation.Op α β) : Leaves contact (onNavigation x) :=
  Leaves.within fun _ _ => rfl

end

variable {α : Type}

/-- Nothing is left of the contact: it is barred, or over and forgotten. -/
def Settled (s : Interface α) : Prop :=
  s.input.touchBarred ∨ ¬s.input.touch.down ∧ s.contact = none

/-- The finger is up and the bar is gone, but the contact is still waiting for its end. -/
def Slipped (s : Interface α) : Prop :=
  ¬s.input.touchBarred ∧ ¬s.input.touch.down ∧ s.contact.isSome

section

variable {s t : Interface α}

theorem Settled.congr (h : Settled s) (hi : s.input = t.input) (hc : s.contact = t.contact) :
    Settled t := by
  rwa [Settled, ← hi, ← hc]

theorem Slipped.congr (h : Slipped s) (hi : s.input = t.input) (hc : s.contact = t.contact) :
    Slipped t := by
  rwa [Slipped, ← hi, ← hc]

theorem Settled.of_settles (h : Settled s) (hi : Input.Settles s.input t.input)
    (hc : t.contact = s.contact ∨ t.contact = none)
    (hf : s.input.touchBarred → ¬t.input.touchBarred → t.contact = none) : Settled t := by
  obtain ⟨ht, hdown, -⟩ := hi
  by_cases hb : t.input.touchBarred
  · exact .inl hb
  · refine .inr ?_
    rw [ht]
    rcases h with hs | ⟨hup, hn⟩
    · exact ⟨fun hd => hb (hdown hd hs), hf hs hb⟩
    · exact ⟨hup, hc.elim (fun he => he.trans hn) id⟩

theorem Slipped.of_settles (h : Slipped s) (hi : Input.Settles s.input t.input)
    (hc : t.contact = s.contact) : Slipped t := by
  obtain ⟨hb, hd, hn⟩ := h
  exact ⟨fun ht => hb (hi.touchBarred_of_up hd ht), by rwa [hi.1], by rwa [hc]⟩

end

variable [Scalar α]

/-- The controller screen takes the bar from a contact that is over and still waiting. -/
def Slips (r : Env α) (s : Interface α) : Prop :=
  s.input.touchDone ∧ s.contact.isSome ∧ ¬(controller.quiet r s).state.input.touchBarred

instance (r : Env α) (s : Interface α) : Decidable (Slips r s) :=
  inferInstanceAs (Decidable (_ ∧ _ ∧ _))

theorem quiet_gesture_barred {r : Env α} {s : Interface α} (h : s.input.touchBarred) :
    gesture.quiet r s =
      if s.input.touch.down then ⟨s, [], .idle⟩
      else ⟨{ s with input := s.input.freeTouch, contact := none }, [], .idle⟩ := by
  unfold gesture
  cases hd : s.input.touch.down <;> simp [h, hd, Input.touchDone, onInput, dropContact]

theorem quiet_gesture_up {r : Env α} {s : Interface α} (hb : ¬s.input.touchBarred)
    (hd : ¬s.input.touch.down) :
    gesture.quiet r s =
      ⟨{ s with contact := none }, [], (s.contact.map Contact.release).getD .idle⟩ := by
  unfold gesture
  cases hc : s.contact <;>
    simp [hb, hd, onContact, contactView, putContact, Gesture.classify, hc]

theorem quiet_switchTo (screen : Screen) (r : Env α) (s : Interface α) :
    ((switchTo screen).quiet r s).state.input = s.input.barAll ∧
      ((switchTo screen).quiet r s).state.contact = none := by
  let f (u : Interface α) := (u.input, u.contact)
  have hf {β : Type} {x : Op α β} (hi : Leaves input x) (hc : Leaves contact x) : Leaves f x :=
    fun r s => Prod.ext (hi r s) (hc r s)
  have hn (x : Navigation.Op α Unit) (h : Leaves Navigation.State.input x) :
      Leaves f (onNavigation x) :=
    hf (leaves_onNavigation_input h) (leaves_onNavigation_contact _)
  have hc : Leaves f (onController (Controller.turnTo .summary) : Op α Unit) :=
    hf (leaves_onController_input (Controller.leaves_turnTo _)) (leaves_onController_contact _)
  -- all that follows the first two writes
  have hrest : Leaves f (do
      onNavigation (modify (Navigation.highlightScreen screen))
      if (← get).focus.inContent then onFocus (Focus.toContent screen)
      if screen = .controller then onController (Controller.turnTo .summary) : Op α Unit) := by
    refine .bind (hn _ (.modify fun u => ?_)) fun _ => .bind .get fun _ => ?_
    · unfold Navigation.highlightScreen
      split <;> rfl
    · have ht : Leaves f (onFocus (Focus.toContent screen) : Op α Unit) :=
        hn _ (Navigation.leaves_onFocus _)
      with_reducible repeat' first
        | apply Relates.ite | apply ht | apply hc
        | apply Relates.pure | apply Relates.bind | intro _
  have := hrest r { s with input := s.input.barAll, contact := none }
  exact ⟨(congrArg Prod.fst this).symm, (congrArg Prod.snd this).symm⟩

theorem quiet_shortcuts_contact (screen : Screen) (dpadFree : Bool) (r : Env α) (s : Interface α) :
    let t := ((shortcuts screen dpadFree).quiet r s).state
    t.contact = if s.input.touchBarred && !t.input.touchBarred then none else s.contact := by
  have hc : s.contact = _ := leaves_onNavigation_contact (Navigation.shortcuts screen dpadFree) r s
  unfold shortcuts
  cases hs : s.input.touchBarred
  · simp [hs, ← hc]
  · cases ht :
      ((onNavigation (Navigation.shortcuts screen dpadFree)).quiet r s).state.input.touchBarred
    · simp [hs, ht, dropContact]
    · simp [hs, ht, ← hc]

theorem settles_shortcuts (screen : Screen) (dpadFree : Bool) :
    Relates (InvImage Input.Settles input) (shortcuts screen dpadFree : Op α (Option Screen)) := by
  have hn := settles_onNavigation (Navigation.settles_shortcuts (α := α) screen dpadFree)
  have hd : Relates (InvImage Input.Settles input) (dropContact : Op α Unit) :=
    .modify fun s => refl s.input
  unfold shortcuts
  with_reducible repeat' first
    | apply Relates.ite | apply hn | apply hd
    | apply Relates.get | apply Relates.pure | apply Relates.bind | intro _

/-- A call that does not look at the touch. -/
def Call.sparesTouch : Call α → Bool
  | cross _ | animate | focus _ | sidebar _ | overlay _ _ => true
  | _ => false

theorem leaves_run {c : Call α} (hc : c.sparesTouch) :
    Leaves input c.run ∧ Leaves contact c.run := by
  have hn {β : Type} {x : Navigation.Op α β} (h : Leaves Navigation.State.input x)
      (f : β → Answer α) : Leaves input (onNavigation x >>= fun b => pure (f b)) ∧
        Leaves contact (onNavigation x >>= fun b => pure (f b)) :=
    ⟨.bind (leaves_onNavigation_input h) fun _ => .pure _,
      .bind (leaves_onNavigation_contact x) fun _ => .pure _⟩
  cases c with
  | cross screen => exact hn (Navigation.leaves_cross screen) _
  | animate => exact hn (Navigation.leaves_onSidebar _) _
  | focus c => exact hn (Navigation.leaves_onFocus _) _
  | sidebar c => exact hn (Navigation.leaves_onSidebar _) _
  | overlay o c =>
    have hi : Leaves input (onOverlay o c.run : Op α Unit) := .within fun _ _ => rfl
    have hc : Leaves contact (onOverlay o c.run : Op α Unit) := .within fun _ _ => rfl
    exact ⟨.bind hi fun _ => .pure _, .bind hc fun _ => .pure _⟩
  | _ => simp [Call.sparesTouch] at hc

section Steps

theorem state_run_gesture (r : Env α) (s : Interface α) :
    (Call.gesture.run.quiet r s).state = (gesture.quiet r s).state := by rw [Call.run, quiet_map]

theorem state_run_shortcuts (screen : Screen) (free : Bool) (r : Env α) (s : Interface α) :
    ((Call.shortcuts screen free).run.quiet r s).state =
      ((shortcuts screen free).quiet r s).state := by rw [Call.run, quiet_map]

theorem state_run_controller (r : Env α) (s : Interface α) :
    (Call.controller.run.quiet r s).state = (controller.quiet r s).state := by
  rw [Call.run, quiet_seqRight, Outcome.state_after, quiet_pure]

theorem state_run_switchTo (screen : Screen) (r : Env α) (s : Interface α) :
    ((Call.switchTo screen).run.quiet r s).state = ((switchTo screen).quiet r s).state := by
  rw [Call.run, quiet_seqRight, Outcome.state_after, quiet_pure]

variable {r : Env α} {s t : Interface α} {c : Call α}

/-- A new contact begins only where the one before is over. -/
def Continues (s : Interface α) (c : Call α) : Prop :=
  ∀ controls, c = .sample controls → controls.touch.down → s.input.touch.down

theorem settled_gesture (h : Settled s ∨ Slipped s) : Settled (gesture.quiet r s).state := by
  by_cases hb : s.input.touchBarred
  · rw [quiet_gesture_barred hb]
    by_cases hd : s.input.touch.down
    · rw [if_pos hd]
      exact .inl hb
    · rw [if_neg hd]
      exact .inr ⟨by simpa using hd, rfl⟩
  · have hd : ¬s.input.touch.down := by
      rcases h with (hb' | ⟨hd, -⟩) | ⟨-, hd, -⟩
      · exact absurd hb' hb
      · exact hd
      · exact hd
    rw [quiet_gesture_up hb hd]
    exact .inr ⟨hd, rfl⟩

theorem settled_switchTo (screen : Screen) : Settled ((switchTo screen).quiet r s).state := by
  refine .inl ?_
  rw [(quiet_switchTo screen r s).1]
  rfl

theorem settles_controller : Input.Settles s.input (controller.quiet r s).state.input :=
  settles_onController Controller.settles_respond r s

theorem contact_controller : (controller.quiet r s).state.contact = s.contact :=
  (leaves_onController_contact Controller.respond r s).symm

theorem slipped_of_slips (h : Slips r s) : Slipped (controller.quiet r s).state := by
  obtain ⟨hd, hc, hb⟩ := h
  refine ⟨hb, ?_, by rwa [contact_controller]⟩
  rw [settles_controller.1]
  rw [Input.touchDone, Bool.and_eq_true] at hd
  simpa using hd.2

theorem Settled.quiet_run (h : Settled s) (hc : Continues s c) (hs : c = .controller → ¬Slips r s) :
    Settled (c.run.quiet r s).state := by
  by_cases hl : c.sparesTouch
  · exact h.congr ((leaves_run hl).1 r s) ((leaves_run hl).2 r s)
  cases c with
  | sample controls =>
    rcases h with hb | ⟨hd, hn⟩
    · exact .inl hb
    · exact .inr ⟨fun hd' => hd (hc controls rfl hd'), hn⟩
  | gesture =>
    rw [state_run_gesture]
    exact settled_gesture (.inl h)
  | switchTo screen =>
    rw [state_run_switchTo]
    exact settled_switchTo screen
  | shortcuts screen free =>
    rw [state_run_shortcuts]
    have hn := quiet_shortcuts_contact screen free r s
    refine h.of_settles (settles_shortcuts screen free r s) ?_ fun hb ht => ?_
    · rw [hn]
      split
      · exact .inr rfl
      · exact .inl rfl
    · rw [hn, if_pos (by simp [hb, ht])]
  | controller =>
    rw [state_run_controller]
    refine h.of_settles settles_controller (.inl contact_controller) fun hb ht => ?_
    by_contra hn
    refine hs rfl ⟨?_, ?_, ht⟩
    · by_contra hd
      refine ht (settles_controller.2.1 ?_ hb)
      simpa [Input.touchDone, hb] using hd
    · rwa [Option.isSome_iff_ne_none, ← contact_controller (r := r)]
  | _ => simp [Call.sparesTouch] at hl

theorem Slipped.quiet_run (h : Slipped s) (hc : Continues s c)
    (hg : c ≠ .gesture ∧ ∀ screen, c ≠ .switchTo screen) : Slipped (c.run.quiet r s).state := by
  by_cases hl : c.sparesTouch
  · exact h.congr ((leaves_run hl).1 r s) ((leaves_run hl).2 r s)
  cases c with
  | sample controls =>
    obtain ⟨hb, hd, hn⟩ := h
    exact ⟨hb, fun hd' => hd (hc controls rfl hd'), hn⟩
  | gesture => exact absurd rfl hg.1
  | switchTo screen => exact absurd rfl (hg.2 screen)
  | shortcuts screen free =>
    rw [state_run_shortcuts]
    refine h.of_settles (settles_shortcuts screen free r s) ?_
    rw [quiet_shortcuts_contact]
    simp [h.1]
  | controller =>
    rw [state_run_controller]
    exact h.of_settles settles_controller contact_controller
  | _ => simp [Call.sparesTouch] at hl

theorem Slipped.settled (h : Slipped s) (hg : ¬(c ≠ .gesture ∧ ∀ screen, c ≠ .switchTo screen)) :
    Settled (c.run.quiet r s).state := by
  by_cases hc : c = .gesture
  · rw [hc, state_run_gesture]
    exact settled_gesture (.inr h)
  · obtain ⟨screen, rfl⟩ : ∃ screen, c = .switchTo screen := by
      by_contra hn
      exact hg ⟨hc, fun screen he => hn ⟨screen, he⟩⟩
    rw [state_run_switchTo]
    exact settled_switchTo screen

end Steps

/-- No contact begins before the one in progress is over. -/
def OneContact (s : Interface α) (h : List (Env α × Call α)) : Prop :=
  History.Always (fun before y => Continues (reached Call.run s before) y.2) h

/-- The contact has slipped from its bar, and neither the question for the gesture nor a change of
screen has put an end to it. -/
def HasSlipped (s : Interface α) (h : List (Env α × Call α)) : Prop :=
  History.Since
    (fun before y => y.2 = .controller ∧ Slips y.1 (reached Call.run s before))
    (fun _ y => y.2 ≠ .gesture ∧ ∀ screen, y.2 ≠ .switchTo screen) h

theorem settled_or_slipped {s : Interface α} {h : List (Env α × Call α)} (hs : Settled s)
    (one : OneContact s h) :
    Settled (reached Call.run s h) ∧ ¬HasSlipped s h ∨
      Slipped (reached Call.run s h) ∧ HasSlipped s h := by
  induction h using List.reverseRecOn with
  | nil => exact .inl ⟨hs, History.not_since_nil⟩
  | append_singleton h y ih =>
    obtain ⟨one, hc⟩ := History.always_concat.1 one
    rw [reached_concat, HasSlipped, History.since_concat]
    rcases ih one with ⟨ht, hn⟩ | ⟨ht, hy⟩
    -- only the controller screen can make a settled contact slip, and only while it takes the bar
    · by_cases hy : y.2 = .controller ∧ Slips y.1 (reached Call.run s h)
      · refine .inr ⟨?_, .inl hy⟩
        rw [hy.1, state_run_controller]
        exact slipped_of_slips hy.2
      · refine .inl ⟨ht.quiet_run hc fun he hl => hy ⟨he, hl⟩, ?_⟩
        rintro (hy' | ⟨hl, -⟩)
        · exact hy hy'
        · exact hn hl
    · by_cases hg : y.2 ≠ .gesture ∧ ∀ screen, y.2 ≠ .switchTo screen
      · exact .inr ⟨ht.quiet_run hc hg, .inr ⟨hy, hg⟩⟩
      · refine .inl ⟨ht.settled hg, ?_⟩
        -- a contact that has slipped has no bar that could be taken away
        rintro (⟨-, hd, -⟩ | ⟨-, hg'⟩)
        · rw [Input.touchDone, Bool.and_eq_true] at hd
          exact ht.1 hd.1
        · exact hg hg'

/-- A contact that was barred surfaces as a gesture exactly when the controller screen took the bar
away while the contact was waiting for its end, and nothing has put an end to it since. -/
theorem gesture_ne_idle_iff {s : Interface α} {h : List (Env α × Call α)}
    (barred : s.input.touchBarred) (one : OneContact s h) (r : Env α) :
    (Call.gesture.run.quiet r (reached Call.run s h)).value ≠ .gesture .idle ↔ HasSlipped s h := by
  rw [Call.run, quiet_map]
  rcases settled_or_slipped (.inl barred) one with ⟨ht, hn⟩ | ⟨⟨hb, hd, hc⟩, hy⟩
  · refine iff_of_false ?_ hn
    rw [not_not]
    by_cases hb : (reached Call.run s h).input.touchBarred
    · rw [quiet_gesture_barred hb]
      split <;> rfl
    · obtain ⟨hd, hc⟩ := ht.resolve_left hb
      rw [quiet_gesture_up hb hd, hc]
      rfl
  · refine iff_of_true ?_ hy
    obtain ⟨contact, hc⟩ := Option.isSome_iff_exists.1 hc
    rw [quiet_gesture_up hb hd, hc]
    simp only [Option.map_some, Option.getD_some, Contact.release]
    split <;> simp

deriving instance DecidableEq for Answer

/-- Nothing that surrounds the interface changes. -/
def still : Env Rat := { now := 0, settings := .standard }

/-- A finger comes down on the summary, is noticed as a gesture, and opens a grid. -/
def opening : List (Env Rat × Call Rat) :=
  [(still, .sample ⟨[], [], ⟨true, ⟨480, 200⟩⟩⟩), (still, .gesture), (still, .controller)]

/-- The finger is lifted, which the controller screen notices first. -/
def lifting : List (Env Rat × Call Rat) := [(still, .sample .idle), (still, .controller)]

theorem oneContact_lifting (s : Interface Rat) : OneContact s lifting := by
  rw [OneContact, lifting, ← List.singleton_append, History.always_concat, ← List.nil_append [_],
    History.always_concat]
  refine ⟨⟨History.always_nil, ?_⟩, ?_⟩
  · rintro controls ⟨rfl⟩ hd
    exact absurd hd (by decide)
  · rintro controls ⟨⟩

theorem gesture_ne_idle_iff_lifting :
    (reached Call.run initial opening).input.touchBarred ∧
    OneContact (reached Call.run initial opening) lifting ∧
    HasSlipped (reached Call.run initial opening) lifting ∧
    (Call.gesture.run.quiet still
      (reached Call.run (reached Call.run initial opening) lifting)).value ≠ .gesture .idle := by
  have barred : (reached Call.run initial opening).input.touchBarred := by decide +kernel
  have slipped : HasSlipped (reached Call.run initial opening) lifting :=
    ⟨[(still, .sample .idle)], (still, .controller), [], rfl, ⟨rfl, by decide +kernel⟩, by simp⟩
  exact ⟨barred, oneContact_lifting _, slipped,
    (gesture_ne_idle_iff barred (oneContact_lifting _) still).2 slipped⟩

/-- The contact that opened the grid, barred while its finger was down, ends in a tap. -/
theorem gesture_lifting_eq_tap :
    (reached Call.run initial opening).input.touch.down ∧
    (reached Call.run initial opening).input.touchBarred ∧
    OneContact (reached Call.run initial opening) lifting ∧
    (Call.gesture.run.quiet still
      (reached Call.run (reached Call.run initial opening) lifting)).value =
        .gesture (.tap ⟨480, 200⟩ none) :=
  ⟨by decide +kernel, by decide +kernel, oneContact_lifting _, by decide +kernel⟩

end HandheldUI.Interface
