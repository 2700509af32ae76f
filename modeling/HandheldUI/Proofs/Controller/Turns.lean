import HandheldUI.Proofs.Action.Relates
import HandheldUI.Proofs.Controller.Drags

/-! The life of the controller screen, turn by turn. A panel changes in the frames that its grid
gets to see; any other turn leaves it, but for the cursor, or drops all that is going on. -/

namespace HandheldUI.Controller

open HandheldUI.Action

variable {α : Type}

/-- A frame, or what is asked of the screen and of the input from outside the frames. -/
inductive Turn (α : Type) where
  | frame (c : Controls α)
  | ask (c : Call α) (h : c ≠ .respond)
  | input (c : Input.Call α) (h : ∀ controls, c ≠ .take controls)

/-- The popup or an overlay keeps the input from the screen. -/
def Env.hides (r : Env α) : Bool := r.popup || r.covered

/-- The panel is without its drags and without what was selected. -/
structure Slot.Dropped (x y : Slot α) : Prop where
  touching : y.drag.touching = false
  holding : y.drag.holding = false
  selection : y.selection = x.selection.clear

/-- The panel is as it was, but for its cursor. -/
structure Slot.Moved (x y : Slot α) : Prop where
  touching : y.drag.touching = x.drag.touching
  holding : y.drag.holding = x.drag.holding
  selection : y.selection = x.selection

namespace Slot

variable {x y z : Slot α}

instance : IsPreorder (Slot α) Moved where
  refl _ := ⟨rfl, rfl, rfl⟩
  trans _ _ _ h₁ h₂ :=
    ⟨h₂.touching.trans h₁.touching, h₂.holding.trans h₁.holding, h₂.selection.trans h₁.selection⟩

theorem Dropped.moved (h₁ : Dropped x y) (h₂ : Moved y z) : Dropped x z :=
  ⟨h₂.touching.trans h₁.touching, h₂.holding.trans h₁.holding, h₂.selection.trans h₁.selection⟩

theorem Moved.dropped (h₁ : Moved x y) (h₂ : Dropped y z) : Dropped x z :=
  ⟨h₂.touching, h₂.holding, by rw [h₂.selection, h₁.selection]⟩

theorem Dropped.trans (h₁ : Dropped x y) (h₂ : Dropped y z) : Dropped x z :=
  ⟨h₂.touching, h₂.holding,
    by rw [h₂.selection, h₁.selection, Selection.clear_clear]⟩

end Slot

/-- The panel passes the turn by: all that was going on is dropped, or nothing happens to it. -/
def Passes (p : Panel) (s t : State α) : Prop :=
  Slot.Dropped (s.slot p) (t.slot p) ∨
    Slot.Moved (s.slot p) (t.slot p) ∧ t.pages.page = s.pages.page

instance (p : Panel) : IsPreorder (State α) (Passes p) where
  refl _ := .inr ⟨refl _, rfl⟩
  trans _ _ _ := by
    rintro (h₁ | ⟨h₁, hp₁⟩) (h₂ | ⟨h₂, hp₂⟩)
    · exact .inl (h₁.trans h₂)
    · exact .inl (h₁.moved h₂)
    · exact .inl (h₁.dropped h₂)
    · exact .inr ⟨IsTrans.trans _ _ _ h₁ h₂, hp₂.trans hp₁⟩

variable [Scalar α] {r : Env α} {s : State α} {p : Panel}

def Turn.run : Turn α → Op α Unit
  | frame c => onInput (Input.take c) *> respond
  | ask c _ => c.run
  | input c _ => onInput c.run

/-- The grid of the panel gets to see the frame. -/
def Watches (p : Panel) (r : Env α) (c : Controls α) (s : State α) : Prop :=
  ¬r.hides ∧ s.pages.page = .grid p ∧ ¬(s.input.take c).pressed r.muted .circle

theorem quiet_frame (c : Controls α) : ((Turn.frame c).run.quiet r s).state =
    (respond.quiet r (s.setInput (s.input.take c))).state := rfl

theorem quiet_respond_hidden (h : r.hides) : respond.quiet r s = ⟨s, [], ()⟩ := by
  rw [Env.hides] at h
  simp only [respond, quiet_bind, quiet_read, quiet_pure, Outcome.after_nil, h, if_true]

theorem quiet_respond_summary (h : ¬r.hides) (hp : s.pages.page = .summary) :
    respond.quiet r s = (summaryTouch (diagram r.sidebarWidth)).quiet r s := by
  rw [Env.hides, Bool.not_eq_true] at h
  simp only [respond, quiet_bind, quiet_read, quiet_get, Outcome.after_nil, h, hp,
    Bool.false_eq_true, if_false]

theorem quiet_respond_grid (h : ¬r.hides) (hp : s.pages.page = .grid p) :
    respond.quiet r s = if s.input.pressed r.muted .circle then (turnTo .summary).quiet r s
      else (gridInput p (diagram r.sidebarWidth)).quiet r s := by
  rw [Env.hides, Bool.not_eq_true] at h
  simp only [respond, quiet_bind, quiet_read, quiet_get, Outcome.after_nil, h, hp,
    Bool.false_eq_true, if_false, quiet_ite]
  rfl

theorem quiet_frame_of_watches {c : Controls α} (h : Watches p r c s) :
    ((Turn.frame c).run.quiet r s).state =
      (s.setSlot p ((s.slot p).gridInput p (diagram r.sidebarWidth) r.muted
        (s.input.take c))).setInput (s.input.take c).freeTouch := by
  obtain ⟨hh, hp, hc⟩ := h
  rw [quiet_frame, quiet_respond_grid hh (s := s.setInput (s.input.take c)) hp, input_setInput,
    if_neg hc, quiet_gridInput_state]
  rfl

theorem page_quiet_turnTo (new : Page) :
    ((turnTo new : Op α Unit).quiet r s).state.pages.page = new := by
  unfold turnTo
  by_cases h : s.pages.page = new
  · cases new <;> simp [h, startAfresh, onPages]
  · cases new <;> simp [h, startAfresh, onPages]

theorem state_quiet_summaryTouch (d : Rect α) : ((summaryTouch d).quiet r s).state =
    if s.input.touch.down then
      if s.input.touchBarred || s.pages.touched then s
      else
        let u := { s with pages.touched := true }
        if d.contains s.input.touch.point then
          let t := ((turnTo (.grid s.pages.opens)).quiet r u).state
          t.setInput t.input.barTouch
        else u
    else { s with pages.touched := false, input := s.input.freeTouch } := by
  unfold summaryTouch
  cases hd : s.input.touch.down
  · simp [hd, Input.touchDone, onPages, State.setInput]
  · cases hb : s.input.touchBarred
    · have hf : s.input.freeTouch = s.input := by simp [Input.freeTouch, Input.touchDone, hb]
      cases ht : s.pages.touched
      · by_cases hc : d.contains s.input.touch.point
        · simp [hd, hb, hf, ht, hc, onPages, State.setInput]
        · simp [hd, hb, hf, ht, hc, onPages, State.setInput]
      · simp [hd, hb, hf, ht, State.setInput]
    · simp [hd, hb, Input.touchDone]

omit [Scalar α] in
theorem dropped_startAfresh :
    Relates (InvImage Slot.Dropped (State.slot p)) (startAfresh : Op α Unit) := by
  intro r s
  cases p <;> exact ⟨rfl, rfl, rfl⟩

omit [Scalar α] in
theorem moved_onDrag {q : Panel} {f : Drag α → Drag α}
    (h : ∀ d, (f d).touching = d.touching ∧ (f d).holding = d.holding) :
    Relates (InvImage Slot.Moved (State.slot p)) (onDrag q f) := by
  intro r s
  rw [quiet_onDrag]
  by_cases hq : p = q
  · subst hq
    rw [InvImage, slot_setSlot]
    exact ⟨(h _).1, (h _).2, rfl⟩
  · rw [InvImage, slot_setSlot_of_ne _ _ hq]
    exact refl _

theorem dropped_turnTo (new : Page) :
    Relates (InvImage Slot.Dropped (State.slot p)) (turnTo new : Op α Unit) := by
  have hd {q : Panel} : Relates (InvImage Slot.Moved (State.slot p))
      (onDrag q fun d : Drag α => { d with cursor := 0 }) := moved_onDrag fun _ => ⟨rfl, rfl⟩
  have hp : Relates (InvImage Slot.Moved (State.slot p))
      (onPages fun m : Pages α => { m with page := new }) := .modify fun _ => ⟨rfl, rfl, rfl⟩
  unfold turnTo
  refine .get_bind fun r s => ?_
  refine Relates.chain (S := InvImage Slot.Moved (State.slot p)) (fun h₁ h₂ => h₁.moved h₂)
    dropped_startAfresh (fun _ => ?_) r s
  with_reducible repeat' first
    | apply Relates.ite | apply hd | apply hp
    | apply Relates.say | apply Relates.announce | apply Relates.pure | apply Relates.bind
    | intro _ | split

theorem passes_summaryTouch (d : Rect α) : Relates (Passes p) (summaryTouch d) := by
  have ht (new : Page) : Relates (Passes p) (turnTo new : Op α Unit) :=
    (dropped_turnTo new).mono fun _ _ => .inl
  have hp (b : Bool) : Relates (Passes p) (onPages fun m : Pages α => { m with touched := b }) :=
    .modify fun _ => .inr ⟨⟨rfl, rfl, rfl⟩, rfl⟩
  have hi (f : Input α → Input α) : Relates (Passes p) (onInput f) :=
    .modify fun _ => .inr ⟨⟨rfl, rfl, rfl⟩, rfl⟩
  unfold summaryTouch
  with_reducible repeat' first
    | apply Relates.ite | apply ht | apply hp | apply hi
    | apply Relates.get | apply Relates.pure | apply Relates.bind | intro _

/-- Input that the grid does not get to see: it is hidden from the screen, or its page is another
one, or Circle leaves the page. -/
theorem respond_dropped_or_moved
    (hw : ¬(¬r.hides ∧ s.pages.page = .grid p ∧ ¬s.input.pressed r.muted .circle)) :
    Slot.Dropped (s.slot p) ((respond.quiet r s).state.slot p) ∨
      Slot.Moved (s.slot p) ((respond.quiet r s).state.slot p) ∧
        (respond.quiet r s).state.pages.page = s.pages.page ∧
        (r.hides ∨ s.pages.page ≠ .grid p) := by
  by_cases hh : r.hides
  · rw [quiet_respond_hidden hh]
    exact .inr ⟨refl _, rfl, .inl hh⟩
  cases hp : s.pages.page with
  | summary =>
    rw [quiet_respond_summary hh hp]
    rcases passes_summaryTouch (p := p) (diagram r.sidebarWidth) r s with h | ⟨h, hpage⟩
    · exact .inl h
    · exact .inr ⟨h, hpage.trans hp, .inr (by simp)⟩
  | grid q =>
    rw [quiet_respond_grid hh hp]
    by_cases hc : s.input.pressed r.muted .circle
    · rw [if_pos hc]
      exact .inl (dropped_turnTo .summary r s)
    · have hq : p ≠ q := by
        rintro rfl
        exact hw ⟨hh, hp, hc⟩
      rw [if_neg hc, quiet_gridInput_state, slot_setInput, slot_setSlot_of_ne _ _ hq]
      exact .inr ⟨refl _, hp, .inr (by simp [hq.symm])⟩

theorem passes_run {c : Call α} (h : c ≠ .respond) : Passes p s (c.run.quiet r s).state := by
  cases c with
  | turnTo page => exact .inl (dropped_turnTo page r s)
  | preselect q => exact .inr ⟨refl _, rfl⟩
  | startAfresh => exact .inl (dropped_startAfresh r s)
  | step q rows cols =>
    rw [Call.run, quiet_step]
    refine .inr ⟨?_, rfl⟩
    by_cases hq : p = q
    · subst hq
      rw [slot_setSlot]
      exact ⟨rfl, rfl, rfl⟩
    · rw [slot_setSlot_of_ne _ _ hq]
      exact refl _
  | respond => exact absurd rfl h

/-- A turn that the grid does not get to see. -/
theorem dropped_or_moved {t : Turn α} (ht : ∀ c, t = .frame c → ¬Watches p r c s) :
    Slot.Dropped (s.slot p) ((t.run.quiet r s).state.slot p) ∨
      Slot.Moved (s.slot p) ((t.run.quiet r s).state.slot p) ∧
        (t.run.quiet r s).state.pages.page = s.pages.page ∧
        ((∃ c, t = .frame c) → r.hides ∨ s.pages.page ≠ .grid p) := by
  cases t with
  | frame c =>
    rcases respond_dropped_or_moved (s := s.setInput (s.input.take c)) (ht c rfl) with
      h | ⟨h, hpage, hw⟩
    · exact .inl h
    · exact .inr ⟨h, hpage, fun _ => hw⟩
  | ask c h =>
    rcases passes_run (p := p) (r := r) (s := s) h with h | ⟨h, hpage⟩
    · exact .inl h
    · exact .inr ⟨h, hpage, by simp⟩
  | input c h => exact .inr ⟨refl _, rfl, by simp⟩

end HandheldUI.Controller
