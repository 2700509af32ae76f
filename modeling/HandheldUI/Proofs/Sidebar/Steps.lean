import HandheldUI.Sidebar

/-! What the steps of each call of the sidebar are. A request is granted only at rest, and whatever
moves the sidebar tells so before anything else happens. -/

namespace HandheldUI.Sidebar

theorem Phase.ne_of_end? {p q : Phase} (h : p.end? = some q) : q ≠ p := by
  cases p <;> simp_all [Phase.end?] <;> rw [← h] <;> decide

variable {α : Type} [Scalar α] (r : Env α) (s : State α)

namespace State

/-- The sidebar in the first moment of a phase. -/
def entering (new : Phase) (now : α) (s : State α) : State α :=
  { s with phase := new, since := now, progress := 0 }

/-- The sidebar at a progress of a phase, looking as it should. -/
def passing (phase : Phase) (p : α) (s : State α) : State α :=
  { s with phase, progress := p, look := .during phase p }

def shut (s : State α) : State α :=
  { s with phase := .collapsed, progress := 0, look := .collapsed }

/-- The toast goes when its time is over. -/
def faded (now : α) (s : State α) : State α :=
  if s.toast.visible ∧ Scalar.ofNat (fadeMs * 2 + holdMs) ≤ toastMs now s.toast then
    { s with toast := { s.toast with visible := false } }
  else s

/-- The wave goes on while the sidebar is out. -/
def waved (now : α) (s : State α) : State α :=
  if s.isOut then { s with wave := s.wave.advance now } else s

variable (now : α)

theorem faded_eq : ∃ toast, s.faded now = { s with toast } := by
  unfold faded
  split
  · exact ⟨_, rfl⟩
  · exact ⟨s.toast, rfl⟩

theorem waved_eq : ∃ wave, s.waved now = { s with wave } := by
  unfold waved
  split
  · exact ⟨_, rfl⟩
  · exact ⟨s.wave, rfl⟩

@[simp] theorem phase_faded : (s.faded now).phase = s.phase := by
  unfold faded
  split <;> rfl

@[simp] theorem look_faded : (s.faded now).look = s.look := by
  unfold faded
  split <;> rfl

@[simp] theorem phase_waved : (s.waved now).phase = s.phase := by
  unfold waved
  split <;> rfl

@[simp] theorem look_waved : (s.waved now).look = s.look := by
  unfold waved
  split <;> rfl

end State

theorem run_begin (new : Phase) : (begin new).run r s =
    .say (s.entering new r.now) (.moved s.phase new)
      (.announce (s.entering new r.now) (.moved s.phase new) fun _ t => .done t ()) :=
  rfl

theorem run_collapse (byContent : Bool) : (collapse byContent).run r s =
    if byContent && r.settings.pinned then .say s .pinned (.done s ())
    else if s.isOut then (begin .collapsing).run r { s with stored := s.wave.phases }
    else .done s () := by
  simp [collapse]

theorem run_expand : expand.run r s =
    if s.isIn then
      (begin .expanding).run r { s with wave := (s.wave.restore s.stored).restart r.now }
    else .done s () := by
  simp [expand]

theorem run_flip : flip.run r s =
    if s.isOut then (collapse false).run r s
    else if s.isIn then expand.run r s else .done s () := by
  simp [flip]

theorem run_shut : shut.run r s =
    if s.isIn then .done s.shut ()
    else .announce s.shut (.moved s.phase .collapsed) fun _ t => .done t () := by
  cases h : s.isIn <;> simp [shut, h, State.shut]

omit [Scalar α] in
theorem run_showToast : showToast.run r s =
    if s.toast.spent then .done s ()
    else .announce { s with toast := ⟨true, true, r.now⟩ } .toast fun _ t => .done t () := by
  cases h : s.toast.spent <;> simp [showToast, h]

/-- Without an end ahead, or before it is due, an update tells nothing. -/
theorem run_advance : advance.run r s =
    match s.phase.end? with
    | none => .done s ()
    | some target =>
      if 1 ≤ progressAt r.settings.slideMs s.since r.now then
        .say (s.passing target 1) (.moved s.phase target)
          (.announce (s.passing target 1) (.moved s.phase target)
            fun r t => if t.isIn then showToast.run r t else .done t ())
      else .done (s.passing s.phase (progressAt r.settings.slideMs s.since r.now)) () := by
  cases h : s.phase.end? with
  | none => simp [advance, h]
  | some target =>
    have hne : target ≠ s.phase := Phase.ne_of_end? h
    by_cases hp : 1 ≤ progressAt r.settings.slideMs s.since r.now
    · simp [advance, h, hp, hne, State.passing]
    · simp [advance, h, hp, State.passing]

theorem run_fadeToast : fadeToast.run r s = .done (s.faded r.now) () := by
  by_cases h : s.toast.visible ∧ Scalar.ofNat (fadeMs * 2 + holdMs) ≤ toastMs r.now s.toast
  · simp [fadeToast, State.faded, h]
  · simp [fadeToast, State.faded, h]

/-- Toast and wave come after all that the update does, its listeners included. -/
theorem run_tick : tick.run r s =
    (advance.run r s).bind (fun _ => ⟨fun r s => .done ((s.faded r.now).waved r.now) ()⟩) r := by
  have hrest : (do
      fadeToast
      let now := (← read).now
      modify fun s => if s.isOut then { s with wave := s.wave.advance now } else s : Op α Unit) =
      ⟨fun r s => .done ((s.faded r.now).waved r.now) ()⟩ := by
    refine congrArg Action.mk (funext fun r => funext fun s => ?_)
    rw [run_fadeToast]
    rfl
  exact congrArg (fun x => (advance.run r s).bind (fun _ => x) r) hrest

end HandheldUI.Sidebar
