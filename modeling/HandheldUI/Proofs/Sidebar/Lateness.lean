import HandheldUI.Proofs.Scalar.Monotone
import HandheldUI.Proofs.Sidebar.Geometry

/-! Late frames. How far a phase has come depends on the time alone, and what is over by an earlier
time is over by a later one. So the updates before the last one leave nothing that it does not write
anew, or end the phase where it would have ended it. -/

namespace HandheldUI.Sidebar

open HandheldUI.Action HandheldUI.Binary64

section Progress

variable {slideMs since u t : Float}

theorem unpacked_zero : unpacked 0 = .zero .positive := rfl

theorem positive_one : Positive (unpacked 1) :=
  have hone : unpacked 1 = .finite .positive 4503599627370496 (-52) (by decide) := rfl
  hone ▸ .finite _ _ _

theorem progressAt_eq (hs : Settings.sensible slideMs) (ht : 0 < t - since) :
    progressAt slideMs since t = (t - since) / 1000 / slideMs := by
  have hmax : Scalar.max 0 (t - since) = t - since := max_of_lt ht
  calc progressAt slideMs since t = Scalar.max 0 (t - since) / 1000 / slideMs := if_pos hs
    _ = (t - since) / 1000 / slideMs := by rw [hmax]

/-- There is progress only once some time has passed. -/
theorem pos_of_one_le_progressAt (hs : Settings.sensible slideMs)
    (h : 1 ≤ progressAt slideMs since t) : 0 < t - since := by
  obtain ⟨hfin, hpos⟩ := sensible_iff.1 hs
  obtain ⟨m, e, pos, hd⟩ := exists_unpacked_of_pos unpacked_zero hfin hpos
  have heq : progressAt slideMs since t = Scalar.max 0 (t - since) / 1000 / slideMs := if_pos hs
  rw [heq] at h
  have hquot : Positive (unpacked (Scalar.max 0 (t - since) / 1000 / slideMs)) :=
    positive_one.of_le h
  have hmax : Positive (unpacked (Scalar.max 0 (t - since))) :=
    (hquot.of_div hd).of_div unpacked_thousand
  exact (lt_iff_positive unpacked_zero).2 (hmax.of_max unpacked_zero)

/-- A phase that is over stays over as time goes on, also where times are not finite. -/
theorem one_le_progressAt (h : u ≤ t) (hu : 1 ≤ progressAt slideMs since u) :
    1 ≤ progressAt slideMs since t := by
  by_cases hs : Settings.sensible slideMs
  · have hu' : 0 < u - since := pos_of_one_le_progressAt hs hu
    have hsub : u - since ≤ t - since := sub_le_sub unpacked_zero h hu'
    have hpos : Positive (unpacked (u - since)) := (lt_iff_positive unpacked_zero).1 hu'
    have ht' : 0 < t - since := (lt_iff_positive unpacked_zero).2 (hpos.of_le hsub)
    obtain ⟨hfin, hpos'⟩ := sensible_iff.1 hs
    obtain ⟨m, e, pos, hd⟩ := exists_unpacked_of_pos unpacked_zero hfin hpos'
    have hus : Unsigned (u - since) := hpos.sign_eq
    have hts : Unsigned (t - since) := (hpos.of_le hsub).sign_eq
    have hsec : (u - since) / 1000 ≤ (t - since) / 1000 :=
      hus.div_le_div hts unpacked_thousand hsub
    have hquot : (u - since) / 1000 / slideMs ≤ (t - since) / 1000 / slideMs :=
      (hus.div unpacked_thousand).div_le_div (hts.div unpacked_thousand) hd hsec
    rw [progressAt_eq hs hu'] at hu
    rw [progressAt_eq hs ht']
    exact Unsigned.le_trans positive_one.sign_eq ((hus.div unpacked_thousand).div hd)
      ((hts.div unpacked_thousand).div hd) hu hquot
  · have hover : progressAt slideMs since t = 1 := if_neg hs
    rw [hover]
    exact Unsigned.le_refl positive_one.sign_eq

end Progress

section Updates

variable {α : Type}

theorem quiet_showToast (r : Env α) (s : State α) : showToast.quiet r s =
    if s.toast.spent then ⟨s, [], ()⟩
    else ⟨{ s with toast := ⟨true, true, r.now⟩ }, [.inl .toast], ()⟩ := by
  rw [Action.quiet, run_showToast]
  split <;> rfl

variable [Scalar α] (y r : Env α) (s : State α) (target : Phase)

/-- What comes of a phase that ends. -/
def ended : Outcome (State α) Event Note Unit :=
  (if (s.passing target 1).isIn then showToast.quiet r (s.passing target 1)
    else ⟨s.passing target 1, [], ()⟩).after
      [.inr (.moved s.phase target), .inl (.moved s.phase target)]

theorem quiet_advance : Sidebar.advance.quiet r s =
    match s.phase.end? with
    | none => ⟨s, [], ()⟩
    | some target =>
      if 1 ≤ progressAt r.settings.slideMs s.since r.now then ended r s target
      else ⟨s.passing s.phase (progressAt r.settings.slideMs s.since r.now), [], ()⟩ := by
  rw [Action.quiet, run_advance]
  cases s.phase.end? with
  | none => rfl
  | some target =>
    dsimp only
    split
    · change ((Step.quiet r (if (s.passing target 1).isIn then showToast.run r (s.passing target 1)
        else .done (s.passing target 1) ())).after [.inl _]).after [.inr _] = _
      rw [ended]
      split <;> rfl
    · rfl

theorem phase_ended : (ended r s target).state.phase = target := by
  unfold ended
  split
  · rw [quiet_showToast]
    split <;> rfl
  · rfl

/-- The sidebar ends up the same and tells the same, but the toast may have come at another time. -/
def SameButToast {β γ : Type} (x : Outcome (State α) Event Note β)
    (x' : Outcome (State α) Event Note γ) : Prop :=
  (∃ since, x.state = { x'.state with toast := { x'.state.toast with since } }) ∧ x.out = x'.out

omit [Scalar α] in
theorem SameButToast.refl {β : Type} (x : Outcome (State α) Event Note β) : SameButToast x x :=
  ⟨⟨_, rfl⟩, rfl⟩

/-- A phase ends the same way whenever it ends. -/
theorem sameButToast_ended : SameButToast (ended y s target) (ended r s target) := by
  unfold ended
  split
  · rw [quiet_showToast, quiet_showToast]
    split
    · exact .refl _
    · exact ⟨⟨_, rfl⟩, rfl⟩
  · exact .refl _

/-- An update leaves nothing for a later one to see: what it writes is written anew, and what it ends
is over for both. -/
theorem sameButToast_advance
    (h : 1 ≤ progressAt y.settings.slideMs s.since y.now →
      1 ≤ progressAt r.settings.slideMs s.since r.now) :
    SameButToast ((Sidebar.advance.quiet r (Sidebar.advance.quiet y s).state).after
      (Sidebar.advance.quiet y s).out) (Sidebar.advance.quiet r s) := by
  cases he : s.phase.end? with
  | none =>
    have hrest (r : Env α) : Sidebar.advance.quiet r s = ⟨s, [], ()⟩ := by rw [quiet_advance, he]
    rw [hrest y, hrest r]
    exact .refl _
  | some target =>
    by_cases hy : 1 ≤ progressAt y.settings.slideMs s.since y.now
    · have hover (r : Env α) (hr : 1 ≤ progressAt r.settings.slideMs s.since r.now) :
          Sidebar.advance.quiet r s = ended r s target := by
        rw [quiet_advance, he]
        exact if_pos hr
      have hrest (t : State α) (ht : t.phase = target) : Sidebar.advance.quiet r t = ⟨t, [], ()⟩ := by
        rw [quiet_advance, ht, end?_of_end? he]
      rw [hover y hy, hover r (h hy), hrest _ (phase_ended y s target)]
      obtain ⟨hstate, hout⟩ := sameButToast_ended y r s target
      exact ⟨hstate, (List.append_nil _).trans hout⟩
    · have hunder : Sidebar.advance.quiet y s =
          ⟨s.passing s.phase (progressAt y.settings.slideMs s.since y.now), [], ()⟩ := by
        rw [quiet_advance, he]
        exact if_neg hy
      have hsame (p : α) : Sidebar.advance.quiet r (s.passing s.phase p) =
          Sidebar.advance.quiet r s := by
        have hp : (s.passing s.phase p).phase.end? = some target := he
        rw [quiet_advance, quiet_advance, he, hp]
        rfl
      rw [hunder, hsame]
      exact .refl _

end Updates

section Frames

/-- Updates that each come no later than the last one, in whatever order, and with the same time for a
slide. Afterwards the sidebar is as after the last update alone, and has told the same; only the toast
may have come earlier. -/
theorem late_frame_jumps {frames : List (Env Float)} {r : Env Float}
    (h : ∀ y ∈ frames, y.settings.slideMs = r.settings.slideMs ∧ y.now ≤ r.now)
    (s : State Float) :
    SameButToast (quietRun Call.run ((frames ++ [r]).map (·, .advance)) s)
      (Call.advance.run.quiet r s) := by
  induction frames generalizing s with
  | nil => exact ⟨⟨_, rfl⟩, List.append_nil _⟩
  | cons y frames ih =>
    obtain ⟨hy, h⟩ := List.forall_mem_cons.1 h
    obtain ⟨⟨since, hstate⟩, hout⟩ := ih h (Call.advance.run.quiet y s).state
    obtain ⟨⟨since', hstate'⟩, hout'⟩ := sameButToast_advance y r s fun hover => by
      rw [hy.1] at hover
      exact one_le_progressAt hy.2 hover
    refine ⟨⟨since, hstate.trans ?_⟩, ?_⟩
    · exact congrArg (fun t : State Float => { t with toast := { t.toast with since } }) hstate'
    · exact (congrArg (_ ++ ·) hout).trans hout'

/-- The sidebar has come out, and begins to go in at 400 ms. -/
def goingIn : State Float :=
  (quietRun Call.run [(⟨0, .standard⟩, .expand), (⟨300000, .standard⟩, .advance),
    (⟨400000, .standard⟩, .collapse false)] State.initial).state

/-- Two frames on the way, the second of which ends the collapse already. -/
def framesIn : List (Env Float) := [⟨500000, .standard⟩, ⟨690000, .standard⟩]

def lastFrame : Env Float := ⟨900000, .standard⟩

theorem late_frame_jumps_goingIn :
    let late := Call.advance.run.quiet lastFrame goingIn
    goingIn.isMoving ∧
    SameButToast (quietRun Call.run ((framesIn ++ [lastFrame]).map (·, .advance)) goingIn) late ∧
    late.state.phase = .collapsed ∧ late.events = [.moved .collapsing .collapsed, .toast] := by
  have hframes : ∀ y ∈ framesIn,
      y.settings.slideMs = lastFrame.settings.slideMs ∧ y.now ≤ lastFrame.now := by
    refine List.forall_mem_cons.2 ⟨⟨rfl, ?_⟩, List.forall_mem_singleton.2 ⟨rfl, ?_⟩⟩ <;>
      decide +kernel
  exact ⟨by decide +kernel, late_frame_jumps hframes goingIn, by decide +kernel, by decide +kernel⟩

end Frames

end HandheldUI.Sidebar
