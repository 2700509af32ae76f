import HandheldUI.Proofs.Action.Maintains
import HandheldUI.Proofs.Scalar.Signs
import HandheldUI.Proofs.Sidebar.Steps

/-! The looks of the sidebar on machine numbers. They are those of its phase and its progress
whenever somebody can look, also in the first moment of a phase, where they have not been drawn
anew: each phase begins with the looks that the one before has ended with. -/

namespace HandheldUI.Sidebar

open HandheldUI.Binary64

theorem sensible_iff {α : Type} [Scalar α] {x : α} :
    Settings.sensible x ↔ Scalar.isFinite x ∧ 0 < x := by
  rw [Settings.sensible, Bool.and_eq_true, decide_eq_true_iff]

theorem unpacked_thousand :
    unpacked 1000 = .finite .positive 8796093022208000 (-43) (by decide) := rfl

/-- Whatever the clock and the settings say, progress is a number and not below zero. -/
theorem unsigned_progressAt {slideMs since now : Float} (hs : Scalar.isFinite since)
    (hn : Scalar.isFinite now) : Unsigned (progressAt slideMs since now) := by
  unfold progressAt
  split
  · next hd =>
    obtain ⟨hfin, hpos⟩ := sensible_iff.1 hd
    obtain ⟨m, e, pos, hd⟩ := exists_unpacked_of_pos rfl hfin hpos
    have hmax : Unsigned (Scalar.max 0 (now - since)) :=
      unsigned_max rfl (isSome_sign?_sub hn hs)
    have hsec : Unsigned (Scalar.max 0 (now - since) / 1000) := hmax.div unpacked_thousand
    exact hsec.div hd
  · rfl

/-- The looks fit the phase and the progress. -/
structure Fits (s : State Float) : Prop where
  since : Scalar.isFinite s.since
  nonneg : 0 ≤ s.progress
  le_one : s.progress ≤ 1
  lt_one : s.isMoving → s.progress < 1
  look : s.look = .during s.phase s.progress

/-- An expanded sidebar looks like one that begins to collapse. -/
theorem during_collapsing_zero : (Look.during .collapsing 0 : Look Float) = .expanded := by
  decide +kernel

theorem during_expanding_zero : (Look.during .expanding 0 : Look Float) = .collapsed := by
  decide +kernel

/-- Where progress starts. -/
theorem bounds_zero : (0 : Float) ≤ 0 ∧ (0 : Float) ≤ 1 ∧ (0 : Float) < 1 := by decide

/-- Where progress ends. -/
theorem bounds_one : (0 : Float) ≤ 1 ∧ (1 : Float) ≤ 1 := by decide

theorem fits_initial : Fits State.initial where
  since := by decide
  nonneg := bounds_zero.1
  le_one := bounds_zero.2.1
  lt_one := nofun
  look := rfl

variable {s : State Float} {r : Env Float}

namespace Fits

theorem congr {t : State Float} (hs : Fits s) (hsince : t.since = s.since)
    (hphase : t.phase = s.phase) (hprogress : t.progress = s.progress) (hlook : t.look = s.look) :
    Fits t := by
  obtain ⟨phase, since, progress, stored, look, toast, wave⟩ := t
  obtain rfl : since = s.since := hsince
  obtain rfl : phase = s.phase := hphase
  obtain rfl : progress = s.progress := hprogress
  obtain rfl : look = s.look := hlook
  exact ⟨hs.since, hs.nonneg, hs.le_one, hs.lt_one, hs.look⟩

/-- A phase begins with the looks that are there already. -/
theorem entering {now : Float} (hn : Scalar.isFinite now) {new : Phase}
    (hlook : s.look = .during new 0) : Fits (s.entering new now) where
  since := hn
  nonneg := bounds_zero.1
  le_one := bounds_zero.2.1
  lt_one _ := bounds_zero.2.2
  look := hlook

theorem shut (hs : Fits s) : Fits s.shut where
  since := hs.since
  nonneg := bounds_zero.1
  le_one := bounds_zero.2.1
  lt_one := nofun
  look := rfl

theorem arrived (hs : Fits s) {target : Phase} (ht : target.end? = none) :
    Fits (s.passing target 1) where
  since := hs.since
  nonneg := bounds_one.1
  le_one := bounds_one.2
  lt_one hm := by
    change target.end?.isSome at hm
    rw [ht] at hm
    cases hm
  look := rfl

theorem passing (hs : Fits s) {p : Float} (hp : Unsigned p) (hlt : ¬(1 : Float) ≤ p) :
    Fits (s.passing s.phase p) := by
  -- the two are in order, since neither is a `NaN`
  have hlt : p < 1 := lt_of_not_le rfl (by rw [show sign? (unpacked p) = _ from hp]; rfl) hlt
  exact ⟨hs.since, hp.le rfl, le_of_lt hlt, fun _ => hlt, rfl⟩

/-- The looks at rest are those of the phase. -/
theorem look_of_isOut (hs : Fits s) (ho : s.isOut) : s.look = .during .collapsing 0 := by
  have hphase : s.phase = .expanded := of_decide_eq_true ho
  rw [hs.look, hphase]
  exact during_collapsing_zero.symm

theorem look_of_isIn (hs : Fits s) (hi : s.isIn) : s.look = .during .expanding 0 := by
  have hphase : s.phase = .collapsed := of_decide_eq_true hi
  rw [hs.look, hphase]
  exact during_expanding_zero.symm

end Fits

/-- The time is finite, whatever else the surroundings are. -/
def ClockWorks (r : Env Float) : Prop := Scalar.isFinite r.now

instance (r : Env Float) : Decidable (ClockWorks r) :=
  inferInstanceAs (Decidable (Scalar.isFinite r.now = true))

open HandheldUI.Action

theorem keeps_begin {new : Phase} (hr : ClockWorks r) (hlook : s.look = .during new 0) :
    ((begin new).run r s).Keeps ClockWorks Fits :=
  ⟨Fits.entering hr hlook, fun _ _ _ ht => ht⟩

theorem maintains_collapse (byContent : Bool) :
    Maintains ClockWorks Fits (collapse byContent) := by
  intro r s hr hs
  rw [run_collapse]
  split
  · exact hs
  · split
    · next ho => exact keeps_begin hr (hs.look_of_isOut ho)
    · exact hs

theorem maintains_expand : Maintains ClockWorks Fits expand := by
  intro r s hr hs
  rw [run_expand]
  split
  · next hi => exact keeps_begin hr (hs.look_of_isIn hi)
  · exact hs

theorem maintains_flip : Maintains ClockWorks Fits flip := by
  intro r s hr hs
  rw [run_flip]
  split
  · exact maintains_collapse false r s hr hs
  · split
    · exact maintains_expand r s hr hs
    · exact hs

theorem maintains_shut : Maintains ClockWorks Fits shut := by
  intro r s _ hs
  rw [run_shut]
  split
  · exact hs.shut
  · exact ⟨hs.shut, fun _ _ _ ht => ht⟩

theorem maintains_showToast : Maintains ClockWorks Fits showToast := by
  intro r s _ hs
  rw [run_showToast]
  split
  · exact hs
  · exact ⟨hs.congr rfl rfl rfl rfl, fun _ _ _ ht => ht⟩

theorem end?_of_end? {p q : Phase} (h : p.end? = some q) : q.end? = none := by
  cases p <;> cases h <;> rfl

theorem maintains_advance : Maintains ClockWorks Fits advance := by
  intro r s hr hs
  rw [run_advance]
  cases he : s.phase.end? with
  | none => exact hs
  | some target =>
    dsimp only
    split
    · -- the listeners of the move leave some other state, in which the toast may come
      refine ⟨hs.arrived (end?_of_end? he), fun r t hr ht => ?_⟩
      dsimp only
      split
      · exact maintains_showToast r t hr ht
      · exact ht
    · next hp => exact hs.passing (unsigned_progressAt hs.since hr) hp

theorem fits_faded (hs : Fits s) (now : Float) : Fits (s.faded now) := by
  obtain ⟨toast, ht⟩ := s.faded_eq now
  rw [ht]
  exact hs.congr rfl rfl rfl rfl

theorem fits_waved (hs : Fits s) (now : Float) : Fits (s.waved now) := by
  obtain ⟨wave, hw⟩ := s.waved_eq now
  rw [hw]
  exact hs.congr rfl rfl rfl rfl

theorem maintains_run (c : Call) : Maintains ClockWorks Fits c.run := by
  cases c with
  | collapse byContent => exact maintains_collapse byContent
  | expand => exact maintains_expand
  | flip => exact maintains_flip
  | shut => exact maintains_shut
  | advance => exact maintains_advance
  | fadeToast =>
    intro r s _ hs
    rw [show Call.fadeToast.run.run r s = _ from run_fadeToast r s]
    exact fits_faded hs r.now
  | tick =>
    intro r s hr hs
    rw [show Call.tick.run.run r s = _ from run_tick r s]
    refine (maintains_advance r s hr hs).bind hr fun _ r t _ ht => ?_
    exact fits_waved (fits_faded ht r.now) r.now

/-- Wherever somebody looks, with a clock that gives finite times of any order and with any settings
that change at any time: the looks are those of the phase at the progress; progress is within 0 and
1, and below 1 on the way; and at rest the sidebar and the pill have their full measures. -/
theorem occurs_look {g : State Float} (h : Occurs ClockWorks Call.run State.initial g) :
    g.look = .during g.phase g.progress ∧
    0 ≤ g.progress ∧ g.progress ≤ 1 ∧ (g.isMoving → g.progress < 1) ∧
    (g.phase = .collapsed → g.look = ⟨0, 140, 1⟩) ∧
    (g.phase = .expanded → g.look = ⟨130, 44, 0⟩) := by
  have hg : Fits g := Maintains.occurs maintains_run fits_initial h
  refine ⟨hg.look, hg.nonneg, hg.le_one, hg.lt_one, fun hp => ?_, fun hp => ?_⟩
  · rw [hg.look, hp]
    rfl
  · rw [hg.look, hp]
    rfl

/-- An expansion, and an update when half of its time is over. -/
def halfwayOut : List (Env Float × Call) :=
  [(⟨0, .standard⟩, .expand), (⟨140000, .standard⟩, .advance)]

theorem occurs_look_halfwayOut :
    let g := (quietRun Call.run halfwayOut State.initial).state
    Occurs ClockWorks Call.run State.initial g ∧ g.isMoving ∧ g.progress = 0.5 ∧
      g.look = .during .expanding 0.5 := by
  intro g
  have hclock : ∀ y ∈ halfwayOut, ClockWorks y.1 := by decide
  obtain ⟨trace, run⟩ := calls_quietRun Call.run halfwayOut hclock State.initial
  have hg : Occurs ClockWorks Call.run State.initial g := ⟨trace, g, run, .inl rfl⟩
  have hphase : g.phase = .expanding := by decide +kernel
  have hprogress : g.progress = 0.5 := by decide +kernel
  refine ⟨hg, by decide +kernel, hprogress, ?_⟩
  rw [(occurs_look hg).1, hphase, hprogress]

end HandheldUI.Sidebar
