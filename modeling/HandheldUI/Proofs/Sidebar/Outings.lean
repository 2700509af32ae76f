import Mathlib.Algebra.Order.ToIntervalMod
import Mathlib.Data.Rat.Floor
import HandheldUI.Proofs.Action.History
import HandheldUI.Proofs.Action.Moment
import HandheldUI.Proofs.Scalar.Rational
import HandheldUI.Proofs.Sidebar.Steps

/-! How far the wave has come, in exact numbers. It moves in outings: from a granted request to
expand up to the last frame that leaves the sidebar out. Whatever lies between two outings leaves no
trace in it, and within an outing only the two ends count. -/

namespace HandheldUI.Sidebar

open HandheldUI.Action

section Wrapping

theorem wrap_pos : (0 : Rat) < wrap := by decide +kernel

/-- Both layers after so many microseconds of movement. -/
noncomputable def wound (us : Rat) : Phases Rat where
  bottom := toIcoMod wrap_pos 0 (bottomSpeed * (us / 1000000))
  top := toIcoMod wrap_pos 0 (topSpeed * (us / 1000000))

theorem wound_zero : wound 0 = ⟨0, 0⟩ := by
  simp [wound]

theorem rem_wrap {x : Rat} (hx : 0 ≤ x) : Scalar.rem x wrap = toIcoMod wrap_pos 0 x := by
  have hq : 0 ≤ x / wrap := div_nonneg hx wrap_pos.le
  calc Scalar.rem x wrap = x - wrap * ⌊x / wrap⌋ := by
        rw [Scalar.rem_eq, Scalar.trunc_of_nonneg hq, natCast_floor_eq_intCast_floor hq]
    _ = Int.fract (x / wrap) * wrap := by
        rw [Int.fract, sub_mul, div_mul_cancel₀ x wrap_pos.ne', mul_comm wrap]
    _ = toIcoMod wrap_pos 0 x := by rw [toIcoMod_eq_fract_mul]

/-- A phase may be reduced before it grows. -/
theorem shift_toIcoMod {x speed seconds : Rat} (hspeed : 0 ≤ speed) (hsec : 0 ≤ seconds) :
    Wave.shift (toIcoMod wrap_pos 0 x) speed seconds =
      toIcoMod wrap_pos 0 (x + speed * seconds) := by
  have hx : 0 ≤ toIcoMod wrap_pos 0 x := left_le_toIcoMod wrap_pos 0 x
  have hsum : 0 ≤ toIcoMod wrap_pos 0 x + speed * seconds :=
    add_nonneg hx (mul_nonneg hspeed hsec)
  calc Wave.shift (toIcoMod wrap_pos 0 x) speed seconds
      = toIcoMod wrap_pos 0 (toIcoMod wrap_pos 0 x + speed * seconds) := rem_wrap hsum
    _ = toIcoMod wrap_pos 0 (x + speed * seconds) := by
        refine (toIcoMod_eq_toIcoMod wrap_pos).2 ⟨toIcoDiv wrap_pos 0 x, ?_⟩
        rw [add_sub_add_right_eq_sub, self_sub_toIcoMod]

theorem max_zero_sub {l now : Rat} (h : l ≤ now) : Scalar.max 0 (now - l) = now - l := by
  rw [Scalar.max_eq_max]
  exact max_eq_right (sub_nonneg.2 h)

theorem advance_wound {w : Wave Rat} {x l now : Rat} (hp : w.phases = wound x)
    (hl : w.last? = some l) (h : l ≤ now) :
    w.advance now = ⟨wound (x + (now - l)), some now⟩ := by
  have hsec : 0 ≤ (now - l) / 1000000 := div_nonneg (sub_nonneg.2 h) (by norm_num)
  have hsum (speed : Rat) : speed * (x / 1000000) + speed * ((now - l) / 1000000) =
      speed * ((x + (now - l)) / 1000000) := by ring
  have hbottom : (0 : Rat) ≤ bottomSpeed := by decide +kernel
  have htop : (0 : Rat) ≤ topSpeed := by decide +kernel
  unfold Wave.advance
  rw [hl, hp]
  dsimp only [wound]
  rw [max_zero_sub h, shift_toIcoMod hbottom hsec, shift_toIcoMod htop hsec, hsum, hsum]

end Wrapping

section Effects

/-- The phase is out, or leads there. -/
def Phase.leadsOut : Phase → Bool
  | expanded | expanding => true
  | collapsed | collapsing => false

theorem Phase.leadsOut_end {p q : Phase} (h : p.end? = some q) : q.leadsOut = p.leadsOut := by
  cases p <;> simp_all [Phase.end?, leadsOut] <;> rw [← h]

variable {α : Type} [Scalar α]

/-- The request to expand is granted. -/
def Call.expands (c : Call) (s : State α) : Bool := (c = .expand || c = .flip) && s.isIn

/-- The call is a frame, and the update in it leaves the sidebar out. -/
def Call.shows (c : Call) (r : Env α) (s : State α) : Bool :=
  c = .tick && (Sidebar.advance.quiet r s).state.isOut

/-- A step that does not turn the sidebar round nor put anything by. The wave is `wave` in the end,
and as before as long as somebody looks. -/
structure Passes (r : Env α) (s : State α) (x : Step (Env α) (State α) Event Note Unit)
    (wave : Wave α) : Prop where
  wave : (x.quiet r).state.wave = wave
  stored : (x.quiet r).state.stored = s.stored
  leadsOut : (x.quiet r).state.phase.leadsOut = s.phase.leadsOut
  seen : ∀ y ∈ x.seen r, y.1.wave = s.wave

/-- All that a call but `shut` can do, where listeners only look. -/
inductive Effect (r : Env α) (s : State α) (c : Call) : Prop where
  | expand (granted : c.expands s) (run : c.run.run r s =
      (begin .expanding).run r { s with wave := (s.wave.restore s.stored).restart r.now })
  | collapse (request : c ≠ .tick) (out : s.isOut)
      (run : c.run.run r s = (begin .collapsing).run r { s with stored := s.wave.phases })
  | pass (refused : ¬c.expands s)
      (passes : Passes r s (c.run.run r s) (if c.shows r s then s.wave.advance r.now else s.wave))

namespace Passes

omit [Scalar α]

variable {r : Env α} {s t : State α} {wave : Wave α}

theorem done (hw : t.wave = wave) (hs : t.stored = s.stored)
    (ho : t.phase.leadsOut = s.phase.leadsOut) : Passes r s (.done t ()) wave :=
  ⟨hw, hs, ho, nofun⟩

theorem say {o : Note} {rest : Step (Env α) (State α) Event Note Unit}
    (h : Passes r s rest wave) : Passes r s (.say t o rest) wave :=
  ⟨h.wave, h.stored, h.leadsOut, h.seen⟩

theorem announce {e : Event} {next : Env α → State α → Step (Env α) (State α) Event Note Unit}
    (ht : t.wave = s.wave) (h : Passes r s (next r t) wave) :
    Passes r s (.announce t e next) wave :=
  ⟨h.wave, h.stored, h.leadsOut, List.forall_mem_cons.2 ⟨ht, h.seen⟩⟩

/-- Another step may follow one that leaves the wave alone. -/
theorem bind {x : Step (Env α) (State α) Event Note Unit} {f : Unit → Op α Unit}
    (h : Passes r s x s.wave)
    (hf : Passes r (x.quiet r).state ((f ()).run r (x.quiet r).state) wave) :
    Passes r s (x.bind f r) wave := by
  have hstate : ((x.bind f r).quiet r).state =
      (((f ()).run r (x.quiet r).state).quiet r).state := by rw [Step.quiet_bind]; rfl
  refine ⟨?_, ?_, ?_, ?_⟩
  · rw [hstate, hf.wave]
  · rw [hstate, hf.stored, h.stored]
  · rw [hstate, hf.leadsOut, h.leadsOut]
  · rw [Step.seen_bind, List.forall_mem_append]
    exact ⟨h.seen, fun y hy => (hf.seen y hy).trans h.wave⟩

end Passes

variable (r : Env α) (s : State α) {c : Call}

omit [Scalar α] in
theorem passes_showToast {t : State α} (hw : t.wave = s.wave) (hs : t.stored = s.stored)
    (ho : t.phase.leadsOut = s.phase.leadsOut) : Passes r s (showToast.run r t) s.wave := by
  rw [run_showToast]
  split
  · exact .done hw hs ho
  · exact .announce hw (.done hw hs ho)

theorem passes_advance : Passes r s (advance.run r s) s.wave := by
  rw [run_advance]
  cases he : s.phase.end? with
  | none => exact .done rfl rfl rfl
  | some target =>
    have hout : target.leadsOut = s.phase.leadsOut := Phase.leadsOut_end he
    dsimp only
    split
    · refine .say (.announce rfl ?_)
      split
      · exact passes_showToast r s rfl rfl hout
      · exact .done rfl rfl hout
    · exact .done rfl rfl rfl

theorem passes_fadeToast : Passes r s (fadeToast.run r s) s.wave := by
  obtain ⟨toast, ht⟩ := s.faded_eq r.now
  rw [run_fadeToast, ht]
  exact .done rfl rfl rfl

/-- The wave moves after everything else that a frame does. -/
theorem passes_tick : Passes r s (tick.run r s)
    (if (advance.quiet r s).state.isOut then s.wave.advance r.now else s.wave) := by
  have h : Passes r s (advance.run r s) s.wave := passes_advance r s
  let t := (advance.quiet r s).state
  have hwave : t.wave = s.wave := h.wave
  have hdrawn : ((t.faded r.now).waved r.now).wave =
        (if t.isOut then t.wave.advance r.now else t.wave) ∧
      ((t.faded r.now).waved r.now).stored = t.stored := by
    obtain ⟨toast, ht⟩ := t.faded_eq r.now
    rw [ht]
    change (if t.isOut then _ else _ : State α).wave = _ ∧
      (if t.isOut then _ else _ : State α).stored = _
    split <;> exact ⟨rfl, rfl⟩
  rw [run_tick]
  refine h.bind (.done ?_ hdrawn.2 ?_)
  · rw [← hwave]
    exact hdrawn.1
  · rw [State.phase_waved, State.phase_faded]

theorem effect (hc : c ≠ .shut) : Effect r s c := by
  -- what a call does not grant leaves everything as it was
  have idle (hc : c ≠ .tick) (he : ¬c.expands s) (h : Passes r s (c.run.run r s) s.wave) :
      Effect r s c := by
    refine .pass he ?_
    rw [Call.shows, decide_eq_false hc]
    exact h
  cases c with
  | shut => exact absurd rfl hc
  | collapse byContent =>
    have hrun := run_collapse r s byContent
    split at hrun
    · exact idle nofun nofun (hrun ▸ .say (.done rfl rfl rfl))
    · split at hrun
      · next ho => exact .collapse nofun ho hrun
      · exact idle nofun nofun (hrun ▸ .done rfl rfl rfl)
  | expand =>
    have hrun := run_expand r s
    split at hrun
    · next hi => exact .expand (by simpa [Call.expands] using hi) hrun
    · next hi => exact idle nofun (by simpa [Call.expands] using hi) (hrun ▸ .done rfl rfl rfl)
  | flip =>
    have hrun := run_flip r s
    split at hrun
    · next ho =>
      rw [run_collapse, if_neg (by simp), if_pos ho] at hrun
      exact .collapse nofun ho hrun
    · split at hrun
      · next hi =>
        rw [run_expand, if_pos hi] at hrun
        exact .expand (by simpa [Call.expands] using hi) hrun
      · next hi => exact idle nofun (by simpa [Call.expands] using hi) (hrun ▸ .done rfl rfl rfl)
  | advance => exact idle nofun nofun (passes_advance r s)
  | fadeToast => exact idle nofun nofun (passes_fadeToast r s)
  | tick => exact .pass nofun (passes_tick r s)

variable {s}

/-- Only a granted request to expand turns the sidebar outward. -/
theorem leadsOut_of_quiet (hc : c ≠ .shut) (he : ¬c.expands s)
    (h : (c.run.quiet r s).state.phase.leadsOut) : s.phase.leadsOut := by
  cases effect r s hc with
  | expand granted run => exact absurd granted he
  | collapse _ out run =>
    unfold Action.quiet at h
    rw [run] at h
    cases h
  | pass _ passes => exact passes.leadsOut ▸ h

theorem leadsOut_of_shows (h : c.shows r s) : s.phase.leadsOut := by
  obtain ⟨-, ho⟩ := Bool.and_eq_true_iff.1 h
  have hs : (advance.quiet r s).state.phase = .expanded := of_decide_eq_true ho
  have hout : (advance.quiet r s).state.phase.leadsOut = s.phase.leadsOut :=
    (passes_advance r s).leadsOut
  rw [← hout, hs]
  rfl

end Effects

/-- When a frame has last left the sidebar out, before it expands again. -/
def lastShown? : State Rat → List (Env Rat × Call) → Option Rat
  | _, [] => none
  | s, (r, c) :: rest =>
    if c.expands s then none
    else (lastShown? (c.run.quiet r s).state rest).or (if c.shows r s then some r.now else none)

/-- From the start of an outing to its last frame; nothing if it has none. -/
def outing (start : Rat) (last? : Option Rat) : Rat := (last?.map fun last => last - start).getD 0

/-- How long all outings take together, in microseconds. -/
def timeOut : State Rat → List (Env Rat × Call) → Rat
  | _, [] => 0
  | s, (r, c) :: rest =>
    let t := (c.run.quiet r s).state
    (if c.expands s then outing r.now (lastShown? t rest) else 0) + timeOut t rest

/-- Before it expands, a sidebar that does not lead out is not left out by any frame. -/
theorem lastShown?_eq_none {s : State Rat} {h : List (Env Rat × Call)}
    (hshut : ∀ y ∈ h, y.2 ≠ .shut) (hs : ¬s.phase.leadsOut) : lastShown? s h = none := by
  induction h generalizing s with
  | nil => rfl
  | cons y rest ih =>
    obtain ⟨r, c⟩ := y
    obtain ⟨hc, hshut⟩ := List.forall_mem_cons.1 hshut
    rw [lastShown?]
    split
    · rfl
    · next he =>
      have hrest := ih hshut fun h => hs (leadsOut_of_quiet r hc he h)
      rw [hrest, if_neg fun h => hs (leadsOut_of_shows r h), Option.or_none]

/-- The wave is as after `x` microseconds. While the sidebar leads out, they have been counted up to
the time `l`; otherwise the wave is put by as it is. -/
structure Winds (s : State Rat) (x l : Rat) : Prop where
  phases : s.wave.phases = wound x
  counted : s.phase.leadsOut → s.wave.last? = some l
  parked : s.phase.leadsOut = false → s.stored = wound x

namespace Winds

variable {s : State Rat} {x l : Rat} {c : Call} (r : Env Rat)

theorem initial (l : Rat) : Winds State.initial 0 l where
  phases := wound_zero.symm
  counted := nofun
  parked _ := wound_zero.symm

theorem stored_of_expands (w : Winds s x l) (h : c.expands s) : s.stored = wound x := by
  have hs : s.phase = .collapsed := of_decide_eq_true (Bool.and_eq_true_iff.1 h).2
  exact w.parked (congrArg Phase.leadsOut hs)

/-- A granted request to expand starts the count anew, and a frame that leaves the sidebar out adds
the time since the count. No other call lets the wave go on. -/
theorem next (w : Winds s x l) (hc : c ≠ .shut) (hl : l ≤ r.now) :
    let t := (c.run.quiet r s).state
    c.expands s ∧ Winds t x r.now ∨
    (¬c.expands s ∧ c.shows r s) ∧ Winds t (x + (r.now - l)) r.now ∨
    (¬c.expands s ∧ ¬c.shows r s) ∧ Winds t x l := by
  intro t
  cases effect r s hc with
  | expand granted run =>
    refine .inl ⟨granted, ?_⟩
    have ht : t = _ := congrArg (fun x => (x.quiet r).state) run
    rw [ht]
    exact ⟨w.stored_of_expands granted, fun _ => rfl, nofun⟩
  | collapse request out run =>
    have hs : s.phase = .expanded := of_decide_eq_true out
    have he : ¬c.expands s := by simp [Call.expands, State.isIn, hs]
    refine .inr (.inr ⟨⟨he, by simp [Call.shows, request]⟩, ?_⟩)
    have ht : t = _ := congrArg (fun x => (x.quiet r).state) run
    rw [ht]
    exact ⟨w.phases, nofun, fun _ => w.phases⟩
  | pass refused passes =>
    have hout : t.phase.leadsOut = s.phase.leadsOut := passes.leadsOut
    have hstored : t.stored = s.stored := passes.stored
    have hwave : t.wave = if c.shows r s then s.wave.advance r.now else s.wave := passes.wave
    by_cases hs : c.shows r s
    · have hlead : s.phase.leadsOut := leadsOut_of_shows r hs
      rw [if_pos hs, advance_wound w.phases (w.counted hlead) hl] at hwave
      refine .inr (.inl ⟨⟨refused, hs⟩, by rw [hwave], fun _ => by rw [hwave], fun hp => ?_⟩)
      rw [hout, hlead] at hp
      cases hp
    · rw [if_neg hs] at hwave
      refine .inr (.inr ⟨⟨refused, hs⟩, ?_⟩)
      exact ⟨hwave ▸ w.phases, hout ▸ hwave ▸ w.counted, hout ▸ hstored ▸ w.parked⟩

/-- Whoever looks during a call sees the wave as it was before. -/
theorem seen (w : Winds s x l) (hc : c ≠ .shut) :
    ∀ y ∈ (c.run.run r s).seen r, y.1.wave.phases = wound x := by
  cases effect r s hc with
  | expand granted run =>
    rw [run]
    exact List.forall_mem_singleton.2 (w.stored_of_expands granted)
  | collapse _ _ run =>
    rw [run]
    exact List.forall_mem_singleton.2 w.phases
  | pass _ passes =>
    intro y hy
    rw [passes.seen y hy, w.phases]

/-- The wave gets as far as the outings from now on take it, the present one included. -/
theorem reached (w : Winds s x l) {h : List (Env Rat × Call)} (hshut : ∀ y ∈ h, y.2 ≠ .shut)
    (hclock : h.Pairwise fun y z => y.1.now ≤ z.1.now) (hl : ∀ y ∈ h, l ≤ y.1.now) :
    ∃ l', Winds (Action.reached Call.run s h) (x + outing l (lastShown? s h) + timeOut s h) l' := by
  induction h generalizing s x l with
  | nil => exact ⟨l, by simpa [lastShown?, outing, timeOut] using w⟩
  | cons y rest ih =>
    obtain ⟨r, c⟩ := y
    obtain ⟨hc, hshut⟩ := List.forall_mem_cons.1 hshut
    obtain ⟨hnow, hclock⟩ := List.pairwise_cons.1 hclock
    obtain ⟨hlr, hl⟩ := List.forall_mem_cons.1 hl
    let t := (c.run.quiet r s).state
    change ∃ l', Winds (Action.reached Call.run t rest) _ l'
    simp only [lastShown?, timeOut]
    rcases w.next r hc hlr with ⟨he, w⟩ | ⟨⟨he, hs⟩, w⟩ | ⟨⟨he, hs⟩, w⟩
    · -- a new outing begins, and the present one has come to its end
      simpa [he, outing, add_assoc] using ih w hshut hclock hnow
    · obtain ⟨l', w⟩ := ih w hshut hclock hnow
      refine ⟨l', ?_⟩
      -- the outing so far and the one from here on are one
      have hsum : x + (r.now - l) + outing r.now (lastShown? t rest) =
          x + outing l ((lastShown? t rest).or (some r.now)) := by
        cases lastShown? t rest with
        | none => simp [outing]
        | some last =>
          simp only [outing, Option.map_some, Option.getD_some, Option.some_or]
          ring
      rw [hsum] at w
      simpa [he, hs] using w
    · simpa [he, hs] using ih w hshut hclock hl

end Winds

/-- The wave is where the outings so far have taken it, added up and wrapped. So it is for whoever
looks between calls or, without making any, during the next call. -/
theorem phases_eq_wound {h : List (Env Rat × Call)} (hshut : ∀ y ∈ h, y.2 ≠ .shut)
    (hclock : h.Pairwise fun y z => y.1.now ≤ z.1.now) :
    (reached Call.run State.initial h).wave.phases = wound (timeOut State.initial h) ∧
    ∀ (r : Env Rat) (c : Call), c ≠ .shut →
      ∀ y ∈ (c.run.run r (reached Call.run State.initial h)).seen r,
        y.1.wave.phases = wound (timeOut State.initial h) := by
  obtain ⟨l, hl⟩ : ∃ l, ∀ y ∈ h, l ≤ y.1.now := by
    cases h with
    | nil => exact ⟨0, nofun⟩
    | cons y rest =>
      have hrest := (List.pairwise_cons.1 hclock).1
      exact ⟨y.1.now, List.forall_mem_cons.2 ⟨le_rfl, hrest⟩⟩
  obtain ⟨l', w⟩ := (Winds.initial l).reached hshut hclock hl
  have hin : ¬(State.initial : State Rat).phase.leadsOut := Bool.false_ne_true
  rw [lastShown?_eq_none hshut hin, show outing l none = 0 from rfl, zero_add, zero_add] at w
  exact ⟨w.phases, fun r c hc => w.seen r hc⟩

/-- The surroundings so many milliseconds after the start. -/
def afterMs (ms : Rat) : Env Rat :=
  ⟨1000 * ms, { pinned := false, verbose := false, slideMs := 280, swipePx := 0 }⟩

/-- Two outings. The time between them is not counted, nor is the half second at the end of the
first in which no frame is drawn. -/
def twoOutings : List (Env Rat × Call) :=
  [(afterMs 1000, .expand), (afterMs 1100, .tick), (afterMs 1300, .tick), (afterMs 3000, .tick),
    (afterMs 3500, .collapse false), (afterMs 3600, .tick), (afterMs 4000, .tick),
    (afterMs 9000, .flip), (afterMs 9500, .tick)]

theorem phases_eq_wound_twoOutings : (∀ y ∈ twoOutings, y.2 ≠ .shut) ∧
    (twoOutings.Pairwise fun y z => y.1.now ≤ z.1.now) ∧
    (reached Call.run State.initial twoOutings).wave.phases = wound 2500000 := by
  have hshut : ∀ y ∈ twoOutings, y.2 ≠ .shut := by decide
  have hclock : twoOutings.Pairwise fun y z => y.1.now ≤ z.1.now := by decide +kernel
  have htime : timeOut State.initial twoOutings = 2500000 := by decide +kernel
  refine ⟨hshut, hclock, ?_⟩
  rw [(phases_eq_wound hshut hclock).1, htime]

end HandheldUI.Sidebar
