import HandheldUI.Proofs.Action.History
import HandheldUI.Proofs.Action.Moment
import HandheldUI.Proofs.Sidebar.Moves

/-! Where the wave goes on when the sidebar comes out again. Each granted collapse puts the phases of
the wave by, and an expansion takes up what was put by last. A sidebar that is shut puts nothing by,
so its wave does not go on where it stopped but where a collapse has found it before. -/

namespace HandheldUI.Sidebar

open HandheldUI.Action

section Histories

variable {α : Type}

/-- The sidebar stops being out. It goes on to a phase, and the wave stays in some phases. -/
def departure? : State α × (Call ⊕ Event) → Option (Phase × Phases α)
  | (s, .inr (.moved .expanded new)) => some (new, s.wave.phases)
  | _ => none

def departures (h : List (State α × (Call ⊕ Event))) : List (Phase × Phases α) :=
  h.filterMap departure?

/-- A collapse is granted. -/
def IsParting (y : State α × (Call ⊕ Event)) : Prop := y.2 = .inr (.moved .expanded .collapsing)

/-- A request to expand is granted. -/
def IsReturn (y : State α × (Call ⊕ Event)) : Prop := y.2 = .inr (.moved .collapsed .expanding)

instance : DecidablePred (IsReturn (α := α)) := fun y =>
  inferInstanceAs (Decidable (y.2 = .inr (.moved .collapsed .expanding)))

variable [Scalar α] {h : List (State α × (Call ⊕ Event))} {y : State α × (Call ⊕ Event)}

/-- The phases of the wave at the last of these departures, zero if there are none. -/
def lastPhases (l : List (Phase × Phases α)) : Phases α := (l.getLast?.map Prod.snd).getD ⟨0, 0⟩

/-- The phases of the wave when the sidebar has last stopped being out. -/
def leftAt (h : List (State α × (Call ⊕ Event))) : Phases α := lastPhases (departures h)

/-- The phases of the wave when a collapse was last granted. -/
def parkedAt (h : List (State α × (Call ⊕ Event))) : Phases α :=
  lastPhases ((departures h).filter fun d => d.1 = .collapsing)

@[simp] theorem lastPhases_concat (l : List (Phase × Phases α)) (d : Phase × Phases α) :
    lastPhases (l ++ [d]) = d.2 := by
  simp [lastPhases]

theorem parkedAt_concat_of_parting (hy : IsParting y) : parkedAt (h ++ [y]) = y.1.wave.phases := by
  have hd : departure? y = some (.collapsing, y.1.wave.phases) := by
    obtain ⟨s, x⟩ := y
    obtain rfl : x = .inr (.moved .expanded .collapsing) := hy
    rfl
  simp [parkedAt, departures, hd]

theorem parkedAt_concat (hy : ¬IsParting y) : parkedAt (h ++ [y]) = parkedAt h := by
  have hd (d : Phase × Phases α) (hd : d ∈ departure? y) : d.1 ≠ .collapsing := by
    obtain ⟨s, c | ⟨old, new⟩ | -⟩ := y
    · cases hd
    · cases old with
      | expanded =>
        cases hd
        rintro (rfl : new = .collapsing)
        exact hy rfl
      | collapsing | collapsed | expanding => cases hd
    · cases hd
  cases he : departure? y with
  | none => simp [parkedAt, departures, he]
  | some d => simp [parkedAt, departures, he, hd d he]

theorem leftAt_eq_parkedAt_iff : leftAt h = parkedAt h ↔
    ∀ d ∈ (departures h).getLast?, d.1 ≠ .collapsing → d.2 = parkedAt h := by
  unfold leftAt parkedAt
  rcases List.eq_nil_or_concat (departures h) with hnil | ⟨l, d, hl⟩
  · simp [hnil]
  · rw [hl, List.concat_eq_append, lastPhases_concat]
    by_cases hd : d.1 = .collapsing
    · simp [hd]
    · simp [hd]

end Histories

variable {α : Type} [Scalar α]

/-- What the last granted collapse has found is put by, and every return has taken that up. -/
structure Parks (h : List (State α × (Call ⊕ Event))) (s : State α) : Prop where
  stored : s.stored = parkedAt h
  returns : History.Always (fun before y => IsReturn y → y.1.wave.phases = parkedAt before) h

namespace Parks

variable {h : List (State α × (Call ⊕ Event))} {y : State α × (Call ⊕ Event)} {s t : State α}

theorem concat (k : Parks h s) (ht : t.stored = s.stored) (hp : ¬IsParting y)
    (hr : IsReturn y → y.1.wave.phases = s.stored) : Parks (h ++ [y]) t where
  stored := by rw [ht, k.stored, parkedAt_concat hp]
  returns := History.always_concat.2 ⟨k.returns, fun hy => (hr hy).trans k.stored⟩

theorem call (k : Parks h s) (c : Call) : Parks (h ++ [(s, .inl c)]) s :=
  k.concat rfl (by simp [IsParting]) fun hr => by simp [IsReturn] at hr

theorem toast (k : Parks h s) : Parks (h ++ [(s, .inr .toast)]) s :=
  k.concat rfl (by simp [IsParting]) fun hr => by simp [IsReturn] at hr

theorem move (k : Parks h s) (hc : t.phase = .collapsing → s.phase = .expanded)
    (hm : Moved s t) : Parks (h ++ [(t, .inr (.moved s.phase t.phase))]) t := by
  have ⟨hstored, hphases⟩ := hm
  by_cases ht : t.phase = .collapsing
  · have hp : IsParting (t, .inr (.moved s.phase t.phase)) := by rw [IsParting, ht, hc ht]
    have hr : ¬IsReturn (t, .inr (.moved s.phase t.phase)) := by simp [IsReturn, ht]
    rw [if_pos ht] at hstored
    rw [ht, if_neg (by decide)] at hphases
    refine ⟨?_, History.always_concat.2 ⟨k.returns, fun hy => absurd hy hr⟩⟩
    rw [parkedAt_concat_of_parting hp, hstored, hphases]
  · have hp : ¬IsParting (t, .inr (.moved s.phase t.phase)) := by simp [IsParting, ht]
    rw [if_neg ht] at hstored
    refine k.concat hstored hp fun hr => ?_
    have hout : t.phase = .expanding := (Event.moved.inj (Sum.inr.inj hr)).2
    rw [hphases, if_pos hout]

end Parks

theorem Call.eq_expanded_of_makes {c : Call} {p q : Phase} (h : c.Makes p q)
    (hq : q = .collapsing) : p = .expanded := by
  cases c <;> simp only [Makes] at h <;> grind

theorem followed_parks : Followed (Parks (α := α)) where
  call k := k.call _
  stay k _ ht := ⟨ht.trans k.stored, k.returns⟩
  toast k := k.toast
  move k hc hm := (k.call _).move (Call.eq_expanded_of_makes hc) hm

/-- At every moment of a run, whatever listeners call: what is put by are the phases of the wave when
a collapse was last granted, an expansion granted now goes on from them, and so has each return so
far. It has gone on from where the wave stopped exactly if the sidebar had last stopped being out by
a granted collapse, or the wave was then as the last such collapse had found it. -/
theorem returns_of_moment {h : List (State α × (Call ⊕ Event))} {g : State α}
    (m : Moment Call.run State.initial h g) :
    g.stored = parkedAt h ∧
    (g.isIn → ∀ r, (expand.quiet r g).state.wave.phases = parkedAt h) ∧
    History.Always (fun before y => IsReturn y →
      y.1.wave.phases = parkedAt before ∧
      (y.1.wave.phases = leftAt before ↔
        ∀ d ∈ (departures before).getLast?, d.1 ≠ .collapsing → d.2 = parkedAt before)) h := by
  have initial : Parks ([] : List (State α × (Call ⊕ Event))) State.initial :=
    ⟨rfl, History.always_nil⟩
  have k : Parks h g := m.holds initial fun c _ r _ k => followed_parks.records r c k
  refine ⟨k.stored, fun hi r => ?_, fun before y after hh hy => ?_⟩
  · unfold Action.quiet
    rw [run_expand, if_pos hi]
    exact k.stored
  · have hp : y.1.wave.phases = parkedAt before := k.returns before y after hh hy
    refine ⟨hp, ?_⟩
    rw [hp, eq_comm]
    exact leftAt_eq_parkedAt_iff

section Shut

def later : Env Rat := { hasty with now := 1000000 }

/-- The sidebar is out for a second, is shut, and comes out again. -/
def shutOut : List (Env Rat × Call) :=
  [(hasty, .expand), (later, .tick), (later, .shut), (later, .expand)]

theorem moment_shutOut : Moment Call.run State.initial
    (quietDiary Call.run shutOut State.initial) (quietRun Call.run shutOut State.initial).state :=
  (diary_quietDiary Call.run shutOut State.initial).moment

theorem returns_of_moment_shutOut : Moment Call.run State.initial
    (quietDiary Call.run shutOut State.initial) (quietRun Call.run shutOut State.initial).state ∧
    (quietRun Call.run shutOut State.initial).state.stored = ⟨0, 0⟩ ∧
    leftAt (quietDiary Call.run shutOut State.initial) = ⟨7 / 10, 11 / 10⟩ := by
  refine ⟨moment_shutOut, ?_, by decide +kernel⟩
  rw [(returns_of_moment moment_shutOut).1]
  decide +kernel

/-- The wave does not always go on where it stopped. -/
theorem not_returns_to_leftAt : ¬∀ (h : List (State Rat × (Call ⊕ Event))) (g : State Rat),
    Moment Call.run State.initial h g →
      History.Always (fun before y => IsReturn y → y.1.wave.phases = leftAt before) h := by
  intro hall
  have returned := hall _ _ moment_shutOut
  revert returned
  decide +kernel

end Shut

end HandheldUI.Sidebar
