import HandheldUI.Proofs.Overlay.Closing

/-! Guards and direct covers share one small room. The ledger counts the direct covers that were
accepted and not taken off again, by their answers; at any time the depth is that number and one
more for each guard that holds a cover. -/

namespace HandheldUI.Deck

open HandheldUI.Action

theorem balanced_start {ι : Type} [Fintype ι] (overlays : ι → Overlay) :
    Balanced 0 { guards := fun i => { overlay := overlays i } } where
  shown := by simp
  depth := by simp [holders, Focus.depth]

variable {ι α : Type} [DecidableEq ι] [Scalar α]

/-- The direct covers after a call and its answer, where there were `n` before. -/
def Call.tally (c : Call ι α) (answer : Option Bool) (n : ℕ) : ℕ :=
  match c, answer with
  | .focus .cover, some true => n + 1
  | .focus .uncover, some true => n - 1
  | _, _ => n

/-- The decks that calls lead to, each with its number of direct covers. A cover is taken off
directly only where one was put on directly. -/
inductive Reached (α : Type) [Scalar α] (overlays : ι → Overlay) : Deck ι → ℕ → Prop where
  | start : Reached α overlays { guards := fun i => { overlay := overlays i } } 0
  | call {d : Deck ι} {n : ℕ} (c : Call ι α) : Reached α overlays d n →
      (c = .focus .uncover → 0 < n) →
      Reached α overlays (c.run.quiet () d).state (c.tally (c.run.quiet () d).value n)

variable [Fintype ι] {overlays : ι → Overlay} {d : Deck ι} {n : ℕ}

theorem Balanced.quiet_call (h : Balanced n d) (c : Call ι α)
    (fair : c = .focus .uncover → 0 < n) :
    Balanced (c.tally (c.run.quiet () d).value n) (c.run.quiet () d).state := by
  cases c with
  | guard i c =>
    have ht : (Call.guard i c : Call ι α).tally
        ((Call.guard i c : Call ι α).run.quiet () d).value n = n := rfl
    rw [ht]
    cases c with
    | raise => exact h.quiet_raise i
    | lower => exact h.quiet_lower i
  | focus c =>
    rw [quiet_focus]
    apply h.setFocus
    by_cases hc : c.sparesCovers
    · simp [Call.tally, Focus.depth_quiet_of_sparesCovers hc, Focus.value_quiet_of_sparesCovers hc]
    · cases c with
      -- only `cover` and `uncover` are left, and their answers say how the depth moves
      | cover =>
        rw [show (Focus.Call.cover : Focus.Call α).run = some <$> Focus.cover from rfl, quiet_map,
          Focus.depth_quiet_cover, Focus.value_quiet_cover]
        cases d.focus.isFull <;> simp only [Call.tally, Bool.not_true, Bool.not_false,
          Bool.toNat_true, Bool.toNat_false] <;> omega
      | uncover =>
        have hn := fair rfl
        have hd := h.depth
        rw [show (Focus.Call.uncover : Focus.Call α).run = some <$> Focus.uncover from rfl,
          quiet_map, Focus.depth_quiet_uncover, Focus.value_quiet_uncover,
          decide_eq_true (by omega : d.focus.depth ≠ 0)]
        simp only [Call.tally]
        omega
      | _ => simp [Focus.Call.sparesCovers] at hc

theorem balanced_of_reached (h : Reached α overlays d n) : Balanced n d := by
  induction h with
  | start => exact balanced_start overlays
  | call c _ fair ih => exact ih.quiet_call c fair

/-- A guard takes a cover off only where there is one. -/
theorem Balanced.bare_notMem_quiet_lower (h : Balanced n d) (i : ι) (k : ℕ) :
    .inl (.focus (.refused (.bare k))) ∉ ((Call.guard i .lower : Call ι α).run.quiet () d).out ∧
    .inr (.focus (.refused (.bare k))) ∉ ((Call.guard i .lower : Call ι α).run.quiet () d).out := by
  simp only [quiet_guard, Guard.Call.run, Guard.quiet_lower]
  by_cases hi : (d.guards i).shown
  · by_cases hh : (d.guards i).holds
    · have hd : d.focus.depth ≠ 0 := (h.depth_pos hh).ne'
      simp [hi, hh, Focus.quiet_uncover, hd, Event.ofSeat, Note.ofSeat]
    · simp [hi, hh, Event.ofSeat, Note.ofSeat]
  · simp [hi]

/-- Lowering takes the guard down, gives back its cover and no other, and leaves the rest alone. -/
theorem Balanced.quiet_lower_eq (h : Balanced n d) (i : ι) :
    let e := ((Call.guard i .lower : Call ι α).run.quiet () d).state
    ¬(e.guards i).shown ∧ ¬(e.guards i).holds ∧ (∀ j, j ≠ i → e.guards j = d.guards j) ∧
      e.focus.depth + (d.guards i).holds.toNat = d.focus.depth := by
  simp only [quiet_guard, Guard.Call.run, Guard.quiet_lower]
  by_cases hi : (d.guards i).shown
  · rw [if_pos hi]
    refine ⟨by simp [Deck.putSeat], by simp [Deck.putSeat], fun j hj => if_neg hj, ?_⟩
    by_cases hh : (d.guards i).holds
    · simp [Deck.putSeat, hh, Focus.depth_quiet_uncover, Nat.sub_add_cancel (h.depth_pos hh)]
    · simp [Deck.putSeat, hh]
  · simp [hi, h.not_holds hi]

/-- The call takes a cover off directly. -/
def Call.uncovers : Call ι α → Bool
  | .focus .uncover => true
  | _ => false

theorem Balanced.quiet_closing {c : Call ι α} (h : Balanced (n + c.uncovers.toNat) d)
    (hc : ¬c.asks) : Balanced n (c.run.quiet () d).state := by
  have key := h.quiet_call c
  cases c with
  | guard i c => exact key (by simp)
  | focus c =>
    cases c with
    | cover => exact absurd rfl hc
    | uncover =>
      -- one of the direct covers is still there, so that the call is not refused
      have hd : d.focus.depth ≠ 0 := by
        have := h.depth
        simp only [Call.uncovers, Bool.toNat_true] at this
        omega
      simpa [quiet_focus, Focus.Call.run, Focus.value_quiet_uncover, hd, Call.tally, Call.uncovers]
        using key
    | _ => exact key (by simp)

/-- Of calls that ask for no cover each takes at most one off directly. -/
theorem Balanced.reached_closing {calls : List (Call ι α)} (hc : ∀ c ∈ calls, ¬c.asks)
    (h : Balanced (n + calls.countP (·.uncovers)) d) :
    Balanced n (reached Call.run d (calls.map ((), ·))) := by
  induction calls generalizing d with
  | nil => exact h
  | cons c calls ih =>
    obtain ⟨hfirst, hrest⟩ := List.forall_mem_cons.1 hc
    refine ih hrest (d := (c.run.quiet () d).state) (Balanced.quiet_closing ?_ hfirst)
    cases hu : c.uncovers <;> simpa [List.countP_cons, hu, Nat.add_assoc] using h

/-- The accounts at any time, and what follows from them for the next call of a guard and for calls
that lower every guard and take every direct cover off. -/
theorem reached_accounts (h : Reached α overlays d n) :
    d.focus.depth = d.holders.card + n ∧
    (∀ i, (d.guards i).holds → (d.guards i).shown) ∧
    (∀ i k,
      .inl (.focus (.refused (.bare k))) ∉ ((Call.guard i .lower : Call ι α).run.quiet () d).out ∧
      .inr (.focus (.refused (.bare k))) ∉ ((Call.guard i .lower : Call ι α).run.quiet () d).out) ∧
    (∀ i, ¬(d.guards i).shown →
      ((((Call.guard i .raise : Call ι α).run.quiet () d).state.guards i).holds ↔
        d.holders.card + n < 3)) ∧
    (∀ i,
      let e := ((Call.guard i .lower : Call ι α).run.quiet () d).state
      ¬(e.guards i).shown ∧ ¬(e.guards i).holds ∧ (∀ j, j ≠ i → e.guards j = d.guards j) ∧
        e.focus.depth + (d.guards i).holds.toNat = d.focus.depth) ∧
    ((∀ i, ¬(d.guards i).shown) → n = 0 → d.focus.depth = 0) ∧
    ∀ calls : List (Call ι α), (∀ c ∈ calls, ¬c.asks) → (∀ i, .guard i .lower ∈ calls) →
      calls.countP (·.uncovers) = n →
      let e := reached Call.run d (calls.map ((), ·))
      (∀ i, ¬(e.guards i).shown) ∧ e.focus.depth = 0 := by
  have hb := balanced_of_reached h
  have hd : d.focus.depth = d.holders.card + n := by rw [hb.depth, Nat.add_comm]
  refine ⟨hd, hb.shown, hb.bare_notMem_quiet_lower, ?_, hb.quiet_lower_eq, ?_, ?_⟩
  · intro i hi
    rw [holds_quiet_raise hi, hd]
  · intro low hn
    rw [hb.depth_of_lowered low, hn]
  · intro calls hc all hn e
    have low (i : ι) : ¬(e.guards i).shown := not_shown_reached hc (.inr (all i))
    have he : Balanced 0 e := Balanced.reached_closing hc (by rwa [hn, Nat.zero_add])
    exact ⟨low, he.depth_of_lowered low⟩

/-- The direct cover comes off between the guards, one of which is down already. -/
def takingDown : List (Call (Fin 3) Rat) :=
  [.guard 1 .lower, .focus .uncover, .guard 0 .lower, .guard 2 .lower]

/-- Two guards and a direct cover fill the room; a third guard is shown without a cover, and
lowering one that holds a cover makes room again. In the end everything is taken down. -/
theorem reached_accounts_three_guards : ∃ d : Deck (Fin 3),
    Reached Rat (fun _ => .errorPopup) d 1 ∧ (d.guards 2).shown ∧ ¬(d.guards 2).holds ∧
    d.focus.depth = 2 ∧ d.focus.depth = d.holders.card + 1 ∧
    (reached Call.run d (takingDown.map ((), ·))).focus.depth = 0 := by
  have first : Reached Rat (fun _ : Fin 3 => .errorPopup) _ 0 := .start
  have h := first
    |>.call (.guard 0 .raise) (by simp)
    |>.call (.focus .cover) (by simp)
    |>.call (.guard 1 .raise) (by simp)
    |>.call (.guard 2 .raise) (by simp)
    |>.call (.guard 0 .lower) (by simp)
  obtain ⟨hdepth, -, -, -, -, -, hdown⟩ := reached_accounts h
  have all (i : Fin 3) : (.guard i .lower : Call (Fin 3) Rat) ∈ takingDown := by
    match i with
    | 0 | 1 | 2 => simp [takingDown]
  exact ⟨_, h, by decide, by decide, by decide, hdepth,
    (hdown takingDown (by decide) all (by decide)).2⟩

end HandheldUI.Deck
