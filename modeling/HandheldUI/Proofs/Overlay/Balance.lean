import Mathlib.Algebra.BigOperators.Group.Finset.Piecewise
import Mathlib.Data.Fintype.Card
import HandheldUI.Overlay
import HandheldUI.Proofs.Focus.Covers

/-! The accounts of the covers: every cover belongs to a guard that holds it or was put on directly.
With listeners that do not call back, each call keeps the accounts, so that no guard can leave a
cover behind or take one that is not its own. -/

namespace HandheldUI

open HandheldUI.Action

namespace Guard

theorem quiet_raise_state (s : Seat) :
    (raise.quiet () s).state =
      if s.guard.shown then s
      else ⟨{ s.guard with shown := true, holds := !s.focus.isFull },
        (Focus.cover.quiet () s.focus).state⟩ := by
  unfold raise
  by_cases h : s.guard.shown
  · simp [h]
  · by_cases hf : s.focus.isFull <;>
      simp [h, hf, onFocus, focusView, update, Focus.quiet_cover]

/-- The guard lowered, and its cover taken off if it holds one. -/
theorem quiet_lower (s : Seat) :
    lower.quiet () s =
      if s.guard.shown then
        let x := Focus.uncover.quiet () s.focus
        ⟨⟨{ s.guard with shown := false, holds := false },
            if s.guard.holds then x.state else s.focus⟩,
          (if s.guard.holds then x.out.map (Sum.map .inl .inl) else []) ++
            [.inr (.inr (.lowered s.guard.overlay)), .inl (.inr (.lowered s.guard.overlay))], ()⟩
      else ⟨s, [], ()⟩ := by
  obtain ⟨⟨o, shown, holds⟩, f⟩ := s
  unfold lower
  cases shown <;> cases holds <;>
    simp [onFocus, focusView, update, Outcome.after]

end Guard

namespace Deck

section Quiet

variable {ι α : Type} [DecidableEq ι] [Scalar α]

theorem quiet_guard (i : ι) (c : Guard.Call) (d : Deck ι) :
    (Call.guard i c : Call ι α).run.quiet () d =
      let x := c.run.quiet () ⟨d.guards i, d.focus⟩
      ⟨putSeat i x.state d, x.out.map (Sum.map (Event.ofSeat i) (Note.ofSeat i)), none⟩ := by
  simp [Call.run, onGuard, seatView, Outcome.after]

theorem quiet_focus (c : Focus.Call α) (d : Deck ι) :
    (Call.focus c : Call ι α).run.quiet () d =
      let x := c.run.quiet () d.focus
      ⟨{ d with focus := x.state }, x.out.map (Sum.map .focus .focus), x.value⟩ := by
  simp [Call.run, onFocus, focusView]

/-- A guard that was lowered gets a cover if there is room. -/
theorem holds_quiet_raise {i : ι} {d : Deck ι} (hi : ¬(d.guards i).shown) :
    (((Call.guard i .raise : Call ι α).run.quiet () d).state.guards i).holds ↔
      d.focus.depth < 3 := by
  have hf := d.focus.isFull_iff
  simp only [quiet_guard, Guard.Call.run, Guard.quiet_raise_state, if_neg hi, putSeat, if_true,
    Bool.not_eq_true']
  rw [← Bool.not_eq_true, hf]
  omega

end Quiet

variable {ι : Type} [Fintype ι]

/-- The guards that hold a cover. -/
def holders (d : Deck ι) : Finset ι := Finset.univ.filter fun i => (d.guards i).holds

/-- Every cover is accounted for: `others` of them belong to nobody on the deck, each of the rest to
a guard that is shown. -/
structure Balanced (others : ℕ) (d : Deck ι) : Prop where
  shown : ∀ i, (d.guards i).holds → (d.guards i).shown
  depth : d.focus.depth = others + d.holders.card

namespace Balanced

variable {d : Deck ι} {m n : ℕ}

theorem not_holds (h : Balanced n d) {i : ι} (hi : ¬(d.guards i).shown) :
    (d.guards i).holds = false := by
  simpa using mt (h.shown i) hi

theorem depth_pos (h : Balanced n d) {i : ι} (hi : (d.guards i).holds) : 0 < d.focus.depth := by
  have pos : 0 < d.holders.card := Finset.card_pos.2 ⟨i, by simpa [holders] using hi⟩
  have := h.depth
  omega

/-- With every guard lowered only the others are left. -/
theorem depth_of_lowered (h : Balanced n d) (low : ∀ i, ¬(d.guards i).shown) :
    d.focus.depth = n := by
  have none : d.holders = ∅ := by
    apply Finset.filter_eq_empty_iff.2
    intro i _
    simp [h.not_holds (low i)]
  rw [h.depth, none, Finset.card_empty, Nat.add_zero]

theorem setFocus (h : Balanced n d) {f : Focus} (hf : f.depth + n = d.focus.depth + m) :
    Balanced m { d with focus := f } where
  shown := h.shown
  depth := by
    have hd := h.depth
    have hc : ({ d with focus := f } : Deck ι).holders.card = d.holders.card := rfl
    change f.depth = m + _
    omega

end Balanced

variable [DecidableEq ι]

/-- Writing one guard changes the number of holders by that guard alone. -/
theorem card_holders_putSeat (i : ι) (s : Guard.Seat) (d : Deck ι) :
    (putSeat i s d).holders.card + (d.guards i).holds.toNat =
      d.holders.card + s.guard.holds.toNat := by
  -- the guard is counted apart from the rest
  have count (e : Deck ι) : e.holders.card =
      (e.guards i).holds.toNat + ∑ j ∈ Finset.univ.erase i, (e.guards j).holds.toNat := by
    rw [Finset.add_sum_erase _ (fun j => (e.guards j).holds.toNat) (Finset.mem_univ i), holders,
      Finset.card_filter]
    apply Finset.sum_congr rfl
    intro j _
    cases (e.guards j).holds <;> rfl
  have rest : ∑ j ∈ Finset.univ.erase i, ((putSeat i s d).guards j).holds.toNat =
      ∑ j ∈ Finset.univ.erase i, (d.guards j).holds.toNat := by
    apply Finset.sum_congr rfl
    intro j hj
    simp [putSeat, Finset.ne_of_mem_erase hj]
  rw [count (putSeat i s d), count d, rest]
  simp only [putSeat, if_true]
  omega

variable {α : Type} [Scalar α] {d : Deck ι} {m n : ℕ}

/-- The accounts after a guard and the focus are written: the guard may hold a cover only if it is
shown, and the depth moves with what it holds and with the others. -/
theorem Balanced.putSeat (h : Balanced n d) {i : ι} {s : Guard.Seat}
    (hs : s.guard.holds → s.guard.shown)
    (hd : s.focus.depth + (d.guards i).holds.toNat + n =
      d.focus.depth + s.guard.holds.toNat + m) : Balanced m (putSeat i s d) where
  shown j hj := by
    by_cases hij : j = i
    · simp only [Deck.putSeat, hij, if_true] at hj ⊢
      exact hs hj
    · simp only [Deck.putSeat, hij, if_false] at hj ⊢
      exact h.shown j hj
  depth := by
    have hc := card_holders_putSeat i s d
    have hf : (Deck.putSeat i s d).focus.depth = s.focus.depth := rfl
    have hd' := h.depth
    omega

theorem Balanced.quiet_raise (h : Balanced n d) (i : ι) :
    Balanced n ((Call.guard i .raise : Call ι α).run.quiet () d).state := by
  simp only [quiet_guard, Guard.Call.run, Guard.quiet_raise_state]
  by_cases hi : (d.guards i).shown
  · rw [if_pos hi]
    exact h.putSeat (h.shown i) rfl
  · rw [if_neg hi]
    apply h.putSeat
    · simp
    · simp only [Focus.depth_quiet_cover, h.not_holds hi, Bool.toNat_false]
      omega

theorem Balanced.quiet_lower (h : Balanced n d) (i : ι) :
    Balanced n ((Call.guard i .lower : Call ι α).run.quiet () d).state := by
  simp only [quiet_guard, Guard.Call.run, Guard.quiet_lower]
  by_cases hi : (d.guards i).shown
  · rw [if_pos hi]
    apply h.putSeat
    · simp
    · by_cases hh : (d.guards i).holds
      · have := h.depth_pos hh
        simp only [hh, if_true, Focus.depth_quiet_uncover, Bool.toNat_true, Bool.toNat_false]
        omega
      · simp [hh]
  · rw [if_neg hi]
    exact h.putSeat (h.shown i) rfl

end Deck

end HandheldUI
