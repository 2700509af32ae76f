import HandheldUI.Proofs.Selection.Marks

/-! The trail of a drag, as a list alone: what the marks, the count and the cells of a selection
come to when a finger goes over cells, one after the other. -/

namespace HandheldUI.Selection

/-- The cells of a drag, the last one first, when the finger comes to `c`. It may rest on the last
cell, go back to the one before, cross a cell that it came over earlier, or reach a new one. -/
def retrace (back : List Nat) (c : Nat) : List Nat :=
  if back.head? = some c then back
  else if back.tail.head? = some c then back.tail
  else if c ∈ back then back
  else c :: back

/-- The cells that a finger leaves selected on its way, in the order in which it reached them. -/
def trailOver (cells : List Nat) : List Nat := (cells.foldl retrace []).reverse

/-- The selection is exactly these cells, and they were reached in this order. -/
structure Follows (s : Selection) (back : List Nat) : Prop where
  back_eq : s.back = back
  has_iff : ∀ k, s.has k ↔ k ∈ back
  nodup : back.Nodup
  size_eq : s.size = back.length

variable {s : Selection} {back : List Nat} {c last : Nat}

theorem follows_empty (n : Nat) : Follows (empty n) [] where
  back_eq := rfl
  has_iff k := by simp [has_empty]
  nodup := List.nodup_nil
  size_eq := rfl

theorem follows_clear (s : Selection) : Follows s.clear [] := follows_empty s.cells

namespace Follows

theorem toList_eq (h : Follows s back) : s.toList = back.reverse.mergeSort :=
  toList_eq_mergeSort (List.nodup_reverse.2 h.nodup) fun k => by rw [h.has_iff, List.mem_reverse]

theorem push (h : Follows s back) (hc : c < s.cells) (hnew : c ∉ back) :
    Follows { s.mark c with back := c :: back } (c :: back) where
  back_eq := rfl
  has_iff k := by
    rw [List.mem_cons, ← h.has_iff]
    exact has_mark hc k
  nodup := List.nodup_cons.2 ⟨hnew, h.nodup⟩
  size_eq := congrArg (· + 1) h.size_eq

theorem pop (h : Follows s (last :: back)) : Follows { s.unmark last with back := back } back where
  back_eq := rfl
  has_iff k := by
    have hlast : last ∉ back := (List.nodup_cons.1 h.nodup).1
    refine (has_unmark s last k).trans ?_
    rw [h.has_iff, List.mem_cons]
    constructor
    · intro ⟨hne, hk⟩
      exact hk.resolve_left hne
    · intro hk
      exact ⟨fun he => hlast (he ▸ hk), .inr hk⟩
  nodup := (List.nodup_cons.1 h.nodup).2
  size_eq := by
    have hlast : s.has last := (h.has_iff last).2 List.mem_cons_self
    have hsize : s.size = back.length + 1 := h.size_eq
    change (s.unmark last).size = back.length
    rw [unmark, if_pos hlast]
    change s.size - 1 = back.length
    omega

/-- One step of the finger does the same to the selection and to the list. -/
theorem reached (h : Follows s back) (hc : c < s.cells) :
    Follows (s.reached c) (retrace back c) := by
  have hhas : s.has c ↔ c ∈ back := h.has_iff c
  have hback : s.back = back := h.back_eq
  unfold Selection.reached retrace
  rw [hback]
  cases back with
  | nil =>
    have hnot : ¬s.has c := by simp [hhas]
    simpa [hnot] using h.push hc List.not_mem_nil
  | cons last rest =>
    dsimp only
    have hhead : (last :: rest).head? = some c ↔ last = c := by simp
    by_cases hlast : last = c
    · rw [if_pos hlast, if_pos (hhead.2 hlast)]
      exact h
    · rw [if_neg hlast, if_neg (mt hhead.1 hlast)]
      have htail : (last :: rest).tail.head? = some c ↔ rest.head? = some c := Iff.rfl
      by_cases hstep : rest.head? = some c
      · rw [if_pos hstep, if_pos (htail.2 hstep)]
        exact h.pop
      · rw [if_neg hstep, if_neg (mt htail.1 hstep)]
        -- what is marked is what is on the list, so both sides ask the same
        by_cases hmem : c ∈ last :: rest
        · rw [if_pos (hhas.2 hmem), if_pos hmem]
          exact h
        · rw [if_neg (mt hhas.1 hmem), if_neg hmem]
          exact h.push hc hmem

end Follows

/-- Back over the last two cells, then across the first one, and on. -/
example : trailOver [0, 1, 2, 1, 0, 6, 7, 0, 8] = [0, 6, 7, 8] := by decide

end HandheldUI.Selection
