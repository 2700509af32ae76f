import Mathlib.Data.List.Sort
import Mathlib.Tactic.ByContra
import HandheldUI.Proofs.Action.Quiet
import HandheldUI.Selection

/-! Which cells are marked in a selection, after each way of writing to it. -/

namespace HandheldUI

open HandheldUI.Action

namespace Selection

theorem has_empty (n c : Nat) : (empty n).has c = false := by
  unfold empty has
  rw [Array.getD_eq_getD_getElem?, Array.getElem?_replicate]
  split <;> rfl

theorem has_clear (s : Selection) (c : Nat) : s.clear.has c = false := has_empty _ c

theorem lt_cells_of_has {s : Selection} {c : Nat} (h : s.has c) : c < s.cells := by
  by_contra hn
  rw [has, Array.getD_eq_getD_getElem?, Array.getElem?_eq_none (Nat.le_of_not_lt hn)] at h
  cases h

theorem mem_toList {s : Selection} {c : Nat} : c ∈ s.toList ↔ s.has c := by
  rw [toList, List.mem_filter, List.mem_range]
  exact ⟨fun h => h.2, fun h => ⟨lt_cells_of_has h, h⟩⟩

@[simp] theorem cells_clear (s : Selection) : s.clear.cells = s.cells := by
  simp [clear, empty, cells]

theorem clear_eq_clear {s t : Selection} (h : s.cells = t.cells) : s.clear = t.clear := by
  rw [clear, clear, h]

@[simp] theorem clear_clear (s : Selection) : s.clear.clear = s.clear :=
  clear_eq_clear (cells_clear s)

theorem cells_mark (c : Nat) (s : Selection) : (s.mark c).cells = s.cells := by
  simp [mark, cells]

theorem cells_unmark (c : Nat) (s : Selection) : (s.unmark c).cells = s.cells := by
  unfold unmark
  split <;> simp [cells]

theorem cells_reached (c : Nat) (s : Selection) : (s.reached c).cells = s.cells := by
  unfold reached
  split
  · split
    · rfl
    · split
      · exact cells_unmark _ s
      · split
        · rfl
        · exact cells_mark c s
  · split
    · rfl
    · exact cells_mark c s

theorem cells_inserted (c : Nat) (s : Selection) : (s.inserted c).cells = s.cells := by
  unfold inserted
  split
  · rfl
  · exact cells_mark c s

theorem cells_erased (c : Nat) (s : Selection) : (s.erased c).cells = s.cells := by
  unfold erased
  split
  · exact cells_unmark c s
  · rfl

theorem getD_setIfInBounds (a : Array Bool) (i k : Nat) (b : Bool) :
    (a.setIfInBounds i b).getD k false =
      if i = k ∧ i < a.size then b else a.getD k false := by
  rw [Array.getD_eq_getD_getElem?, Array.getD_eq_getD_getElem?, Array.getElem?_setIfInBounds]
  by_cases hi : i = k
  · subst hi
    by_cases hb : i < a.size
    · simp [hb]
    · simp [hb]
  · simp [hi]

theorem has_mark {s : Selection} {c : Nat} (hc : c < s.cells) (k : Nat) :
    (s.mark c).has k ↔ k = c ∨ s.has k := by
  change (s.marks.setIfInBounds c true).getD k false = true ↔ _
  rw [getD_setIfInBounds, ← has]
  by_cases hk : c = k
  · have hb : k = c ∧ c < s.marks.size := ⟨hk.symm, hc⟩
    simp [hk, hb.1 ▸ hb.2]
  · simp [hk, Ne.symm hk]

theorem has_unmark (s : Selection) (c k : Nat) : (s.unmark c).has k ↔ k ≠ c ∧ s.has k := by
  unfold unmark
  split
  · next hc =>
    change (s.marks.setIfInBounds c false).getD k false = true ↔ _
    rw [getD_setIfInBounds, ← has]
    by_cases hk : c = k
    · have hb : c < s.marks.size := lt_cells_of_has hc
      simp [hk, hk ▸ hb]
    · simp [hk, Ne.symm hk]
  · next hc =>
    refine ⟨fun hk => ⟨?_, hk⟩, And.right⟩
    rintro rfl
    exact hc hk

theorem has_inserted {s : Selection} {c : Nat} (hc : c < s.cells) (k : Nat) :
    (s.inserted c).has k ↔ k = c ∨ s.has k := by
  unfold inserted
  split
  · next hm => exact ⟨.inr, fun hk => hk.elim (· ▸ hm) id⟩
  · exact has_mark hc k

theorem pairwise_toList (s : Selection) : s.toList.Pairwise (· < ·) :=
  List.pairwise_lt_range.filter _

/-- A list of the selected cells, each once, becomes the ascending one by sorting. -/
theorem toList_eq_mergeSort {s : Selection} {l : List Nat} (hl : l.Nodup)
    (hm : ∀ k, s.has k ↔ k ∈ l) : s.toList = l.mergeSort := by
  have hperm : s.toList.Perm l.mergeSort := by
    refine ((List.perm_ext_iff_of_nodup s.pairwise_toList.nodup hl).2 fun k => ?_).trans
      (List.mergeSort_perm l _).symm
    rw [mem_toList, hm]
  have hle : s.toList.Pairwise (· ≤ ·) := s.pairwise_toList.imp Nat.le_of_lt
  exact hperm.eq_of_pairwise' hle (List.pairwise_mergeSort' (· ≤ ·) l)

variable {α : Type} [Scalar α]

theorem lt_of_index? {x : α} {n c : Nat} (h : Scalar.index? x n = some c) : c < n := by
  unfold Scalar.index? at h
  split at h
  · split at h
    · cases h
      assumption
    · cases h
  · cases h

theorem quiet_withCell (f : Nat → Selection → Selection) (x : α) (s : Selection) :
    ((withCell f x).quiet () s).state = ((Scalar.index? x s.cells).map (f · s)).getD s := by
  unfold withCell
  cases h : Scalar.index? x s.cells <;> simp [h]

theorem cells_quiet_withCell {f : Nat → Selection → Selection} {s : Selection}
    (hf : ∀ c, (f c s).cells = s.cells) (x : α) :
    ((withCell f x).quiet () s).state.cells = s.cells := by
  rw [quiet_withCell]
  cases Scalar.index? x s.cells with
  | none => rfl
  | some c => exact hf c

theorem cells_quiet_reach (x : α) (s : Selection) :
    ((reach x).quiet () s).state.cells = s.cells :=
  cells_quiet_withCell (cells_reached · s) x

theorem cells_quiet_insert (x : α) (s : Selection) :
    ((insert x).quiet () s).state.cells = s.cells :=
  cells_quiet_withCell (cells_inserted · s) x

end Selection

end HandheldUI
