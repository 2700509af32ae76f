import HandheldUI.Proofs.Action.History
import HandheldUI.Proofs.Scalar.Integers
import HandheldUI.Proofs.Selection.Marks

/-! The marks, the count and the trail of a selection say the same of its cells, whatever has been
asked of it. -/

namespace HandheldUI.Selection

open HandheldUI.Action

/-- The count is that of the marks, and the trail goes over marked cells, over each once. -/
structure Consistent (s : Selection) : Prop where
  size_eq : s.size = s.toList.length
  nodup : s.back.Nodup
  has_of_mem : ∀ c ∈ s.back, s.has c

variable {s : Selection} {c last : Nat} {rest : List Nat}

theorem nodup_toList (s : Selection) : s.toList.Nodup := s.pairwise_toList.nodup

theorem perm_toList_mark (hc : c < s.cells) (hnew : ¬s.has c) :
    (s.mark c).toList.Perm (c :: s.toList) := by
  have hnodup : (c :: s.toList).Nodup :=
    List.nodup_cons.2 ⟨mt mem_toList.1 hnew, s.nodup_toList⟩
  refine (List.perm_ext_iff_of_nodup (nodup_toList _) hnodup).2 fun k => ?_
  rw [mem_toList, has_mark hc, List.mem_cons, mem_toList]

theorem perm_toList_unmark (hc : s.has c) : s.toList.Perm (c :: (s.unmark c).toList) := by
  have hnodup : (c :: (s.unmark c).toList).Nodup := by
    refine List.nodup_cons.2 ⟨fun h => ?_, nodup_toList _⟩
    exact ((has_unmark s c c).1 (mem_toList.1 h)).1 rfl
  refine (List.perm_ext_iff_of_nodup s.nodup_toList hnodup).2 fun k => ?_
  rw [mem_toList, List.mem_cons, mem_toList, has_unmark]
  by_cases hk : k = c
  · simp [hk, hc]
  · simp [hk]

theorem toList_empty (n : Nat) : (empty n).toList = [] :=
  List.filter_eq_nil_iff.2 fun c _ => by simp [has_empty]

theorem consistent_empty (n : Nat) : (empty n).Consistent where
  size_eq := by rw [toList_empty]; rfl
  nodup := List.nodup_nil
  has_of_mem c hc := by cases hc

namespace Consistent

/-- Any other trail over marked cells will do. -/
theorem withTrail (hs : s.Consistent) {back : List Nat} (hn : back.Nodup)
    (hb : ∀ c ∈ back, s.has c) : Consistent { s with back := back } :=
  ⟨hs.size_eq, hn, hb⟩

theorem mark (hs : s.Consistent) (hc : c < s.cells) (hnew : ¬s.has c) :
    (s.mark c).Consistent where
  size_eq := by
    rw [(perm_toList_mark hc hnew).length_eq, List.length_cons, ← hs.size_eq]
    rfl
  nodup := hs.nodup
  has_of_mem k hk := (has_mark hc k).2 (.inr (hs.has_of_mem k hk))

/-- A cell that is unmarked has to leave the trail. -/
theorem unmark (hs : s.Consistent) (hc : s.has c) {back : List Nat} (hn : back.Nodup)
    (hb : ∀ k ∈ back, k ≠ c ∧ s.has k) : Consistent { s.unmark c with back := back } where
  size_eq := by
    have hlen := (perm_toList_unmark hc).length_eq
    rw [List.length_cons, ← hs.size_eq] at hlen
    have hsize : (s.unmark c).size = s.size - 1 := by rw [Selection.unmark, if_pos hc]
    change (s.unmark c).size = (s.unmark c).toList.length
    omega
  nodup := hn
  has_of_mem k hk := (has_unmark s c k).2 (hb k hk)

theorem push (hs : s.Consistent) (hc : c < s.cells) (hnew : ¬s.has c) :
    Consistent { s.mark c with back := c :: s.back } := by
  refine (hs.mark hc hnew).withTrail ?_ ?_
  · exact List.nodup_cons.2 ⟨fun h => hnew (hs.has_of_mem c h), hs.nodup⟩
  · intro k hk
    rw [has_mark hc]
    exact (List.mem_cons.1 hk).imp id (hs.has_of_mem k)

theorem pop (hs : s.Consistent) (hback : s.back = last :: rest) :
    Consistent { s.unmark last with back := rest } := by
  obtain ⟨hlast, hrest⟩ := List.nodup_cons.1 (hback ▸ hs.nodup)
  have hmem (k : Nat) (hk : k ∈ last :: rest) : s.has k := hs.has_of_mem k (hback ▸ hk)
  refine hs.unmark (hmem last List.mem_cons_self) hrest fun k hk => ⟨?_, ?_⟩
  · rintro rfl
    exact hlast hk
  · exact hmem k (List.mem_cons_of_mem last hk)

theorem reached (hs : s.Consistent) (hc : c < s.cells) : (s.reached c).Consistent := by
  unfold Selection.reached
  cases hback : s.back with
  | nil =>
    dsimp only
    split
    · exact hs
    · next hnew => exact hback ▸ hs.push hc hnew
  | cons last rest =>
    dsimp only
    split
    · exact hs
    · split
      · exact hs.pop hback
      · split
        · exact hs
        · next hnew => exact hback ▸ hs.push hc hnew

theorem inserted (hs : s.Consistent) (hc : c < s.cells) : (s.inserted c).Consistent := by
  unfold Selection.inserted
  split
  · exact hs
  · next hnew => exact hs.mark hc hnew

theorem erased (hs : s.Consistent) (c : Nat) : (s.erased c).Consistent := by
  unfold Selection.erased
  split
  · next hc =>
    refine hs.unmark hc (hs.nodup.filter _) fun k hk => ?_
    obtain ⟨hk, hne⟩ := List.mem_filter.1 hk
    exact ⟨of_decide_eq_true hne, hs.has_of_mem k hk⟩
  · exact hs

theorem length_trail_le (hs : s.Consistent) : s.trail.length ≤ s.size := by
  rw [trail, List.length_reverse, hs.size_eq]
  have hsub : s.back ⊆ s.toList := fun c hc => mem_toList.2 (hs.has_of_mem c hc)
  exact (List.subperm_of_subset hs.nodup hsub).length_le

theorem size_le (hs : s.Consistent) : s.size ≤ s.cells := by
  calc s.size = s.toList.length := hs.size_eq
    _ ≤ (List.range s.cells).length := List.length_filter_le _ _
    _ = s.cells := List.length_range

end Consistent

section Calls

variable {α : Type} [Scalar α]

theorem Consistent.withCell (hs : s.Consistent) {f : Nat → Selection → Selection}
    (hf : ∀ c < s.cells, (f c s).Consistent) (x : α) :
    ((withCell f x).quiet () s).state.Consistent := by
  rw [quiet_withCell]
  cases hi : Scalar.index? x s.cells with
  | none => exact hs
  | some c => exact hf c (lt_of_index? hi)

theorem Consistent.call (hs : s.Consistent) (k : Call α) : (k.run.quiet () s).state.Consistent := by
  cases k with
  | reach x => exact hs.withCell (fun _ hc => hs.reached hc) x
  | insert x => exact hs.withCell (fun _ hc => hs.inserted hc) x
  | erase x => exact hs.withCell (fun c _ => hs.erased c) x
  | startTrail => exact hs.withTrail List.nodup_nil fun c hc => by cases hc
  | clear => exact consistent_empty s.cells

theorem cells_call (k : Call α) (s : Selection) : (k.run.quiet () s).state.cells = s.cells := by
  cases k with
  | reach x => exact cells_quiet_reach x s
  | insert x => exact cells_quiet_insert x s
  | erase x => exact cells_quiet_withCell (cells_erased · s) x
  | startTrail => rfl
  | clear => exact cells_clear s

theorem consistent_calls (calls : List (Unit × Call α)) (n : Nat) :
    (Action.reached Call.run (empty n) calls).Consistent ∧
      (Action.reached Call.run (empty n) calls).cells = n := by
  induction calls using List.reverseRecOn with
  | nil => exact ⟨consistent_empty n, Array.size_replicate⟩
  | append_singleton calls k ih =>
    rw [reached_concat]
    exact ⟨ih.1.call k.2, (cells_call k.2 _).trans ih.2⟩

end Calls

section Buffer

variable {α : Type} [Scalar α]

theorem toList_foldl_push {β γ : Type} (p : β → Bool) (f : β → γ) (l : List β) (b : Array γ) :
    (l.foldl (fun b c => if p c then b.push (f c) else b) b).toList =
      b.toList ++ (l.filter p).map f := by
  induction l generalizing b with
  | nil => simp
  | cons c l ih =>
    rw [List.foldl_cons, ih]
    by_cases hc : p c <;> simp [hc]

/-- What the buffer held is gone, and the selected cells are in it instead. -/
theorem writeTo_eq (s : Selection) (buffer : Array α) :
    s.writeTo buffer = ((s.toList.map Scalar.ofNat).toArray, s.toList.length) := by
  have hwritten : (List.range s.cells).foldl
      (fun b c => if s.has c then b.push (Scalar.ofNat c) else b) (buffer.shrink 0) =
        (s.toList.map Scalar.ofNat).toArray := by
    rw [← Array.toList_inj, toList_foldl_push]
    simp [toList]
  rw [writeTo, hwritten]
  simp

end Buffer

section Numbers

open Binary64

variable {x : Float} {n : Nat}

theorem create?_eq (pos : 0 < n) (hx : value? x = some (n : Rat)) :
    create? x = if n < arrayBound then .ok (empty n) else .error .tooMany := by
  obtain ⟨k, rfl⟩ : ∃ k, n = k + 1 := ⟨n - 1, by omega⟩
  have hi : Scalar.integer? x = some (.ofNat (k + 1)) := integer?_eq_some_iff.2 hx
  rw [create?, hi]

/-- There is a selection from every positive number of cells that an array can have, and from
nothing else. -/
theorem create?_eq_ok_iff :
    create? x = .ok s ↔
      ∃ n : Nat, 0 < n ∧ n < arrayBound ∧ value? x = some (n : Rat) ∧ s = empty n := by
  constructor
  · intro h
    unfold create? at h
    split at h
    · next k hi =>
      have hv : value? x = some ((k + 1 : Nat) : Rat) := integer?_eq_some_iff.1 hi
      split at h
      · next hk =>
        cases h
        exact ⟨k + 1, Nat.succ_pos k, hk, hv, rfl⟩
      · cases h
    · cases h
  · rintro ⟨n, pos, hn, hv, rfl⟩
    rw [create?_eq pos hv, if_pos hn]

theorem quiet_withCell_eq_say (f : Nat → Selection → Selection)
    (hx : ∀ c < s.cells, value? x ≠ some (c : Rat)) :
    (withCell f x).quiet () s = ⟨s, [.inr ⟨x, s.cells⟩], ()⟩ := by
  have hi : Scalar.index? x s.cells = none := by
    refine Option.eq_none_iff_forall_ne_some.2 fun c hc => ?_
    obtain ⟨hlt, hv⟩ := index?_eq_some_iff.1 hc
    exact hx c hlt hv
  unfold withCell
  simp [hi]

/-- From every positive number of cells there is a selection, as long as an array can have as many.
After any calls its count is that of the selected cells, its trail goes over such cells, over each
once, and they are listed and written into buffers in ascending order. What is not one of the cells
is ignored with one warning. -/
theorem consistent_after_calls (pos : 0 < n) (hx : value? x = some (n : Rat))
    (calls : List (Unit × Call Float)) :
    (create? x = if n < arrayBound then .ok (empty n) else .error .tooMany) ∧
    let s := Action.reached Call.run (empty n) calls
    s.size = s.toList.length ∧
    s.trail.Nodup ∧ (∀ c ∈ s.trail, c < n ∧ s.has c) ∧
    s.trail.length ≤ s.size ∧ s.size ≤ n ∧
    s.toList.Pairwise (· < ·) ∧ (∀ c, c ∈ s.toList ↔ s.has c) ∧
    (∀ buffer : Array Float,
      s.writeTo buffer = ((s.toList.map Scalar.ofNat).toArray, s.toList.length)) ∧
    ∀ y : Float, (∀ c < n, value? y ≠ some (c : Rat)) →
      ∀ call ∈ [Call.reach y, .insert y, .erase y],
        call.run.quiet () s = ⟨s, [.inr ⟨y, n⟩], ()⟩ ∧
        ∀ gridName, (OutOfRange.line gridName ⟨y, n⟩).level = .warn := by
  refine ⟨create?_eq pos hx, ?_⟩
  obtain ⟨hs, hcells⟩ := consistent_calls calls n
  intro s
  refine ⟨hs.size_eq, List.nodup_reverse.2 hs.nodup, ?_, hs.length_trail_le, hcells ▸ hs.size_le,
    s.pairwise_toList, fun _ => mem_toList, s.writeTo_eq, ?_⟩
  · intro c hc
    have hhas : s.has c := hs.has_of_mem c (List.mem_reverse.1 hc)
    exact ⟨hcells ▸ lt_cells_of_has hhas, hhas⟩
  · intro y hy call hcall
    have hsay (f : Nat → Selection → Selection) :
        (withCell f y).quiet () s = ⟨s, [.inr ⟨y, n⟩], ()⟩ := by
      rw [← hcells] at hy ⊢
      exact quiet_withCell_eq_say f hy
    refine ⟨?_, fun _ => rfl⟩
    simp only [List.mem_cons, List.not_mem_nil, or_false] at hcall
    rcases hcall with rfl | rfl | rfl
    · exact hsay reached
    · exact hsay inserted
    · exact hsay erased

/-- A finger goes over three cells and back to the second one; another cell is inserted, one of the
trail is erased, and a number between two cells is given. -/
def wandered : List (Unit × Call Float) :=
  [.reach 0, .reach 1, .reach 2, .reach 1, .insert 3, .erase 0, .reach 0.5].map ((), ·)

theorem consistent_after_calls_wandered :
    create? 4 = .ok (empty 4) ∧
    (Action.reached Call.run (empty 4) wandered).size =
      (Action.reached Call.run (empty 4) wandered).toList.length ∧
    ((Call.erase (0.5 : Float)).run.quiet () (Action.reached Call.run (empty 4) wandered)).state =
      Action.reached Call.run (empty 4) wandered ∧
    (Action.reached Call.run (empty 4) wandered).toList = [1, 3] := by
  have hvalue : value? 4 = some ((4 : Nat) : Rat) :=
    integer?_eq_some_iff.1 (by decide +kernel : Scalar.integer? (4 : Float) = some (.ofNat 4))
  have hhalf (c : Nat) (hc : c < 4) : value? 0.5 ≠ some (c : Rat) := by
    intro hv
    have hindex : Scalar.index? (0.5 : Float) 4 = none := by decide +kernel
    rw [index?_eq_some_iff.2 ⟨hc, hv⟩] at hindex
    cases hindex
  obtain ⟨hcreate, hsize, -, -, -, -, -, -, -, hignored⟩ :=
    consistent_after_calls (by decide) hvalue wandered
  refine ⟨hcreate, hsize, ?_, by decide +kernel⟩
  rw [(hignored 0.5 hhalf (.erase 0.5) (by simp)).1]

end Numbers

end HandheldUI.Selection
