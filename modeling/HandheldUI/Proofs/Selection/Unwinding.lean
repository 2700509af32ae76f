import HandheldUI.Proofs.Selection.Consistent

/-! A finger that backs up. A step back to the cell before the last one takes back what the last one
has done, to the mark. So a way over fresh cells is undone by the same way back, each step of which
leaves exactly what was there before the step that it undoes. -/

namespace HandheldUI.Selection

open HandheldUI.Action Binary64

section Steps

variable {s : Selection} {a b : Nat}

/-- A cell that is not selected joins the trail. -/
theorem reached_of_not_has (hs : s.Consistent) (hb : ¬s.has b) :
    s.reached b = { s.mark b with back := b :: s.back } := by
  have hnot : b ∉ s.back := fun h => hb (hs.has_of_mem b h)
  unfold reached
  cases hback : s.back with
  | nil => exact if_neg hb
  | cons last rest =>
    rw [hback] at hnot
    have hlast : last ≠ b := fun h => hnot (h ▸ List.mem_cons_self)
    have hstep : rest.head? ≠ some b := fun h =>
      hnot (List.mem_cons_of_mem last (List.mem_of_head? h))
    dsimp only
    rw [if_neg hlast, if_neg hstep, if_neg hb]

theorem setIfInBounds_false (hnew : ¬s.has b) : s.marks.setIfInBounds b false = s.marks := by
  refine Array.ext Array.size_setIfInBounds fun i _ hi => ?_
  rw [Array.getElem_setIfInBounds]
  split
  · next h =>
    subst h
    have hget : s.has b = s.marks[b] := by simp [has, Array.getD, hi]
    rw [← hget]
    exact (Bool.eq_false_of_not_eq_true hnew).symm
  · rfl

/-- A mark that is taken away again leaves nothing behind. -/
theorem unmark_mark (hb : b < s.cells) (hnew : ¬s.has b) (back : List Nat) :
    { s.mark b with back := back }.unmark b = { s with back := back } := by
  have hhas : ({ s.mark b with back := back } : Selection).has b := (has_mark hb b).2 (.inl rfl)
  have hmarks : (s.marks.setIfInBounds b true).setIfInBounds b false = s.marks := by
    rw [Array.setIfInBounds_setIfInBounds, setIfInBounds_false hnew]
  rw [unmark, if_pos hhas]
  exact congrArg (fun marks => Selection.mk marks back s.size) hmarks

/-- From a fresh cell the finger goes back to the last one of the trail. -/
theorem reached_reached (hs : s.Consistent) (ha : s.back.head? = some a) (hb : b < s.cells)
    (hnew : ¬s.has b) : (s.reached b).reached a = s := by
  have hhas : s.has a := hs.has_of_mem a (List.mem_of_head? ha)
  have hne : b ≠ a := fun h => hnew (h ▸ hhas)
  rw [reached_of_not_has hs hnew, reached]
  dsimp only
  rw [if_neg hne, if_pos ha, unmark_mark hb hnew]

end Steps

section Ways

/-- The finger goes over these cells, one after the other. -/
def wentOver (cells : List Nat) (s : Selection) : Selection :=
  cells.foldl (fun s c => s.reached c) s

variable {s t : Selection} {a b : Nat} {bs cells : List Nat}

theorem wentOver_append (cells cells' : List Nat) (s : Selection) :
    wentOver (cells ++ cells') s = wentOver cells' (wentOver cells s) :=
  List.foldl_append

/-- `t` is `s` with these cells at the end of the trail, and as much as that selected. -/
structure Extends (s t : Selection) (cells : List Nat) : Prop where
  trail : t.trail = s.trail ++ cells
  has_iff : ∀ c, t.has c ↔ s.has c ∨ c ∈ cells
  size : t.size = s.size + cells.length
  count : t.cells = s.cells
  consistent : t.Consistent

theorem Extends.push (h : Extends s t cells) (hb : b < s.cells) (hnew : ¬s.has b)
    (hcells : b ∉ cells) : Extends s (t.reached b) (cells ++ [b]) := by
  have hnot : ¬t.has b := fun hb => ((h.has_iff b).1 hb).elim hnew hcells
  have hbt : b < t.cells := h.count ▸ hb
  have hcons : (t.reached b).Consistent := h.consistent.reached hbt
  have hcount : (t.reached b).cells = s.cells := (cells_reached b t).trans h.count
  have hreached : t.reached b = { t.mark b with back := b :: t.back } :=
    reached_of_not_has h.consistent hnot
  refine ⟨?_, fun c => ?_, ?_, hcount, hcons⟩
  · rw [hreached, ← List.append_assoc, ← h.trail]
    exact List.reverse_cons
  · rw [hreached, List.mem_append, ← or_assoc, ← h.has_iff c, List.mem_singleton, or_comm]
    exact has_mark hbt c
  · rw [hreached, List.length_append, ← Nat.add_assoc, ← h.size]
    rfl

theorem extends_wentOver (hs : s.Consistent) (hn : bs.Nodup)
    (hb : ∀ b ∈ bs, b < s.cells ∧ ¬s.has b) : Extends s (wentOver bs s) bs := by
  induction bs using List.reverseRecOn with
  | nil => exact ⟨(List.append_nil _).symm, fun c => by simp [wentOver], rfl, rfl, hs⟩
  | append_singleton bs b ih =>
    obtain ⟨hn, -, hdisj⟩ := List.nodup_append.1 hn
    obtain ⟨hlt, hnew⟩ := hb b (by simp)
    rw [wentOver_append]
    refine (ih hn fun c hc => hb c (List.mem_append_left _ hc)).push hlt hnew fun hmem => ?_
    exact hdisj b hmem b (by simp) rfl

theorem Extends.head?_back (h : Extends s t cells) (ha : s.trail.getLast? = some a) :
    t.back.head? = (a :: cells).getLast? := by
  have hback : t.back.head? = t.trail.getLast? := by rw [Selection.trail, List.getLast?_reverse]
  rw [hback, h.trail, List.getLast?_append, ha, List.getLast?_cons]
  cases cells.getLast? <;> rfl

/-- As far as it has come back, the finger has undone its way. -/
theorem wentOver_back (hs : s.Consistent) (ha : s.trail.getLast? = some a) (hn : bs.Nodup)
    (hb : ∀ b ∈ bs, b < s.cells ∧ ¬s.has b) {k : Nat} (hk : k ≤ bs.length) :
    wentOver ((a :: bs).dropLast.reverse.take (bs.length - k)) (wentOver bs s) =
      wentOver (bs.take k) s := by
  induction bs using List.reverseRecOn with
  | nil => rw [List.take_nil, List.length_nil, Nat.zero_sub, List.take_zero]; rfl
  | append_singleton bs b ih =>
    rw [List.length_append, List.length_singleton] at hk ⊢
    rcases Nat.le_or_eq_of_le_succ hk with hle | rfl
    · obtain ⟨hnbs, -, hdisj⟩ := List.nodup_append.1 hn
      obtain ⟨hlt, hnew⟩ := hb b (by simp)
      have hbs (c : Nat) (hc : c ∈ bs) := hb c (List.mem_append_left _ hc)
      have hext := extends_wentOver hs hnbs hbs
      have hnot : ¬(wentOver bs s).has b := fun h =>
        ((hext.has_iff b).1 h).elim hnew fun hmem => hdisj b hmem b (by simp) rfl
      -- the first step back is to the cell before `b`, and the others are those of a shorter way
      have hne : a :: bs ≠ [] := List.cons_ne_nil a bs
      have hback : (a :: (bs ++ [b])).dropLast.reverse =
          (a :: bs).getLast hne :: (a :: bs).dropLast.reverse := by
        rw [← List.cons_append, List.dropLast_concat]
        conv_lhs => rw [← List.dropLast_append_getLast hne]
        simp
      have hlen : bs.length + 1 - k = bs.length - k + 1 := by omega
      have hstep : ((wentOver bs s).reached b).reached ((a :: bs).getLast hne) = wentOver bs s :=
        reached_reached hext.consistent ((hext.head?_back ha).trans (List.getLast?_eq_some_getLast hne))
          (hext.count.symm ▸ hlt) hnot
      rw [hback, hlen, List.take_succ_cons, wentOver_append, List.take_append_of_le_length hle,
        ← ih hnbs hbs hle]
      exact congrArg (wentOver _) hstep
    · rw [Nat.sub_self, List.take_zero, List.take_of_length_le (by simp)]
      rfl

end Ways

section Calls

/-- These numbers are these cells. -/
def Denote (xs : List Float) (cells : List Nat) : Prop :=
  xs.map value? = cells.map fun c : Nat => some (c : Rat)

instance (xs : List Float) (cells : List Nat) : Decidable (Denote xs cells) :=
  inferInstanceAs (Decidable (_ = _))

/-- A finger is said to be on these numbers, one after the other. -/
def visits (xs : List Float) : List (Unit × Call Float) := xs.map fun x => ((), .reach x)

variable {s : Selection} {cells cells' : List Nat} {xs xs' : List Float}

theorem Denote.take (hx : Denote xs cells) (k : Nat) : Denote (xs.take k) (cells.take k) := by
  rw [Denote, List.map_take, List.map_take, hx]

theorem Denote.append (hx : Denote xs cells) (hx' : Denote xs' cells') :
    Denote (xs ++ xs') (cells ++ cells') := by
  rw [Denote, List.map_append, List.map_append, hx, hx']

theorem Denote.length_eq (hx : Denote xs cells) : xs.length = cells.length := by
  simpa using congrArg List.length hx

theorem reached_visits (hx : Denote xs cells) (hcells : ∀ c ∈ cells, c < s.cells) :
    Action.reached Call.run s (visits xs) = wentOver cells s := by
  induction cells generalizing s xs with
  | nil =>
    obtain rfl : xs = [] := List.map_eq_nil_iff.1 hx
    rfl
  | cons c cells ih =>
    obtain ⟨hc, hcells⟩ := List.forall_mem_cons.1 hcells
    obtain ⟨x, xs, rfl, hv, hxs⟩ := List.map_eq_cons_iff.1 hx
    have hstate : ((Call.reach x).run.quiet () s).state = s.reached c := by
      change ((reach x).quiet () s).state = s.reached c
      rw [reach, quiet_withCell, index?_eq_some_iff.2 ⟨hc, hv⟩]
      rfl
    change Action.reached Call.run ((Call.reach x).run.quiet () s).state (visits xs) = _
    rw [hstate, ih hxs fun k hk => (cells_reached c s).symm ▸ hcells k hk]
    rfl

/-- Backing up undoes a drag. From whatever calls have left, a finger on the last cell `a` of the
trail goes over fresh cells: they join the trail in this order and are selected. Then it goes the
same way back: with every step it undoes the last step that is left, up to the very selection in
which it has started. -/
theorem drag_unwinds {n a : Nat} {calls : List (Unit × Call Float)} {cells : List Nat}
    {out back : List Float}
    (hlast : (Action.reached Call.run (empty n) calls).trail.getLast? = some a)
    (hnodup : cells.Nodup)
    (hfresh : ∀ c ∈ cells, c < n ∧ ¬(Action.reached Call.run (empty n) calls).has c)
    (hout : Denote out cells) (hback : Denote back (a :: cells).dropLast.reverse) :
    let s := Action.reached Call.run (empty n) calls
    let after (xs : List Float) := Action.reached Call.run s (visits xs)
    (∀ k ≤ cells.length,
      (after (out.take k)).trail = s.trail ++ cells.take k ∧
      (∀ c, (after (out.take k)).has c ↔ s.has c ∨ c ∈ cells.take k) ∧
      (after (out.take k)).size = s.size + k ∧
      after (out ++ back.take (cells.length - k)) = after (out.take k)) ∧
    after (out ++ back) = s := by
  intro s after
  obtain ⟨hs, hcount⟩ := consistent_calls calls n
  have hb (c : Nat) (hc : c ∈ cells) : c < s.cells ∧ ¬s.has c :=
    ⟨hcount.symm ▸ (hfresh c hc).1, (hfresh c hc).2⟩
  have hcells (c : Nat) (hc : c ∈ cells) : c < s.cells := (hb c hc).1
  have hpast (c : Nat) (hc : c ∈ (a :: cells).dropLast.reverse) : c < s.cells := by
    rcases List.mem_cons.1 (List.dropLast_subset _ (List.mem_reverse.1 hc)) with rfl | hc
    · exact lt_cells_of_has (hs.has_of_mem c (List.mem_reverse.1 (List.mem_of_getLast? hlast)))
    · exact hcells c hc
  have hgo (k : Nat) : after (out.take k) = wentOver (cells.take k) s :=
    reached_visits (hout.take k) fun c hc => hcells c (List.mem_of_mem_take hc)
  have hcome {k : Nat} (hk : k ≤ cells.length) :
      after (out ++ back.take (cells.length - k)) = wentOver (cells.take k) s := by
    rw [← wentOver_back hs hlast hnodup hb hk, ← wentOver_append]
    refine reached_visits (hout.append (hback.take _)) fun c hc => ?_
    exact (List.mem_append.1 hc).elim (hcells c) fun hc => hpast c (List.mem_of_mem_take hc)
  constructor
  · intro k hk
    have hext : Extends s (after (out.take k)) (cells.take k) := by
      rw [hgo]
      exact extends_wentOver hs (hnodup.sublist (List.take_sublist k cells)) fun c hc =>
        hb c (List.mem_of_mem_take hc)
    refine ⟨hext.trail, hext.has_iff, ?_, (hcome hk).trans (hgo k).symm⟩
    rw [hext.size, List.length_take_of_le hk]
  · have hlen : back.length = cells.length := by simpa using hback.length_eq
    have h0 := hcome (Nat.zero_le cells.length)
    rwa [Nat.sub_zero, List.take_of_length_le hlen.le] at h0

/-- Two cells of another drag are left selected, and one is inserted; the trail ends in cell 5. -/
def started : List (Unit × Call Float) :=
  [.reach 1, .reach 4, .startTrail, .insert 7, .reach 0.5, .reach 5].map ((), ·)

theorem drag_unwinds_started :
    let s := Action.reached Call.run (empty 9) started
    s.trail.getLast? = some 5 ∧ (∀ c ∈ [2, 3, 8], c < 9 ∧ ¬s.has c) ∧
    Denote [2, 3, 8] [2, 3, 8] ∧ Denote [3, 2, 5] [3, 2, 5] ∧
    (Action.reached Call.run s (visits [2, 3, 8])).trail = s.trail ++ [2, 3, 8] ∧
    Action.reached Call.run s (visits [2, 3, 8, 3]) = Action.reached Call.run s (visits [2, 3]) ∧
    Action.reached Call.run s (visits [2, 3, 8, 3, 2, 5]) = s ∧ s.toList = [1, 4, 5, 7] := by
  intro s
  have hlast : s.trail.getLast? = some 5 := by decide +kernel
  have hfresh : ∀ c ∈ [2, 3, 8], c < 9 ∧ ¬s.has c := by decide +kernel
  have hout : Denote [2, 3, 8] [2, 3, 8] := by decide +kernel
  have hback : Denote [3, 2, 5] [3, 2, 5] := by decide +kernel
  obtain ⟨hway, hend⟩ := drag_unwinds hlast (by decide) hfresh hout hback
  exact ⟨hlast, hfresh, hout, hback, (hway 3 (by decide)).1, (hway 2 (by decide)).2.2.2, hend,
    by decide +kernel⟩

end Calls

end HandheldUI.Selection
