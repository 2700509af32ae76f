import Mathlib.Data.List.Induction
import Mathlib.Data.List.TakeWhile
import Mathlib.Tactic.ByContra
import HandheldUI.Proofs.Action.History
import HandheldUI.Proofs.Focus.Bracket
import HandheldUI.Proofs.Overlay.Listening

/-! Whose cover is whose. A guard means to take its own cover off, with the item that the focus was
pointed at on it; the focus can take off its topmost cover only. So where a guard is lowered under
others, each of these is left with the cover right below its own, and with the item on that. -/

namespace HandheldUI

open HandheldUI.Action

namespace Focus

theorem covers_pointAt (n : ℕ) (f : Focus) :
    (f.pointAt n).covers = f.covers.modifyHead fun o => { o with item := n } := by
  obtain ⟨b, covers⟩ := f
  cases covers <;> rfl

theorem covers_quiet_give {f : Focus} (h : f.Sound) (z : Zone) :
    ((give z).quiet () f).state.covers = f.covers := by
  by_cases hd : 0 < f.depth
  · rw [quiet_give_of_pos h hd]
  · have hc : f.covers = [] := List.length_eq_zero_iff.1 (Nat.eq_zero_of_not_pos hd)
    have hq := depth_quiet_give z f
    rw [depth, depth, hc] at hq
    rw [hc]
    exact List.length_eq_zero_iff.1 hq

end Focus

namespace Deck

variable {ι α : Type}

/-- A deck, and the covers as its guards mean them, the topmost first: the guards that hold one, the
last raised first, each with the item that was pointed at last while its own cover was on top. -/
structure Pile (ι : Type) where
  deck : Deck ι
  meant : List (ι × ℕ) := []

/-- A guard of the pile with the item that it means, and the cover in its place. -/
structure Place (ι : Type) where
  guard : ι
  item : ℕ
  cover : Owner
  deriving DecidableEq

def Place.of (e : ι × ℕ) (o : Owner) : Place ι := ⟨e.1, e.2, o⟩

theorem zipWith_of (es : List (ι × ℕ)) (os : List Owner) :
    List.zipWith Place.of es os = (es.zip os).map fun z => Place.of z.1 z.2 :=
  List.map_uncurry_zip_eq_zipWith.symm

theorem map_guard_zipWith {es : List (ι × ℕ)} {os : List Owner} (h : es.length = os.length) :
    (List.zipWith Place.of es os).map Place.guard = es.map Prod.fst := by
  have hz : (es.zip os).map Prod.fst = es := List.map_fst_zip h.le
  calc (List.zipWith Place.of es os).map Place.guard
    _ = (es.zip os).map (Prod.fst ∘ Prod.fst) := by rw [zipWith_of, List.map_map]; rfl
    _ = ((es.zip os).map Prod.fst).map Prod.fst := List.map_map.symm
    _ = es.map Prod.fst := by rw [hz]

theorem map_cover_zipWith {es : List (ι × ℕ)} {os : List Owner} (h : es.length = os.length) :
    (List.zipWith Place.of es os).map Place.cover = os := by
  rw [zipWith_of, List.map_map]
  exact List.map_snd_zip h.ge

/-- Two lists that agree at each place are equal. -/
theorem eq_map_iff {es : List (ι × ℕ)} {os : List Owner} (h : es.length = os.length)
    (f : ι × ℕ → Owner) :
    os = es.map f ↔ ∀ p ∈ List.zipWith Place.of es os, p.cover = f (p.guard, p.item) := by
  induction es generalizing os with
  | nil => simpa using h.symm
  | cons e es ih =>
    cases os with
    | nil => simp at h
    | cons o os =>
      have h' : es.length = os.length := by simpa using h
      rw [List.map_cons, List.cons.injEq, ih h', List.zipWith_cons_cons, List.forall_mem_cons]
      rfl

/-- With `e` gone and one cover less, a place is one from below that of `e`, or has the guard of one
above and the cover that lay next. -/
theorem mem_zipWith_tail {l₁ l₂ : List (ι × ℕ)} {e : ι × ℕ} {os : List Owner} {p : Place ι}
    (hl : (l₁ ++ e :: l₂).length = os.length)
    (hp : p ∈ List.zipWith Place.of (l₁ ++ l₂) os.tail) :
    (∃ above below, List.zipWith Place.of (l₁ ++ e :: l₂) os = above ++ p :: below ∧
      e.1 ∈ above.map Place.guard) ∨
    ∃ above a q below, List.zipWith Place.of (l₁ ++ e :: l₂) os = above ++ a :: q :: below ∧
      e.1 ∈ (q :: below).map Place.guard ∧ p = { a with cover := q.cover } := by
  induction l₁ generalizing os with
  | nil =>
    cases os with
    | nil => simp at hl
    | cons o os =>
      -- `e` is the topmost, and all that is left lies below it
      obtain ⟨above, below, hs⟩ := List.append_of_mem hp
      change List.zipWith Place.of l₂ os = above ++ p :: below at hs
      refine .inl ⟨Place.of e o :: above, below, ?_, List.mem_cons_self⟩
      rw [List.nil_append, List.zipWith_cons_cons, hs]
      rfl
  | cons b l₁ ih =>
    -- both `b` and `e` have a cover
    obtain ⟨o, o', os, rfl⟩ : ∃ o o' os', os = o :: o' :: os' := by
      rcases os with _ | ⟨o, _ | ⟨o', os⟩⟩
      · simp at hl
      · simp at hl
      · exact ⟨o, o', os, rfl⟩
    have hl' : (l₁ ++ e :: l₂).length = (o' :: os).length := by simpa using hl
    have hc : List.zipWith Place.of (b :: l₁ ++ e :: l₂) (o :: o' :: os) =
        Place.of b o :: List.zipWith Place.of (l₁ ++ e :: l₂) (o' :: os) := rfl
    rw [hc]
    change p ∈ Place.of b o' :: List.zipWith Place.of (l₁ ++ l₂) os at hp
    rcases List.mem_cons.1 hp with rfl | hp
    -- the guard right on top of what is looked at gets the first of its covers
    · obtain ⟨q, below, hq, ho⟩ : ∃ q below,
          List.zipWith Place.of (l₁ ++ e :: l₂) (o' :: os) = q :: below ∧ q.cover = o' := by
        cases l₁ with
        | nil => exact ⟨_, _, rfl, rfl⟩
        | cons b' l₁ => exact ⟨_, _, rfl, rfl⟩
      have he : e.1 ∈ (q :: below).map Place.guard := by
        rw [← hq, map_guard_zipWith hl']
        simp
      exact .inr ⟨[], Place.of b o, q, below, by rw [hq]; rfl, he, by rw [ho]; rfl⟩
    · rcases ih hl' hp with ⟨above, below, hs, he⟩ | ⟨above, a, q, below, hs, he, hp⟩
      · refine .inl ⟨Place.of b o :: above, below, by rw [hs]; rfl, ?_⟩
        exact List.mem_cons_of_mem _ he
      · exact .inr ⟨Place.of b o :: above, a, q, below, by rw [hs]; rfl, he, hp⟩

namespace Pile

/-- What the guards mean beside what there is. -/
def places (x : Pile ι) : List (Place ι) := List.zipWith Place.of x.meant x.deck.focus.covers

/-- Each cover is that of a guard which holds one. -/
structure Orderly (x : Pile ι) : Prop where
  nodup : (x.meant.map Prod.fst).Nodup
  mem_iff : ∀ i, i ∈ x.meant.map Prod.fst ↔ (x.deck.guards i).holds
  shown : ∀ i, (x.deck.guards i).holds → (x.deck.guards i).shown
  length : x.meant.length = x.deck.focus.covers.length
  sound : x.deck.focus.Sound

theorem Orderly.map_guard {x : Pile ι} (h : x.Orderly) :
    x.places.map Place.guard = x.meant.map Prod.fst :=
  map_guard_zipWith h.length

/-- The focus is pointed at an item on its top cover. -/
def pointed (n : ℕ) (x : Pile ι) : Pile ι :=
  ⟨{ x.deck with focus := x.deck.focus.pointAt n }, x.meant.modifyHead fun e => (e.1, n)⟩

def refocused (f : Focus) (x : Pile ι) : Pile ι := ⟨{ x.deck with focus := f }, x.meant⟩

section

variable {x : Pile ι}

theorem Orderly.notMem (h : x.Orderly) {i : ι} (hi : ¬(x.deck.guards i).holds) :
    i ∉ x.meant.map Prod.fst :=
  fun hm => hi ((h.mem_iff i).1 hm)

theorem Orderly.holds_of_mem (h : x.Orderly) {p : Place ι} (hp : p ∈ x.places) :
    (x.deck.guards p.guard).holds := by
  rw [← h.mem_iff, ← h.map_guard]
  exact List.mem_map_of_mem hp

theorem Orderly.zone_eq (h : x.Orderly) {p : Place ι} (hp : p ∈ x.places) :
    p.cover.zone = .overlay := by
  apply h.sound.overlay
  rw [← map_cover_zipWith h.length]
  exact List.mem_map_of_mem hp

theorem Orderly.refocused (h : x.Orderly) {f : Focus} (hf : f.Sound)
    (hc : f.covers = x.deck.focus.covers) : (x.refocused f).Orderly where
  nodup := h.nodup
  mem_iff := h.mem_iff
  shown := h.shown
  length := h.length.trans (congrArg _ hc.symm)
  sound := hf

theorem Orderly.pointed (h : x.Orderly) (n : ℕ) : (x.pointed n).Orderly where
  nodup := by
    have hn := h.nodup
    change ((x.meant.modifyHead fun e => (e.1, n)).map Prod.fst).Nodup
    cases hm : x.meant with
    | nil => exact List.nodup_nil
    | cons e rest => rwa [hm] at hn
  mem_iff := by
    have hi := h.mem_iff
    change ∀ i, i ∈ (x.meant.modifyHead fun e => (e.1, n)).map Prod.fst ↔ _
    cases hm : x.meant with
    | nil => rwa [hm] at hi
    | cons e rest => rwa [hm] at hi
  shown := h.shown
  length := by
    change (x.meant.modifyHead _).length = (x.deck.focus.pointAt n).covers.length
    rw [Focus.covers_pointAt, List.length_modifyHead, List.length_modifyHead]
    exact h.length
  sound := (Focus.Based.pointAt (A := fun _ => True) ⟨h.sound, trivial⟩ n).sound

theorem places_refocused {f : Focus} (hc : f.covers = x.deck.focus.covers) :
    (x.refocused f).places = x.places := by
  change List.zipWith Place.of x.meant f.covers = _
  rw [hc]
  rfl

theorem places_pointed (n : ℕ) : (x.pointed n).places =
    x.places.modifyHead fun p => ⟨p.guard, n, { p.cover with item := n }⟩ := by
  change List.zipWith Place.of (x.meant.modifyHead fun e => (e.1, n))
    (x.deck.focus.pointAt n).covers = _
  rw [Focus.covers_pointAt, places]
  cases x.meant <;> cases x.deck.focus.covers <;> rfl

end

end Pile

variable [DecidableEq ι]

section Calls

variable [Scalar α] (i : ι) (d : Deck ι)

theorem state_quiet_raise : ((Call.guard i .raise : Call ι α).run.quiet () d).state =
    if (d.guards i).shown then d
    else if d.focus.isFull then
      putSeat i ⟨{ d.guards i with shown := true, holds := false }, d.focus⟩ d
    else
      putSeat i ⟨{ d.guards i with shown := true, holds := true },
        { d.focus with covers := { zone := .overlay } :: d.focus.covers }⟩ d := by
  rw [quiet_guard]
  simp only [Guard.Call.run, Guard.quiet_raise_state, Focus.quiet_cover]
  by_cases hs : (d.guards i).shown
  · rw [if_pos hs, if_pos hs]
    exact putSeat_self i d
  · by_cases hf : d.focus.isFull
    · simp [hs, hf]
    · simp [hs, hf]

theorem state_quiet_lower : ((Call.guard i .lower : Call ι α).run.quiet () d).state =
    if (d.guards i).shown then
      putSeat i ⟨{ d.guards i with shown := false, holds := false },
        if (d.guards i).holds then { d.focus with covers := d.focus.covers.tail } else d.focus⟩ d
    else d := by
  have hu : (Focus.uncover.quiet () d.focus).state =
      { d.focus with covers := d.focus.covers.tail } := by
    rw [Focus.quiet_uncover]
    by_cases hd : d.focus.depth = 0
    · have hc : d.focus.covers.tail = d.focus.covers := by
        rw [List.length_eq_zero_iff.1 hd]
        rfl
      rw [if_pos hd, hc]
    · rw [if_neg hd]
  rw [quiet_guard]
  simp only [Guard.Call.run, Guard.quiet_lower, hu]
  by_cases hs : (d.guards i).shown
  · rw [if_pos hs, if_pos hs]
  · rw [if_neg hs, if_neg hs]
    exact putSeat_self i d

end Calls

namespace Pile

/-- The place of a guard and all places below it. -/
def placesFrom (i : ι) (x : Pile ι) : List (Place ι) := x.places.dropWhile (·.guard ≠ i)

/-- The call lowers a guard below `i`, and `i` means another item than the one on the cover right
below its own. -/
def Misplaces (i : ι) (x : Pile ι) (c : SparingCall ι α) : Prop :=
  ∃ p q below, x.placesFrom i = p :: q :: below ∧
    (∃ z ∈ q :: below, c.1 = .guard z.guard .lower) ∧ q.cover.item ≠ p.item

/-- The call lowers no guard below `i`, and does not point at an item on the cover of `i`. -/
def Spares (i : ι) (x : Pile ι) (c : SparingCall ι α) : Prop :=
  ∃ p below, x.placesFrom i = p :: below ∧ (∀ z ∈ below, c.1 ≠ .guard z.guard .lower) ∧
    ∀ y, c.1 = .focus (.pointAt y) → x.places ≠ p :: below

section Places

variable {x : Pile ι} {c : SparingCall ι α} {i : ι} {p q : Place ι} {above below : List (Place ι)}

theorem Orderly.placesFrom_eq (h : x.Orderly) (hx : x.places = above ++ p :: below) :
    x.placesFrom p.guard = p :: below := by
  have hn : ((above ++ p :: below).map Place.guard).Nodup := by
    rw [← hx, h.map_guard]
    exact h.nodup
  have ha : ∀ z ∈ above, z.guard ≠ p.guard := by
    intro z hz he
    rw [List.map_append, List.nodup_append] at hn
    exact hn.2.2 z.guard (List.mem_map_of_mem hz) p.guard (by simp) he
  rw [placesFrom, hx, List.dropWhile_append_of_pos (by simpa using ha)]
  simp

/-- A place is spared unless it is pointed at or stands on one that goes away. -/
theorem Orderly.spares (h : x.Orderly) (hx : x.places = above ++ p :: below)
    (hl : ∀ z ∈ below, c.1 ≠ .guard z.guard .lower)
    (hf : ∀ y, c.1 = .focus (.pointAt y) → above ≠ []) :
    Spares p.guard x c ∧ ¬Misplaces p.guard x c := by
  have hp := h.placesFrom_eq hx
  refine ⟨⟨p, below, hp, hl, ?_⟩, ?_⟩
  · intro y hy he
    rw [hx] at he
    exact hf y hy (List.append_left_eq_self.1 he)
  · rintro ⟨p', q, rest, he, ⟨z, hz, hc⟩, -⟩
    rw [hp] at he
    obtain ⟨-, rfl⟩ := List.cons.inj he
    exact hl z hz hc

/-- A guard that is left with the next cover is misplaced just if it means another item. -/
theorem Orderly.sinks (h : x.Orderly) (hx : x.places = above ++ p :: q :: below)
    (hl : ∃ z ∈ q :: below, c.1 = .guard z.guard .lower) :
    ¬Spares p.guard x c ∧ (q.cover.item = p.item ↔ ¬Misplaces p.guard x c) := by
  have hp := h.placesFrom_eq hx
  constructor
  · rintro ⟨p', rest, he, hn, -⟩
    rw [hp] at he
    obtain ⟨-, rfl⟩ := List.cons.inj he
    obtain ⟨z, hz, hc⟩ := hl
    exact hn z hz hc
  · constructor
    · rintro hi ⟨p', q', rest, he, -, hn⟩
      rw [hp] at he
      obtain ⟨rfl, he'⟩ := List.cons.inj he
      obtain ⟨rfl, -⟩ := List.cons.inj he'
      exact hn hi
    · intro hn
      by_contra hi
      exact hn ⟨p, q, below, hp, hl, hi⟩

end Places

/-- A guard gets a cover. -/
def covered (i : ι) (x : Pile ι) : Pile ι :=
  ⟨putSeat i ⟨{ x.deck.guards i with shown := true, holds := true },
    { x.deck.focus with covers := { zone := .overlay } :: x.deck.focus.covers }⟩ x.deck,
    (i, 0) :: x.meant⟩

/-- A guard goes away, and the top cover with it. -/
def uncovered (i : ι) (x : Pile ι) : Pile ι :=
  ⟨putSeat i ⟨{ x.deck.guards i with shown := false, holds := false },
    { x.deck.focus with covers := x.deck.focus.covers.tail }⟩ x.deck, x.meant.eraseP (·.1 = i)⟩

/-- A guard without a cover is shown or hidden. -/
def flagged (i : ι) (shown : Bool) (x : Pile ι) : Pile ι :=
  ⟨putSeat i ⟨{ x.deck.guards i with shown, holds := false }, x.deck.focus⟩ x.deck, x.meant⟩

section Writes

variable {x : Pile ι} {i : ι}

theorem Orderly.covered (h : x.Orderly) (hi : ¬(x.deck.guards i).holds)
    (hd : x.deck.focus.depth < 3) : (x.covered i).Orderly where
  nodup := List.nodup_cons.2 ⟨h.notMem hi, h.nodup⟩
  mem_iff j := by
    change j ∈ i :: x.meant.map Prod.fst ↔ _
    by_cases hj : j = i
    · simp [Pile.covered, putSeat, hj]
    · simpa [Pile.covered, putSeat, hj] using h.mem_iff j
  shown j := by
    by_cases hj : j = i
    · simp [Pile.covered, putSeat, hj]
    · simpa [Pile.covered, putSeat, hj] using h.shown j
  length := congrArg (· + 1) h.length
  sound := (Focus.Based.covered (A := fun _ => True) ⟨h.sound, trivial⟩ hd).sound

theorem Orderly.flagged (h : x.Orderly) (hi : ¬(x.deck.guards i).holds) (b : Bool) :
    (x.flagged i b).Orderly where
  nodup := h.nodup
  mem_iff j := by
    have hm := h.mem_iff j
    by_cases hj : j = i
    · rw [hj] at hm ⊢
      simpa [Pile.flagged, putSeat] using hm.not.2 hi
    · simpa [Pile.flagged, putSeat, hj] using hm
  shown j := by
    by_cases hj : j = i
    · simp [Pile.flagged, putSeat, hj]
    · simpa [Pile.flagged, putSeat, hj] using h.shown j
  length := h.length
  sound := h.sound

theorem Orderly.exists_append (h : x.Orderly) (hi : (x.deck.guards i).holds) :
    ∃ l₁ n l₂, x.meant = l₁ ++ (i, n) :: l₂ ∧ x.meant.eraseP (·.1 = i) = l₁ ++ l₂ := by
  obtain ⟨e, he, hei⟩ := List.mem_map.1 ((h.mem_iff i).2 hi)
  rcases List.exists_or_eq_self_of_eraseP (fun e : ι × ℕ => decide (e.1 = i)) x.meant with
    hs | ⟨⟨j, n⟩, l₁, l₂, -, hj, hm, hs⟩
  · rw [List.eraseP_eq_self_iff] at hs
    exact absurd (decide_eq_true hei) (hs e he)
  · obtain rfl : j = i := of_decide_eq_true hj
    exact ⟨l₁, n, l₂, hm, hs⟩

theorem Orderly.uncovered (h : x.Orderly) (hi : (x.deck.guards i).holds) :
    (x.uncovered i).Orderly := by
  obtain ⟨l₁, n, l₂, hm, hs⟩ := h.exists_append hi
  -- the guard is cut out of the middle, and the cover comes off the top
  have hn := h.nodup
  have hl := h.length
  rw [hm, List.map_append, List.map_cons, List.nodup_middle, List.nodup_cons] at hn
  rw [hm, List.length_append, List.length_cons] at hl
  constructor
  · change (List.map Prod.fst (x.meant.eraseP _)).Nodup
    rw [hs, List.map_append]
    exact hn.2
  · intro j
    have hj := h.mem_iff j
    change j ∈ List.map Prod.fst (x.meant.eraseP _) ↔ _
    rw [hs, List.map_append]
    rw [hm, List.map_append, List.map_cons] at hj
    by_cases he : j = i
    · rw [he]
      simpa [Pile.uncovered, putSeat] using hn.1
    · simpa [Pile.uncovered, putSeat, he] using hj
  · intro j
    by_cases hj : j = i
    · simp [Pile.uncovered, putSeat, hj]
    · simpa [Pile.uncovered, putSeat, hj] using h.shown j
  · change (x.meant.eraseP _).length = x.deck.focus.covers.tail.length
    rw [hs, List.length_append, List.length_tail]
    omega
  · exact (Focus.Based.uncovered (A := fun _ => True) ⟨h.sound, trivial⟩).sound

@[simp] theorem places_covered :
    (x.covered i).places = Place.of (i, 0) { zone := .overlay } :: x.places := rfl

@[simp] theorem places_flagged (b : Bool) : (x.flagged i b).places = x.places := rfl

variable {c : SparingCall ι α} {p : Place ι}

/-- A place as a call leaves it: an old one that was spared, or one whose cover carries the item
that is meant just if its guard was not misplaced. -/
def Follows (x : Pile ι) (c : SparingCall ι α) (p : Place ι) : Prop :=
  p ∈ x.places ∧ Spares p.guard x c ∧ ¬Misplaces p.guard x c ∨
  ¬Spares p.guard x c ∧ (p.cover.item = p.item ↔ ¬Misplaces p.guard x c)

theorem Orderly.follows_of_mem (h : x.Orderly) (hp : p ∈ x.places)
    (hl : ∀ i, c.1 = .guard i .lower → ¬(x.deck.guards i).holds)
    (hf : ∀ y, c.1 ≠ .focus (.pointAt y)) : Follows x c p := by
  obtain ⟨above, below, hx⟩ := List.append_of_mem hp
  refine .inl ⟨hp, h.spares hx ?_ fun y hy => absurd hy (hf y)⟩
  intro z hz hc
  exact hl z.guard hc (h.holds_of_mem (by rw [hx]; simp [hz]))

/-- A guard that gets its cover by the call has the item 0 on it. -/
theorem Orderly.follows_covered (h : x.Orderly) {i : ι} (hi : ¬(x.deck.guards i).holds)
    (hp : p ∈ (x.covered i).places) :
    Follows x (⟨.guard i .raise, rfl⟩ : SparingCall ι α) p := by
  rw [places_covered] at hp
  rcases List.mem_cons.1 hp with rfl | hp
  -- the guard had no place before, so that it was neither spared nor misplaced
  · have hn : x.placesFrom i = [] := by
      rw [placesFrom, List.dropWhile_eq_nil_iff]
      intro z hz
      refine decide_eq_true fun hzi => hi ?_
      rw [← hzi]
      exact h.holds_of_mem hz
    refine .inr ⟨?_, iff_of_true rfl ?_⟩
    · rintro ⟨q, below, hq, -⟩
      exact List.cons_ne_nil _ _ (hq.symm.trans hn)
    · rintro ⟨q, r, below, hq, -⟩
      exact List.cons_ne_nil _ _ (hq.symm.trans hn)
  · exact h.follows_of_mem hp (by simp) (by simp)

/-- The places below that of the guard stay; each one above it is left with the next cover. -/
theorem Orderly.follows_uncovered (h : x.Orderly) {i : ι} (hi : (x.deck.guards i).holds)
    (hp : p ∈ (x.uncovered i).places) :
    Follows x (⟨.guard i .lower, rfl⟩ : SparingCall ι α) p := by
  obtain ⟨l₁, n, l₂, hm, hs⟩ := h.exists_append hi
  have hl : (l₁ ++ (i, n) :: l₂).length = x.deck.focus.covers.length := by rw [← hm, h.length]
  change p ∈ List.zipWith Place.of (x.meant.eraseP _) x.deck.focus.covers.tail at hp
  rw [hs] at hp
  rcases mem_zipWith_tail hl hp with ⟨above, below, hx, ha⟩ | ⟨above, a, q, below, hx, hb, rfl⟩
  -- `i` stands above the place, and so not below it
  · rw [← hm] at hx
    have hn : ((above ++ p :: below).map Place.guard).Nodup := by
      rw [← hx]
      exact h.map_guard ▸ h.nodup
    rw [List.map_append, List.map_cons, List.nodup_append] at hn
    refine .inl ⟨by rw [places, hx]; simp, h.spares hx ?_ (by simp)⟩
    intro z hz hc
    obtain rfl : i = z.guard := by simpa using hc
    exact hn.2.2 _ ha _ (List.mem_cons_of_mem _ (List.mem_map_of_mem hz)) rfl
  · rw [← hm] at hx
    obtain ⟨z, hz, hzi⟩ := List.mem_map.1 hb
    have hlow : ∃ z ∈ q :: below, (Call.guard i .lower : Call ι α) = .guard z.guard .lower :=
      ⟨z, hz, by rw [hzi]⟩
    obtain ⟨hsp, hiff⟩ := h.sinks (c := (⟨.guard i .lower, rfl⟩ : SparingCall ι α)) hx hlow
    exact .inr ⟨hsp, hiff⟩

/-- Only the top place changes, and both its items are the one that was pointed at. -/
theorem Orderly.follows_pointed (h : x.Orderly) {y : α} {n : ℕ}
    (hp : p ∈ (x.pointed n).places) :
    Follows x (⟨.focus (.pointAt y), rfl⟩ : SparingCall ι α) p := by
  rw [places_pointed] at hp
  cases hx : x.places with
  | nil => simp [hx] at hp
  | cons top below =>
    rw [hx, List.modifyHead_cons] at hp
    rcases List.mem_cons.1 hp with rfl | hp
    · have hx' : x.places = [] ++ top :: below := hx
      have ht : x.placesFrom top.guard = top :: below := h.placesFrom_eq hx'
      refine .inr ⟨?_, iff_of_true rfl ?_⟩
      · rintro ⟨q, rest, hq, -, hy⟩
        exact hy y rfl (by rw [hx, ← ht, ← hq])
      · rintro ⟨q, r, rest, -, ⟨z, -, hc⟩, -⟩
        simp at hc
    · obtain ⟨above, rest, hb⟩ := List.append_of_mem hp
      have hx' : x.places = (top :: above) ++ p :: rest := by rw [hx, hb]; rfl
      exact .inl ⟨by rw [hx']; simp, h.spares hx' (by simp) fun _ _ => List.cons_ne_nil _ _⟩

end Writes

variable [Scalar α]

/-- The pile after a call. A guard that gets a cover goes on top, and one that is lowered goes away
from wherever it is. -/
def call (x : Pile ι) (c : SparingCall ι α) : Pile ι :=
  let deck := (c.1.run.quiet () x.deck).state
  { deck
    meant :=
      match c.1 with
      | .guard i .raise =>
        if (deck.guards i).holds ∧ ¬(x.deck.guards i).holds then (i, 0) :: x.meant else x.meant
      | .guard i .lower => x.meant.eraseP (·.1 = i)
      | .focus (.pointAt y) => x.meant.modifyHead fun e => (e.1, Focus.itemOf y)
      | .focus _ => x.meant }

/-- The pile that calls lead to, of guards that were lowered before. -/
def after (overlays : ι → Overlay) (h : List (SparingCall ι α)) : Pile ι :=
  h.foldl call { deck := { guards := fun i => { overlay := overlays i } } }

@[simp] theorem after_concat (overlays : ι → Overlay) (h : List (SparingCall ι α))
    (c : SparingCall ι α) : after overlays (h ++ [c]) = (after overlays h).call c := by
  simp [after]

section Steps

variable {x : Pile ι} {c : SparingCall ι α} {p : Place ι}

/-- All that a call can make of a pile. -/
inductive Effect (x : Pile ι) : SparingCall ι α → Pile ι → Prop where
  | covered {i : ι} : ¬(x.deck.guards i).holds → x.deck.focus.depth < 3 →
    Effect x ⟨.guard i .raise, rfl⟩ (x.covered i)
  | uncovered {i : ι} : (x.deck.guards i).holds →
    Effect x ⟨.guard i .lower, rfl⟩ (x.uncovered i)
  | flagged {i : ι} (k : Guard.Call) (shown : Bool) : ¬(x.deck.guards i).holds →
    Effect x ⟨.guard i k, rfl⟩ (x.flagged i shown)
  | kept {i : ι} (k : Guard.Call) : (k = .lower → ¬(x.deck.guards i).holds) →
    Effect x ⟨.guard i k, rfl⟩ x
  | pointed (y : α) : Effect x ⟨.focus (.pointAt y), rfl⟩ (x.pointed (Focus.itemOf y))
  | refocused {c : Focus.Call α} {f : Focus} (hc : c.sparesCovers) : (∀ y, c ≠ .pointAt y) →
    f.Sound → f.covers = x.deck.focus.covers → Effect x ⟨.focus c, hc⟩ (x.refocused f)

theorem Orderly.effect_raise (h : x.Orderly) (i : ι) :
    let c : SparingCall ι α := ⟨.guard i .raise, rfl⟩
    Effect x c (x.call c) := by
  intro c
  have hd : x.call c = ⟨_, if _ then _ else _⟩ := rfl
  rw [state_quiet_raise] at hd
  -- shown already, or without a cover for want of room, or with one
  by_cases hs : (x.deck.guards i).shown
  · have he : x.call c = x := by simp [hd, hs]
    rw [he]
    exact .kept _ nofun
  · have hh : ¬(x.deck.guards i).holds := fun hh => hs (h.shown i hh)
    by_cases hf : x.deck.focus.isFull
    · have he : x.call c = x.flagged i true := by simp [hd, hs, hf, Pile.flagged, putSeat]
      rw [he]
      exact .flagged _ _ hh
    · have he : x.call c = x.covered i := by simp [hd, hs, hf, hh, Pile.covered, putSeat]
      rw [Focus.isFull_iff] at hf
      rw [he]
      exact .covered hh (by omega)

theorem Orderly.effect_lower (h : x.Orderly) (i : ι) :
    let c : SparingCall ι α := ⟨.guard i .lower, rfl⟩
    Effect x c (x.call c) := by
  intro c
  have hd : x.call c = ⟨_, x.meant.eraseP (·.1 = i)⟩ := rfl
  rw [state_quiet_lower] at hd
  by_cases hh : (x.deck.guards i).holds
  · have he : x.call c = x.uncovered i := by simp [hd, h.shown i hh, hh, Pile.uncovered]
    rw [he]
    exact .uncovered hh
  -- without a cover the guard has no place that it could leave
  · have hm : x.meant.eraseP (·.1 = i) = x.meant := by
      apply List.eraseP_of_forall_not
      intro e he hi
      exact h.notMem hh (List.mem_map.2 ⟨e, he, of_decide_eq_true hi⟩)
    by_cases hs : (x.deck.guards i).shown
    · have he : x.call c = x.flagged i false := by simp [hd, hs, hh, hm, Pile.flagged]
      rw [he]
      exact .flagged _ _ hh
    · have he : x.call c = x := by simp [hd, hs, hm]
      rw [he]
      exact .kept _ fun _ => hh

theorem Orderly.effect_give (h : x.Orderly) (c : Focus.Call α) (hc : c.sparesCovers) {z : Zone}
    (hz : c.zone? = some z) : Effect x ⟨.focus c, hc⟩ (x.call ⟨.focus c, hc⟩) := by
  have hd : ((Call.focus c : Call ι α).run.quiet () x.deck).state =
      { x.deck with focus := ((Focus.give z).quiet () x.deck.focus).state } := by
    rw [quiet_focus, Focus.quiet_run_of_zone? hz]
  have hp : ∀ y, c ≠ .pointAt y := by
    rintro y rfl
    simp [Focus.Call.zone?] at hz
  have he : x.call (⟨.focus c, hc⟩ : SparingCall ι α) =
      x.refocused ((Focus.give z).quiet () x.deck.focus).state := by
    cases c with
    | pointAt y => exact absurd rfl (hp y)
    | _ => simp only [call, hd, Pile.refocused]
  have hk := Focus.maintains_give (A := fun _ => True) (z := z) trivial () _ trivial
    ⟨h.sound, trivial⟩
  rw [he]
  exact .refocused hc hp (hk.quiet trivial).sound (Focus.covers_quiet_give h.sound z)

theorem Orderly.effect (h : x.Orderly) (c : SparingCall ι α) : Effect x c (x.call c) := by
  obtain ⟨c, hc⟩ := c
  cases c with
  | guard i c =>
    cases c with
    | raise => exact h.effect_raise i
    | lower => exact h.effect_lower i
  | focus c =>
    cases c with
    | give z => exact h.effect_give (.give z) hc rfl
    | toSidebar => exact h.effect_give .toSidebar hc rfl
    | toContent screen => exact h.effect_give (.toContent screen) hc rfl
    | pointAt y => exact .pointed y
    | cover => simp [Call.sparesCovers, Focus.Call.sparesCovers] at hc
    | uncover => simp [Call.sparesCovers, Focus.Call.sparesCovers] at hc

theorem Orderly.call (h : x.Orderly) (c : SparingCall ι α) : (x.call c).Orderly := by
  have he := h.effect c
  revert he
  generalize x.call c = y
  rintro (⟨hi, hd⟩ | hi | ⟨_, b, hi⟩ | _ | y | ⟨-, -, hf, hc⟩)
  · exact h.covered hi hd
  · exact h.uncovered hi
  · exact h.flagged hi b
  · exact h
  · exact h.pointed _
  · exact h.refocused hf hc

theorem Orderly.follows (h : x.Orderly) (hp : p ∈ (x.call c).places) : Follows x c p := by
  have he := h.effect c
  revert he hp
  generalize x.call c = y
  intro hp he
  cases he with
  | covered hi hd => exact h.follows_covered hi hp
  | uncovered hi => exact h.follows_uncovered hi hp
  | flagged k b hi =>
    rw [places_flagged] at hp
    exact h.follows_of_mem hp (by simp_all) (by simp)
  | kept k hk => exact h.follows_of_mem hp (by simp_all) (by simp)
  | pointed y => exact h.follows_pointed hp
  | refocused hc hy hf hcov =>
    rw [places_refocused hcov] at hp
    exact h.follows_of_mem hp (by simp) (by simpa using hy)

end Steps

section Histories

variable (overlays : ι → Overlay) (h : List (SparingCall ι α))

theorem orderly_after : (after overlays h).Orderly := by
  induction h using List.reverseRecOn with
  | nil =>
    constructor
    · exact List.nodup_nil
    · simp [after]
    · simp [after]
    · rfl
    · exact ⟨by simp [after, Focus.depth, Focus.capacity], by simp [after]⟩
  | append_singleton h c ih =>
    rw [after_concat]
    exact ih.call c

/-- A call of the history left `i` with the cover of another item than it means, and no later call
took that from it again or pointed at an item on it. -/
def Misplaced (i : ι) : Prop :=
  History.Since (fun before c => Misplaces i (after overlays before) c)
    (fun before c => Spares i (after overlays before) c) h

variable {overlays h}

theorem item_eq_iff {p : Place ι} (hp : p ∈ (after overlays h).places) :
    p.cover.item = p.item ↔ ¬Misplaced overlays h p.guard := by
  induction h using List.reverseRecOn generalizing p with
  | nil => simp [after, places] at hp
  | append_singleton h c ih =>
    have ho := orderly_after overlays h
    rw [after_concat] at hp
    rw [Misplaced, History.since_concat]
    rcases ho.follows hp with ⟨hp', hs, hm⟩ | ⟨hs, hi⟩
    -- the call has to do with the place only if it does not spare it
    · rw [ih hp']
      simp [hs, hm, Misplaced]
    · rw [hi]
      simp [hs]

theorem deck_after : (after overlays h).deck =
    reached (fun c : SparingCall ι α => c.1.run) { guards := fun i => { overlay := overlays i } }
      (h.map fun c => ((), c)) := by
  induction h using List.reverseRecOn with
  | nil => rfl
  | append_singleton h c ih =>
    rw [after_concat, List.map_append, List.map_singleton, reached_concat, ← ih]
    rfl

/-- The covers are, top to bottom, one for each guard that holds one, in the order in which they
were raised. They carry the items that these guards mean, except for the guards that are misplaced;
so all of them do just if no guard is. -/
theorem covers_of_meant (overlays : ι → Overlay) (h : List (SparingCall ι α)) :
    let x := after overlays h
    (x.meant.map Prod.fst).Nodup ∧
    (∀ i, i ∈ x.meant.map Prod.fst ↔ (x.deck.guards i).holds) ∧
    x.meant.length = x.deck.focus.covers.length ∧
    (∀ p ∈ x.places, p.cover.zone = .overlay ∧
      (p.cover.item = p.item ↔ ¬Misplaced overlays h p.guard)) ∧
    (x.deck.focus.covers = x.meant.map (fun e => { zone := .overlay, item := e.2 }) ↔
      ∀ i, (x.deck.guards i).holds → ¬Misplaced overlays h i) := by
  intro x
  have ho : x.Orderly := orderly_after overlays h
  refine ⟨ho.nodup, ho.mem_iff, ho.length, ?_, ?_⟩
  · intro p hp
    exact ⟨ho.zone_eq hp, item_eq_iff hp⟩
  · rw [eq_map_iff ho.length]
    constructor
    · intro hc i hi
      rw [← ho.mem_iff, ← ho.map_guard] at hi
      obtain ⟨p, hp, rfl⟩ := List.mem_map.1 hi
      rw [← item_eq_iff hp, hc p hp]
    · intro hm p hp
      have hz : p.cover.zone = .overlay := ho.zone_eq hp
      have hi : p.cover.item = p.item := (item_eq_iff hp).2 (hm _ (ho.holds_of_mem hp))
      rw [← hz, ← hi]

end Histories

/-- A guard, raised first and pointed at item 1, is lowered under a second one, which was pointed at
item 2 and is left with the first one's cover. -/
def loweredBelow : List (SparingCall (Fin 2) Rat) :=
  [⟨.guard 0 .raise, rfl⟩, ⟨.focus (.pointAt 1), rfl⟩, ⟨.guard 1 .raise, rfl⟩,
    ⟨.focus (.pointAt 2), rfl⟩, ⟨.guard 0 .lower, rfl⟩]

theorem covers_of_meant_loweredBelow :
    Misplaced (fun _ => .errorPopup) loweredBelow 1 ∧
    (after (fun _ => .errorPopup) loweredBelow).deck.focus.depth = 1 := by
  obtain ⟨-, -, hl, hp, -⟩ := covers_of_meant (fun _ => .errorPopup) loweredBelow
  have hm : (⟨1, 2, ⟨.overlay, 1⟩⟩ : Place (Fin 2)) ∈
      (after (fun _ => .errorPopup) loweredBelow).places := by decide
  have hi := (hp _ hm).2
  refine ⟨?_, hl.symm⟩
  by_contra hn
  exact absurd (hi.2 hn) (by decide)

theorem item_loweredBelow :
    (after (fun _ => .errorPopup) loweredBelow).meant = [(1, 2)] ∧
    (after (fun _ => .errorPopup) loweredBelow).deck.focus.item = 1 := by
  decide

end Pile

end Deck

end HandheldUI
