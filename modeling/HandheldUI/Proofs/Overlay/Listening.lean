import HandheldUI.Proofs.Action.Orderly
import HandheldUI.Proofs.Overlay.Closing

/-! Guards whose listeners call back. A guard that is raised writes down whether its cover was
accepted only after the listeners of that cover have returned. -/

namespace HandheldUI

open HandheldUI.Action

namespace Guard

/-- The guard writes down the answer to its request and reports that it is raised. -/
def answered (accepted : Bool) (s : Seat) : SeatStep :=
  let report (s : Seat) : SeatStep :=
    .say s (.inr (.raised s.guard.overlay s.guard.holds)) <|
      .announce s (.inr (.raised s.guard.overlay s.guard.holds)) fun _ s => .done s ()
  let s : Seat := { s with guard.holds := accepted }
  if accepted then report s
  else .say s (.inr (.unfocused s.guard.overlay)) <|
    .announce s (.inr (.unfocused s.guard.overlay)) fun _ s => report s

theorem run_raise (s : Seat) : raise.run () s =
    if s.guard.shown then .done s ()
    else
      let s : Seat := { s with guard.shown := true }
      if s.focus.isFull then
        .say s (.inl (.refused (.full s.focus.depth))) <|
          .announce s (.inl (.refused (.full s.focus.depth))) fun _ s => answered false s
      else
        let f := { s.focus with covers := { zone := .overlay } :: s.focus.covers }
        .announce { s with focus := f } (.inl (.covered f.depth)) fun _ s =>
          .say s (.inl (.covered s.focus.depth)) (answered true s) := by
  unfold raise
  by_cases h : s.guard.shown
  · simp [h]
  · by_cases hf : s.focus.isFull <;>
      simp [h, hf, update, onFocus, Focus.cover, Focus.refuse, focusView, Step.within, answered]

end Guard

namespace Deck

variable {ι α : Type}

/-- A cover that is announced belongs to nobody yet. -/
def Event.owed : Event ι → ℕ → ℕ
  | focus (.covered _), n => n + 1
  | _, n => n

/-- What a call needs from the listeners of its event: the guard that asked for a cover must still
be shown if it got one, and must not have one of its own in between. -/
def Call.fits : Call ι α → Event ι → Deck ι → Prop
  | .guard i .raise, .focus (.covered _), d => (d.guards i).shown ∧ ¬(d.guards i).holds
  | .guard i .raise, .focus (.refused _), d => ¬(d.guards i).holds
  | _, _, _ => True

/-- Where nobody asks for a cover, the listeners have nothing to spoil. -/
theorem Call.fits_of_not_asks {c : Call ι α} (hc : ¬c.asks) (e : Event ι) (d : Deck ι) :
    c.fits e d := by
  cases c with
  | guard i c =>
    cases c with
    | raise => exact absurd rfl hc
    | lower => trivial
  | focus c => trivial

variable [DecidableEq ι]

theorem Balanced.reseat [Fintype ι] {n : ℕ} {d : Deck ι} (h : Balanced n d) (i : ι) :
    Balanced n (Deck.putSeat i ⟨d.guards i, d.focus⟩ d) := by
  rwa [putSeat_self]

variable [Fintype ι] {d : Deck ι} {n : ℕ}

/-- When a guard writes down the answer to its request, the accounts come out right just if it was
without a cover until then, and is shown if it gets one now. -/
theorem balanced_answered_iff (accepted : Bool) (h : Balanced (n + accepted.toNat) d) (i : ι) :
    Balanced n (putSeat i ⟨{ d.guards i with holds := accepted }, d.focus⟩ d) ↔
      (accepted → (d.guards i).shown) ∧ ¬(d.guards i).holds := by
  have hd := h.depth
  constructor
  · intro hb
    -- a guard that had one already would be counted once for two covers
    have hd' : d.focus.depth = n + _ := hb.depth
    have hc := card_holders_putSeat i ⟨{ d.guards i with holds := accepted }, d.focus⟩ d
    refine ⟨fun ha => by simpa [putSeat] using hb.shown i (by simpa [putSeat] using ha), ?_⟩
    intro hh
    change _ + (d.guards i).holds.toNat = _ + accepted.toNat at hc
    rw [hh, Bool.toNat_true] at hc
    omega
  · rintro ⟨hs, hh⟩
    apply h.putSeat hs
    change d.focus.depth + (d.guards i).holds.toNat + _ = d.focus.depth + accepted.toNat + n
    rw [Bool.not_eq_true] at hh
    rw [hh, Bool.toNat_false]
    omega

theorem balanced_refused_iff (h : Balanced n d) (i : ι) :
    Balanced n (putSeat i ⟨{ d.guards i with holds := false }, d.focus⟩ d) ↔
      ¬(d.guards i).holds := by
  have key := balanced_answered_iff false h i
  simpa using key

theorem balanced_accepted_iff (h : Balanced (n + 1) d) (i : ι) :
    Balanced n (putSeat i ⟨{ d.guards i with holds := true }, d.focus⟩ d) ↔
      (d.guards i).shown ∧ ¬(d.guards i).holds := by
  have key := balanced_answered_iff true h i
  simpa using key

theorem Balanced.keeps_report (h : Balanced n d) (i : ι) {c : Guard.Call} {o : Note ι}
    {e : Guard.Event} :
    (.say d o <| .announce d (.guard i e) fun _ t =>
        .done (Deck.putSeat i ⟨t.guards i, t.focus⟩ t) none :
      Step Unit (Deck ι) (Event ι) (Note ι) (Option Bool)).KeepsIff (fun _ => True)
        (Call.guard i c : Call ι α).fits Event.owed Balanced n := by
  refine .report h rfl ?_ ?_
  · intro t
    cases c <;> trivial
  · intro t ht
    exact ht.reseat i

variable [Scalar α]

abbrev Keeps (n : ℕ) (c : Call ι α) (d : Deck ι) : Prop :=
  (c.run.run () d).KeepsIff (fun _ => True) c.fits Event.owed Balanced n

theorem Balanced.keeps_raise (h : Balanced n d) (i : ι) :
    Keeps n (Call.guard i .raise : Call ι α) d := by
  unfold Keeps
  rw [run_guard, Guard.Call.run, Guard.run_raise]
  by_cases hi : (d.guards i).shown
  · rw [if_pos hi]
    exact h.reseat i
  rw [if_neg hi]
  by_cases hf : d.focus.isFull
  · rw [if_pos hf]
    refine .request (h.putSeat (by simp) rfl) ?_ ?_
    · intro _ t ht
      -- until the answer comes the guard may have got a cover in another way
      exact (balanced_refused_iff ht i).symm
    · intro _ t ht
      refine .request ht ?_ ?_
      · intro _ u hu
        exact iff_of_true trivial (hu.reseat i)
      · intro _ u hu
        exact hu.keeps_report i
  · rw [if_neg hf]
    refine .request (h.putSeat (by simp) ?_) ?_ ?_
    · change d.focus.depth + 1 + (d.guards i).holds.toNat + n =
        d.focus.depth + (d.guards i).holds.toNat + (n + 1)
      omega
    · intro _ t ht
      -- nobody owns the new cover until the answer comes, and nobody may own it if the guard is
      -- lowered by then
      exact (balanced_accepted_iff ht i).symm
    · intro _ t ht
      exact .say (Balanced.keeps_report ht i)

theorem Balanced.keeps_lower (h : Balanced n d) (i : ι) :
    Keeps n (Call.guard i .lower : Call ι α) d := by
  unfold Keeps
  rw [run_guard, Guard.Call.run, Guard.run_lower]
  by_cases hi : (d.guards i).shown
  · rw [if_pos hi]
    by_cases hh : (d.guards i).holds
    · have hd : d.focus.depth ≠ 0 := (h.depth_pos hh).ne'
      rw [if_pos hh, if_neg hd]
      refine .request (h.putSeat (by simp) ?_) ?_ ?_
      · have ht : d.focus.covers.tail.length = d.focus.depth - 1 := List.length_tail
        change d.focus.covers.tail.length + (d.guards i).holds.toNat + n = d.focus.depth + 0 + n
        rw [ht, hh, Bool.toNat_true]
        omega
      · intro _ t ht
        exact iff_of_true trivial (ht.reseat i)
      · intro _ t ht
        exact .say (Balanced.keeps_report ht i)
    · rw [if_neg hh]
      have low : Balanced n
          (Deck.putSeat i ⟨{ d.guards i with shown := false, holds := false }, d.focus⟩ d) :=
        h.putSeat (by simp) (by simp [hh])
      exact low.keeps_report i
  · rw [if_neg hi]
    exact h.reseat i

theorem Balanced.keeps_give (h : Balanced n d) (z : Zone) :
    Keeps n (Call.focus (.give z) : Call ι α) d := by
  unfold Keeps
  have hs (o : Owner) : Balanced n { d with focus := d.focus.setTop o } := h.setFocus (by simp)
  simp only [Call.run, onFocus, Focus.Call.run, Focus.give, run_within, run_seqRight, run_bind,
    run_get]
  by_cases hc : 0 < d.focus.depth ∧ z ≠ .overlay
  · simpa [hc, Step.within, Step.KeepsIff, focusView] using h
  · by_cases hz : d.focus.zone = z
    · simpa [hc, hz, Step.within, Step.KeepsIff, focusView] using hs _
    · simp [hc, hz, Step.within, Step.KeepsIff, Step.Meets, focusView, Event.owed, hs, Call.fits]

theorem Balanced.keeps_focus (h : Balanced n d) {c : Focus.Call α} (hc : c.sparesCovers) :
    Keeps n (Call.focus c : Call ι α) d := by
  cases c with
  | give z => exact h.keeps_give z
  | pointAt x => exact h.setFocus (by simp [focusView])
  | toSidebar => exact h.keeps_give (α := α) .sidebar
  | toContent s => exact h.keeps_give (α := α) s.content
  | cover => simp [Focus.Call.sparesCovers] at hc
  | uncover => simp [Focus.Call.sparesCovers] at hc

/-- A call that puts no cover on and takes none off but for a guard. -/
def Call.sparesCovers : Call ι α → Bool
  | .guard _ _ => true
  | .focus c => c.sparesCovers

abbrev SparingCall (ι α : Type) := { c : Call ι α // c.sparesCovers }

theorem Balanced.keeps (h : Balanced n d) (c : SparingCall ι α) : Keeps n c.1 d := by
  obtain ⟨c, hc⟩ := c
  cases c with
  | guard i c =>
    cases c with
    | raise => exact h.keeps_raise i
    | lower => exact h.keeps_lower i
  | focus c => exact h.keeps_focus hc

abbrev LoweringCall (ι α : Type) := { c : Call ι α // c.sparesCovers ∧ ¬c.asks }

theorem Balanced.lowering (h : Balanced n d) {e : Deck ι}
    {diary : List (Deck ι × (LoweringCall ι α ⊕ Event ι))}
    (run : Diary (fun c : LoweringCall ι α => c.1.run) d diary e) : Balanced n e := by
  obtain ⟨trace, fit⟩ : ∃ trace, FitCalls (fun _ => True) (fun c => c.1.fits)
      (fun c : LoweringCall ι α => c.1.run) d trace e :=
    -- nobody asks for a cover, so that no listener can spoil what a call needs
    run.fitCalls fun c => Call.fits_of_not_asks c.2.2
  exact fit.keeps (fun n c _ e _ he => he.keeps ⟨c.1, c.2.1⟩) h

/-- With accounts in order, a call goes on with accounts in order after an event just if the
listeners leave what the call needs; so if they always do, no guard that is lowered holds a cover.
Lowering every guard then leaves none shown and uncovers what was there before, whatever else the
listeners do, as long as nobody raises a guard any more. -/
theorem fitCalls_accounts {d₀ d : Deck ι} {trace : List (Deck ι × Event ι)}
    (low : ∀ i, ¬(d₀.guards i).shown ∧ ¬(d₀.guards i).holds)
    (run : FitCalls (fun _ => True) (fun c => c.1.fits) (fun c : SparingCall ι α => c.1.run)
      d₀ trace d) :
    (∀ i, (d.guards i).holds → (d.guards i).shown) ∧
    d.focus.depth = d₀.focus.depth + d.holders.card ∧
    ((∀ i, ¬(d.guards i).shown) → d.focus.depth = d₀.focus.depth) ∧
    (∀ (diary : List (Deck ι × (LoweringCall ι α ⊕ Event ι))) (e : Deck ι),
      Diary (fun c : LoweringCall ι α => c.1.run) d diary e →
      (∀ i, ∃ y ∈ diary, ∃ c, y.2 = .inl c ∧ c.1 = .guard i .lower) →
        (∀ i, ¬(e.guards i).shown ∧ ¬(e.guards i).holds) ∧ e.focus.depth = d₀.focus.depth) ∧
    ∀ (n : ℕ) (c : SparingCall ι α) (e : Deck ι), Balanced n e → Keeps n c.1 e := by
  have h₀ : Balanced d₀.focus.depth d₀ := by
    constructor
    · intro i hi
      exact absurd hi (low i).2
    · rw [holders, Finset.filter_false_of_mem fun i _ => (low i).2]
      rfl
  have h := run.keeps (fun n c _ e _ he => he.keeps c) h₀
  refine ⟨h.shown, h.depth, h.depth_of_lowered, ?_, fun n c e he => he.keeps c⟩
  intro diary e lowering all
  have he : Balanced d₀.focus.depth e := h.lowering lowering
  have hl (i : ι) : ¬(e.guards i).shown := by
    obtain ⟨y, hy, c, hc, hi⟩ := all i
    exact not_shown_of_diary (fun c => c.2.2) lowering hy hc hi
  exact ⟨fun i => ⟨hl i, mt (he.shown i) (hl i)⟩, he.depth_of_lowered hl⟩

def lowerAll (n : ℕ) : List (LoweringCall (Fin n) Rat) :=
  (List.finRange n).map fun i => ⟨.guard i .lower, rfl, Bool.false_ne_true⟩

theorem diary_lowerAll {n : ℕ} (d : Deck (Fin n)) : ∃ diary,
    Diary (fun c : LoweringCall (Fin n) Rat => c.1.run) d diary
      (reached (fun c => c.1.run) d ((lowerAll n).map ((), ·))) ∧
    ∀ i, ∃ y ∈ diary, ∃ c, y.2 = .inl c ∧ c.1 = .guard i .lower := by
  refine ⟨_, diary_quietDiary _ _ d, fun i => ?_⟩
  have hi : ⟨.guard i .lower, rfl, Bool.false_ne_true⟩ ∈ lowerAll n :=
    List.mem_map_of_mem (List.mem_finRange i)
  obtain ⟨t, ht⟩ := call_mem_quietDiary _ (List.mem_map_of_mem hi) d
  exact ⟨_, ht, _, rfl, rfl⟩

/-- A second guard may be raised while the first waits for its cover; then both are lowered. -/
theorem fitCalls_accounts_two_guards : ∃ (trace : List (Deck (Fin 2) × Event (Fin 2)))
    (d : Deck (Fin 2)), FitCalls (fun _ => True) (fun c => c.1.fits)
      (fun c : SparingCall (Fin 2) Rat => c.1.run)
      { guards := fun _ => { overlay := .errorPopup } } trace d ∧
    (d.guards 0).holds ∧ (d.guards 1).holds ∧ d.focus.depth = 0 + d.holders.card ∧
    (reached (fun c : LoweringCall (Fin 2) Rat => c.1.run) d
      ((lowerAll 2).map ((), ·))).focus.depth = 0 := by
  let call (c : SparingCall (Fin 2) Rat) : Op (Fin 2) (Option Bool) := c.1.run
  let raise (i : Fin 2) : SparingCall (Fin 2) Rat := ⟨.guard i .raise, rfl⟩
  let start : Deck (Fin 2) := { guards := fun _ => { overlay := .errorPopup } }
  let asked := putSeat 0 ⟨⟨.errorPopup, true, false⟩, { covers := [{ zone := .overlay }] }⟩ start
  let both := ((call (raise 1)).quiet () asked).state
  have inner : FitCalls (fun _ => True) (fun c => c.1.fits) call asked _ both :=
    .cons (r := ()) (c := raise 1) trivial
      (.announce (r := ()) .nil ⟨rfl, by decide⟩ trivial
        (.say (.say (.announce (r := ()) .nil trivial trivial .done))))
      .nil
  have run : FitCalls (fun _ => True) (fun c => c.1.fits) call start _ _ :=
    .cons (r := ()) (c := raise 0) trivial
      (.announce (r := ()) inner ⟨rfl, by decide⟩ trivial
        (.say (.say (.announce (r := ()) .nil trivial trivial .done)))) .nil
  obtain ⟨-, hdepth, -, hlower, -⟩ := fitCalls_accounts (by simp [start]) run
  obtain ⟨diary, lowering, all⟩ := diary_lowerAll _
  exact ⟨_, _, run, rfl, rfl, hdepth, (hlower diary _ lowering all).2⟩

/-- Lowered while it waits for its cover, a guard keeps the cover for good. -/
theorem calls_lower_in_covered : ∃ (trace : List (Deck Unit × Event Unit)) (d : Deck Unit),
    Calls (fun _ => True) (fun c : SparingCall Unit Rat => c.1.run)
      { guards := fun _ => { overlay := .errorPopup } } trace d ∧
    (d.guards ()).holds ∧ ¬(d.guards ()).shown ∧ d.focus.depth = 1 := by
  let call (c : SparingCall Unit Rat) : Op Unit (Option Bool) := c.1.run
  let ask (c : Guard.Call) : SparingCall Unit Rat := ⟨.guard () c, rfl⟩
  let start : Deck Unit := { guards := fun _ => { overlay := .errorPopup } }
  let asked := putSeat () ⟨⟨.errorPopup, true, false⟩, { covers := [{ zone := .overlay }] }⟩ start
  let lowered := ((call (ask .lower)).quiet () asked).state
  have inner : Calls (fun _ => True) call asked _ lowered :=
    .cons (r := ()) (c := ask .lower) trivial (.say (.announce (r := ()) .nil trivial .done)) .nil
  have run : Calls (fun _ => True) call start _ _ :=
    .cons (r := ()) (c := ask .raise) trivial
      (.announce (r := ()) inner trivial
        (.say (.say (.announce (r := ()) .nil trivial .done)))) .nil
  exact ⟨_, _, run, rfl, by decide, rfl⟩

end Deck

end HandheldUI
