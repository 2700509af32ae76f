import HandheldUI.Proofs.Action.History
import HandheldUI.Proofs.Action.Moment
import HandheldUI.Proofs.Overlay.Balance

/-! Taking overlays down. As long as nobody asks for a cover, for a guard or directly, no guard is
raised, and one that is lowered stays so, whatever the listeners do. -/

namespace HandheldUI

open HandheldUI.Action

namespace Guard

abbrev SeatStep := Step Unit Seat (Focus.Event ⊕ Event) (Focus.Note ⊕ Note) Unit

theorem run_lower (s : Seat) : lower.run () s =
    if s.guard.shown then
      let report (s' : Seat) : SeatStep :=
        .say s' (.inr (.lowered s.guard.overlay)) <|
          .announce s' (.inr (.lowered s.guard.overlay)) fun _ s => .done s ()
      let g := { s.guard with shown := false, holds := false }
      if s.guard.holds then
        if s.focus.depth = 0 then
          .say ⟨g, s.focus⟩ (.inl (.refused (.bare s.focus.depth))) <|
            .announce ⟨g, s.focus⟩ (.inl (.refused (.bare s.focus.depth))) fun _ s => report s
        else
          let f := { s.focus with covers := s.focus.covers.tail }
          .announce ⟨g, f⟩ (.inl (.uncovered f.depth)) fun _ s =>
            .say s (.inl (.uncovered s.focus.depth)) (report s)
      else report ⟨g, s.focus⟩
    else .done s () := by
  unfold lower
  obtain ⟨⟨o, shown, holds⟩, f⟩ := s
  cases shown <;> cases holds <;> by_cases hf : f.depth = 0 <;>
    simp [hf, update, onFocus, Focus.uncover, Focus.refuse, focusView, Step.within, discard,
      Functor.discard, Functor.mapConst, Function.comp]

end Guard

namespace Deck

variable {ι α : Type}

/-- A call that asks for a cover, for a guard or directly. -/
def Call.asks : Call ι α → Bool
  | .guard _ .raise | .focus .cover => true
  | _ => false

/-- Later on no guard is shown that was not shown before. -/
def NoneRaised (d e : Deck ι) : Prop := ∀ i, (e.guards i).shown → (d.guards i).shown

instance : IsPreorder (Deck ι) NoneRaised where
  refl _ _ := id
  trans _ _ _ hde hef i hi := hde i (hef i hi)

/-- What is true of a deck once a call has asked for no cover: no guard is raised, and the one that
was to be lowered is. -/
def Leaves (d : Deck ι) (c : Call ι α) (e : Deck ι) : Prop :=
  NoneRaised d e ∧ ∀ i, c = .guard i .lower → ¬(e.guards i).shown

theorem Leaves.trans {d e f : Deck ι} {c : Call ι α} (h : Leaves d c e) (hf : NoneRaised e f) :
    Leaves d c f :=
  ⟨IsTrans.trans _ _ _ h.1 hf, fun i hi hs => h.2 i hi (hf i hs)⟩

/-- What happens to the focus alone raises no guard. -/
theorem along_within_focus {β : Type} (x : Step Unit Focus Focus.Event Focus.Note β) (d : Deck ι) :
    (x.within focusView Event.focus Note.focus d : Step Unit _ (Event ι) (Note ι) β).Along
      NoneRaised (fun _ _ => True) (NoneRaised d) := by
  induction x generalizing d with
  | done f a => exact fun _ => id
  | say f o rest ih => exact ih d
  | announce f e next ih => exact ⟨fun _ => id, trivial, fun r u _ => ih r _ u⟩

variable [DecidableEq ι]

@[simp] theorem putSeat_self (i : ι) (d : Deck ι) : putSeat i ⟨d.guards i, d.focus⟩ d = d :=
  (seatView i).put_get d

theorem run_guard [Scalar α] (i : ι) (c : Guard.Call) (d : Deck ι) :
    (Call.guard i c : Call ι α).run.run () d =
      ((c.run.run () ⟨d.guards i, d.focus⟩).within (seatView i) (.ofSeat i) (.ofSeat i) d).bind
        (fun _ => pure none) () := rfl

theorem leaves_putSeat {i : ι} {s : Guard.Seat} {d : Deck ι} (h : ¬s.guard.shown) :
    Leaves d (.guard i .lower : Call ι α) (putSeat i s d) := by
  have hi : ¬((putSeat i s d).guards i).shown := by simpa [putSeat] using h
  refine ⟨fun j hj => ?_, fun j hj => ?_⟩
  · by_cases hij : j = i
    · exact absurd (hij ▸ hj) hi
    · simpa [putSeat, hij] using hj
  · cases hj
    exact hi

theorem noneRaised_reseat (i : ι) (d : Deck ι) :
    NoneRaised d (putSeat i ⟨d.guards i, d.focus⟩ d) := by
  rw [putSeat_self]
  exact refl d

theorem along_report {Q : Deck ι → Prop} {d : Deck ι} {i : ι} {o : Note ι} {e : Event ι}
    (hd : Q d) :
    (.say d o <| .announce d e fun _ t => .done (putSeat i ⟨t.guards i, t.focus⟩ t) none :
      Step Unit (Deck ι) (Event ι) (Note ι) (Option Bool)).Along NoneRaised (fun _ _ => True) Q :=
  ⟨hd, trivial, fun _ t _ => noneRaised_reseat i t⟩

variable [Scalar α]

theorem along_lower (i : ι) (d : Deck ι) :
    ((Call.guard i .lower : Call ι α).run.run () d).Along NoneRaised (fun _ _ => True)
      (Leaves d (.guard i .lower : Call ι α)) := by
  rw [run_guard, Guard.Call.run, Guard.run_lower]
  by_cases hi : (d.guards i).shown
  · rw [if_pos hi]
    -- the guard is lowered before the first event, and its listeners raise none
    have low (f : Focus) : Leaves d (.guard i .lower : Call ι α)
        (putSeat i ⟨{ d.guards i with shown := false, holds := false }, f⟩ d) :=
      leaves_putSeat (by simp)
    split
    · split
      · exact ⟨low _, trivial, fun _ u _ => along_report (noneRaised_reseat i u)⟩
      · exact ⟨low _, trivial, fun _ u _ => .say (along_report (noneRaised_reseat i u))⟩
    · exact along_report (low _)
  · rw [if_neg hi]
    exact leaves_putSeat hi

theorem along_of_not_asks {c : Call ι α} (hc : ¬c.asks) (d : Deck ι) :
    (c.run.run () d).Along NoneRaised (fun _ _ => True) (Leaves d c) := by
  cases c with
  | guard i c =>
    cases c with
    | raise => exact absurd rfl hc
    | lower => exact along_lower i d
  | focus c => exact (along_within_focus (c.run.run () d.focus) d).mono fun e he => ⟨he, nofun⟩

/-- In a run in which nobody asks for a cover, at whatever depth of nesting, a guard that is lowered
somewhere is not shown in the end. -/
theorem not_shown_of_diary {κ : Type} {f : κ → Call ι α} (hf : ∀ k, ¬(f k).asks) {d e : Deck ι}
    {h : List (Deck ι × (κ ⊕ Event ι))} (run : Diary (fun k => (f k).run) d h e) {i : ι}
    {y : Deck ι × (κ ⊕ Event ι)} {k : κ} (hy : y ∈ h) (hk : y.2 = .inl k)
    (hi : f k = .guard i .lower) : ¬(e.guards i).shown := by
  -- what a call leaves is still so after everything that comes later, whoever does it
  have hu : Unfolds NoneRaised (fun _ _ => True) (fun d k => Leaves d (f k)) (NoneRaised d)
      h e := by
    refine run.unfolds (I := fun _ => True) (fun _ _ _ _ => trivial) ?_ ?_ ?_ trivial
    · intro _ _ _ _ h
      exact h.1
    · intro _ _ _ _ h
      exact h.trans
    · intro k _ d _
      exact along_of_not_asks (hf k) d
  exact ((hu.lasts y hy).of_call hk).2 i hi

theorem leaves_quiet {c : Call ι α} (hc : ¬c.asks) (d : Deck ι) :
    Leaves d c (c.run.quiet () d).state :=
  (along_of_not_asks hc d).quiet (fun _ _ h => h.trans)

/-- The same of calls one after the other, with listeners that do not call back. -/
theorem not_shown_reached {calls : List (Call ι α)} (hc : ∀ c ∈ calls, ¬c.asks) {d : Deck ι} {i : ι}
    (hi : ¬(d.guards i).shown ∨ .guard i .lower ∈ calls) :
    ¬((reached Call.run d (calls.map ((), ·))).guards i).shown := by
  induction calls generalizing d with
  | nil => simpa using hi
  | cons c calls ih =>
    obtain ⟨hfirst, hrest⟩ := List.forall_mem_cons.1 hc
    obtain ⟨hd, hlower⟩ := leaves_quiet hfirst d
    refine ih hrest (d := (c.run.quiet () d).state) ?_
    -- the guard is down already, or it is lowered now, or later
    rcases hi with hi | hi
    · exact .inl fun h => hi (hd i h)
    · exact (List.mem_cons.1 hi).imp (fun h => hlower i h.symm) id

end Deck

end HandheldUI
