import HandheldUI.Proofs.Action.Moment
import HandheldUI.Proofs.Focus.Picture

/-! Who has the input. The sidebar, the content and an overlay never have it together. One of them
has it, unless the input was given to the overlays' zone where there is no cover: a zone that is
given to the base owner is not looked at, and so nobody has the input there until it is given to
another zone. -/

namespace HandheldUI.Focus

open HandheldUI.Action

/-- Whether the sidebar has the input, whether the content has it, whether an overlay has it. -/
def answers (f : Focus) : List Bool := [f.inSidebar, f.inContent, f.isCovered]

theorem Sound.count_answers {f : Focus} (h : f.Sound) :
    f.answers.count true = if f.depth = 0 ∧ f.base.zone = .overlay then 0 else 1 := by
  rcases Nat.eq_zero_or_pos f.depth with hd | hd
  · have hz : f.zone = f.base.zone := by rw [zone, top_of_depth_eq_zero hd]
    rw [answers, inSidebar, inContent, isCovered, hz, hd]
    generalize f.base.zone = z
    cases z <;> rfl
  · rw [if_neg (by omega), answers, inSidebar, inContent, isCovered, h.zone_of_pos hd]
    simp [hd]

section Histories

variable {α : Type}

/-- The zone that the base owner is given: by a call that finds no cover. -/
def givenBare? : Focus × (Call α ⊕ Event) → Option Zone
  | (f, .inl c) => if f.depth = 0 then c.zone? else none
  | (_, .inr _) => none

/-- The zone that the base owner was given last. -/
def lastGiven (h : List (Focus × (Call α ⊕ Event))) : Zone :=
  (h.filterMap givenBare?).getLast?.getD .main

variable (h : List (Focus × (Call α ⊕ Event))) (f : Focus)

theorem lastGiven_concat_call (c : Call α) :
    lastGiven (h ++ [(f, .inl c)]) =
      if f.depth = 0 then c.zone?.getD (lastGiven h) else lastGiven h := by
  by_cases hd : f.depth = 0
  · cases hz : c.zone? <;> simp [lastGiven, givenBare?, hd, hz]
  · simp [lastGiven, givenBare?, hd]

theorem lastGiven_concat_event (e : Event) :
    lastGiven (h ++ [(f, .inr e)]) = lastGiven h := by
  simp [lastGiven, givenBare?]

end Histories

variable {α : Type} [Scalar α]

section Records

variable {h : List (Focus × (Call α ⊕ Event))} {f g : Focus} {c : Call α}

/-- The base owner is where the calls so far have put it. -/
structure Placed (h : List (Focus × (Call α ⊕ Event))) (f : Focus) : Prop where
  sound : f.Sound
  base : f.base.zone = lastGiven h

omit [Scalar α] in
theorem Placed.event (k : Placed h f) (e : Event) : Placed (h ++ [(f, .inr e)]) f where
  sound := k.sound
  base := by rw [lastGiven_concat_event, k.base]

omit [Scalar α] in
theorem records_give_placed {z : Zone} (hs : f.Sound)
    (hlast : lastGiven h = if f.depth = 0 then z else f.base.zone) :
    ((give z).run () f).Records Placed h := by
  rw [run_give]
  by_cases hz : 0 < f.depth ∧ z ≠ .overlay
  · rw [if_pos hz]
    rw [if_neg (by omega)] at hlast
    exact ⟨hs, hlast.symm⟩
  · have hcover (hd : 0 < f.depth) : z = .overlay := Classical.not_not.1 fun hn => hz ⟨hd, hn⟩
    have hg : Placed h (f.setTop { f.top with zone := z }) := by
      refine ⟨hs.setTop hcover, ?_⟩
      rw [hlast]
      obtain ⟨b, covers⟩ := f
      cases covers <;> rfl
    rw [if_neg hz]
    dsimp only
    by_cases hm : f.zone ≠ z
    · rw [if_pos hm]
      exact ⟨hg.event _, fun _ _ _ k => k⟩
    · rw [if_neg hm]
      exact hg

theorem records_run_placed (c : Call α) (k : Placed h f) :
    (c.run.run () f).Records Placed (h ++ [(f, .inl c)]) := by
  have give_then {z : Zone} (hz : c.zone? = some z) :
      ((give z *> pure none : Op (Option Bool)).run () f).Records Placed (h ++ [(f, .inl c)]) := by
    have hlast : lastGiven (h ++ [(f, .inl c)]) = if f.depth = 0 then z else f.base.zone := by
      rw [lastGiven_concat_call, hz, k.base]
      rfl
    exact (records_give_placed k.sound hlast).bind fun _ _ _ _ k => k
  -- all other calls leave the base owner's zone alone
  have same {g : Focus} (hc : c.zone? = none) (hg : g.Sound) (hb : g.base.zone = f.base.zone) :
      Placed (h ++ [(f, .inl c)]) g := by
    refine ⟨hg, ?_⟩
    rw [lastGiven_concat_call, hc, Option.getD_none, ite_self, hb, k.base]
  have refuse (why : Refusal) (hc : c.zone? = none) :
      (refused why f).Records Placed (h ++ [(f, .inl c)]) :=
    ⟨(same hc k.sound rfl).event _, fun _ _ _ k => k⟩
  cases c with
  | give z => exact give_then rfl
  | toSidebar => exact give_then rfl
  | toContent screen => exact give_then rfl
  | pointAt x =>
    refine same rfl (k.sound.setTop k.sound.zone_of_pos) ?_
    obtain ⟨b, covers⟩ := f
    cases covers <;> rfl
  | cover =>
    rw [run_cover]
    by_cases hd : f.depth < 3
    · have hg : Based (fun _ => True) { f with covers := { zone := .overlay } :: f.covers } :=
        .covered ⟨k.sound, trivial⟩ hd
      rw [if_pos hd]
      exact ⟨(same rfl hg.sound rfl).event _, fun _ _ _ k => k⟩
    · rw [if_neg hd]
      exact refuse _ rfl
  | uncover =>
    rw [run_uncover]
    by_cases hd : 0 < f.depth
    · have hg : Based (fun _ => True) { f with covers := f.covers.tail } :=
        .uncovered ⟨k.sound, trivial⟩
      rw [if_pos hd]
      exact ⟨(same rfl hg.sound rfl).event _, fun _ _ _ k => k⟩
    · rw [if_neg hd]
      exact refuse _ rfl

end Records

/-- At every moment of a run, whatever calls listeners make inside of events: the base owner is in
the zone that it was given last. Exactly one of the sidebar, the content and an overlay has the
input, but where there is no cover and the base owner was given the overlays' zone last nobody has
it. -/
theorem owned_of_moment {h : List (Focus × (Call α ⊕ Event))} {g : Focus}
    (m : Moment (Call.run : Call α → Op (Option Bool)) {} h g) :
    g.base.zone = lastGiven h ∧
    g.answers.count true = if g.depth = 0 ∧ lastGiven h = .overlay then 0 else 1 := by
  have initial : Placed ([] : List (Focus × (Call α ⊕ Event))) {} := ⟨sound_initial, rfl⟩
  have k : Placed h g := m.holds initial fun c _ _ _ k => records_run_placed c k
  refine ⟨k.base, ?_⟩
  rw [← k.base]
  exact k.sound.count_answers

section Unowned

/-- The overlays' zone is given the input on its own, is covered, and comes to light again. -/
def bareOverlay : List (Unit × Call Rat) := [((), .give .overlay), ((), .cover), ((), .uncover)]

theorem moment_bareOverlay : Moment Call.run {} (quietDiary Call.run bareOverlay {})
    (quietRun Call.run bareOverlay {}).state :=
  (diary_quietDiary Call.run bareOverlay {}).moment

theorem owned_of_moment_bareOverlay :
    Moment Call.run {} (quietDiary Call.run bareOverlay {})
      (quietRun Call.run bareOverlay {}).state ∧
    lastGiven (quietDiary Call.run bareOverlay {}) = .overlay ∧
    (quietRun Call.run bareOverlay {}).state.answers.count true = 0 := by
  refine ⟨moment_bareOverlay, by decide +kernel, ?_⟩
  rw [(owned_of_moment moment_bareOverlay).2]
  decide +kernel

/-- It is not so that somebody always has the input. -/
theorem unowned_bareOverlay : ¬∀ (h : List (Focus × (Call Rat ⊕ Event))) (g : Focus),
    Moment (Call.run : Call Rat → Op (Option Bool)) {} h g → g.answers.count true = 1 := by
  intro hall
  have owned := hall _ _ moment_bareOverlay
  revert owned
  decide +kernel

end Unowned

end HandheldUI.Focus
