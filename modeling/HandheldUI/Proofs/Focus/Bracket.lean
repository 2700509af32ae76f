import Mathlib.Data.List.Induction
import Mathlib.Data.List.Infix
import HandheldUI.Proofs.Focus.Sound

/-! What lies below a cover. While the cover is there, and whatever is put on it and taken off
again, calls reach the owners above only; so taking it off uncovers the focus as it was. No listener
calls back here. -/

namespace HandheldUI.Focus

open HandheldUI.Action

variable {α : Type} [Scalar α]

/-- The outcome of calls one after the other. -/
def calls (cs : List (Call α)) (f : Focus) : Outcome Focus Event Note (List (Option Bool)) :=
  quietRun Call.run (cs.map fun c => ((), c)) f

theorem state_calls_concat (cs : List (Call α)) (c : Call α) (f : Focus) :
    (calls (cs ++ [c]) f).state = (c.run.quiet () (calls cs f).state).state := by
  rw [calls, List.map_append, quietRun_append]
  rfl

theorem events_calls_concat (cs : List (Call α)) (c : Call α) (f : Focus) :
    (calls (cs ++ [c]) f).events =
      (calls cs f).events ++ (c.run.quiet () (calls cs f).state).events := by
  rw [calls, List.map_append, quietRun_append]
  change List.filterMap Sum.getLeft? (_ ++ (_ ++ [])) = _
  rw [List.append_nil, List.filterMap_append]
  rfl

theorem found_calls (cs : List (Call α)) : Found α (calls cs {}).state := by
  have ⟨trace, run⟩ : ∃ trace, Calls (fun _ => True) (Call.run : Call α → Op (Option Bool)) {}
      trace (calls cs {}).state := calls_quietRun _ _ (fun _ _ => trivial) _
  exact ⟨trace, _, run, .inl rfl⟩

/-- `g` is `f` with covers on top of it. -/
structure Extends (f g : Focus) : Prop where
  base : g.base = f.base
  covers : f.covers <:+ g.covers

section

variable {f g : Focus}

theorem Extends.eq_of_depth (h : Extends f g) (hd : g.depth = f.depth) : g = f := by
  have hb := h.base
  have hc := h.covers.eq_of_length hd.symm
  obtain ⟨b, covers⟩ := g
  obtain ⟨b', covers'⟩ := f
  rw [show b = b' from hb, show covers' = covers from hc]

theorem Extends.depth_le (h : Extends f g) : f.depth ≤ g.depth := h.covers.length_le

/-- The topmost of several covers hides all of `f`. -/
theorem Extends.exists_cons (h : Extends f g) (hd : f.depth < g.depth) :
    ∃ o rest, g.covers = o :: rest ∧ f.covers <:+ rest := by
  have hc := h.covers
  cases hg : g.covers with
  | nil =>
    rw [depth, depth, hg] at hd
    exact absurd hd (Nat.not_lt_zero _)
  | cons o rest =>
    rw [hg] at hc
    refine ⟨o, rest, rfl, ?_⟩
    rcases List.suffix_cons_iff.1 hc with he | hr
    · rw [depth, depth, hg, he] at hd
      exact absurd hd (Nat.lt_irrefl _)
    · exact hr

/-- Under a cover the input is given to nobody else. -/
theorem quiet_give_of_pos (hs : g.Sound) (hd : 0 < g.depth) (z : Zone) :
    (give z).quiet () g = ⟨g, if z = .overlay then [] else [.inr (.kept z g.depth)], ()⟩ := by
  have hz := hs.zone_of_pos hd
  change ((give z).run () g).quiet () = _
  rw [run_give]
  by_cases h : z = .overlay
  · have ht : g.setTop { g.top with zone := z } = g := by
      have he : { g.top with zone := z } = g.top := by
        rw [h, ← hz]
        rfl
      rw [he]
      obtain ⟨b, covers⟩ := g
      cases covers <;> rfl
    simp [h ▸ ht, h, hz, Step.quiet]
  · rw [if_pos ⟨hd, h⟩, if_neg h]
    rfl

theorem quiet_run_of_zone? {c : Call α} {z : Zone} (h : c.zone? = some z) :
    c.run.quiet () g = ⟨((give z).quiet () g).state, ((give z).quiet () g).out, none⟩ := by
  cases c <;> cases h <;> simp [Call.run, toSidebar, toContent, Outcome.after]

theorem quiet_run_cover (f : Focus) : (Call.cover : Call α).run.quiet () f =
    ⟨(cover.quiet () f).state, (cover.quiet () f).out, some (cover.quiet () f).value⟩ :=
  quiet_map some cover () f

theorem quiet_run_uncover (f : Focus) : (Call.uncover : Call α).run.quiet () f =
    ⟨(uncover.quiet () f).state, (uncover.quiet () f).out, some (uncover.quiet () f).value⟩ :=
  quiet_map some uncover () f

theorem Extends.quiet_run (h : Extends f g) (hs : g.Sound) (hd : f.depth < g.depth)
    (c : Call α) : Extends f (c.run.quiet () g).state := by
  obtain ⟨o, rest, hg, hr⟩ := h.exists_cons hd
  cases hz : c.zone? with
  | some z =>
    rw [quiet_run_of_zone? hz, quiet_give_of_pos hs (Nat.zero_lt_of_lt hd)]
    exact h
  | none =>
    cases c with
    | pointAt x =>
      change Extends f (g.pointAt (itemOf x))
      rw [pointAt, setTop, hg]
      exact ⟨h.base, hr.trans (List.suffix_cons _ _)⟩
    | cover =>
      rw [quiet_run_cover, quiet_cover]
      split
      · exact h
      · exact ⟨h.base, h.covers.trans (List.suffix_cons _ _)⟩
    | uncover =>
      rw [quiet_run_uncover, quiet_uncover, if_neg (by omega)]
      refine ⟨h.base, ?_⟩
      change f.covers <:+ g.covers.tail
      rw [hg]
      exact hr
    | _ => simp [Call.zone?] at hz

/-- Under a cover the focus does not move. -/
theorem moved_notMem_quiet_run (hs : g.Sound) (hd : 0 < g.depth) (c : Call α) (old new : Zone) :
    .moved old new ∉ (c.run.quiet () g).events := by
  cases hz : c.zone? with
  | some z =>
    rw [quiet_run_of_zone? hz, quiet_give_of_pos hs hd]
    by_cases h : z = .overlay <;> simp [h]
  | none =>
    cases c with
    | pointAt x => simp [Call.run]
    | cover =>
      rw [quiet_run_cover, quiet_cover]
      by_cases h : g.isFull <;> simp [h]
    | uncover =>
      rw [quiet_run_uncover, quiet_uncover]
      simp [Nat.ne_of_gt hd]
    | _ => simp [Call.zone?] at hz

theorem Sound.quiet_run (h : g.Sound) (c : Call α) : (c.run.quiet () g).state.Sound := by
  have keeps := maintains_run (A := fun _ => True) c (fun _ _ => trivial) () g trivial ⟨h, trivial⟩
  exact (keeps.quiet trivial).sound

/-- Between a cover and the call that takes it off. -/
structure Between (f : Focus) (x : Outcome Focus Event Note (List (Option Bool))) : Prop where
  sound : x.state.Sound
  above : Extends f x.state
  deeper : f.depth < x.state.depth
  still : ∀ old new, .moved old new ∉ x.events

variable {cs : List (Call α)}

theorem between_cover (hf : f.Sound) (hr : f.depth < 3) :
    Between f (calls [(.cover : Call α)] f) := by
  have hn : ¬f.isFull := by
    rw [isFull_iff]
    omega
  have hc : calls [(.cover : Call α)] f =
      ⟨{ f with covers := { zone := .overlay } :: f.covers },
        [.inl (.covered (f.depth + 1)), .inr (.covered (f.depth + 1))], [some true]⟩ := by
    rw [calls, List.map_cons, List.map_nil, quietRun, quiet_run_cover, quiet_cover, if_neg hn]
    rfl
  rw [hc]
  refine ⟨?_, ⟨rfl, List.suffix_cons _ _⟩, Nat.lt_succ_self _, by simp⟩
  exact (Based.covered (A := fun _ => True) ⟨hf, trivial⟩ hr).sound

theorem Between.concat {c : Call α} (h : Between f (calls cs f))
    (hd : (calls (cs ++ [c]) f).state.depth ≠ f.depth) : Between f (calls (cs ++ [c]) f) := by
  have hx := h.above.quiet_run h.sound h.deeper c
  rw [← state_calls_concat] at hx
  refine ⟨?_, hx, Nat.lt_of_le_of_ne hx.depth_le hd.symm, ?_⟩
  · rw [state_calls_concat]
    exact h.sound.quiet_run c
  · intro old new
    rw [events_calls_concat, List.mem_append]
    rintro (hm | hm)
    · exact h.still old new hm
    · exact moved_notMem_quiet_run h.sound (Nat.zero_lt_of_lt h.deeper) c old new hm

theorem between_calls (hf : f.Sound)
    (first : ∀ pre, pre <+: cs → (calls (.cover :: pre) f).state.depth ≠ f.depth) :
    Between f (calls (.cover :: cs) f) := by
  induction cs using List.reverseRecOn with
  | nil =>
    refine between_cover hf ?_
    by_contra hr
    have hn : f.isFull := by
      rw [isFull_iff]
      omega
    apply first [] (List.nil_prefix)
    rw [calls, List.map_cons, List.map_nil, quietRun, quiet_run_cover, quiet_cover, if_pos hn]
    rfl
  | append_singleton cs c ih =>
    have h := ih fun pre hp => first pre (hp.trans (List.prefix_append cs [c]))
    exact h.concat (first _ List.prefix_rfl)

/-- A cover and the call that first comes back to the depth before it enclose calls that leave no
trace below: the focus is as it was, down to the items, and it has not moved in between. -/
theorem calls_bracket (hf : Found α f)
    (first : ∀ pre, pre <+: cs → (calls (.cover :: pre) f).state.depth ≠ f.depth)
    (last : (calls (.cover :: cs ++ [.uncover]) f).state.depth = f.depth) :
    (calls (.cover :: cs ++ [.uncover]) f).state = f ∧
    ∀ old new, .moved old new ∉ (calls (.cover :: cs ++ [.uncover]) f).events := by
  have h := between_calls hf.sound first
  have hx := h.above.quiet_run h.sound h.deeper (.uncover : Call α)
  rw [← state_calls_concat] at hx
  refine ⟨hx.eq_of_depth last, ?_⟩
  intro old new
  rw [events_calls_concat, List.mem_append]
  rintro (hm | hm)
  · exact h.still old new hm
  · exact moved_notMem_quiet_run h.sound (Nat.zero_lt_of_lt h.deeper) .uncover old new hm

/-- Above one cover another is put on, with a third and a refused one on top of it. -/
theorem calls_bracket_second :
    let f : Focus := { base := ⟨.settings, 2⟩, covers := [{ zone := .overlay, item := 1 }] }
    let cs : List (Call Rat) :=
      [.toSidebar, .pointAt 4, .cover, .cover, .pointAt 5, .give .controller, .uncover]
    Found Rat f ∧ (∀ pre, pre <+: cs → (calls (.cover :: pre) f).state.depth ≠ f.depth) ∧
    (calls (.cover :: cs ++ [.uncover]) f).state.depth = f.depth ∧
    (calls (.cover :: cs ++ [.uncover]) f).state = f ∧
    ∀ old new, .moved old new ∉ (calls (.cover :: cs ++ [.uncover]) f).events := by
  intro f cs
  have hf : Found Rat f := by
    let before : List (Call Rat) := [.give .settings, .pointAt 2, .cover, .pointAt 1]
    have he : (calls before {}).state = f := by decide +kernel
    exact he ▸ found_calls before
  have first : ∀ pre ∈ cs.inits, (calls (.cover :: pre) f).state.depth ≠ f.depth := by
    decide +kernel
  simp only [List.mem_inits] at first
  have last : (calls (.cover :: cs ++ [.uncover]) f).state.depth = f.depth := by decide +kernel
  exact ⟨hf, first, last, calls_bracket hf first last⟩

end

end HandheldUI.Focus
