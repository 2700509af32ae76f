import Mathlib.Data.List.Induction
import Mathlib.Tactic.Tauto
import HandheldUI.Proofs.Action.Announces
import HandheldUI.Proofs.Action.History
import HandheldUI.Proofs.Controller.Turns

/-! Whether the cells that are handed over together were selected in one gesture. The grid ends a
gesture in the first frame that it gets to see without it; a release that the popup or an overlay
hides leaves the gesture open, for the next one to go on with it. -/

namespace HandheldUI.Controller

open HandheldUI.Action

variable {α : Type} [Scalar α]

/-- No panel is being dragged over and none has a selected cell. -/
def State.IsIdle (s : State α) : Prop :=
  ∀ p, (s.slot p).drag.touching = false ∧ (s.slot p).drag.holding = false ∧
    ∀ k, (s.slot p).selection.has k = false

/-- The same with another selection on one panel. -/
def State.withSelection (p : Panel) (g : Selection) (s : State α) : State α :=
  s.setSlot p { s.slot p with selection := g }

/-- The panel after the turn. -/
def slotAfter (p : Panel) (s : State α) (y : Env α × Turn α) : Slot α :=
  (y.2.run.quiet y.1 s).state.slot p

/-- What is selected after the turn has nothing to do with what was selected before it. -/
def Overwrites (p : Panel) (s : State α) (y : Env α × Turn α) : Prop :=
  ∀ g : Selection, g.cells = (s.slot p).selection.cells →
    (slotAfter p (s.withSelection p g) y).selection = (slotAfter p s y).selection

/-- The cell gets selected in the turn: it is selected after it, and was not before or only in a
selection that the turn has overwritten. -/
def Selects (p : Panel) (k : Nat) (s : State α) (y : Env α × Turn α) : Prop :=
  (slotAfter p s y).selection.has k ∧ (¬(s.slot p).selection.has k ∨ Overwrites p s y)

/-- The finger is down in every frame that the screen gets to see. -/
def FingerDown (y : Env α × Turn α) : Prop :=
  ∀ c, y.2 = .frame c → c.touch.down ∨ y.1.hides

/-- Cross is down in every frame that the screen gets to see, or its release is not reported. -/
def CrossDown (y : Env α × Turn α) : Prop :=
  ∀ c, y.2 = .frame c → .cross ∈ c.held ∨ y.1.hides ∨ y.1.muted ∨ .cross ∉ c.before

/-- The cell got selected in some turn and has stayed so, and `D` was true of that turn and of all
turns since. -/
def SelectedUnder (D : Env α × Turn α → Prop) (p : Panel) (k : Nat) (start : State α)
    (h : List (Env α × Turn α)) : Prop :=
  History.Since
    (fun before y => Selects p k (reached Turn.run start before) y ∧ D y)
    (fun before y => (slotAfter p (reached Turn.run start before) y).selection.has k ∧
      ¬Selects p k (reached Turn.run start before) y ∧ D y) h

/-- A drag is under way only on the page of its panel, and every selected cell was selected under
one that still is. -/
structure Accounted (p : Panel) (start : State α) (h : List (Env α × Turn α)) : Prop where
  page : ((reached Turn.run start h).slot p).drag.touching ∨
      ((reached Turn.run start h).slot p).drag.holding →
    (reached Turn.run start h).pages.page = .grid p
  cells : ∀ k, ((reached Turn.run start h).slot p).selection.has k →
    ((reached Turn.run start h).slot p).drag.touching ∧ SelectedUnder FingerDown p k start h ∨
      ((reached Turn.run start h).slot p).drag.holding ∧ SelectedUnder CrossDown p k start h

variable {p : Panel} {k : Nat} {s start : State α} {y : Env α × Turn α}
  {h : List (Env α × Turn α)}

theorem accounted_nil (hs : start.IsIdle) : Accounted p start [] where
  page := by
    obtain ⟨ht, hh, -⟩ := hs p
    simp [ht, hh]
  cells k hk := by
    rw [reached_nil, (hs p).2.2 k] at hk
    cases hk

theorem selectedUnder_of_selects {D : Env α × Turn α → Prop}
    (hk : Selects p k (reached Turn.run start h) y) (hd : D y) :
    SelectedUnder D p k start (h ++ [y]) :=
  History.since_concat.2 (.inl ⟨hk, hd⟩)

theorem SelectedUnder.concat {D : Env α × Turn α → Prop} (hu : SelectedUnder D p k start h)
    (ha : (slotAfter p (reached Turn.run start h) y).selection.has k)
    (hk : ¬Selects p k (reached Turn.run start h) y) (hd : D y) :
    SelectedUnder D p k start (h ++ [y]) :=
  History.since_concat.2 (.inr ⟨hu, ha, hk, hd⟩)

/-! A frame that the grid gets to see. -/

section Watched

variable {r : Env α} {c : Controls α}

theorem slotAfter_of_watches (hw : Watches p r c s) : slotAfter p s (r, .frame c) =
    (s.slot p).gridInput p (diagram r.sidebarWidth) r.muted (s.input.take c) := by
  rw [slotAfter, quiet_frame_of_watches hw, slot_setInput, slot_setSlot]

theorem overwrites_of_watches (hw : Watches p r c s)
    (hx : ∀ x, Slot.Alike (s.slot p) x →
      (s.slot p).gridInput p (diagram r.sidebarWidth) r.muted (s.input.take c) =
        x.gridInput p (diagram r.sidebarWidth) r.muted (s.input.take c)) :
    Overwrites p s (r, .frame c) := by
  intro g hg
  have hw' : Watches p r c (s.withSelection p g) := hw
  rw [slotAfter_of_watches hw, slotAfter_of_watches hw', State.withSelection, slot_setSlot,
    input_setSlot, hx { s.slot p with selection := g } ⟨rfl, hg.symm⟩]

theorem drag_of_selects (hw : Watches p r c s) (hk : Selects p k s (r, .frame c)) :
    (slotAfter p s (r, .frame c)).drag.touching ∧ c.touch.down ∨
      (slotAfter p s (r, .frame c)).drag.holding ∧ .cross ∈ c.held := by
  obtain ⟨ha, hk⟩ := hk
  have hc : (s.input.take c).holds .cross = true ↔ .cross ∈ c.held := decide_eq_true_iff
  rw [← hc]
  rcases hk with hk | ho
  · rw [slotAfter_of_watches hw] at ha ⊢
    exact Slot.gridInput_of_has ha hk
  · have hw' : Watches p r c (s.withSelection p (s.slot p).selection.clear) := hw
    -- the turn does the same to a panel on which nothing is selected, where every cell is new
    rw [← ho _ (Selection.cells_clear _), slotAfter_of_watches hw', State.withSelection,
      slot_setSlot, input_setSlot] at ha
    have hd := Slot.gridInput_of_has ha (by simp [Selection.has_clear])
    rw [slotAfter_of_watches hw]
    simp only [Slot.touching_gridInput, Slot.holding_gridInput] at hd ⊢
    exact hd

theorem FingerDown.of_touching (hw : Watches p r c s)
    (ht : (slotAfter p s (r, .frame c)).drag.touching) : FingerDown (r, Turn.frame c) := by
  rintro _ ⟨rfl⟩
  rw [slotAfter_of_watches hw, Slot.touching_gridInput, Bool.and_eq_true] at ht
  exact .inl ht.1

theorem CrossDown.of_holding (hw : Watches p r c s)
    (hh : (slotAfter p s (r, .frame c)).drag.holding) : CrossDown (r, Turn.frame c) := by
  rintro _ ⟨rfl⟩
  rw [slotAfter_of_watches hw, Slot.holding_gridInput, Bool.or_eq_true, Bool.and_eq_true] at hh
  have hc : (s.input.take c).holds .cross = decide (.cross ∈ c.held) := rfl
  rcases hh with hp | ⟨-, hr⟩
  · simp only [Input.pressed, Bool.and_eq_true, hc, decide_eq_true_eq] at hp
    exact .inl hp.1.2
  -- with Cross up in a frame that reports it, the hold would be over
  · by_contra hn
    simp only [not_or, not_not, Bool.not_eq_true] at hn
    obtain ⟨hheld, -, hmuted, hbefore⟩ := hn
    have hrel : (s.input.take c).released r.muted .cross = true := by
      have hb : (s.input.take c).now.before = c.before := rfl
      simp only [Input.released, hc, hb, hmuted, hheld, hbefore]
      rfl
    rw [hrel] at hr
    cases hr

theorem Accounted.watched (hs : Accounted p start h)
    (hw : Watches p r c (reached Turn.run start h)) :
    Accounted p start (h ++ [(r, .frame c)]) where
  page _ := by
    rw [reached_concat, quiet_frame_of_watches hw]
    exact hw.2.1
  cells k hk := by
    rw [reached_concat] at hk ⊢
    change (slotAfter p (reached Turn.run start h) (r, .frame c)).selection.has k at hk
    change (slotAfter p (reached Turn.run start h) (r, .frame c)).drag.touching ∧ _ ∨
      (slotAfter p (reached Turn.run start h) (r, .frame c)).drag.holding ∧ _
    -- a cell that is new is under the drag that selects it, an old one under the drag that had it:
    -- a frame that ended that drag would have overwritten it
    by_cases hn : Selects p k (reached Turn.run start h) (r, .frame c)
    · rcases drag_of_selects hw hn with ⟨ht, hd⟩ | ⟨hh, hc⟩
      · exact .inl ⟨ht, selectedUnder_of_selects hn (.of_touching hw ht)⟩
      · exact .inr ⟨hh, selectedUnder_of_selects hn (.of_holding hw hh)⟩
    · have hold : ((reached Turn.run start h).slot p).selection.has k := by
        by_contra ho
        exact hn ⟨hk, .inl ho⟩
      have keep (ho : Overwrites p (reached Turn.run start h) (r, .frame c)) : False :=
        hn ⟨hk, .inr ho⟩
      rcases hs.cells k hold with ⟨ht, hu⟩ | ⟨hh, hu⟩
      · have ht' : (slotAfter p (reached Turn.run start h) (r, .frame c)).drag.touching := by
          by_contra hn'
          rw [slotAfter_of_watches hw] at hn'
          refine keep (overwrites_of_watches hw fun x hx => hx.gridInput_eq (.inl ?_))
          rw [ht]
          exact hn'
        exact .inl ⟨ht', hu.concat hk hn (.of_touching hw ht')⟩
      · have hh' : (slotAfter p (reached Turn.run start h) (r, .frame c)).drag.holding := by
          by_contra hn'
          rw [slotAfter_of_watches hw] at hn'
          exact keep (overwrites_of_watches hw fun x hx => hx.gridInput_eq (.inr ⟨hh, hn'⟩))
        exact .inr ⟨hh', hu.concat hk hn (.of_holding hw hh')⟩

end Watched

theorem not_selects_of_moved {r : Env α} {t : Turn α}
    (ht : ∀ c, t = .frame c → ¬Watches p r c s)
    (hm : Slot.Moved (s.slot p) (slotAfter p s (r, t))) : ¬Selects p k s (r, t) := by
  rintro ⟨ha, hk | ho⟩
  · rw [hm.selection] at ha
    exact hk ha
  · have ht' : ∀ c, t = .frame c → ¬Watches p r c (s.withSelection p (s.slot p).selection.clear) :=
      ht
    have he := ho _ (Selection.cells_clear _)
    have hc : (slotAfter p (s.withSelection p (s.slot p).selection.clear) (r, t)).selection =
        (s.slot p).selection.clear := by
      rcases dropped_or_moved (p := p) ht' with hd | ⟨hd, -⟩
      · rw [slotAfter, hd.selection, State.withSelection, slot_setSlot, Selection.clear_clear]
      · rw [slotAfter, hd.selection, State.withSelection, slot_setSlot]
    rw [← he, hc, Selection.has_clear] at ha
    cases ha

theorem Accounted.passed (hs : Accounted p start h) {r : Env α} {t : Turn α}
    (ht : ∀ c, t = .frame c → ¬Watches p r c (reached Turn.run start h)) :
    Accounted p start (h ++ [(r, t)]) := by
  rcases dropped_or_moved (p := p) ht with hd | ⟨hm, hpage, hf⟩
  · constructor <;> rw [reached_concat]
    · simp [hd.touching, hd.holding]
    · intro k hk
      rw [hd.selection, Selection.has_clear] at hk
      cases hk
  · have hn k := not_selects_of_moved (k := k) ht hm
    constructor <;> rw [reached_concat]
    · rw [hm.touching, hm.holding, hpage]
      exact hs.page
    · intro k hk
      have hk' := hk
      rw [hm.selection] at hk'
      rw [hm.touching, hm.holding]
      rcases hs.cells k hk' with ⟨ht', hu⟩ | ⟨hh', hu⟩
      · refine .inl ⟨ht', hu.concat hk (hn k) fun c he => .inr ?_⟩
        exact (hf ⟨c, he⟩).resolve_right (not_not.2 (hs.page (.inl ht')))
      · refine .inr ⟨hh', hu.concat hk (hn k) fun c he => .inr (.inl ?_)⟩
        exact (hf ⟨c, he⟩).resolve_right (not_not.2 (hs.page (.inr hh')))

theorem accounted (hs : start.IsIdle) (p : Panel) (h : List (Env α × Turn α)) :
    Accounted p start h := by
  induction h using List.reverseRecOn with
  | nil => exact accounted_nil hs
  | append_singleton h y ih =>
    obtain ⟨r, t⟩ := y
    by_cases hw : ∃ c, t = .frame c ∧ Watches p r c (reached Turn.run start h)
    · obtain ⟨c, rfl, hw⟩ := hw
      exact ih.watched hw
    · exact ih.passed fun c he hw' => hw ⟨c, he, hw'⟩

/-! What is handed over. -/

/-- A handing over of selected cells, which the whole panel is not. -/
def Event.IsHandOver : Event → Prop
  | .mapping _ _ false => True
  | _ => False

theorem announces_turnTo (new : Page) :
    Announces (¬·.IsHandOver) (turnTo new : Op α Unit) := by
  have hp (f : Pages α → Pages α) : Announces (¬·.IsHandOver) (onPages f) := .modify _
  have hd (p : Panel) (f : Drag α → Drag α) : Announces (¬·.IsHandOver) (onDrag p f) := .modify _
  have hc (p : Panel) : Announces (¬·.IsHandOver) (clear p : Op α Unit) := .modify _
  have ha (old : Page) : Announces (¬·.IsHandOver) (announce (.turned old new) : Op α Unit) :=
    .announce id
  unfold turnTo startAfresh
  with_reducible repeat' first
    | apply Announces.ite | apply hp | apply hd | apply hc | apply ha
    | apply Announces.get | apply Announces.say | apply Announces.pure | apply Announces.bind
    | intro _ | split

theorem announces_summaryTouch (d : Rect α) :
    Announces (¬·.IsHandOver) (summaryTouch d : Op α Unit) := by
  have hp (f : Pages α → Pages α) : Announces (¬·.IsHandOver) (onPages f) := .modify _
  have hi (f : Input α → Input α) : Announces (¬·.IsHandOver) (onInput f) := .modify _
  have ht := announces_turnTo (α := α)
  unfold summaryTouch
  with_reducible repeat' first
    | apply Announces.ite | apply hp | apply hi | apply ht
    | apply Announces.get | apply Announces.pure | apply Announces.bind | intro _

theorem mem_handed {cells : List Nat} {q : Panel} {g : Selection} :
    .mapping p cells false ∈ handed q g ↔ p = q ∧ cells ≠ [] ∧ cells = g.toList := by
  unfold handed
  split
  · simp_all
  · simp_all

theorem mapping_mem_gridInput_iff {r : Env α} {d : Rect α} {q : Panel} {cells : List Nat} :
    .mapping p cells false ∈ ((gridInput q d).quiet r s).events ↔
      p = q ∧ cells ≠ [] ∧
        (¬s.input.touch.down ∧ (s.slot q).drag.touching ∧ cells = (s.slot q).selection.toList ∨
          (s.slot q).drag.holding ∧ ¬s.input.pressed r.muted .cross ∧
            s.input.released r.muted .cross ∧
            cells = ((s.slot q).drawn q d r.muted s.input).selection.toList) := by
  have hand (b : Bool) (g : Selection) :
      .mapping p cells false ∈ (if b then handed q g else []) ↔
        b ∧ p = q ∧ cells ≠ [] ∧ cells = g.toList := by
    cases b <;> simp [mem_handed]
  have whole (b : Bool) : .mapping p cells false ∉ if b then [Event.mapping q [] true] else [] := by
    cases b <;> simp
  have unmap (b : Bool) : .mapping p cells false ∉ if b then [Event.unmapping q] else [] := by
    cases b <;> simp
  rw [quiet_gridInput_events, Slot.holding_drawn, List.mem_append, List.mem_append, List.mem_append,
    hand, hand]
  simp only [whole, unmap, Bool.and_eq_true, Bool.not_eq_true', ← Bool.not_eq_true]
  tauto

theorem events_frame (r : Env α) (c : Controls α) (s : State α) :
    ((Turn.frame c).run.quiet r s).events =
      (respond.quiet r (s.setInput (s.input.take c))).events := rfl

/-- A selection is handed over where its grid gets to see the finger or Cross let go. -/
theorem mapping_mem_events_iff {r : Env α} {c : Controls α} {cells : List Nat} :
    .mapping p cells false ∈ ((Turn.frame c).run.quiet r s).events ↔
      Watches p r c s ∧ cells ≠ [] ∧
        let x := s.slot p
        let y := x.drawn p (diagram r.sidebarWidth) r.muted (s.input.take c)
        (¬c.touch.down ∧ x.drag.touching ∧ cells = x.selection.toList ∨
          x.drag.holding ∧ ¬(s.input.take c).pressed r.muted .cross ∧
            (s.input.take c).released r.muted .cross ∧ cells = y.selection.toList) := by
  rw [events_frame]
  by_cases hh : r.hides
  · simp [quiet_respond_hidden hh, Watches, hh]
  cases hp : s.pages.page with
  | summary =>
    rw [quiet_respond_summary hh (s := s.setInput (s.input.take c)) hp]
    refine iff_of_false (fun he => ?_) (by simp [Watches, hp])
    exact announces_summaryTouch _ _ _ _ he trivial
  | grid q =>
    rw [quiet_respond_grid hh (s := s.setInput (s.input.take c)) hp, input_setInput]
    by_cases hc : (s.input.take c).pressed r.muted .circle
    · rw [if_pos hc]
      refine iff_of_false (fun he => ?_) (by simp [Watches, hc])
      exact announces_turnTo _ _ _ _ he trivial
    · rw [if_neg hc, mapping_mem_gridInput_iff]
      constructor
      · rintro ⟨rfl, hne, he⟩
        exact ⟨⟨hh, hp, hc⟩, hne, he⟩
      · rintro ⟨⟨-, hp', -⟩, hne, he⟩
        obtain rfl : p = q := by simpa [hp] using hp'.symm
        exact ⟨rfl, hne, he⟩

/-- A cell that joins the selection just before Cross is let go joins it under a finger. -/
theorem down_of_has_drawn {x : Slot α} {d : Rect α} {muted : Bool} {i : Input α}
    (hk : (x.drawn p d muted i).selection.has k) (hx : ¬x.selection.has k)
    (hc : i.released muted .cross) : i.touch.down := by
  by_cases ht : (x.dragTouch p d i).selection.has k
  · exact (Slot.dragTouch_of_has ht hx).1
  · rw [← (Slot.frame_dpad (x.dragTouch p d i) p muted i).2.2] at ht
    have hh := (Slot.holdOn_of_has hk ht).2
    simp [Input.released, hh] at hc

/-- Nothing joins or leaves the selection under no finger and no Cross. -/
theorem selection_drawn {x : Slot α} {d : Rect α} {muted : Bool} {i : Input α}
    (hd : ¬i.touch.down) (ht : ¬x.drag.touching) (hc : ¬i.holds .cross) :
    (x.drawn p d muted i).selection = x.selection := by
  have h₁ : x.dragTouch p d i = x := by simp [Slot.dragTouch, hd, ht]
  rw [Slot.drawn, h₁, Slot.holdOn, if_neg (by simp [hc]), (Slot.frame_dpad ..).2.2]

/-- Frames that the screen does not get to see. -/
def Hidden (h : List (Env α × Turn α)) : Prop := ∀ y ∈ h, y.1.hides ∧ ∃ c, y.2 = .frame c

theorem reached_hidden (hh : Hidden h) :
    (reached Turn.run s h).slot p = s.slot p ∧
      (reached Turn.run s h).pages.page = s.pages.page := by
  induction h using List.reverseRecOn with
  | nil => exact ⟨rfl, rfl⟩
  | append_singleton h y ih =>
    obtain ⟨hy, c, hc⟩ := hh y (by simp)
    rw [reached_concat, hc, quiet_frame, quiet_respond_hidden hy]
    exact ih fun z hz => hh z (by simp [hz])

/-- Every cell that is handed over was selected in that very frame by a finger, or has been selected
under one finger or one hold of Cross that the screen has seen no end of. The other way round, a
selection outlives every frame that is hidden from the screen, whatever the finger and Cross do in
it, and is handed over in the first frame that the screen gets to see the release in. -/
theorem handOver_one_gesture (idle : start.IsIdle) (p : Panel) :
    (∀ (h : List (Env α × Turn α)) (r : Env α) (c : Controls α) (cells : List Nat) (k : Nat),
      .mapping p cells false ∈
        ((Turn.frame c).run.quiet r (reached Turn.run start h)).events → k ∈ cells →
      ¬((reached Turn.run start h).slot p).selection.has k ∧ c.touch.down ∨
        SelectedUnder FingerDown p k start h ∨ SelectedUnder CrossDown p k start h) ∧
    ∀ (s : State α) (h : List (Env α × Turn α)) (r : Env α) (c : Controls α), Hidden h →
      Watches p r c (reached Turn.run s h) → ¬c.touch.down →
      (s.slot p).drag.touching ∨ (s.slot p).drag.holding ∧
        ((reached Turn.run s h).input.take c).released r.muted .cross →
      ∀ k, (s.slot p).selection.has k → ∃ cells, k ∈ cells ∧
        .mapping p cells false ∈ ((Turn.frame c).run.quiet r (reached Turn.run s h)).events := by
  constructor
  · intro h r c cells k he hk
    obtain ⟨-, -, he⟩ := mapping_mem_events_iff.1 he
    by_cases hs : ((reached Turn.run start h).slot p).selection.has k
    · right
      rcases (accounted idle p h).cells k hs with ⟨-, hu⟩ | ⟨-, hu⟩
      · exact .inl hu
      · exact .inr hu
    · refine .inl ⟨hs, ?_⟩
      rcases he with ⟨-, -, rfl⟩ | ⟨-, -, hr, rfl⟩
      · exact absurd (Selection.mem_toList.1 hk) hs
      · exact down_of_has_drawn (Selection.mem_toList.1 hk) hs hr
  · intro s h r c hh hw hd hg k hk
    have hslot := (reached_hidden (s := s) (p := p) hh).1
    have hne : (s.slot p).selection.toList ≠ [] := List.ne_nil_of_mem (Selection.mem_toList.2 hk)
    refine ⟨(s.slot p).selection.toList, Selection.mem_toList.2 hk,
      mapping_mem_events_iff.2 ⟨hw, hne, ?_⟩⟩
    -- a touch that ends is looked at before Cross is
    by_cases ht : (s.slot p).drag.touching
    · left
      rw [hslot]
      exact ⟨hd, ht, rfl⟩
    · right
      obtain ⟨hh', hr⟩ := hg.resolve_left ht
      have hc : ¬((reached Turn.run s h).input.take c).holds .cross := by
        intro hc
        simp [Input.released, hc] at hr
      have hd' : ¬((reached Turn.run s h).input.take c).touch.down := hd
      rw [hslot, selection_drawn hd' ht hc]
      exact ⟨hh', fun hp => hc (by simp_all [Input.pressed]), hr, rfl⟩

/-- The screen as it starts. -/
def State.initial : State α := ⟨.initial, unselected, .initial⟩

theorem isIdle_initial : (State.initial : State α).IsIdle := by
  intro p
  cases p <;> exact ⟨rfl, rfl, fun k => Selection.has_empty _ k⟩

/-- Nothing keeps the input from the screen. -/
def clearView : Env Rat := ⟨false, false, false, 0⟩

def fingerAt (p : Point Rat) : Controls Rat := ⟨[], [], ⟨true, p⟩⟩

/-- A finger comes down on a cell of the front panel. -/
def touched : List (Env Rat × Turn Rat) :=
  [(clearView, .ask (.turnTo (.grid .front)) (by simp)), (clearView, .frame (fingerAt ⟨400, 200⟩))]

/-- It is lifted under the popup. -/
def lifted : Env Rat × Turn Rat := ({ clearView with popup := true }, .frame .idle)

/-- It comes down again, on another cell. -/
def again : Env Rat × Turn Rat := (clearView, .frame (fingerAt ⟨560, 200⟩))

instance (p : Panel) (r : Env α) (c : Controls α) (s : State α) : Decidable (Watches p r c s) :=
  inferInstanceAs (Decidable (_ ∧ _ ∧ _))

theorem handOver_one_gesture_front : (State.initial : State Rat).IsIdle ∧
    (SelectedUnder FingerDown .front 1 State.initial (touched ++ [lifted] ++ [again]) ∨
      SelectedUnder CrossDown .front 1 State.initial (touched ++ [lifted] ++ [again])) ∧
    ∃ cells, 1 ∈ cells ∧ .mapping .front cells false ∈ ((Turn.frame .idle).run.quiet clearView
      (reached Turn.run (reached Turn.run State.initial touched) [lifted])).events := by
  have key := handOver_one_gesture (isIdle_initial (α := Rat)) .front
  refine ⟨isIdle_initial, ?_, ?_⟩
  · have h := key.1 (touched ++ [lifted] ++ [again]) clearView .idle [1, 4] 1
      (by decide +kernel) (by decide)
    exact h.resolve_left fun hn => absurd hn.2 (by decide)
  · refine key.2 (reached Turn.run State.initial touched) [lifted] clearView .idle ?_
      (by decide +kernel) (by decide) (.inl (by decide +kernel)) 1 (by decide +kernel)
    simp [Hidden, lifted, Env.hides]

/-- One cell was selected by a finger that was lifted since, the other by the next finger. -/
theorem mapping_of_two_contacts :
    .mapping .front [1, 4] false ∈ ((Turn.frame .idle).run.quiet clearView
      (reached Turn.run State.initial (touched ++ [lifted] ++ [again]))).events ∧
    ((reached Turn.run State.initial
      (touched ++ [lifted] ++ [again])).slot .front).selection.has 1 ∧
    ¬SelectedUnder (fun y => ∀ c, y.2 = .frame c → c.touch.down) .front 1 State.initial
      (touched ++ [lifted] ++ [again]) ∧
    ¬SelectedUnder (fun y => ∀ c, y.2 = .frame c → .cross ∈ c.held) .front 1 State.initial
      (touched ++ [lifted] ++ [again]) := by
  have kept : ¬Selects .front 1 (reached Turn.run State.initial (touched ++ [lifted])) again := by
    rintro ⟨-, hk | ho⟩
    · exact hk (by decide +kernel)
    · have h := congrArg (Selection.has · 1) (ho (.empty 18) (by decide +kernel))
      revert h
      decide +kernel
  have never {D : Env Rat × Turn Rat → Prop} (hd : ¬D lifted) :
      ¬SelectedUnder D .front 1 State.initial (touched ++ [lifted] ++ [again]) := by
    rw [SelectedUnder, History.since_concat, History.since_concat]
    rintro (⟨hs, -⟩ | ⟨⟨-, hl⟩ | ⟨-, -, -, hl⟩, -⟩)
    · exact kept hs
    · exact hd hl
    · exact hd hl
  refine ⟨by decide +kernel, by decide +kernel, never ?_, never ?_⟩
  · intro hd
    exact absurd (hd _ rfl) (by decide)
  · intro hd
    exact absurd (hd _ rfl) (by decide)

end HandheldUI.Controller
