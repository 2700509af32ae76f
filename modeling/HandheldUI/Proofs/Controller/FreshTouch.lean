import HandheldUI.Proofs.Controller.Frames

/-! When a finger that is down on the summary opens a grid. The screen remembers that the finger was
down in the last frame, but it forgets it whenever it starts afresh, and takes a finger that has
stayed for one that comes down. -/

namespace HandheldUI.Controller

open HandheldUI.Action

variable {α : Type}

/-- The turn shows a page, or clears all away after a mapping was applied. -/
def Turn.Restarts : Turn α → Prop
  | .ask (.turnTo _) _ => True
  | .ask .startAfresh _ => True
  | _ => False

variable [Scalar α] {r : Env α} {c : Controls α} {s : State α} {t : Turn α}

/-- The frame finds the summary shown, and shows a grid. -/
def Opens (r : Env α) (c : Controls α) (s : State α) : Prop :=
  s.pages.page = .summary ∧ ((frame c).quiet r s).state.pages.page ≠ .summary

theorem touched_quiet_turnTo (new : Page) :
    ((turnTo new : Op α Unit).quiet r s).state.pages.touched = false := by
  unfold turnTo
  by_cases h : s.pages.page = new
  · cases new <;> simp [h, startAfresh, onPages, State.setSlot]
  · cases new <;> simp [h, startAfresh, onPages, State.setSlot]

theorem state_frame_hidden (hh : r.hides) :
    ((frame c).quiet r s).state = s.setInput (s.input.take c) := by
  rw [frame, quiet_frame, quiet_respond_hidden hh]

theorem state_frame_summary (hh : ¬r.hides) (hp : s.pages.page = .summary) :
    ((frame c).quiet r s).state =
      ((summaryTouch (diagram r.sidebarWidth)).quiet r (s.setInput (s.input.take c))).state := by
  rw [frame, quiet_frame, quiet_respond_summary hh (s := s.setInput (s.input.take c)) hp]

theorem page_summaryTouch_ne_iff {d : Rect α} (hp : s.pages.page = .summary) :
    ((summaryTouch d).quiet r s).state.pages.page ≠ .summary ↔
      (s.input.touch.down ∧ ¬s.input.touchBarred ∧ d.contains s.input.touch.point) ∧
        s.pages.touched = false := by
  rw [state_quiet_summaryTouch]
  cases hd : s.input.touch.down
  · simp [hp]
  · cases hb : s.input.touchBarred <;> cases ht : s.pages.touched <;>
      cases hc : d.contains s.input.touch.point <;> simp [hp, page_quiet_turnTo]

/-- A touch that counts is remembered, unless it opens a grid. -/
theorem touched_summaryTouch {d : Rect α} (hp : s.pages.page = .summary)
    (hb : s.input.touch.down → ¬s.input.touchBarred)
    (hp' : ((summaryTouch d).quiet r s).state.pages.page = .summary) :
    ((summaryTouch d).quiet r s).state.pages.touched = s.input.touch.down := by
  have hopens := mt (page_summaryTouch_ne_iff hp).2 (not_not.2 hp')
  rw [state_quiet_summaryTouch]
  cases hd : s.input.touch.down
  · simp
  · have hbar : s.input.touchBarred = false := by simpa using hb hd
    cases ht : s.pages.touched
    · have hc : d.contains s.input.touch.point = false := by simpa [hd, hbar, ht] using hopens
      simp [hbar, hc]
    · simp [ht]

theorem touched_summaryTouch_of_opens {d : Rect α} (hp : s.pages.page = .summary)
    (hp' : ((summaryTouch d).quiet r s).state.pages.page ≠ .summary) :
    ((summaryTouch d).quiet r s).state.pages.touched = false := by
  obtain ⟨⟨hd, hb, hc⟩, ht⟩ := (page_summaryTouch_ne_iff hp).1 hp'
  rw [state_quiet_summaryTouch, if_pos hd, if_neg (by simp [hb, ht])]
  simp only [hc, if_true]
  exact touched_quiet_turnTo _

theorem opens_iff : Opens r c s ↔
    (¬r.hides ∧ s.pages.page = .summary ∧ c.touch.down ∧ ¬s.input.touchBarred ∧
      (diagram r.sidebarWidth).contains c.touch.point) ∧ s.pages.touched = false := by
  by_cases hh : r.hides
  · rw [Opens, state_frame_hidden hh]
    exact iff_of_false (fun h => h.2 h.1) fun h => h.1.1 hh
  by_cases hp : s.pages.page = .summary
  · have hpage := page_summaryTouch_ne_iff (r := r) (d := diagram r.sidebarWidth)
      (s := s.setInput (s.input.take c)) hp
    rw [Opens, state_frame_summary hh hp, hpage]
    constructor
    · intro ⟨_, hcounts, ht⟩
      exact ⟨⟨hh, hp, hcounts⟩, ht⟩
    · intro ⟨⟨_, _, hcounts⟩, ht⟩
      exact ⟨hp, hcounts, ht⟩
  · exact iff_of_false (fun h => hp h.1) fun h => hp h.1.2.1

theorem touched_of_turned
    (hturn : ((frame c).quiet r s).state.pages.page ≠ s.pages.page) :
    ((frame c).quiet r s).state.pages.touched = false := by
  by_cases hh : r.hides
  · rw [state_frame_hidden hh] at hturn
    exact absurd rfl hturn
  cases hp : s.pages.page with
  | summary =>
    rw [hp, state_frame_summary hh hp] at hturn
    rw [state_frame_summary hh hp]
    exact touched_summaryTouch_of_opens (s := s.setInput (s.input.take c)) hp hturn
  | grid q =>
    have hq : (s.setInput (s.input.take c)).pages.page = .grid q := hp
    rw [frame, quiet_frame, quiet_respond_grid hh hq] at hturn ⊢
    by_cases hc : (s.setInput (s.input.take c)).input.pressed r.muted .circle
    · rw [if_pos hc]
      exact touched_quiet_turnTo .summary
    · rw [if_neg hc, quiet_gridInput_state] at hturn
      exact absurd rfl hturn

theorem touched_frame (hh : ¬r.hides) (hb : c.touch.down → ¬s.input.touchBarred)
    (hp : s.pages.page = .summary) (hp' : ((frame c).quiet r s).state.pages.page = .summary) :
    ((frame c).quiet r s).state.pages.touched = c.touch.down := by
  rw [state_frame_summary hh hp] at hp' ⊢
  exact touched_summaryTouch (s := s.setInput (s.input.take c)) hp hb hp'

theorem touched_of_restarts (ht : t.Restarts) :
    (t.run.quiet r s).state.pages.touched = false := by
  cases t with
  | frame c => exact ht.elim
  | input c h => exact ht.elim
  | ask c h =>
    cases c with
    | turnTo new => exact touched_quiet_turnTo new
    | startAfresh => rfl
    | preselect q => exact ht.elim
    | step q rows cols => exact ht.elim
    | respond => exact ht.elim

/-- Any other turn between two frames leaves the page and what is remembered of the finger. -/
theorem pages_of_not_restarts (hframe : ∀ c, t ≠ .frame c) (ht : ¬t.Restarts) :
    (t.run.quiet r s).state.pages.page = s.pages.page ∧
      (t.run.quiet r s).state.pages.touched = s.pages.touched := by
  cases t with
  | frame c => exact absurd rfl (hframe c)
  | input c h => exact ⟨rfl, rfl⟩
  | ask c h =>
    cases c with
    | turnTo new => exact absurd trivial ht
    | startAfresh => exact absurd trivial ht
    | preselect q => exact ⟨rfl, rfl⟩
    | step q rows cols =>
      change ((step q rows cols).quiet r s).state.pages.page = _ ∧
        ((step q rows cols).quiet r s).state.pages.touched = _
      rw [quiet_step]
      exact ⟨rfl, rfl⟩
    | respond => exact absurd rfl h

/-- Between two frames the screen forgets the finger, or nothing happens to page and finger. -/
theorem pages_between {mid : List (Env α × Turn α)} (hmid : ∀ y ∈ mid, ∀ c, y.2 ≠ .frame c) :
    ((∃ y ∈ mid, y.2.Restarts) → (reached Turn.run s mid).pages.touched = false) ∧
    ((∀ y ∈ mid, ¬y.2.Restarts) → (reached Turn.run s mid).pages.page = s.pages.page ∧
      (reached Turn.run s mid).pages.touched = s.pages.touched) := by
  induction mid using List.reverseRecOn with
  | nil => exact ⟨by simp, fun _ => ⟨rfl, rfl⟩⟩
  | append_singleton mid y ih =>
    have hbefore : ∀ z ∈ mid, ∀ c, z.2 ≠ .frame c := fun z hz => hmid z (by simp [hz])
    have hy : ∀ c, y.2 ≠ .frame c := hmid y (by simp)
    rw [reached_concat]
    constructor
    · intro ⟨z, hz, hr⟩
      by_cases hlast : y.2.Restarts
      · exact touched_of_restarts hlast
      · have hz' : z ∈ mid := by
          rcases List.mem_append.1 hz with hz | hz
          · exact hz
          · exact absurd (List.mem_singleton.1 hz ▸ hr) hlast
        rw [(pages_of_not_restarts hy hlast).2]
        exact (ih hbefore).1 ⟨z, hz', hr⟩
    · intro hnone
      obtain ⟨hpage, htouched⟩ := pages_of_not_restarts (r := y.1)
        (s := reached Turn.run s mid) hy (hnone y (by simp))
      obtain ⟨hpage', htouched'⟩ := (ih hbefore).2 fun z hz => hnone z (by simp [hz])
      exact ⟨hpage.trans hpage', htouched.trans htouched'⟩

/-- From one frame to the next, whatever is asked of the screen in between, a finger that is down on
the diagram opens a grid from the summary if it was up before; and also if it was down before, but
some page has been shown since, or all has been cleared away. -/
theorem opens_after_frame_iff {r₁ r₂ : Env α} {c₁ c₂ : Controls α} {mid : List (Env α × Turn α)}
    (seen : ¬r₁.hides) (counts : c₁.touch.down → ¬s.input.touchBarred)
    (between : ∀ y ∈ mid, ∀ c, y.2 ≠ .frame c) :
    let u := ((frame c₁).quiet r₁ s).state
    let t := reached Turn.run s ((r₁, .frame c₁) :: mid)
    Opens r₂ c₂ t ↔
      (¬r₂.hides ∧ t.pages.page = .summary ∧ c₂.touch.down ∧ ¬t.input.touchBarred ∧
        (diagram r₂.sidebarWidth).contains c₂.touch.point) ∧
      (¬c₁.touch.down ∨ u.pages.page ≠ s.pages.page ∨ ∃ y ∈ mid, y.2.Restarts) := by
  intro u t
  have ht : t = reached Turn.run u mid := rfl
  obtain ⟨hforgets, hkeeps⟩ := pages_between (s := u) between
  rw [opens_iff]
  refine and_congr_right fun ⟨_, hpage, _⟩ => ?_
  by_cases hmid : ∃ y ∈ mid, y.2.Restarts
  · exact iff_of_true (ht ▸ hforgets hmid) (.inr (.inr hmid))
  · obtain ⟨hpage', htouched⟩ := hkeeps fun y hy hr => hmid ⟨y, hy, hr⟩
    rw [ht, htouched]
    by_cases hturn : u.pages.page = s.pages.page
    -- the summary was shown all along, and remembers how the finger was
    · have hsummary : u.pages.page = .summary := hpage' ▸ hpage
      rw [touched_frame seen counts (hturn ▸ hsummary) hsummary]
      simp [hmid, hturn]
    · exact iff_of_true (touched_of_turned hturn) (.inr (.inl hturn))

instance : Decidable (Opens r c s) := inferInstanceAs (Decidable (_ ∧ _ ≠ _))

/-- A finger comes down beside the diagram. -/
def besideDiagram : Env Rat × Turn Rat := (clearView, .frame (fingerAt ⟨50, 500⟩))

/-- Where it slides onto the diagram, it opens a grid only if a mapping was applied on the way. -/
theorem opens_after_frame_iff_slid :
    Opens clearView (fingerAt ⟨400, 200⟩) (reached Turn.run State.initial
      [besideDiagram, (clearView, .ask .startAfresh (by simp))]) ∧
    ¬Opens clearView (fingerAt ⟨400, 200⟩) (reached Turn.run State.initial [besideDiagram]) := by
  have key (mid : List (Env Rat × Turn Rat)) (between : ∀ y ∈ mid, ∀ c, y.2 ≠ .frame c) :
      Opens clearView (fingerAt ⟨400, 200⟩)
        (reached Turn.run State.initial (besideDiagram :: mid)) ↔ _ :=
    opens_after_frame_iff (by decide) (fun _ => by decide) between
  constructor
  · refine (key _ ?_).2 ⟨by decide +kernel, .inr (.inr ⟨_, List.mem_cons_self, trivial⟩)⟩
    intro y hy c
    rw [List.mem_singleton.1 hy]
    simp
  · intro ho
    rcases ((key [] (by simp)).1 ho).2 with hup | hturn | ⟨y, hy, -⟩
    · exact hup (by decide)
    · exact hturn (by decide +kernel)
    · exact List.not_mem_nil hy

/-- Circle goes down under the finger. -/
def leaving : Controls Rat := { fingerAt ⟨400, 200⟩ with held := [.circle] }

/-- The finger has been down on the grid, and is down on the summary that Circle leaves to; the grid
opens again, though the finger was never up. -/
theorem opens_under_staying_finger :
    ¬∀ (h : List (Env Rat × Turn Rat)) (r₁ r₂ : Env Rat) (c₁ c₂ : Controls Rat),
      History.Always (fun before y =>
        ¬y.1.hides ∧ ¬(reached Turn.run State.initial before).input.touchBarred)
        (h ++ [(r₁, .frame c₁)]) →
      Opens r₂ c₂ (reached Turn.run State.initial (h ++ [(r₁, .frame c₁)])) →
      ¬c₁.touch.down := by
  intro hup
  refine hup touched clearView clearView leaving { leaving with held := [], before := [.circle] }
    ?_ ?_ (by decide)
  · decide +kernel
  · decide +kernel

end HandheldUI.Controller
