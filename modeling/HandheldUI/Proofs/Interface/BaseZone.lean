import Mathlib.Data.List.Induction
import HandheldUI.Proofs.Action.History
import HandheldUI.Proofs.Interface.Confines

/-! The base owner and the screen on display. Calls that go by the screen take the base owner to the
sidebar or to the content of that screen only, whatever their listeners do, and a change of the
screen takes it along. Only where an overlay covers it is it left behind. -/

namespace HandheldUI.Interface

open HandheldUI.Action

variable {α : Type}

/-- The base owner is in the sidebar or in the content of `screen`. -/
def Follows (screen : Screen) (s : Interface α) : Prop :=
  s.focus.base.zone = .sidebar ∨ s.focus.base.zone = screen.content

theorem content_ne_overlay (screen : Screen) : screen.content ≠ .overlay := by
  cases screen <;> decide

theorem Follows.ne_overlay {screen : Screen} {s : Interface α} (h : Follows screen s) :
    s.focus.base.zone ≠ .overlay := by
  rcases h with hz | hz
  · rw [hz]
    decide
  · rw [hz]
    exact content_ne_overlay screen

theorem follows_congr {s t : Interface α} (h : s.focus.base.zone = t.focus.base.zone)
    (screen : Screen) : Follows screen s ↔ Follows screen t := by
  rw [Follows, Follows, h]

/-- The screen on display after a call. -/
def Call.shown (before : Screen) : Call α → Screen
  | switchTo screen => screen
  | _ => before

theorem Call.shown_of_ne {before : Screen} {c : Call α} (h : ∀ screen, c ≠ .switchTo screen) :
    c.shown before = before := by
  cases c with
  | switchTo screen => exact absurd rfl (h screen)
  | _ => rfl

/-- The call goes by the screen on display, or changes it. -/
def Call.isApt (screen : Screen) (c : Call α) : Prop :=
  c.keepsTo screen ∨ ∃ new, c = .switchTo new

/-- A call, and the interface as somebody finds it at one of its events or at its end. -/
structure Visit (α : Type) where
  call : Call α
  found : Interface α

/-- The screen that was switched to last. -/
def display (h : List (Visit α)) : Screen := h.foldl (fun screen y => y.call.shown screen) .main

@[simp] theorem display_concat (h : List (Visit α)) (y : Visit α) :
    display (h ++ [y]) = y.call.shown (display h) := by
  simp [display]

variable [Scalar α]

/-- The interface as it was found last. -/
def latest (h : List (Visit α)) : Interface α := (h.getLast?.map Visit.found).getD initial

@[simp] theorem latest_concat (h : List (Visit α)) (y : Visit α) : latest (h ++ [y]) = y.found := by
  simp [latest]

/-- An apt call, its listeners making any calls that go by the screen which it leaves on display. -/
def Happens (h : List (Visit α)) (y : Visit α) : Prop :=
  y.call.isApt (display h) ∧ ∃ r trace t a,
    Step.Ends (fun _ => True)
      (fun c : { c : Call α // c.keepsTo (y.call.shown (display h)) } => c.1.run)
      (y.call.run.run r (latest h)) trace t a ∧
    (y.found = t ∨ ∃ p ∈ trace, y.found = p.1)

/-- The screen changes under an overlay that covers the content of another screen, and the base
owner stays there. -/
def Misses (h : List (Visit α)) (y : Visit α) : Prop :=
  ∃ screen, y.call = .switchTo screen ∧ (latest h).focus.isCovered ∧ ¬Follows screen (latest h) ∧
    y.found.focus.base.zone = (latest h).focus.base.zone

/-- The screen and the zone of the base owner stay as they are. -/
def Stays (h : List (Visit α)) (y : Visit α) : Prop :=
  (∀ screen, y.call ≠ .switchTo screen) ∧
    y.found.focus.base.zone = (latest h).focus.base.zone

section Switch

variable {A : Zone → Prop} {screen : Screen} {s : Interface α}

theorem keeps_toContent (hs : s.focus.Sound) (hc : A screen.content)
    (hb : 0 < s.focus.depth → A s.focus.base.zone) (r : Env α) :
    ((onFocus (Focus.toContent screen)).run r s).Keeps (fun _ => True)
      fun u => u.focus.Based A := by
  have hn (n : Navigation.Env α) :
      ((Navigation.onFocus (Focus.toContent screen)).run n
        (⟨s.focus, s.input, s.sidebar, s.icon⟩ : Navigation.State α)).Keeps (fun _ => True)
        fun n => n.focus.Based A :=
    keeps_within (Focus.keeps_give hs hc hb) (fun _ => rfl) fun _ _ => rfl
  exact keeps_within (hn _) (fun _ => rfl) fun _ _ => rfl

/-- The writes that come before the focus is looked at leave it as it is. -/
theorem exists_run_switchTo (screen : Screen) (r : Env α) (s : Interface α) :
    ∃ t : Interface α, t.focus = s.focus ∧ (switchTo screen).run r s =
      ((if t.focus.inContent then onFocus (Focus.toContent screen) else pure ()) >>= fun _ =>
        if screen = .controller then onController (Controller.turnTo .summary)
        else pure () : Op α Unit).run r t := by
  have hf (n : Navigation.State α) : (Navigation.highlightScreen screen n).focus = n.focus := by
    unfold Navigation.highlightScreen
    split <;> rfl
  let n := Navigation.highlightScreen screen ⟨s.focus, s.input.barAll, s.sidebar, s.icon⟩
  let t := putNavigation n { s with input := s.input.barAll, contact := none }
  let rest : Op α Unit :=
    if screen = .controller then onController (Controller.turnTo .summary) else pure ()
  have he : (switchTo screen).run r s =
      (if t.focus.inContent then onFocus (Focus.toContent screen) >>= fun _ => rest
        else rest).run r t := rfl
  refine ⟨t, hf _, ?_⟩
  rw [he]
  split <;> rfl

/-- A content that is not covered gives the base owner away. -/
theorem keeps_switchTo (hs : s.focus.Sound) (hc : A screen.content)
    (h : s.focus.inContent ∨ A s.focus.base.zone) (r : Env α) :
    ((switchTo screen).run r s).Keeps (fun _ => True) fun u => u.focus.Based A := by
  obtain ⟨t, ht, he⟩ := exists_run_switchTo screen r s
  rw [← ht] at hs h
  rw [he]
  have rest : Confines A focus
      (if screen = .controller then onController (Controller.turnTo .summary)
        else pure () : Op α Unit) := .ite (confines_onController _) (.pure _)
  refine Step.Keeps.bind ?_ trivial fun _ r u _ hu => rest r u trivial hu
  by_cases hi : t.focus.inContent
  · rw [if_pos hi]
    refine keeps_toContent hs hc ?_ r
    intro hd
    have hz := hs.zone_of_pos hd
    simp [Focus.inContent, hz] at hi
  · rw [if_neg hi]
    exact ⟨hs, h.resolve_left hi⟩

end Switch

section Steps

variable {h : List (Visit α)} {y : Visit α}

theorem Happens.based {A : Zone → Prop} (run : Happens h y) (hs : (latest h).focus.Sound)
    (hb : A .sidebar) (hc : A (y.call.shown (display h)).content)
    (ha : A (latest h).focus.base.zone ∨
      (∃ screen, y.call = .switchTo screen) ∧ (latest h).focus.inContent) :
    y.found.focus.Based A := by
  obtain ⟨apt, r, trace, t, a, ends, found⟩ := run
  -- the call itself may start outside of `A`; its listeners find the focus in `A`
  have hx : (y.call.run.run r (latest h)).Keeps (fun _ => True) fun u => u.focus.Based A := by
    rcases apt with hk | ⟨screen, he⟩
    · have hn : ∀ screen, y.call ≠ .switchTo screen := by
        intro screen he
        rw [he] at hk
        exact hk
      rw [Call.shown_of_ne hn] at hc
      have hz : A (latest h).focus.base.zone := ha.resolve_right fun ⟨⟨new, he⟩, _⟩ => hn new he
      exact confines_run hb hc hk r _ trivial ⟨hs, hz⟩
    · rw [he] at hc ⊢
      have hw := keeps_switchTo hs hc (ha.symm.imp_left And.right) r
      exact hw.bind trivial fun _ _ _ _ hu => hu
  have ⟨ht, hp⟩ := ends.keeps (fun c => confines_run hb hc c.2) hx
  rcases found with he | ⟨p, hmem, he⟩
  · rwa [he]
  · rw [he]
    exact hp p hmem

/-- The base owner goes where the screen is, or stays where it was. A change of the screen leaves
it there only under a cover. -/
theorem Happens.follows (run : Happens h y) (hs : (latest h).focus.Sound)
    (hz : (latest h).focus.base.zone ≠ .overlay) :
    y.found.focus.Sound ∧ (Follows (y.call.shown (display h)) y.found ∨
      y.found.focus.base.zone = (latest h).focus.base.zone ∧
        ∀ screen, y.call = .switchTo screen → (latest h).focus.isCovered) := by
  -- only an uncovered content is sure to be left; from anywhere else the old zone is allowed too
  by_cases hw : (∃ screen, y.call = .switchTo screen) ∧ (latest h).focus.inContent
  · have hf := run.based hs (.inl rfl) (.inr rfl) (A := fun z => z = .sidebar ∨ z = _) (.inr hw)
    exact ⟨hf.sound, .inl hf.base⟩
  · have hf := run.based hs (.inl rfl) (.inr (.inl rfl))
      (A := fun z => z = .sidebar ∨ z = _ ∨ z = (latest h).focus.base.zone) (.inl (.inr (.inr rfl)))
    refine ⟨hf.sound, ?_⟩
    rcases hf.base with hb | hb | hb
    · exact .inl (.inl hb)
    · exact .inl (.inr hb)
    · by_cases hl : (latest h).focus.base.zone = .sidebar
      · exact .inl (.inl (hb.trans hl))
      · refine .inr ⟨hb, ?_⟩
        intro screen he
        by_contra hn
        exact hw ⟨⟨screen, he⟩, hs.inContent_of_bare hn hl hz⟩

theorem sound_latest (run : History.Always Happens h) :
    (latest h).focus.Sound ∧ (latest h).focus.base.zone ≠ .overlay := by
  induction h using List.reverseRecOn with
  | nil =>
    have hz : (initial : Interface α).focus.base.zone = .main := rfl
    refine ⟨Focus.sound_initial, ?_⟩
    rw [latest, List.getLast?_nil, Option.map_none, Option.getD_none, hz]
    decide
  | append_singleton h y ih =>
    obtain ⟨run, hy⟩ := History.always_concat.1 run
    obtain ⟨hs, hz⟩ := ih run
    rw [latest_concat]
    obtain ⟨hs', hf | ⟨he, -⟩⟩ := hy.follows hs hz
    · exact ⟨hs', hf.ne_overlay⟩
    · exact ⟨hs', he ▸ hz⟩

/-- A change of the screen that does not take the base owner along has missed it. -/
theorem Happens.misses_iff {screen : Screen} (run : Happens h y) (hs : (latest h).focus.Sound)
    (hz : (latest h).focus.base.zone ≠ .overlay) (hw : y.call = .switchTo screen) :
    Misses h y ↔ ¬Follows screen y.found := by
  constructor
  · rintro ⟨new, he, -, hf, hb⟩
    obtain rfl : screen = new := Call.switchTo.inj (hw.symm.trans he)
    rwa [follows_congr hb]
  · intro hf
    have ⟨_, step⟩ := run.follows hs hz
    rw [hw] at step
    obtain ⟨hb, hc⟩ := step.resolve_left hf
    exact ⟨screen, hw, hc screen rfl, by rwa [← follows_congr hb], hb⟩

end Steps

/-- The base owner follows the screen except from where a change of the screen under an overlay
misses it, until it next moves or the screen next changes. -/
theorem follows_iff {h : List (Visit α)} (run : History.Always Happens h) :
    Follows (display h) (latest h) ↔ ¬History.Since Misses Stays h := by
  induction h using List.reverseRecOn with
  | nil => exact iff_of_true (.inr rfl) History.not_since_nil
  | append_singleton h y ih =>
    obtain ⟨run, hy⟩ := History.always_concat.1 run
    obtain ⟨hs, hz⟩ := sound_latest run
    rw [latest_concat, display_concat, History.since_concat]
    by_cases hw : ∃ screen, y.call = .switchTo screen
    -- what has been missed before does not matter any more
    · obtain ⟨screen, hw⟩ := hw
      have hm := hy.misses_iff hs hz hw
      have hq : ¬Stays h y := fun hq => hq.1 screen hw
      have hd : y.call.shown (display h) = screen := by rw [hw, Call.shown]
      rw [hd, hm]
      simp [hq]
    · have hn : ∀ screen, y.call ≠ .switchTo screen := fun screen he => hw ⟨screen, he⟩
      have hm : ¬Misses h y := fun ⟨screen, he, _⟩ => hn screen he
      have ⟨_, step⟩ := hy.follows hs hz
      rw [Call.shown_of_ne hn] at step ⊢
      by_cases hb : y.found.focus.base.zone = (latest h).focus.base.zone
      · have hq : Stays h y := ⟨hn, hb⟩
        rw [follows_congr hb, ih run]
        simp [hm, hq]
      -- a base owner that moves goes where the screen is
      · have hq : ¬Stays h y := fun hq => hb hq.2
        have hf := step.resolve_right fun he => hb he.1
        simp [hf, hm, hq]

/-- One call more, in these surroundings and with listeners that do nothing. -/
def visit (r : Env α) (h : List (Visit α)) (c : Call α) : List (Visit α) :=
  h ++ [⟨c, (c.run.quiet r (latest h)).state⟩]

theorem always_visit {h : List (Visit α)} {c : Call α} (run : History.Always Happens h)
    (hc : c.isApt (display h)) (r : Env α) : History.Always Happens (visit r h c) := by
  have ⟨trace, ends⟩ : ∃ trace, Step.Ends (fun _ => True)
      (fun d : { d : Call α // d.keepsTo (c.shown (display h)) } => d.1.run)
      (c.run.run r (latest h)) trace (c.run.quiet r (latest h)).state
      (c.run.quiet r (latest h)).value := Step.ends_quiet _ (r := r) trivial _
  exact History.always_concat.2 ⟨run, hc, r, trace, _, _, ends, .inl rfl⟩

/-- Time and settings stand, and no popup is shown. -/
def standing : Env Rat := { now := 0, settings := .standard }

/-- The settings are shown while the connection's overlay is, and it goes away. -/
def behind : List (Visit Rat) :=
  [.overlay .connection .raise, .switchTo .settings, .overlay .connection .lower].foldl
    (visit standing) []

theorem always_behind : History.Always Happens behind := by
  have raised := always_visit (c := .overlay .connection .raise) History.always_nil
    (.inl trivial) standing
  have switched := always_visit (c := .switchTo .settings) raised (.inr ⟨_, rfl⟩) standing
  exact always_visit (c := .overlay .connection .lower) switched (.inl trivial) standing

theorem follows_iff_behind : History.Always Happens behind ∧ History.Since Misses Stays behind := by
  refine ⟨always_behind, ?_⟩
  by_contra hn
  have hf := (follows_iff always_behind).2 hn
  have hz : (latest behind).focus.base.zone = .main := by decide +kernel
  have hd : display behind = .settings := by decide +kernel
  simp [Follows, hz, hd, Screen.content] at hf

/-- The settings have the screen, and the focus is still in the content of the main screen. -/
theorem behind_zone_eq_main : History.Always Happens behind ∧ display behind = .settings ∧
    (latest behind).focus.zone = .main ∧ ¬Follows (display behind) (latest behind) := by
  have hz : (latest behind).focus.base.zone = .main := by decide +kernel
  have hd : display behind = .settings := by decide +kernel
  refine ⟨always_behind, hd, by decide +kernel, ?_⟩
  simp [Follows, hz, hd, Screen.content]

end HandheldUI.Interface
