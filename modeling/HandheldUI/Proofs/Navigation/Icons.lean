import HandheldUI.Proofs.Navigation.Crossing
import HandheldUI.Proofs.Scalar.Squares

/-! What the shortcuts answer. A screen comes out of them by a finger on its icon or by Cross on the
icon that is highlighted; and no point is near two icons at once, whatever numbers its coordinates
are. -/

namespace HandheldUI

open HandheldUI.Action HandheldUI.Binary64

section Circles

/-- A point that is near a centre is about as high. -/
theorem Point.exists_valued_of_isNear {p q : Point Float} {c : Nat} (hq : q.y = Float.ofNat c)
    (hc : c < 2 ^ 53) (h : p.isNear q (Float.ofNat Sidebar.iconRadius)) :
    ∃ b, Valued (unpacked p.y) b ∧ |b - c| < 40 := by
  have hr : Float.ofNat Sidebar.iconRadius * Float.ofNat Sidebar.iconRadius = Float.ofNat 900 := by
    decide +kernel
  simp only [isNear, decide_eq_true_eq] at h
  rw [hr] at h
  obtain ⟨hs, hle⟩ := square_le_of_sum_le (unsigned_ofNat (by decide)) h
  have hcentre : Valued (unpacked q.y) c := hq ▸ valued_ofNat hc
  have h900 : Valued (unpacked (Float.ofNat 900)) (900 : Nat) := valued_ofNat (by decide)
  obtain ⟨b, hb⟩ := exists_valued_of_square_le hcentre h900 hs hle
  refine ⟨b, hb, ?_⟩
  by_contra hfar
  have hfar : ((39 : Nat) : Rat) < |b - c| := lt_of_lt_of_le (by norm_num) (not_lt.1 hfar)
  -- the square of 39 is far above that of 30, so rounding does not matter
  have hlarge : Float.ofNat 1500 ≤ (p.y - q.y) * (p.y - q.y) :=
    ofNat_le_square_sub hb hcentre hfar (by decide) (by decide) (by decide)
  have h1500 : Valued (unpacked (Float.ofNat 1500)) (1500 : Nat) := valued_ofNat (by decide)
  have hlt := (le_iff_of_valued h1500 h900).1
    ((unsigned_ofNat (by decide)).le_trans hs (unsigned_ofNat (by decide)) hlarge hle)
  norm_num at hlt

namespace Navigation

/-- The point is near the icon with this number, and near no other. -/
def OnlyNear {α : Type} [Scalar α] (icon : Nat) (p : Point α) : Prop :=
  ∀ j i, Sidebar.icons[j]? = some i →
    (p.isNear i.center (Scalar.ofNat Sidebar.iconRadius) ↔ j = icon)

/-- The circles around two icons do not meet. -/
theorem eq_of_isNear {p : Point Float} {i j : Nat} {a b : Sidebar.Icon Float}
    (ha : Sidebar.icons[i]? = some a) (hb : Sidebar.icons[j]? = some b)
    (hp : p.isNear a.center (Float.ofNat Sidebar.iconRadius))
    (hp' : p.isNear b.center (Float.ofNat Sidebar.iconRadius)) : i = j := by
  have icon {i : Nat} {a : Sidebar.Icon Float} (ha : Sidebar.icons[i]? = some a) :
      i < 4 ∧ a.center.y = Float.ofNat (152 + i * 80) := by
    rw [Sidebar.icons, List.getElem?_mapIdx, Option.map_eq_some_iff] at ha
    obtain ⟨screen, hs, rfl⟩ := ha
    exact ⟨(List.getElem?_eq_some_iff.1 hs).1, rfl⟩
  obtain ⟨hi, hyi⟩ := icon ha
  obtain ⟨hj, hyj⟩ := icon hb
  obtain ⟨c, hc, hnear⟩ := Point.exists_valued_of_isNear hyi (by omega) hp
  obtain ⟨d, hd, hnear'⟩ := Point.exists_valued_of_isNear hyj (by omega) hp'
  obtain rfl := hc.unique hd
  -- the centres are 80 apart, and the point is nearer than 40 to both
  rw [abs_lt] at hnear hnear'
  push_cast at hnear hnear'
  have hij : (i : Rat) < (j + 1 : Nat) := by push_cast; linarith
  have hji : (j : Rat) < (i + 1 : Nat) := by push_cast; linarith
  rw [Nat.cast_lt] at hij hji
  omega

theorem onlyNear_of_iconUnder? {p : Point Float} {icon : Nat} (h : iconUnder? p = some icon) :
    OnlyNear icon p := by
  obtain ⟨hlt, hp, -⟩ := List.findIdx?_eq_some_iff_getElem.1 h
  have ha := List.getElem?_eq_getElem hlt
  intro j i hi
  refine ⟨fun hp' => (eq_of_isNear ha hi hp hp').symm, ?_⟩
  rintro rfl
  obtain rfl := Option.some.inj (ha.symm.trans hi)
  exact hp

end Navigation

end Circles

namespace Navigation

section Answers

variable {α : Type} [Scalar α] {r : Env α} {s : State α} {screen shown : Screen}

/-- The state after Left or Right. -/
def State.turned (r : Env α) (screen : Screen) (s : State α) : State α :=
  if s.input.pressed r.muted .left then
    { s with focus := (Focus.toSidebar.quiet () s.focus).state }
  else if s.leaves r then s.entered r screen
  else s

/-- The state after Up or Down. -/
def State.stepped (r : Env α) (s : State α) : State α :=
  if s.input.pressed r.muted .up then { s with icon := (s.icon + iconCount - 1) % iconCount }
  else if s.input.pressed r.muted .down then { s with icon := (s.icon + 1) % iconCount }
  else s

omit [Scalar α] in
theorem state_quiet_toSidebar : ((onFocus Focus.toSidebar : Op α Unit).quiet r s).state =
    { s with focus := (Focus.toSidebar.quiet () s.focus).state } := by
  rw [onFocus, quiet_within]
  rfl

theorem value_quiet_dpad_of_isIn (hs : s.sidebar.isIn) :
    ((dpad screen).quiet r s).value = none := by
  unfold dpad
  cases hf : s.focus.inSidebar <;> cases hl : s.input.pressed r.muted .left <;>
    cases hc : s.input.pressed r.muted .cross <;> cases hr : s.input.pressed r.muted .right <;>
    simp [hs, hf, hl, hc, hr, quiet_pressed]

/-- Up, Down and Cross, which go by where the focus is then. -/
def choose : Op α (Option Screen) := do
  if (← get).focus.inSidebar then
    let icon := (← get).icon
    if ← pressed .up then highlight ((icon + iconCount - 1) % iconCount)
    else if ← pressed .down then highlight ((icon + 1) % iconCount)
    if ← pressed .cross then
      let icon := (← get).icon
      .say (.chose icon)
      return some (iconScreen icon)
  return none

theorem quiet_dpad_of_not_isIn (hs : ¬s.sidebar.isIn) (screen : Screen) :
    let x := (dpad screen).quiet r s
    let y := choose.quiet r (s.turned r screen)
    x.value = y.value ∧ x.state = y.state := by
  unfold dpad State.turned State.leaves
  cases hl : s.input.pressed r.muted .left <;> cases hr : s.input.pressed r.muted .right <;>
    cases hf : s.focus.inSidebar <;>
    simp [hs, hl, hr, hf, choose, quiet_pressed, state_quiet_toSidebar, state_quiet_enter]

omit [Scalar α] in
theorem quiet_choose (hs : s.focus.inSidebar) :
    let x := choose.quiet r s
    x.state = s.stepped r ∧ x.value =
      if s.input.pressed r.muted .cross then some (iconScreen (s.stepped r).icon) else none := by
  unfold choose State.stepped
  cases hu : s.input.pressed r.muted .up <;> cases hd : s.input.pressed r.muted .down <;>
    cases hc : s.input.pressed r.muted .cross <;>
    simp [hs, hu, hd, hc, quiet_pressed, highlight]

/-- The state in which the finger is looked at. -/
def State.readied (r : Env α) (s : State α) : State α :=
  { s with
    sidebar :=
      if s.input.pressed r.muted .triangle then
        (Sidebar.flip.quiet ⟨r.now, r.settings⟩ s.sidebar).state
      else s.sidebar
    input := s.input.freeTouch }

/-- What is left of the shortcuts after the finger. -/
def answerOr (screen : Screen) (free : Bool) : Option (Option Screen) → Op α (Option Screen)
  | some answer => pure answer
  | none => if free then dpad screen else pure none

theorem quiet_shortcuts (hc : ¬s.focus.isCovered)
    (hb : ¬(s.input.touchBarred = true ∧ s.input.touchDone = false)) (screen : Screen)
    (free : Bool) :
    let x := (touchSidebar s.input.touch).quiet r (s.readied r)
    let y := (answerOr screen free x.value).quiet r x.state
    let z := (shortcuts screen free).quiet r s
    z.value = y.value ∧ z.state = y.state := by
  unfold shortcuts
  cases hp : s.input.pressed r.muted .triangle <;>
    cases hv : ((touchSidebar s.input.touch).quiet r (s.readied r)).value <;>
    simp only [State.readied, hp, if_true, Bool.false_eq_true, if_false] at hv <;>
    simp [State.readied, answerOr, hc, hp, hb, hv, quiet_pressed, state_quiet_onSidebar, onInput]

theorem value_quiet_shortcuts_of_barred
    (hb : s.input.touchBarred = true ∧ s.input.touchDone = false) (free : Bool) :
    ((shortcuts screen free).quiet r s).value = none := by
  unfold shortcuts
  by_cases hc : s.focus.isCovered <;> cases hp : s.input.pressed r.muted .triangle <;>
    simp [hc, hp, hb, quiet_pressed, state_quiet_onSidebar]

/-- A screen was chosen with its icon: on a sidebar that is not in and has the input. -/
structure State.Chose (shown : Screen) (t : State α) : Prop where
  bare : t.focus.depth = 0
  focus : t.focus.inSidebar
  out : ¬t.sidebar.isIn
  screen : shown = iconScreen t.icon

omit [Scalar α] in
@[simp] theorem focus_stepped : (s.stepped r).focus = s.focus := by
  unfold State.stepped
  split_ifs <;> rfl

omit [Scalar α] in
@[simp] theorem sidebar_stepped : (s.stepped r).sidebar = s.sidebar := by
  unfold State.stepped
  split_ifs <;> rfl

@[simp] theorem input_turned : (s.turned r screen).input = s.input := by
  unfold State.turned
  split_ifs <;> rfl

theorem content_ne_sidebar (screen : Screen) : screen.content ≠ .sidebar := by
  cases screen <;> decide

/-- Left gives the input to the sidebar, and Right takes it away. -/
theorem turned_of_bare (hd : s.focus.depth = 0) (hf : (s.turned r screen).focus.inSidebar) :
    (s.turned r screen).focus.depth = 0 ∧ (s.turned r screen).sidebar = s.sidebar := by
  unfold State.turned at hf ⊢
  split_ifs at hf ⊢
  · exact ⟨(Focus.depth_quiet_give _ _).trans hd, rfl⟩
  · have hz : (s.entered r screen).focus.zone = screen.content := Focus.zone_quiet_give hd _
    rw [Focus.inSidebar, hz, decide_eq_true_iff] at hf
    exact absurd hf (content_ne_sidebar screen)
  · exact ⟨hd, rfl⟩

theorem chose_dpad (hd : s.focus.depth = 0) (h : ((dpad screen).quiet r s).value = some shown) :
    ((dpad screen).quiet r s).state.Chose shown ∧ s.input.pressed r.muted .cross := by
  have hs : ¬s.sidebar.isIn := by
    intro hs
    rw [value_quiet_dpad_of_isIn hs] at h
    cases h
  obtain ⟨hv, ht⟩ := quiet_dpad_of_not_isIn (r := r) hs screen
  rw [hv] at h
  by_cases hf : (s.turned r screen).focus.inSidebar
  · obtain ⟨hstate, hvalue⟩ := quiet_choose (r := r) hf
    rw [input_turned] at hvalue
    obtain ⟨hbare, hside⟩ := turned_of_bare hd hf
    rw [hvalue, Option.ite_none_right_eq_some, Option.some_inj] at h
    rw [ht, hstate]
    refine ⟨⟨?_, ?_, ?_, h.2.symm⟩, h.1⟩
    · rwa [focus_stepped]
    · rwa [focus_stepped]
    · rwa [sidebar_stepped, hside]
  · have hnone : (choose.quiet r (s.turned r screen)).value = none := by simp [choose, hf]
    rw [hnone] at h
    cases h

/-- A finger chooses the screen of the icon under it, which takes the input. -/
theorem chose_touchSidebar {t : Touch α} (hd : s.focus.depth = 0)
    (h : ((touchSidebar t).quiet r s).value = some (some shown)) :
    let u := ((touchSidebar t).quiet r s).state
    u.Chose shown ∧ u.input.touchBarred ∧ t.down ∧ iconUnder? t.point = some u.icon := by
  intro u
  have hu : u = ((touchSidebar t).quiet r s).state := rfl
  unfold touchSidebar at h hu
  by_cases ht : t.down
  · by_cases hp : onPill t.point s
    · simp [ht, hp, onInput] at h
    by_cases ho : s.sidebar.isOut
    · cases hi : iconUnder? t.point with
      | some icon =>
        obtain rfl : iconScreen icon = shown := by
          simpa [ht, hp, ho, hi, onInput, highlight] using h
        have hu : u = { s with
            focus := (Focus.toSidebar.quiet () s.focus).state
            input := s.input.barTouch
            icon } := by
          simp [hu, ht, hp, ho, hi, onInput, highlight, state_quiet_toSidebar]
        have hin : ¬s.sidebar.isIn := by
          rw [Sidebar.State.isOut, decide_eq_true_iff] at ho
          simp [Sidebar.State.isIn, ho]
        rw [hu]
        refine ⟨⟨(Focus.depth_quiet_give _ _).trans hd, ?_, hin, rfl⟩, rfl, ht, rfl⟩
        rw [Focus.inSidebar, Focus.toSidebar, Focus.zone_quiet_give hd, decide_eq_true_iff]
      | none =>
        by_cases hw : Scalar.ofNat Sidebar.fullWidth < t.point.x <;>
          simp [ht, hp, ho, hi, hw, onInput] at h
    · simp [ht, hp, ho] at h
  · simp [ht] at h

/-- A finger that chooses nothing leaves the focus and the buttons to the D-pad. -/
theorem quiet_touchSidebar_none {t : Touch α} (h : ((touchSidebar t).quiet r s).value = none) :
    let u := ((touchSidebar t).quiet r s).state
    u.focus = s.focus ∧ ∀ m b, u.input.pressed m b = s.input.pressed m b := by
  unfold touchSidebar at h ⊢
  by_cases ht : t.down
  · by_cases hp : onPill t.point s
    · simp [ht, hp, onInput] at h
    by_cases ho : s.sidebar.isOut
    · cases hi : iconUnder? t.point with
      | some icon => simp [ht, hp, ho, hi, onInput] at h
      | none =>
        by_cases hw : Scalar.ofNat Sidebar.fullWidth < t.point.x
        · simp [ht, hp, ho, hw, onInput, state_quiet_onSidebar, Input.pressed, Input.barTouch,
            Input.bars, Input.holds]
        · simp [ht, hp, hw]
    · simp [ht, hp, ho]
  · simp [ht]

/-- Where a screen comes from: Cross, or a finger that is barred from then on. -/
theorem chose_shortcuts {free : Bool} (hd : s.focus.depth = 0)
    (h : ((shortcuts screen free).quiet r s).value = some shown) :
    let t := ((shortcuts screen free).quiet r s).state
    t.Chose shown ∧ (free ∧ s.input.pressed r.muted .cross ∨
      t.input.touchBarred ∧ s.input.touch.down ∧ iconUnder? s.input.touch.point = some t.icon) := by
  have hc : ¬s.focus.isCovered := by simp [Focus.isCovered, hd]
  have hb : ¬(s.input.touchBarred = true ∧ s.input.touchDone = false) := by
    intro hb
    rw [value_quiet_shortcuts_of_barred hb] at h
    cases h
  obtain ⟨hv, ht⟩ := quiet_shortcuts (r := r) hc hb screen free
  intro t
  rw [hv] at h
  rw [show t = _ from ht]
  cases hx : ((touchSidebar s.input.touch).quiet r (s.readied r)).value with
  | some answer =>
    rw [hx] at h
    rw [answerOr, quiet_pure] at h ⊢
    have hchose := chose_touchSidebar (s := s.readied r) hd (hx.trans (congrArg some h))
    exact ⟨hchose.1, .inr hchose.2⟩
  | none =>
    rw [hx] at h
    cases free with
    | false => cases h
    | true =>
      obtain ⟨hf, hp⟩ := quiet_touchSidebar_none hx
      obtain ⟨hchose, hcross⟩ := chose_dpad ((congrArg Focus.depth hf).trans hd) h
      rw [hp] at hcross
      refine ⟨hchose, .inl ⟨rfl, ?_⟩⟩
      rwa [State.readied, Input.pressed_freeTouch] at hcross

end Answers

end Navigation

end HandheldUI
