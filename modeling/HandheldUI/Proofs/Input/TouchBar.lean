import HandheldUI.Interface
import HandheldUI.Proofs.Action.Relates

/-! The bar on the touch, in the parts that look at the touch. While the finger is down no part
takes the bar away; once it is up a part can only take it away, and never puts it on. -/

namespace HandheldUI

open HandheldUI.Action

namespace Input

variable {α : Type}

@[simp] theorem touch_freeTouch (i : Input α) : i.freeTouch.touch = i.touch := by
  unfold freeTouch
  split <;> rfl

@[simp] theorem touchBarred_freeTouch (i : Input α) :
    i.freeTouch.touchBarred = (i.touchBarred && i.touch.down) := by
  unfold freeTouch touchDone
  cases hb : i.touchBarred <;> cases hd : i.touch.down <;> simp [hb]

@[simp] theorem freeTouch_freeTouch (i : Input α) : i.freeTouch.freeTouch = i.freeTouch := by
  rw [freeTouch, touchDone, touchBarred_freeTouch, touch_freeTouch]
  cases i.touch.down <;> simp

/-- The input is as it was, but for a bar on a touch that is over. -/
def Freed (i j : Input α) : Prop := j = i ∨ j = i.freeTouch

instance : IsPreorder (Input α) Freed where
  refl _ := .inl rfl
  trans := by
    rintro i _ _ (rfl | rfl) (rfl | rfl) <;> simp [Freed]

/-- The touch is as it was, and a bar on a finger that is down is still there. -/
def KeepsBar (i j : Input α) : Prop :=
  j.touch = i.touch ∧ (i.touch.down → i.touchBarred → j.touchBarred)

instance : IsPreorder (Input α) KeepsBar where
  refl _ := ⟨rfl, fun _ h => h⟩
  trans := by
    rintro i j k ⟨hj, hij⟩ ⟨hk, hjk⟩
    refine ⟨hk.trans hj, fun hd hb => hjk ?_ (hij hd hb)⟩
    rw [hj]
    exact hd

theorem Freed.keepsBar {i j : Input α} (h : Freed i j) : KeepsBar i j := by
  rcases h with rfl | rfl
  · exact refl _
  · refine ⟨touch_freeTouch i, fun hd hb => ?_⟩
    rw [touchBarred_freeTouch, hd, hb]
    rfl

/-- The touch is as it was. While the finger is down a bar is kept; once it is up, none is new. -/
def Settles (i j : Input α) : Prop :=
  j.touch = i.touch ∧ (i.touch.down → i.touchBarred → j.touchBarred) ∧ (¬i.touch.down → Freed i j)

instance : IsPreorder (Input α) Settles where
  refl _ := ⟨rfl, fun _ h => h, fun _ => refl _⟩
  trans := by
    rintro i j k ⟨hj, hij, huj⟩ ⟨hk, hjk, huk⟩
    rw [hj] at hk hjk huk
    exact ⟨hk, fun hd hb => hjk hd (hij hd hb), fun hu => IsTrans.trans _ _ _ (huj hu) (huk hu)⟩

theorem Settles.touchBarred_of_up {i j : Input α} (h : Settles i j) (hu : ¬i.touch.down)
    (hj : j.touchBarred) : i.touchBarred := by
  rcases h.2.2 hu with rfl | rfl
  · exact hj
  · rw [touchBarred_freeTouch, Bool.and_eq_true] at hj
    exact hj.1

theorem Freed.settles {i j : Input α} (h : Freed i j) : Settles i j :=
  ⟨h.keepsBar.1, h.keepsBar.2, fun _ => h⟩

theorem KeepsBar.settles {i j : Input α} (hd : i.touch.down) (h : KeepsBar i j) : Settles i j :=
  ⟨h.1, h.2, fun hu => absurd hd hu⟩

end Input

namespace Navigation

section

variable {α β : Type}

theorem leaves_pressed (b : Button) : Leaves State.input (pressed b : Op α Bool) :=
  .bind .get fun _ => .bind .read fun _ => .pure _

theorem leaves_onFocus (x : Focus.Op β) : Leaves State.input (onFocus x : Op α β) :=
  .within fun _ _ => rfl

theorem leaves_onSidebar (x : Sidebar.Op α β) : Leaves State.input (onSidebar x) :=
  .within fun _ _ => rfl

theorem leaves_highlight (icon : Nat) : Leaves State.input (highlight icon : Op α Unit) :=
  .modify fun _ => rfl

abbrev KeepsBar (x : Op α β) : Prop := Relates (InvImage Input.KeepsBar State.input) x

abbrev Frees (x : Op α β) : Prop := Relates (InvImage Input.Freed State.input) x

abbrev Settles (x : Op α β) : Prop := Relates (InvImage Input.Settles State.input) x

theorem keepsBar_barTouch : KeepsBar (onInput Input.barTouch : Op α Unit) :=
  .modify fun _ => ⟨rfl, fun _ _ => rfl⟩

theorem frees_freeTouch : Frees (onInput Input.freeTouch : Op α Unit) := .modify fun _ => .inr rfl

end

variable {α : Type} [Scalar α]

theorem leaves_cross (screen : Screen) : Leaves State.input (cross screen : Op α Bool) := by
  unfold cross
  have hp := leaves_pressed (α := α)
  have hf := leaves_onFocus (α := α) (β := Unit)
  have hs := leaves_onSidebar (α := α) (β := Unit)
  with_reducible repeat' first
    | apply Relates.ite | apply hp | apply hf | apply hs
    | apply Relates.get | apply Relates.say | apply Relates.pure | apply Relates.bind | intro _

theorem leaves_dpad (screen : Screen) :
    Leaves State.input (dpad screen : Op α (Option Screen)) := by
  unfold dpad
  have hp := leaves_pressed (α := α)
  have hf := leaves_onFocus (α := α) (β := Unit)
  have hs := leaves_onSidebar (α := α) (β := Unit)
  have hh := leaves_highlight (α := α)
  with_reducible repeat' first
    | apply Relates.ite | apply hp | apply hf | apply hs | apply hh
    | apply Relates.get | apply Relates.say | apply Relates.pure | apply Relates.bind | intro _

theorem keepsBar_touchSidebar (t : Touch α) : KeepsBar (touchSidebar t) := by
  have hf := (leaves_onFocus (α := α) Focus.toSidebar).relates (R := Input.KeepsBar)
  have hs (x : Sidebar.Op α Unit) := (leaves_onSidebar x).relates (R := Input.KeepsBar)
  have hh (n : Nat) := (leaves_highlight (α := α) n).relates (R := Input.KeepsBar)
  have hb := keepsBar_barTouch (α := α)
  unfold touchSidebar
  with_reducible repeat' first
    | apply Relates.ite | apply hf | apply hs | apply hh | apply hb
    | apply Relates.get | apply Relates.pure | apply Relates.bind | intro _ | split

theorem touchSidebar_up {t : Touch α} (h : ¬t.down) : touchSidebar t = pure none := by
  simp [touchSidebar, h]

theorem settles_shortcuts (screen : Screen) (dpadFree : Bool) :
    Settles (shortcuts screen dpadFree : Op α (Option Screen)) := by
  have hs {R : Input α → Input α → Prop} [IsPreorder _ R] (x : Sidebar.Op α Unit) :=
    (leaves_onSidebar x).relates (R := R)
  have hp {R : Input α → Input α → Prop} [IsPreorder _ R] (b : Button) :=
    (leaves_pressed (α := α) b).relates (R := R)
  have hd {R : Input α → Input α → Prop} [IsPreorder _ R] :=
    (leaves_dpad (α := α) screen).relates (R := R)
  have hf := frees_freeTouch (α := α)
  have hk : KeepsBar (onInput Input.freeTouch : Op α Unit) :=
    hf.mono fun _ _ => Input.Freed.keepsBar
  have ht := keepsBar_touchSidebar (α := α)
  unfold shortcuts
  refine .bind .get fun s => .ite (.pure _) (.bind (hp _) fun b => ?_)
  extract_lets go
  have hgo : Relates (InvImage Input.Settles State.input) (go ()) := by
    refine .get_bind fun r s => ?_
    dsimp only
    -- each half is a relation of its own, and from here on one of them is void
    by_cases hdown : s.input.touch.down
    · apply Input.KeepsBar.settles hdown
      refine (?_ : KeepsBar _) r s
      with_reducible repeat' first
        | apply Relates.ite | apply hd | apply hk | apply ht
        | apply Relates.pure | apply Relates.bind | intro _ | split
    · apply Input.Freed.settles
      rw [touchSidebar_up hdown]
      refine (?_ : Frees _) r s
      with_reducible repeat' first
        | apply Relates.ite | apply hd | apply hf
        | apply Relates.pure | apply Relates.bind | intro _ | split
  exact .ite (.bind (hs _) fun _ => hgo) hgo

end Navigation

namespace Controller

section

variable {α β : Type}

abbrev KeepsBar (x : Op α β) : Prop := Relates (InvImage Input.KeepsBar State.input) x

abbrev Frees (x : Op α β) : Prop := Relates (InvImage Input.Freed State.input) x

abbrev Settles (x : Op α β) : Prop := Relates (InvImage Input.Settles State.input) x

theorem leaves_pressed (b : Button) : Leaves State.input (pressed b : Op α Bool) :=
  .bind .get fun _ => .bind .read fun _ => .pure _

theorem leaves_released (b : Button) : Leaves State.input (released b : Op α Bool) :=
  .bind .get fun _ => .bind .read fun _ => .pure _

theorem leaves_drag (p : Panel) : Leaves State.input (drag p : Op α (Drag α)) :=
  .bind .get fun _ => .pure _

theorem leaves_onPages (f : Pages α → Pages α) : Leaves State.input (onPages f) :=
  .modify fun _ => rfl

theorem leaves_onDrag (p : Panel) (f : Drag α → Drag α) : Leaves State.input (onDrag p f) :=
  leaves_onPages _

theorem leaves_clear (p : Panel) : Leaves State.input (clear p : Op α Unit) := .modify fun _ => rfl

theorem leaves_onSelection (p : Panel) (x : Selection.Op α β) :
    Leaves State.input (onSelection p x) :=
  .within fun _ _ => rfl

theorem leaves_startAfresh : Leaves State.input (startAfresh : Op α Unit) :=
  .bind (leaves_clear _) fun _ => .bind (leaves_clear _) fun _ => .bind (leaves_onDrag _ _) fun _ =>
    .bind (leaves_onDrag _ _) fun _ => leaves_onPages _

theorem leaves_handOver (p : Panel) : Leaves State.input (handOver p : Op α Unit) :=
  .bind .get fun _ => .bind (leaves_clear _) fun _ =>
    .ite (.bind (.say _) fun _ => .announce _) (.pure _)

end

variable {α : Type} [Scalar α]

theorem leaves_turnTo (new : Page) : Leaves State.input (turnTo new : Op α Unit) := by
  have hs := leaves_startAfresh (α := α)
  have hp := leaves_onPages (α := α)
  have hd := leaves_onDrag (α := α)
  unfold turnTo
  with_reducible repeat' first
    | apply Relates.ite | apply hs | apply hp | apply hd
    | apply Relates.get | apply Relates.say | apply Relates.announce | apply Relates.pure
    | apply Relates.bind | intro _ | split

theorem leaves_dpad (p : Panel) : Leaves State.input (dpad p : Op α Unit) := by
  have hp := leaves_pressed (α := α)
  have hd (rows cols : α) : Leaves State.input (step p rows cols) := leaves_onDrag _ _
  unfold dpad
  with_reducible repeat' first
    | apply Relates.ite | apply hp | apply hd | apply Relates.pure | apply Relates.bind | intro _

theorem leaves_holdCross (p : Panel) : Leaves State.input (holdCross p : Op α Unit) := by
  have hp := leaves_pressed (α := α)
  have hr := leaves_released (α := α)
  have hd := leaves_onDrag (α := α)
  have hc := leaves_clear (α := α)
  have hs := leaves_onSelection (α := α) (β := Unit)
  have hg := leaves_drag (α := α)
  have hh := leaves_handOver (α := α)
  unfold holdCross
  with_reducible repeat' first
    | apply Relates.ite | apply hp | apply hr | apply hd | apply hc | apply hs | apply hg | apply hh
    | apply Relates.pure | apply Relates.bind | intro _

theorem frees_dragTouch (p : Panel) (d : Rect α) : Frees (dragTouch p d) := by
  have hd (f : Drag α → Drag α) := (leaves_onDrag p f).relates (R := Input.Freed)
  have hc := (leaves_clear (α := α) p).relates (R := Input.Freed)
  have hs (x : Selection.Op α Unit) := (leaves_onSelection p x).relates (R := Input.Freed)
  have hg := (leaves_drag (α := α) p).relates (R := Input.Freed)
  have hh := (leaves_handOver (α := α) p).relates (R := Input.Freed)
  have hf : Frees (onInput Input.freeTouch : Op α Unit) := .modify fun _ => .inr rfl
  unfold dragTouch
  with_reducible repeat' first
    | apply Relates.ite | apply hd | apply hc | apply hs | apply hg | apply hh | apply hf
    | apply Relates.get | apply Relates.pure | apply Relates.bind | intro _ | split

theorem frees_gridInput (p : Panel) (d : Rect α) : Frees (gridInput p d) := by
  have ht := frees_dragTouch (α := α)
  have hd := (leaves_dpad (α := α) p).relates (R := Input.Freed)
  have hs (x : Selection.Op α Unit) := (leaves_onSelection p x).relates (R := Input.Freed)
  have hg := (leaves_drag (α := α) p).relates (R := Input.Freed)
  have hp (b : Button) := (leaves_pressed (α := α) b).relates (R := Input.Freed)
  have hh := (leaves_holdCross (α := α) p).relates (R := Input.Freed)
  unfold gridInput
  with_reducible repeat' first
    | apply Relates.ite | apply ht | apply hd | apply hs | apply hg | apply hp | apply hh
    | apply Relates.get | apply Relates.announce | apply Relates.pure | apply Relates.bind | intro _

theorem settles_summaryTouch (d : Rect α) : Settles (summaryTouch d) := by
  have hp {R : Input α → Input α → Prop} [IsPreorder _ R] (f : Pages α → Pages α) :=
    (leaves_onPages f).relates (R := R)
  have ht := fun p => (leaves_turnTo (α := α) p).relates (R := Input.KeepsBar)
  have hb : KeepsBar (onInput Input.barTouch : Op α Unit) := .modify fun _ => ⟨rfl, fun _ _ => rfl⟩
  have hf : Frees (onInput Input.freeTouch : Op α Unit) := .modify fun _ => .inr rfl
  have hk : KeepsBar (onInput Input.freeTouch : Op α Unit) :=
    hf.mono fun _ _ => Input.Freed.keepsBar
  unfold summaryTouch
  refine .get_bind fun r s => ?_
  dsimp only
  -- only a finger that is down can bar itself, on the diagram
  by_cases hdown : s.input.touch.down
  · apply Input.KeepsBar.settles hdown
    refine (?_ : KeepsBar _) r s
    with_reducible repeat' first
      | apply Relates.ite | apply hp | apply ht | apply hb | apply hk
      | apply Relates.get | apply Relates.pure | apply Relates.bind | intro _
  · apply Input.Freed.settles
    rw [Bool.not_eq_true] at hdown
    simp only [hdown, Bool.not_false, if_true]
    refine (?_ : Frees _) r s
    with_reducible repeat' first
      | apply Relates.ite | apply hp | apply hf | apply Relates.pure | apply Relates.bind | intro _

theorem settles_respond : Settles (respond : Op α Unit) := by
  have hf {x : Op α Unit} (h : Frees x) : Settles x := h.mono fun _ _ => Input.Freed.settles
  have hp := (leaves_pressed (α := α) .circle).relates (R := Input.Settles)
  have ht := (leaves_turnTo (α := α) .summary).relates (R := Input.Settles)
  unfold respond
  refine .bind .read fun env => .ite (.pure _) (.bind .get fun s => ?_)
  split
  · exact settles_summaryTouch _
  · exact .bind hp fun _ => .ite ht (hf (frees_gridInput _ _))

end Controller

end HandheldUI
