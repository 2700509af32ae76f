import Mathlib.Data.List.Induction
import HandheldUI.Proofs.Action.History
import HandheldUI.Proofs.Input.TouchBar

/-! What the calls so far have left barred. A bar on a button goes by itself, in the first frame
without the button. The bar on the touch only goes when somebody asks for it in a frame without a
finger; until then it bars whatever finger comes next. -/

namespace HandheldUI.Input

variable {α : Type} [Scalar α]

section Histories

/-- The controls that the call takes in. -/
def Call.controls? : Call α → Option (Controls α)
  | take c => some c
  | _ => none

/-- The input after these calls. -/
def after (h : List (Call α)) : Input α := h.foldl (fun i c => c.run i) initial

/-- The controls that these calls have taken in last. -/
def current (h : List (Call α)) : Controls α := (h.reverse.findSome? Call.controls?).getD .idle

variable (h : List (Call α)) (c : Call α)

@[simp] theorem after_concat : after (h ++ [c]) = c.run (after h) := by simp [after]

@[simp] theorem current_concat : current (h ++ [c]) = c.controls?.getD (current h) := by
  cases hc : c.controls? <;> simp [current, hc]

theorem now_after : (after h).now = current h := by
  induction h using List.reverseRecOn with
  | nil => rfl
  | append_singleton h c ih =>
    rw [after_concat, current_concat, ← ih]
    cases c with
    | freeTouch =>
      change (after h).freeTouch.now = (after h).now
      unfold freeTouch
      split <;> rfl
    | _ => rfl

end Histories

section Buttons

variable (b : Button)

/-- The call bars the button, which is held. -/
def BarsHeld (before : List (Call α)) : Call α → Prop
  | .barAll => b ∈ (current before).held
  | _ => False

/-- A frame that begins with the call holds the button. -/
def Holds : Call α → Prop
  | .take c => b ∈ c.held
  | _ => True

/-- The button was barred while it was held, and every frame since has held it. -/
def HeldSinceBarred (h : List (Call α)) : Prop :=
  History.Since (BarsHeld b) (fun _ => Holds b) h

variable {b} {h : List (Call α)}

theorem heldSinceBarred_concat {c : Call α} : HeldSinceBarred b (h ++ [c]) ↔
    BarsHeld b h c ∨ HeldSinceBarred b h ∧ Holds b c :=
  History.since_concat

theorem HeldSinceBarred.mem_held (hb : HeldSinceBarred b h) : b ∈ (current h).held := by
  induction h using List.reverseRecOn with
  | nil => exact absurd hb History.not_since_nil
  | append_singleton h c ih =>
    rw [current_concat]
    cases c with
    | take k => exact (heldSinceBarred_concat.1 hb).elim False.elim And.right
    | barAll => exact (heldSinceBarred_concat.1 hb).elim id fun hb => ih hb.1
    | barTouch | freeTouch | freeButtons =>
      exact ih ((heldSinceBarred_concat.1 hb).elim False.elim And.left)

section

omit [Scalar α]

theorem bars_freeButtons {i : Input α} : i.freeButtons.bars b ↔ i.bars b ∧ b ∈ i.now.held := by
  simp [bars, freeButtons]

theorem bars_barAll {i : Input α} : i.barAll.bars b ↔ i.bars b ∨ b ∈ i.now.held := by
  by_cases hb : b ∈ i.barred <;> simp [bars, barAll, hb]

theorem bars_freeTouch {i : Input α} : i.freeTouch.bars b = i.bars b := by
  unfold freeTouch
  split <;> rfl

theorem pressed_iff {muted : Bool} {i : Input α} : i.pressed muted b ↔
    muted = false ∧ ¬i.bars b ∧ b ∈ i.now.held ∧ b ∉ i.now.before := by
  cases muted <;> simp [pressed, holds, and_assoc]

end

theorem bars_after : (after h).bars b ↔ HeldSinceBarred b h := by
  induction h using List.reverseRecOn with
  | nil => exact iff_of_false (by simp [after, initial, bars]) History.not_since_nil
  | append_singleton h c ih =>
    rw [after_concat, heldSinceBarred_concat, ← ih]
    cases c with
    | take k => exact bars_freeButtons.trans (by simp [BarsHeld, Holds, bars])
    | barAll => exact bars_barAll.trans (by simp [now_after, BarsHeld, Holds, or_comm])
    | freeButtons =>
      -- a button that is barred is held, so that there is nothing to free
      have hheld : (after h).bars b → b ∈ (current h).held := fun hb => (ih.1 hb).mem_held
      exact bars_freeButtons.trans (by simpa [now_after, BarsHeld, Holds] using hheld)
    | barTouch =>
      change (after h).bars b ↔ _
      simp [BarsHeld, Holds]
    | freeTouch =>
      change (after h).freeTouch.bars b ↔ _
      simp [BarsHeld, Holds, bars_freeTouch]

/-- A frame without the button ends its bar, until it is barred anew. -/
theorem not_heldSinceBarred {before rest : List (Call α)} {c : Controls α} (hc : b ∉ c.held)
    (hnew : History.Always (fun mid d => ¬BarsHeld b (before ++ .take c :: mid) d) rest) :
    ¬HeldSinceBarred b (before ++ .take c :: rest) := by
  induction rest using List.reverseRecOn with
  | nil =>
    intro hb
    exact (heldSinceBarred_concat.1 hb).elim id fun hb => hc hb.2
  | append_singleton rest d ih =>
    obtain ⟨hold, hd⟩ := History.always_concat.1 hnew
    rw [← List.cons_append, ← List.append_assoc]
    intro hb
    exact (heldSinceBarred_concat.1 hb).elim hd fun hb => ih hold hb.1

/-- After any calls a button is barred just if it was barred while it was held and every frame since
has held it. It is not pressed then, whatever the frame says of the one before. After a frame
without it, until it is barred anew, it is pressed where it is held and was not held before. -/
theorem bars_after_iff (h : List (Call α)) (b : Button) :
    ((after h).bars b ↔ HeldSinceBarred b h) ∧
    (HeldSinceBarred b h → ∀ muted, ¬(after h).pressed muted b) ∧
    ∀ before c rest, h = before ++ .take c :: rest → b ∉ c.held →
      History.Always (fun mid d => ¬BarsHeld b (before ++ .take c :: mid) d) rest →
      b ∈ (current h).held → b ∉ (current h).before → (after h).pressed false b := by
  refine ⟨bars_after, ?_, ?_⟩
  · intro hb muted hp
    exact (pressed_iff.1 hp).2.1 (bars_after.2 hb)
  · rintro before c rest rfl hc hnew hheld hbefore
    have hfree := mt bars_after.1 (not_heldSinceBarred hc hnew)
    rw [← now_after] at hheld hbefore
    exact pressed_iff.2 ⟨rfl, hfree, hheld, hbefore⟩

/-- Cross is barred while it is held, and held again without a frame before in which it was; then it
is let go and goes down. -/
def recrossed : List (Call Rat) :=
  [.take ⟨[.cross], [], .none⟩, .barAll, .take ⟨[.cross], [], .none⟩, .take ⟨[], [.cross], .none⟩,
    .take ⟨[.cross], [], .none⟩]

theorem bars_after_iff_recrossed :
    HeldSinceBarred .cross (recrossed.take 3) ∧ ¬(after (recrossed.take 3)).pressed false .cross ∧
    (after recrossed).pressed false .cross := by
  obtain ⟨hiff, hsilent, -⟩ := bars_after_iff (recrossed.take 3) .cross
  have hb : HeldSinceBarred .cross (recrossed.take 3) := hiff.1 (by decide)
  obtain ⟨-, -, hagain⟩ := bars_after_iff recrossed .cross
  refine ⟨hb, hsilent hb false, ?_⟩
  refine hagain (recrossed.take 3) ⟨[], [.cross], .none⟩ [.take ⟨[.cross], [], .none⟩] rfl
    (by decide) ?_ (by decide) (by decide)
  exact History.always_cons.2 ⟨id, History.always_nil⟩

end Buttons

section Touch

/-- The call bars the touch. -/
def BarsTouch : Call α → Prop
  | .barTouch | .barAll => True
  | _ => False

/-- The call finds the finger up, and frees the touch. -/
def FreesTouch (before : List (Call α)) : Call α → Prop
  | .freeTouch => ¬(current before).touch.down
  | _ => False

/-- A frame that begins with the call has the finger down. -/
def Touches : Call α → Prop
  | .take c => c.touch.down
  | _ => True

/-- The finger comes down. -/
def ComesDown (before : List (Call α)) : Call α → Prop
  | .take c => c.touch.down ∧ ¬(current before).touch.down
  | _ => False

/-- The touch was barred, and nobody has freed it since. -/
def Unfreed (h : List (Call α)) : Prop :=
  History.Since (fun _ => BarsTouch) (fun before c => ¬FreesTouch before c) h

/-- The touch was barred for the last time under a finger that has been down in every frame since. -/
def BarredOnContact (h : List (Call α)) : Prop :=
  History.Since (fun before c => BarsTouch c ∧ (current before).touch.down)
    (fun _ c => ¬BarsTouch c ∧ Touches c) h

variable {h : List (Call α)} {c : Call α}

theorem unfreed_concat :
    Unfreed (h ++ [c]) ↔ BarsTouch c ∨ Unfreed h ∧ ¬FreesTouch h c :=
  History.since_concat

theorem barredOnContact_concat : BarredOnContact (h ++ [c]) ↔
    (BarsTouch c ∧ (current h).touch.down) ∨ BarredOnContact h ∧ ¬BarsTouch c ∧ Touches c :=
  History.since_concat

theorem touchBarred_after : (after h).touchBarred ↔ Unfreed h := by
  induction h using List.reverseRecOn with
  | nil => exact iff_of_false (by simp [after, initial]) History.not_since_nil
  | append_singleton h c ih =>
    rw [after_concat, unfreed_concat, ← ih]
    cases c with
    | take k =>
      change (after h).touchBarred ↔ _
      simp [BarsTouch, FreesTouch]
    | freeButtons =>
      change (after h).touchBarred ↔ _
      simp [BarsTouch, FreesTouch]
    | barTouch => exact iff_of_true rfl (.inl trivial)
    | barAll => exact iff_of_true rfl (.inl trivial)
    | freeTouch =>
      change (after h).freeTouch.touchBarred ↔ _
      simp [BarsTouch, FreesTouch, touch, now_after]

theorem BarredOnContact.down (hb : BarredOnContact h) : (current h).touch.down := by
  induction h using List.reverseRecOn with
  | nil => exact absurd hb History.not_since_nil
  | append_singleton h c ih =>
    rw [current_concat]
    rcases barredOnContact_concat.1 hb with ⟨hc, hd⟩ | ⟨hold, -, hd⟩
    · cases c with
      | take k => exact hc.elim
      | _ => exact hd
    · cases c with
      | take k => exact hd
      | _ => exact ih hold

/-- Only the contact that the touch was barred on is barred. -/
def BarsOneContact (h : List (Call α)) : Prop :=
  (current h).touch.down → (after h).touchBarred → BarredOnContact h

/-- It stays so with any call but one under which the finger comes down on a touch that is barred. -/
theorem barsOneContact_concat_iff (hp : BarsOneContact h) :
    BarsOneContact (h ++ [c]) ↔ (ComesDown h c → ¬Unfreed h) := by
  unfold BarsOneContact at hp ⊢
  rw [touchBarred_after] at hp ⊢
  rw [current_concat, unfreed_concat, barredOnContact_concat]
  cases c with
  | take k =>
    simp only [BarsTouch, FreesTouch, ComesDown, Touches, Call.controls?]
    constructor
    · intro hc ⟨hd, hup⟩ hu
      -- such a bar was put on under a finger that would still be down
      rcases hc hd (.inr ⟨hu, id⟩) with hc | ⟨hb, -⟩
      · exact hc.1
      · exact hup hb.down
    · intro hc hd hu
      obtain ⟨hu, -⟩ := hu.resolve_left id
      by_cases hbefore : (current h).touch.down
      · exact .inr ⟨hp hbefore hu, id, hd⟩
      · exact absurd hu (hc ⟨hd, hbefore⟩)
  | barTouch | barAll =>
    exact iff_of_true (fun hd _ => .inl ⟨trivial, hd⟩) fun hc => hc.elim
  | freeTouch | freeButtons =>
    refine iff_of_true (fun hd hu => ?_) fun hc => hc.elim
    exact .inr ⟨hp hd (hu.resolve_left id).1, id, trivial⟩

/-- After any calls the touch is barred just if it was barred and nobody has freed it since, with
the finger up. So in all frames with the finger down the touch is barred only for the contact that
it was barred on, just if the touch is free whenever the finger comes down. -/
theorem touchBarred_after_iff (h : List (Call α)) :
    ((after h).touchBarred ↔ Unfreed h) ∧
    ((∀ p, p <+: h → (current p).touch.down → (after p).touchBarred → BarredOnContact p) ↔
      History.Always (fun before c => ComesDown before c → ¬Unfreed before) h) := by
  refine ⟨touchBarred_after, ?_⟩
  change (∀ p, p <+: h → BarsOneContact p) ↔ _
  induction h using List.reverseRecOn with
  | nil =>
    refine iff_of_true (fun p hp => ?_) History.always_nil
    obtain rfl : p = [] := List.prefix_nil.1 hp
    intro hd
    cases hd
  | append_singleton h c ih =>
    rw [History.always_concat, ← ih]
    constructor
    · intro hall
      have hp (p : List (Call α)) (hp : p <+: h) : BarsOneContact p :=
        hall p (hp.trans (List.prefix_append h [c]))
      exact ⟨hp, (barsOneContact_concat_iff (hp h (List.prefix_refl h))).1
        (hall (h ++ [c]) (List.prefix_refl _))⟩
    · intro ⟨hall, hc⟩ p hp
      rcases List.prefix_concat_iff.1 hp with rfl | hp
      · exact (barsOneContact_concat_iff (hall h (List.prefix_refl h))).2 hc
      · exact hall p hp

instance (h : List (Call α)) : Decidable (Unfreed h) := decidable_of_iff _ touchBarred_after

instance (before : List (Call α)) : DecidablePred (ComesDown before)
  | .take c => inferInstanceAs (Decidable (c.touch.down ∧ ¬(current before).touch.down))
  | .barTouch | .barAll | .freeTouch | .freeButtons => inferInstanceAs (Decidable False)

def finger : Controls Rat := ⟨[], [], ⟨true, ⟨100, 100⟩⟩⟩

/-- The finger is lifted, the touch freed, and the finger comes down again. -/
def polled : List (Call Rat) :=
  [.take finger, .barTouch, .take finger, .take .idle, .freeTouch, .take finger]

theorem touchBarred_after_iff_polled :
    (after (polled.take 3)).touchBarred ∧ BarredOnContact (polled.take 3) ∧
    ¬(after polled).touchBarred := by
  obtain ⟨hiff, -⟩ := touchBarred_after_iff polled
  obtain ⟨-, hcontact⟩ := touchBarred_after_iff (polled.take 3)
  refine ⟨by decide, ?_, mt hiff.1 (by decide)⟩
  exact hcontact.2 (by decide) _ (List.prefix_refl _) (by decide) (by decide)

/-- Everything is barred in a frame without a finger, and nobody frees the touch in the next one,
which is without a finger too. -/
def missed : List (Call Rat) :=
  [.take ⟨[.cross], [], .none⟩, .barAll, .take ⟨[], [.cross], .none⟩, .take finger]

/-- The finger that comes down then is barred. -/
theorem touchBarred_missed :
    ¬∀ h : List (Call Rat), (current h).touch.down → (after h).touchBarred →
      BarredOnContact h := by
  intro hall
  have hb : BarredOnContact (missed.take 3 ++ [.take finger]) :=
    hall missed (by decide) (by decide)
  obtain ⟨hold, -⟩ := (barredOnContact_concat.1 hb).resolve_left fun hc => hc.1
  exact absurd hold.down (by decide)

end Touch

end HandheldUI.Input
