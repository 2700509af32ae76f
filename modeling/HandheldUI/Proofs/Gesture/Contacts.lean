import Mathlib.Data.List.Basic
import HandheldUI.Gesture
import HandheldUI.Proofs.Action.History
import HandheldUI.Proofs.Action.Quiet

/-! What the samples of a contact mean. It is a press; it holds up to the first sample at which the
finger has gone farther than a tap may; from there on it drags, whether or not the finger comes
back; and it ends as one tap or one swipe. A target is looked up for the press alone. -/

namespace HandheldUI.Gesture

open HandheldUI.Action

variable {α τ : Type} [Scalar α]

/-- A sample of the panel, with the targets and the threshold as they are at that time. -/
abbrev Sample (α τ : Type) := Env α τ × Touch α

/-- What a classifier says to these samples, one after the other. -/
def answers (h : List (Sample α τ)) : List (Gesture α τ) := (quietRun classify h none).value

/-- The points that it has looked up a target for. -/
def lookUps (h : List (Sample α τ)) : List (Point α) :=
  (quietRun classify h none).out.filterMap Sum.getRight?

/-- From the finger at `p` back to `start`. -/
def lead (start p : Point α) : Point α := ⟨start.x - p.x, start.y - p.y⟩

/-- The finger is farther from `start` than the threshold of this sample lets a tap go. -/
def strays (start : Point α) (y : Sample α τ) : Bool :=
  y.1.threshold * y.1.threshold < y.2.point.distSq start

section

variable (start : Point α) (rest : List (Sample α τ))

/-- The samples before the finger first strays. -/
def calm : List (Sample α τ) := rest.takeWhile fun y => !strays start y

/-- The samples from there on. -/
def swept : List (Sample α τ) := rest.dropWhile fun y => !strays start y

def drags (swept : List (Sample α τ)) : List (Gesture α τ) :=
  swept.map fun y => .drag y.2.point (lead start y.2.point)

/-- What the samples after the press mean. -/
def motions : List (Gesture α τ) :=
  (calm start rest).map (fun y => .hold y.2.point) ++ drags start (swept start rest)

/-- What lifting the finger means after them. -/
def ending (target : Option τ) : Gesture α τ :=
  match (swept start rest).getLast? with
  | none => .tap start target
  | some y => .swipeEnd (lead start y.2.point)

variable {start rest} {y : Sample α τ} (target : Option τ)

theorem motions_cons_of_calm (h : strays start y = false) :
    motions start (y :: rest) = .hold y.2.point :: motions start rest := by
  simp [motions, calm, swept, h]

theorem ending_cons_of_calm (h : strays start y = false) :
    ending start (y :: rest) target = ending start rest target := by
  simp [ending, swept, h]

theorem motions_cons_of_strays (h : strays start y) :
    motions start (y :: rest) = drags start (y :: rest) := by
  simp [motions, calm, swept, h]

theorem ending_cons_of_strays (h : strays start y) : ending start (y :: rest) target =
    .swipeEnd (lead start ((rest.getLast?.map (·.2.point)).getD y.2.point)) := by
  have hswept : swept start (y :: rest) = y :: rest := by simp [swept, h]
  rw [ending, hswept, List.getLast?_cons]
  cases rest.getLast? <;> rfl

end

section Steps

variable {r : Env α τ} {t : Touch α} {c : Contact α τ} {rest : List (Sample α τ)}
  {lift : Sample α τ}

theorem quiet_classify_idle (h : ¬t.down) :
    (classify t : Op α τ _).quiet r none = ⟨none, [], .idle⟩ := by
  simp [classify, h]

theorem quiet_classify_press (h : t.down) :
    (classify t : Op α τ _).quiet r none =
      let target := r.target?.bind fun f => f t.point
      ⟨some { start := t.point, target, last := t.point },
        (r.target?.map fun _ => .inr t.point).toList, .press t.point target⟩ := by
  cases hr : r.target? <;> simp [classify, lookUp, h, hr, Outcome.after]

theorem quiet_classify_lift (h : ¬t.down) :
    (classify t : Op α τ _).quiet r (some c) = ⟨none, [], c.release⟩ := by
  simp [classify, h, Outcome.after]

theorem quiet_classify_move (h : t.down) :
    (classify t : Op α τ _).quiet r (some c) =
      ⟨some (c.move r.threshold t.point), [], (c.move r.threshold t.point).motion⟩ := by
  simp [classify, h, Outcome.after]

theorem state_classify_up (h : ¬t.down) (s : Option (Contact α τ)) :
    ((classify t : Op α τ _).quiet r s).state = none := by
  cases s with
  | none => rw [quiet_classify_idle h]
  | some c => rw [quiet_classify_lift h]

/-- A swipe stays one to its end. -/
theorem quietRun_swipe (hc : c.swipe) (hr : ∀ y ∈ rest, y.2.down) (hl : ¬lift.2.down) :
    quietRun classify (rest ++ [lift]) (some c) =
      ⟨none, [], drags c.start rest ++
        [.swipeEnd (lead c.start ((rest.getLast?.map (·.2.point)).getD c.last))]⟩ := by
  induction rest generalizing c with
  | nil =>
    simp [quietRun, quiet_classify_lift hl, Contact.release, hc, drags, lead, Contact.delta,
      Outcome.after]
  | cons y rest ih =>
    have hy : y.2.down := hr y List.mem_cons_self
    have hmove : (c.move y.1.threshold y.2.point).swipe := by simp [Contact.move, hc]
    have hrest := ih hmove fun z hz => hr z (List.mem_cons_of_mem y hz)
    have hlast : (((y :: rest).getLast?.map (·.2.point)).getD c.last) =
        (rest.getLast?.map (·.2.point)).getD y.2.point := by
      rw [List.getLast?_cons]
      cases rest.getLast? <;> rfl
    rw [hlast, List.cons_append, quietRun, quiet_classify_move hy]
    simp only [hrest, Contact.motion, hmove, if_true]
    rfl

/-- A contact that is no swipe yet holds until the finger strays. -/
theorem quietRun_contact (hc : c.swipe = false) (hr : ∀ y ∈ rest, y.2.down)
    (hl : ¬lift.2.down) :
    quietRun classify (rest ++ [lift]) (some c) =
      ⟨none, [], motions c.start rest ++ [ending c.start rest c.target]⟩ := by
  induction rest generalizing c with
  | nil =>
    simp [quietRun, quiet_classify_lift hl, Contact.release, hc, motions, calm, swept, drags,
      ending, Outcome.after]
  | cons y rest ih =>
    have hy : y.2.down := hr y List.mem_cons_self
    have hrest : ∀ z ∈ rest, z.2.down := fun z hz => hr z (List.mem_cons_of_mem y hz)
    have hmove : (c.move y.1.threshold y.2.point).swipe = strays c.start y := by
      rw [Contact.move, hc, Bool.false_or, strays]
    rw [List.cons_append, quietRun, quiet_classify_move hy]
    cases hs : strays c.start y with
    | false =>
      rw [hs] at hmove
      rw [motions_cons_of_calm hs, ending_cons_of_calm c.target hs]
      simp only [ih hmove hrest, Contact.motion, hmove]
      rfl
    | true =>
      rw [hs] at hmove
      rw [motions_cons_of_strays hs, ending_cons_of_strays c.target hs]
      simp only [quietRun_swipe hmove hrest hl, Contact.motion, hmove]
      rfl

end Steps

section Runs

variable {before after rest : List (Sample α τ)} {first lift : Sample α τ}

/-- No finger is on the panel after these samples. -/
def Clear (h : List (Sample α τ)) : Prop := ∀ y ∈ h.getLast?, ¬y.2.down

/-- The finger comes down with the first sample, stays for the rest, and is lifted. -/
structure IsContact (first : Sample α τ) (rest : List (Sample α τ)) (lift : Sample α τ) :
    Prop where
  down : first.2.down
  stays : ∀ y ∈ rest, y.2.down
  up : ¬lift.2.down

omit [Scalar α] in
theorem clear_concat {y : Sample α τ} (h : List (Sample α τ)) (hy : ¬y.2.down) :
    Clear (h ++ [y]) := by
  intro z hz
  obtain rfl : y = z := by simpa using hz
  exact hy

theorem Clear.reached (hb : Clear before) : reached classify none before = none := by
  rcases List.eq_nil_or_concat' before with rfl | ⟨before, y, rfl⟩
  · rfl
  · rw [reached_concat]
    exact state_classify_up (hb y (by simp)) _

/-- What follows a clear panel means what it does at the start. -/
theorem Clear.answers_append (hb : Clear before) (h : List (Sample α τ)) :
    answers (before ++ h) = answers before ++ answers h := by
  have hnone : (quietRun classify before none).state = none := hb.reached
  rw [answers, quietRun_append]
  simp only [hnone]
  rfl

theorem Clear.lookUps_append (hb : Clear before) (h : List (Sample α τ)) :
    lookUps (before ++ h) = lookUps before ++ lookUps h := by
  have hnone : (quietRun classify before none).state = none := hb.reached
  rw [lookUps, quietRun_append]
  simp only [hnone]
  exact List.filterMap_append

theorem IsContact.quietRun (hc : IsContact first rest lift) :
    quietRun classify (first :: rest ++ [lift]) none =
      let start := first.2.point
      let target := first.1.target?.bind fun f => f start
      ⟨none, (first.1.target?.map fun _ => .inr start).toList,
        .press start target :: (motions start rest ++ [ending start rest target])⟩ := by
  let c : Contact α τ :=
    { start := first.2.point
      target := first.1.target?.bind fun f => f first.2.point
      last := first.2.point }
  have hrest := quietRun_contact (c := c) rfl hc.stays hc.up
  rw [List.cons_append, Action.quietRun, quiet_classify_press hc.down]
  simp only [c] at hrest
  simp only [hrest, Outcome.after, List.append_nil]

theorem answers_idle {y : Sample α τ} (hy : ¬y.2.down) :
    answers [y] = [.idle] ∧ lookUps [y] = [] := by
  rw [answers, lookUps, quietRun, quiet_classify_idle hy]
  exact ⟨rfl, rfl⟩

/-- In a run of samples, each contact is answered on its own: by a press at its first sample, by
holds and then drags up to its last, and by one tap or one end of a swipe when the finger is lifted.
One target is looked up for it, at the press. It leaves the classifier as it was at the start, and
so does a sample without a finger, which is idle. -/
theorem answers_contact (hb : Clear before) (hc : IsContact first rest lift) :
    let start := first.2.point
    let target := first.1.target?.bind fun f => f start
    let contact := first :: rest ++ [lift]
    answers (before ++ contact ++ after) = answers before ++
      (.press start target :: (motions start rest ++ [ending start rest target])) ++
        answers after ∧
    lookUps (before ++ contact ++ after) =
      lookUps before ++ (first.1.target?.map fun _ => start).toList ++ lookUps after ∧
    reached classify none (before ++ contact) = none ∧
    ∀ y : Sample α τ, ¬y.2.down → answers (before ++ [y]) = answers before ++ [.idle] ∧
      lookUps (before ++ [y]) = lookUps before ∧ reached classify none (before ++ [y]) = none := by
  intro start target contact
  have hclear : Clear (before ++ contact) := by
    rw [← List.append_assoc]
    exact clear_concat _ hc.up
  refine ⟨?_, ?_, hclear.reached, fun y hy => ⟨?_, ?_, (clear_concat before hy).reached⟩⟩
  · rw [hclear.answers_append, hb.answers_append, answers, answers, hc.quietRun]
  · rw [hclear.lookUps_append, hb.lookUps_append, lookUps, lookUps, hc.quietRun]
    cases first.1.target? <;> rfl
  · rw [hb.answers_append, (answers_idle hy).1]
  · rw [hb.lookUps_append, (answers_idle hy).2, List.append_nil]

section Swiped

/-- The left half of the screen is the target 0. -/
def halves (threshold : Rat) : Env Rat Nat where
  target? := some fun p => if p.x < 480 then some 0 else none
  threshold

def finger (threshold x y : Rat) : Sample Rat Nat := (halves threshold, ⟨true, ⟨x, y⟩⟩)

def noFinger : Sample Rat Nat := (halves 25, .none)

/-- A finger goes 20 pixels away, which is a swipe once the threshold has come down, and back. -/
def swiped : List (Sample Rat Nat) :=
  [finger 25 120 100, finger 20 120 100, finger 15 120 100, finger 25 100 100]

theorem answers_contact_swiped :
    let tapped := [finger 25 600 300, noFinger, noFinger]
    Clear tapped ∧ IsContact (finger 25 100 100) swiped noFinger ∧
    answers (tapped ++ (finger 25 100 100 :: swiped ++ [noFinger]) ++ []) =
      [.press ⟨600, 300⟩ none, .tap ⟨600, 300⟩ none, .idle, .press ⟨100, 100⟩ (some 0),
        .hold ⟨120, 100⟩, .hold ⟨120, 100⟩, .drag ⟨120, 100⟩ ⟨-20, 0⟩, .drag ⟨100, 100⟩ ⟨0, 0⟩,
        .swipeEnd ⟨0, 0⟩] := by
  intro tapped
  have hclear : Clear tapped := clear_concat [finger 25 600 300, noFinger] (by decide)
  have hcontact : IsContact (finger 25 100 100) swiped noFinger :=
    ⟨by decide, by decide, by decide⟩
  refine ⟨hclear, hcontact, ?_⟩
  rw [(answers_contact hclear hcontact).1]
  decide +kernel

end Swiped

end Runs

end HandheldUI.Gesture
