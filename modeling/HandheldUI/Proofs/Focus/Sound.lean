import Mathlib.Tactic.ByContra
import HandheldUI.Proofs.Action.Maintains
import HandheldUI.Proofs.Focus.Covers

/-! What holds of the focus at any time, in the middle of nested calls too: there is room for every
cover, and every cover belongs to an overlay. The zone of the base owner is one that a call has
given the input to. -/

namespace HandheldUI.Focus

open HandheldUI.Action

structure Sound (f : Focus) : Prop where
  room : f.depth < capacity
  overlay : ∀ o ∈ f.covers, o.zone = .overlay

/-- The focus is sound, and its base owner is in a zone of `A`. -/
structure Based (A : Zone → Prop) (f : Focus) : Prop where
  sound : f.Sound
  base : A f.base.zone

section Writes

variable {f : Focus} {o : Owner} {A : Zone → Prop}

theorem sound_initial : Sound {} where
  room := by decide
  overlay := by simp

@[simp] theorem top_setTop (o : Owner) (f : Focus) : (f.setTop o).top = o := by
  obtain ⟨b, covers⟩ := f
  cases covers <;> rfl

theorem Sound.zone_of_pos (h : f.Sound) (hd : 0 < f.depth) : f.zone = .overlay := by
  obtain ⟨b, covers⟩ := f
  cases covers with
  | nil => exact absurd hd (Nat.lt_irrefl 0)
  | cons o rest => exact h.overlay o List.mem_cons_self

theorem Sound.isCovered_iff (h : f.Sound) : f.isCovered ↔ 0 < f.depth := by
  rw [isCovered, decide_eq_true_iff]
  exact ⟨And.left, fun hd => ⟨hd, h.zone_of_pos hd⟩⟩

theorem top_of_depth_eq_zero (hd : f.depth = 0) : f.top = f.base := by
  rw [top, List.length_eq_zero_iff.1 hd]
  rfl

theorem Sound.inContent_of_bare (h : f.Sound) (hc : ¬f.isCovered) (hs : f.base.zone ≠ .sidebar)
    (ho : f.base.zone ≠ .overlay) : f.inContent := by
  have hd : f.depth = 0 := by
    rw [h.isCovered_iff] at hc
    omega
  rw [inContent, zone, top_of_depth_eq_zero hd]
  simp [hs, ho]

/-- The top owner is the base one or that of an overlay, and may be replaced by its like. -/
theorem Based.setTop (h : f.Sound) (hc : 0 < f.depth → o.zone = .overlay ∧ A f.base.zone)
    (hb : f.depth = 0 → A o.zone) : Based A (f.setTop o) := by
  have room : (f.setTop o).depth < capacity := by
    rw [depth_setTop]
    exact h.room
  obtain ⟨b, covers⟩ := f
  cases covers with
  | nil => exact ⟨⟨room, by simp [Focus.setTop]⟩, hb rfl⟩
  | cons o' rest =>
    obtain ⟨ho, hA⟩ := hc (Nat.succ_pos _)
    refine ⟨⟨room, ?_⟩, hA⟩
    intro p hp
    rcases List.mem_cons.1 hp with rfl | hp
    · exact ho
    · exact h.overlay p (List.mem_cons_of_mem _ hp)

theorem Based.pointAt (h : Based A f) (n : Nat) : Based A (f.pointAt n) := by
  refine .setTop h.sound (fun hd => ⟨h.sound.zone_of_pos hd, h.base⟩) ?_
  intro hd
  rw [top_of_depth_eq_zero hd]
  exact h.base

theorem Based.covered (h : Based A f) (hr : f.depth < 3) :
    Based A { f with covers := { zone := .overlay } :: f.covers } := by
  refine ⟨⟨?_, ?_⟩, h.base⟩
  · change f.depth + 1 < 4
    omega
  · intro o ho
    rcases List.mem_cons.1 ho with rfl | ho
    · rfl
    · exact h.sound.overlay o ho

theorem Based.uncovered (h : Based A f) : Based A { f with covers := f.covers.tail } := by
  refine ⟨⟨?_, ?_⟩, h.base⟩
  · have hl : f.covers.tail.length ≤ f.covers.length := by simp
    exact Nat.lt_of_le_of_lt hl h.sound.room
  · intro o ho
    exact h.sound.overlay o (List.mem_of_mem_tail ho)

end Writes

abbrev CallStep := Step Unit Focus Event Note (Option Bool)

/-- A call that is refused: it changes nothing, and ends in what the listeners leave behind. -/
def refused (why : Refusal) (f : Focus) : CallStep :=
  .say f (.refused why) <| .announce f (.refused why) fun _ f => .done f (some false)

variable {α : Type} [Scalar α]

theorem run_cover (f : Focus) : (Call.cover : Call α).run.run () f =
    if f.depth < 3 then
      .announce { f with covers := { zone := .overlay } :: f.covers } (.covered (f.depth + 1))
        fun _ f => .say f (.covered f.depth) (.done f (some true))
    else refused (.full f.depth) f := by
  change (Focus.cover.run () f).bind (fun b => pure (some b)) () = _
  unfold Focus.cover
  by_cases h : f.depth < 3
  · have hf : ¬f.isFull := by
      rw [isFull_iff]
      omega
    rw [if_pos h]
    simp [hf, depth]
  · have hf : f.isFull := by
      rw [isFull_iff]
      omega
    rw [if_neg h]
    simp [hf, refuse, refused]

theorem run_uncover (f : Focus) : (Call.uncover : Call α).run.run () f =
    if 0 < f.depth then
      .announce { f with covers := f.covers.tail } (.uncovered (f.depth - 1))
        fun _ f => .say f (.uncovered f.depth) (.done f (some true))
    else refused (.bare f.depth) f := by
  change (Focus.uncover.run () f).bind (fun b => pure (some b)) () = _
  unfold Focus.uncover
  by_cases h : f.depth = 0
  · rw [if_neg (by omega)]
    simp [h, refuse, refused]
  · have ht : ({ f with covers := f.covers.tail } : Focus).depth = f.depth - 1 := List.length_tail
    rw [if_pos (Nat.pos_of_ne_zero h)]
    simp [h, ht]

theorem run_give (z : Zone) (f : Focus) : (give z).run () f =
    if 0 < f.depth ∧ z ≠ .overlay then .say f (.kept z f.depth) (.done f ())
    else
      let g := f.setTop { f.top with zone := z }
      if f.zone ≠ z then
        .say g (.moved f.zone z) (.announce g (.moved f.zone z) fun _ f => .done f ())
      else .done g () := by
  unfold give
  by_cases h : 0 < f.depth ∧ z ≠ .overlay
  · simp [h]
  · by_cases hz : f.zone = z <;> simp [h, hz]

/-- The zone that a call gives the input to, if it gives it to one. -/
def Call.zone? : Call α → Option Zone
  | give z => some z
  | toSidebar => some .sidebar
  | toContent screen => some screen.content
  | _ => none

section Invariant

variable {A : Zone → Prop} {f : Focus}

/-- A base owner without covers may be anywhere before the input is given to a zone of `A`. -/
theorem keeps_give {z : Zone} (hf : f.Sound) (hz : A z) (hb : 0 < f.depth → A f.base.zone) :
    ((give z).run () f).Keeps (fun _ => True) (Based A) := by
  rw [run_give]
  by_cases h : 0 < f.depth ∧ z ≠ .overlay
  · rw [if_pos h]
    exact ⟨hf, hb h.1⟩
  · rw [if_neg h]
    have hg : Based A (f.setTop { f.top with zone := z }) := by
      refine .setTop hf (fun hd => ⟨?_, hb hd⟩) fun _ => hz
      by_contra hn
      exact h ⟨hd, hn⟩
    by_cases hm : f.zone ≠ z
    · rw [if_pos hm]
      exact ⟨hg, fun _ _ _ ht => ht⟩
    · rw [if_neg hm]
      exact hg

theorem maintains_give {z : Zone} (hz : A z) : Maintains (fun _ => True) (Based A) (give z) :=
  fun _ _ _ hf => keeps_give hf.sound hz fun _ => hf.base

theorem maintains_cover : Maintains (fun _ => True) (Based A) cover := by
  intro _ f _ hf
  unfold cover
  rw [run_bind, run_get, Step.bind_done]
  by_cases h : f.isFull
  · rw [if_pos h]
    exact ⟨hf, fun _ _ _ ht => ht⟩
  · have hd : f.depth < 3 := by
      rw [isFull_iff] at h
      omega
    rw [if_neg h]
    exact ⟨hf.covered hd, fun _ _ _ ht => ht⟩

theorem maintains_uncover : Maintains (fun _ => True) (Based A) uncover := by
  intro _ f _ hf
  unfold uncover
  rw [run_bind, run_get, Step.bind_done]
  by_cases h : f.depth = 0
  · rw [if_pos h]
    exact ⟨hf, fun _ _ _ ht => ht⟩
  · rw [if_neg h]
    exact ⟨hf.uncovered, fun _ _ _ ht => ht⟩

theorem maintains_run (c : Call α) (hc : ∀ z ∈ c.zone?, A z) :
    Maintains (fun _ => True) (Based A) c.run := by
  cases c with
  | give z => exact .seqRight (maintains_give (hc z rfl)) (.pure _)
  | toSidebar => exact .seqRight (maintains_give (hc _ rfl)) (.pure _)
  | toContent screen => exact .seqRight (maintains_give (hc _ rfl)) (.pure _)
  | pointAt x => exact .seqRight (.modify fun f hf => hf.pointAt _) (.pure _)
  | cover => exact maintains_cover.map some
  | uncover => exact maintains_uncover.map some

end Invariant

/-- The focus is found like this in some run of calls whose listeners may make any calls. -/
abbrev Found (α : Type) [Scalar α] (f : Focus) : Prop :=
  Occurs (fun _ => True) (Call.run : Call α → Op (Option Bool)) {} f

theorem Found.sound {f : Focus} (h : Found α f) : f.Sound :=
  (Maintains.occurs (I := Based fun _ => True) (fun c => maintains_run c fun _ _ => trivial)
    ⟨sound_initial, trivial⟩ h).sound

/-- A call and its listeners, which may make any calls, end in a state and an answer. -/
abbrev EndsIn (c : Call α) (f : Focus) (trace : List (Focus × Event)) (t : Focus)
    (a : Option Bool) : Prop :=
  Step.Ends (fun _ => True) (Call.run : Call α → Op (Option Bool)) (c.run.run () f) trace t a

section Answers

variable {f t : Focus} {trace : List (Focus × Event)} {a : Option Bool}

theorem ends_refused_iff {why : Refusal} :
    Step.Ends (fun _ => True) (Call.run : Call α → Op (Option Bool)) (refused why f) trace t a ↔
      a = some false ∧ ∃ later, trace = (f, .refused why) :: later ∧
        Calls (fun _ => True) (Call.run : Call α → Op (Option Bool)) f later t := by
  constructor
  · rintro (_ | ⟨_ | _ | ⟨inner, -, _ | _⟩⟩)
    exact ⟨rfl, _, by simp, inner⟩
  · rintro ⟨rfl, later, rfl, inner⟩
    have h : Step.Ends (fun _ => True) (Call.run : Call α → Op (Option Bool))
        (.announce f (.refused why) fun _ f => .done f (some false))
        ((f, .refused why) :: later ++ []) t (some false) :=
      .announce (r := ()) inner trivial .done
    rw [List.append_nil] at h
    exact .say h

theorem EndsIn.eq_of_cover (h : EndsIn (.cover : Call α) f trace t a) :
    a = some (decide (f.depth < 3)) := by
  unfold EndsIn at h
  rw [run_cover] at h
  by_cases hd : f.depth < 3
  · rw [if_pos hd] at h
    rcases h with _ | _ | ⟨-, -, _ | ⟨_ | _⟩⟩
    simp [hd]
  · rw [if_neg hd, ends_refused_iff] at h
    simp [hd, h.1]

theorem EndsIn.eq_of_uncover (h : EndsIn (.uncover : Call α) f trace t a) :
    a = some (decide (0 < f.depth)) := by
  unfold EndsIn at h
  rw [run_uncover] at h
  by_cases hd : 0 < f.depth
  · rw [if_pos hd] at h
    rcases h with _ | _ | ⟨-, -, _ | ⟨_ | _⟩⟩
    simp [hd]
  · rw [if_neg hd, ends_refused_iff] at h
    simp [hd, h.1]

/-- A call whose answer is known ends with it, for it does so without listeners. -/
theorem exists_endsIn_iff {c : Call α} {b : Option Bool}
    (h : ∀ trace t a, EndsIn c f trace t a → a = b) :
    (∃ trace t, EndsIn c f trace t a) ↔ a = b := by
  constructor
  · rintro ⟨trace, t, run⟩
    exact h trace t a run
  · rintro rfl
    have ⟨trace, run⟩ : ∃ trace, EndsIn c f trace (c.run.quiet () f).state
        (c.run.quiet () f).value := Step.ends_quiet _ (r := ()) trivial (c.run.run () f)
    exact ⟨trace, _, h _ _ _ run ▸ run⟩

end Answers

/-- In every state that somebody finds, in the middle of nested calls too, the covers are few and
overlays', the item pointed at is a whole number from 0 on, and covering and uncovering answer
whether there was room and a cover. Where they refuse, the listeners of the refusal find the focus
as it was and the call ends in what these leave behind. -/
theorem found_sound {f : Focus} (hf : Found α f) :
    f.depth ≤ 3 ∧ (∀ o ∈ f.owners.tail, o.zone = .overlay) ∧ (f.isCovered ↔ 0 < f.depth) ∧
    (∀ x : α, ((f.pointAt (itemOf x)).item : Int) = max ((Scalar.truncate? x).getD 0) 0) ∧
    (∀ a, (∃ trace t, EndsIn (.cover : Call α) f trace t a) ↔ a = some (decide (f.depth < 3))) ∧
    (∀ a, (∃ trace t, EndsIn (.uncover : Call α) f trace t a) ↔
      a = some (decide (0 < f.depth))) ∧
    (∀ trace t, EndsIn (.cover : Call α) f trace t (some false) →
      ∃ later, trace = (f, .refused (.full f.depth)) :: later ∧
        Calls (fun _ => True) (Call.run : Call α → Op (Option Bool)) f later t) ∧
    (∀ trace t, EndsIn (.uncover : Call α) f trace t (some false) →
      ∃ later, trace = (f, .refused (.bare f.depth)) :: later ∧
        Calls (fun _ => True) (Call.run : Call α → Op (Option Bool)) f later t) := by
  have hs := hf.sound
  refine ⟨Nat.le_of_lt_succ hs.room, ?_, hs.isCovered_iff, ?_, ?_, ?_, ?_, ?_⟩
  · intro o ho
    exact hs.overlay o (List.mem_reverse.1 ho)
  · intro x
    rw [item, pointAt, top_setTop, itemOf, Int.ofNat_toNat]
  · intro a
    exact exists_endsIn_iff fun _ _ _ run => run.eq_of_cover
  · intro a
    exact exists_endsIn_iff fun _ _ _ run => run.eq_of_uncover
  · intro trace t run
    have hd : ¬f.depth < 3 := by simpa using run.eq_of_cover
    unfold EndsIn at run
    rw [run_cover, if_neg hd, ends_refused_iff] at run
    exact run.2
  · intro trace t run
    have hd : ¬0 < f.depth := by simpa using run.eq_of_uncover
    unfold EndsIn at run
    rw [run_uncover, if_neg hd, ends_refused_iff] at run
    exact run.2

/-- A listener of the third cover points at an item; to it too the room is full. -/
theorem found_sound_third : ∃ f : Focus, Found Rat f ∧ f.item = 3 ∧ f.depth ≤ 3 ∧ f.isCovered ∧
    ∃ trace t, EndsIn (.cover : Call Rat) f trace t (some false) := by
  let call : Call Rat → Op (Option Bool) := Call.run
  let o : Owner := { zone := .overlay }
  have third : Calls (fun _ => True) call {} _ { covers := [o, o, o] } :=
    .cons (r := ()) (c := .cover) trivial (.announce (r := ()) .nil trivial (.say .done)) <|
    .cons (r := ()) (c := .cover) trivial (.announce (r := ()) .nil trivial (.say .done)) <|
    .cons (r := ()) (c := .cover) trivial (.announce (r := ()) .nil trivial (.say .done)) .nil
  have later : Calls (fun _ => True) call { covers := [o, o, o] } _
      (pointAt (itemOf (7 / 2 : Rat)) { covers := [o, o, o] }) :=
    .cons (r := ()) (c := .pointAt (7 / 2)) trivial .done .nil
  have hf : Found Rat _ :=
    ⟨_, _, third, .inr ⟨(_, .covered 3), .tail _ (.tail _ (.head _)), _, later⟩⟩
  have h := found_sound hf
  exact ⟨_, hf, by decide +kernel, h.1, h.2.2.1.2 (by decide), (h.2.2.2.2.1 _).2 (by decide)⟩

end HandheldUI.Focus
