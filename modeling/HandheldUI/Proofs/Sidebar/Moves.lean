import HandheldUI.Proofs.Action.History
import HandheldUI.Proofs.Action.Moment
import HandheldUI.Proofs.Sidebar.Steps

/-! The moves of the sidebar from phase to phase, listeners that make requests included. Whichever
call moves the sidebar tells so before anything else happens, so the moves that are told form one
chain, and two of them that leave from rest have an update or a reset between them. -/

namespace HandheldUI.Sidebar

/-- The moves lead from the phase `p` to the phase `q`, each from where the one before has led. -/
def Linked : Phase → List (Phase × Phase) → Phase → Prop
  | p, [], q => p = q
  | p, (old, new) :: rest, q => old = p ∧ Linked new rest q

theorem linked_concat {p q old new : Phase} {l : List (Phase × Phase)} :
    Linked p (l ++ [(old, new)]) q ↔ Linked p l old ∧ new = q := by
  induction l generalizing p with
  | nil => exact and_congr_left fun _ => eq_comm
  | cons m l ih =>
    change m.1 = p ∧ Linked m.2 (l ++ [(old, new)]) q ↔ (m.1 = p ∧ Linked m.2 l old) ∧ new = q
    rw [ih, and_assoc]

def Event.move? : Event → Option (Phase × Phase)
  | moved old new => some (old, new)
  | toast => none

/-- The sidebar leaves its rest. -/
def Event.isStart : Event → Bool
  | moved _ new => new.end?.isSome
  | toast => false

namespace Call

/-- The moves that a call may make. -/
def Makes (old new : Phase) : Call → Prop
  | collapse _ => old = .expanded ∧ new = .collapsing
  | expand => old = .collapsed ∧ new = .expanding
  | flip => old = .expanded ∧ new = .collapsing ∨ old = .collapsed ∧ new = .expanding
  | shut => old ≠ .collapsed ∧ new = .collapsed
  | advance | tick =>
    old = .collapsing ∧ new = .collapsed ∨ old = .expanding ∧ new = .expanded
  | fadeToast => False

def isRequest : Call → Bool
  | collapse _ | expand | flip => true
  | _ => false

/-- The call may bring the sidebar to rest. -/
def mayEnd : Call → Bool
  | shut | advance | tick => true
  | _ => false

theorem mayEnd_of_makes {p q : Phase} {c : Call} (h : c.Makes p q) (hq : q.end?.isSome = false) :
    c.mayEnd := by
  cases c with
  | shut | advance | tick => rfl
  | collapse _ | expand | flip => simp only [Makes] at h; grind [Phase.end?]
  | fadeToast => exact h.elim

theorem rests_of_makes {p q : Phase} {c : Call} (h : c.Makes p q) (hq : q.end?.isSome) :
    p.end?.isSome = false := by
  cases c <;> simp only [Makes] at h <;> grind [Phase.end?]

end Call

section Histories

variable {α : Type} {h : List (State α × (Call ⊕ Event))} {p q : Phase}

/-- The moves that have been told, in order. -/
def moves (h : List (State α × (Call ⊕ Event))) : List (Phase × Phase) :=
  h.filterMap fun y => y.2.elim (fun _ => none) Event.move?

/-- A move is told right after the call that makes it was made. -/
def ToldAtOnce (before : List (State α × (Call ⊕ Event))) (y : State α × (Call ⊕ Event)) : Prop :=
  ∀ old new, y.2 = .inr (.moved old new) →
    ∃ first s c, before = first ++ [(s, .inl c)] ∧ c.Makes old new

/-- Nobody calls what may bring the sidebar to rest. -/
def Undisturbed (l : List (State α × (Call ⊕ Event))) : Prop :=
  ∀ y ∈ l, ¬isCall (fun _ => Call.mayEnd) y

/-- How often the sidebar leaves its rest. -/
def starts (l : List (State α × (Call ⊕ Event))) : Nat := l.countP (isEvent Event.isStart)

/-- A history that leads to the phase `p`. -/
structure Traced (h : List (State α × (Call ⊕ Event))) (p : Phase) : Prop where
  linked : Linked .collapsed (moves h) p
  told : History.Always ToldAtOnce h
  /-- Once it has left its rest, the sidebar is on the way. -/
  ends : ∀ l, l <:+ h → Undisturbed l → starts l ≤ p.end?.isSome.toNat
  once : ∀ l, l <:+: h → Undisturbed l → starts l ≤ 1

theorem traced_nil : Traced ([] : List (State α × (Call ⊕ Event))) .collapsed where
  linked := rfl
  told := History.always_nil
  ends l hl _ := by simp [starts, List.suffix_nil.1 hl]
  once l hl _ := by simp [starts, List.infix_nil.1 hl]

namespace Traced

/-- It is enough to bound the stretches that reach to the end of the history. -/
theorem concat {y : State α × (Call ⊕ Event)} (hk : Traced h p)
    (hl : Linked .collapsed (moves (h ++ [y])) q) (ht : ToldAtOnce h y)
    (he : ∀ l, l <:+ h → Undisturbed (l ++ [y]) → starts (l ++ [y]) ≤ q.end?.isSome.toNat) :
    Traced (h ++ [y]) q := by
  have hends (l : List (State α × (Call ⊕ Event))) (hl : l <:+ h ++ [y]) (hu : Undisturbed l) :
      starts l ≤ q.end?.isSome.toNat := by
    rcases List.suffix_concat_iff.1 hl with rfl | ⟨l', rfl, hl'⟩
    · exact Nat.zero_le _
    · exact he l' hl' hu
  refine ⟨hl, History.always_concat.2 ⟨hk.told, ht⟩, hends, fun l hl hu => ?_⟩
  rcases List.infix_concat_iff.1 hl with hl | hl
  · exact Nat.le_trans (hends l hl hu) (Bool.toNat_le _)
  · exact hk.once l hl hu

theorem of_no_move {y : State α × (Call ⊕ Event)} (hk : Traced h p)
    (hy : ∀ old new, y.2 ≠ .inr (.moved old new)) : Traced (h ++ [y]) p := by
  have hm : moves [y] = [] ∧ starts [y] = 0 := by
    obtain ⟨s, c | ⟨old, new⟩ | -⟩ := y
    · exact ⟨rfl, rfl⟩
    · exact absurd rfl (hy old new)
    · exact ⟨rfl, rfl⟩
  refine hk.concat ?_ (fun old new he => absurd he (hy old new)) fun l hl hu => ?_
  · have happ : moves (h ++ [y]) = moves h ++ moves [y] := List.filterMap_append
    rw [happ, hm.1, List.append_nil]
    exact hk.linked
  · have happ : starts (l ++ [y]) = starts l + starts [y] := List.countP_append
    rw [happ, hm.2]
    exact hk.ends l hl fun z hz => hu z (List.mem_append_left _ hz)

/-- A call makes a move and tells it at once. -/
theorem moved {s t : State α} {c : Call} (hk : Traced h p) (hc : c.Makes p q) :
    Traced (h ++ [(s, .inl c)] ++ [(t, .inr (.moved p q))]) q := by
  have hcall : Traced (h ++ [(s, .inl c)]) p := hk.of_no_move nofun
  refine hcall.concat ?_ ?_ fun l hl hu => ?_
  · rw [moves, List.filterMap_append]
    exact linked_concat.2 ⟨hcall.linked, rfl⟩
  · rintro old new he
    obtain ⟨rfl, rfl⟩ : p = old ∧ q = new := by simpa using he
    exact ⟨h, s, c, rfl, hc⟩
  · cases hq : q.end?.isSome with
    | true =>
      -- the sidebar was at rest before, so nothing had started in this stretch
      have hp : p.end?.isSome = false := Call.rests_of_makes hc hq
      have h0 := hcall.ends l hl fun z hz => hu z (List.mem_append_left _ hz)
      rw [hp] at h0
      simp only [starts, List.countP_append] at h0 ⊢
      simp [isEvent, Event.isStart, hq, Nat.le_zero.1 h0]
    | false =>
      -- the stretch does not reach back to the call, which may end a move
      rcases List.suffix_concat_iff.1 hl with rfl | ⟨l, rfl, -⟩
      · simp [starts, isEvent, Event.isStart, hq]
      · exact absurd (Call.mayEnd_of_makes hc hq) (hu (s, .inl c) (by simp))

end Traced

end Histories

variable {α : Type} [Scalar α]

/-- What a move does about the wave: a collapse puts its phases by, and an expansion takes up those
that were put by. -/
structure Moved (s t : State α) : Prop where
  stored : t.stored = if t.phase = .collapsing then s.wave.phases else s.stored
  phases : t.wave.phases = if t.phase = .expanding then s.stored else s.wave.phases

/-- What is true of the entries so far and the state stays so through all that a call can do. -/
structure Followed (K : List (State α × (Call ⊕ Event)) → State α → Prop) : Prop where
  call {h : List (State α × (Call ⊕ Event))} {s : State α} {c : Call} :
    K h s → K (h ++ [(s, .inl c)]) s
  stay {h : List (State α × (Call ⊕ Event))} {s t : State α} :
    K h s → t.phase = s.phase → t.stored = s.stored → K h t
  toast {h : List (State α × (Call ⊕ Event))} {s : State α} :
    K h s → K (h ++ [(s, .inr .toast)]) s
  move {h : List (State α × (Call ⊕ Event))} {s t : State α} {c : Call} :
    K h s → c.Makes s.phase t.phase → Moved s t →
      K (h ++ [(s, .inl c)] ++ [(t, .inr (.moved s.phase t.phase))]) t

namespace Followed

variable {K : List (State α × (Call ⊕ Event)) → State α → Prop}
  {h : List (State α × (Call ⊕ Event))} {c : Call} {s : State α} (r : Env α)

theorem begin {t : State α} {new : Phase} (hK : Followed K) (hk : K h s) (ht : t.phase = s.phase)
    (hc : c.Makes s.phase new) (hm : Moved s (t.entering new r.now)) :
    ((Sidebar.begin new).run r t).Records K (h ++ [(s, .inl c)]) := by
  rw [run_begin]
  refine ⟨?_, fun _ _ _ hk => hk⟩
  rw [ht]
  exact hK.move hk hc hm

theorem collapse (hK : Followed K) {byContent : Bool} (hk : K h s)
    (hc : s.phase = .expanded → c.Makes .expanded .collapsing) :
    ((Sidebar.collapse byContent).run r s).Records K (h ++ [(s, .inl c)]) := by
  rw [run_collapse]
  split
  · exact hK.call hk
  · split
    · next ho =>
      have hs : s.phase = .expanded := of_decide_eq_true ho
      exact hK.begin r hk rfl (hs ▸ hc hs) ⟨rfl, rfl⟩
    · exact hK.call hk

theorem expand (hK : Followed K) (hk : K h s)
    (hc : s.phase = .collapsed → c.Makes .collapsed .expanding) :
    (Sidebar.expand.run r s).Records K (h ++ [(s, .inl c)]) := by
  rw [run_expand]
  split
  · next hi =>
    have hs : s.phase = .collapsed := of_decide_eq_true hi
    exact hK.begin r hk rfl (hs ▸ hc hs) ⟨rfl, rfl⟩
  · exact hK.call hk

omit [Scalar α] in
theorem showToast (hK : Followed K) (hk : K h s) : (Sidebar.showToast.run r s).Records K h := by
  rw [run_showToast]
  split
  · exact hk
  · exact ⟨hK.toast (hK.stay hk rfl rfl), fun _ _ _ hk => hk⟩

theorem advance (hK : Followed K) (hk : K h s) (hc : ∀ p q, p.end? = some q → c.Makes p q) :
    (Sidebar.advance.run r s).Records K (h ++ [(s, .inl c)]) := by
  rw [run_advance]
  cases he : s.phase.end? with
  | none => exact hK.call hk
  | some target =>
    have hm : Moved s (s.passing target 1) := by
      cases hs : s.phase <;> simp_all [Phase.end?] <;> subst he <;> exact ⟨rfl, rfl⟩
    dsimp only
    split
    · refine ⟨hK.move hk (hc _ _ he) hm, fun h' r' t hk => ?_⟩
      -- the toast comes after the listeners of the move
      dsimp only
      split
      · exact hK.showToast r' hk
      · exact hk
    · exact hK.stay (hK.call hk) rfl rfl

/-- Every call of the sidebar keeps it, as long as the listeners do. -/
theorem records (hK : Followed K) (c : Call) (hk : K h s) :
    (c.run.run r s).Records K (h ++ [(s, .inl c)]) := by
  have hends (p q : Phase) (he : p.end? = some q) :
      p = .collapsing ∧ q = .collapsed ∨ p = .expanding ∧ q = .expanded := by
    cases p <;> simp_all [Phase.end?]
  cases c with
  | collapse byContent => exact hK.collapse r hk fun _ => ⟨rfl, rfl⟩
  | expand => exact hK.expand r hk fun _ => ⟨rfl, rfl⟩
  | flip =>
    change (flip.run r s).Records K _
    rw [run_flip]
    split
    · exact hK.collapse r hk fun _ => .inl ⟨rfl, rfl⟩
    · split
      · exact hK.expand r hk fun _ => .inr ⟨rfl, rfl⟩
      · exact hK.call hk
  | shut =>
    change (shut.run r s).Records K _
    rw [run_shut]
    split
    · -- in silence, where the sidebar is collapsed already
      next hi =>
      have hs : s.phase = .collapsed := of_decide_eq_true hi
      exact hK.stay (hK.call hk) hs.symm rfl
    · next hi =>
      have hs : s.phase ≠ .collapsed := of_decide_eq_false (Bool.eq_false_iff.2 hi)
      exact ⟨hK.move hk ⟨hs, rfl⟩ ⟨rfl, rfl⟩, fun _ _ _ hk => hk⟩
  | advance => exact hK.advance r hk hends
  | fadeToast =>
    change (fadeToast.run r s).Records K _
    obtain ⟨toast, ht⟩ := s.faded_eq r.now
    rw [run_fadeToast, ht]
    exact hK.stay (hK.call hk) rfl rfl
  | tick =>
    change (tick.run r s).Records K _
    rw [run_tick]
    refine Step.Records.bind (hK.advance r hk hends) fun _ h r s hk => ?_
    -- what comes after the update leaves the phase alone, and what is put by
    obtain ⟨toast, ht⟩ := s.faded_eq r.now
    obtain ⟨wave, hw⟩ := (s.faded r.now).waved_eq r.now
    rw [Step.Records, hw, ht]
    exact hK.stay hk rfl rfl

end Followed

/-- The history leads to the phase of the state. -/
def Tracks (h : List (State α × (Call ⊕ Event))) (s : State α) : Prop := Traced h s.phase

omit [Scalar α] in
theorem followed_tracks : Followed (Tracks (α := α)) where
  call hk := Traced.of_no_move hk nofun
  stay hk ht _ := by rwa [Tracks, ht]
  toast hk := Traced.of_no_move hk nofun
  move hk hc _ := Traced.moved hk hc

/-- While the sidebar moves, a request is over before anything has happened. -/
theorem run_of_isRequest {c : Call} (hc : c.isRequest) (r : Env α) {s : State α}
    (hs : s.isMoving) :
    c.run.run r s = .done s () ∨ c.run.run r s = .say s .pinned (.done s ()) := by
  have ho : s.isOut = false := by
    rw [State.isOut, decide_eq_false_iff_not]
    intro he
    simp [State.isMoving, he, Phase.end?] at hs
  have hi : s.isIn = false := by
    rw [State.isIn, decide_eq_false_iff_not]
    intro he
    simp [State.isMoving, he, Phase.end?] at hs
  cases c with
  | collapse byContent =>
    rw [show (Call.collapse byContent).run.run r s = _ from run_collapse r s byContent, ho]
    split
    · exact .inr rfl
    · exact .inl rfl
  | expand => exact .inl ((run_expand r s).trans (by rw [hi]; rfl))
  | flip => exact .inl ((run_flip r s).trans (by rw [ho, hi]; rfl))
  | _ => simp [Call.isRequest] at hc

theorem writes_request {c : Call} (hc : c.isRequest) (r : Env α) {s : State α} (hs : s.isMoving)
    {d : List (State α × (Call ⊕ Event))} {t : State α} :
    Step.Writes Call.run (c.run.run r s) d t () ↔ d = [] ∧ t = s := by
  rcases run_of_isRequest hc r hs with h | h
  · rw [h]
    constructor
    · rintro ⟨⟩
      exact ⟨rfl, rfl⟩
    · rintro ⟨rfl, rfl⟩
      exact .done
  · rw [h]
    constructor
    · rintro (_ | ⟨⟨⟩⟩)
      exact ⟨rfl, rfl⟩
    · rintro ⟨rfl, rfl⟩
      exact .say .done

/-- At every moment of a run, whatever listeners ask for: the moves told so far lead from the start
to the phase that the sidebar is in, each from where the one before has ended; each is one that its
call may make, told right after that call; where nobody calls what may bring the sidebar to rest, it
leaves its rest once at most; and while it moves a request tells nothing and changes nothing. -/
theorem moves_linked {h : List (State α × (Call ⊕ Event))} {g : State α}
    (m : Moment Call.run State.initial h g) :
    Linked .collapsed (moves h) g.phase ∧
    History.Always ToldAtOnce h ∧
    (∀ l, l <:+: h → Undisturbed l → starts l ≤ 1) ∧
    (g.isMoving → ∀ c : Call, c.isRequest → ∀ r d t,
      Step.Writes Call.run (c.run.run r g) d t () ↔ d = [] ∧ t = g) := by
  have hk : Tracks h g := m.holds traced_nil fun c h r s hk => followed_tracks.records r c hk
  refine ⟨hk.linked, hk.told, hk.once, ?_⟩
  intro hg c hc r d t
  exact writes_request hc r hg

/-- Surroundings in which every phase is over at once. -/
def hasty : Env Rat := ⟨0, { pinned := false, verbose := false, slideMs := 0, swipePx := 0 }⟩

def leaving : State Rat :=
  { (State.initial : State Rat) with wave := Wave.initial.restart 0 }.entering .expanding 0

def out : State Rat := leaving.passing .expanded 1

def returning : State Rat := { out with stored := out.wave.phases }.entering .collapsing 0

/-- A listener that hears of the expansion ends it, and one that hears of that end asks for a
collapse. -/
def hurried : List (State Rat × (Call ⊕ Event)) :=
  [(State.initial, .inl .expand), (leaving, .inr (.moved .collapsed .expanding)),
    (leaving, .inl .advance), (out, .inr (.moved .expanding .expanded)),
    (out, .inl (.collapse false)), (returning, .inr (.moved .expanded .collapsing))]

theorem diary_hurried : Diary Call.run State.initial hurried returning := by
  have collapsed : Step.Writes Call.run ((Call.collapse false).run.run hasty out)
      [(returning, .inr (.moved .expanded .collapsing))] returning () :=
    .say (.announce (r := hasty) .nil .done)
  have elapsed : 1 ≤ progressAt hasty.settings.slideMs leaving.since hasty.now := by decide
  have ended : Step.Writes Call.run (Call.advance.run.run hasty leaving)
      ((out, .inr (.moved .expanding .expanded)) :: (out, .inl (.collapse false)) ::
        [(returning, .inr (.moved .expanded .collapsing))]) returning () := by
    rw [show Call.advance.run.run hasty leaving = _ from run_advance hasty leaving]
    exact .say (.announce (r := hasty) (.cons (r := hasty) collapsed .nil) .done)
  have heard : Diary Call.run leaving (hurried.drop 2) returning :=
    .cons (r := hasty) (c := Call.advance) ended .nil
  have expanded : Step.Writes Call.run ((Call.expand.run (α := Rat)).run hasty State.initial)
      ((leaving, .inr (.moved .collapsed .expanding)) :: hurried.drop 2 ++ []) returning () :=
    .say (.announce (r := hasty) heard .done)
  exact .cons (r := hasty) (c := Call.expand) expanded .nil

theorem moves_linked_hurried :
    Moment Call.run State.initial hurried returning ∧
    Linked .collapsed (moves hurried) .collapsing ∧ starts (hurried.drop 3) = 1 := by
  have m : Moment Call.run State.initial hurried returning :=
    ⟨hurried, returning, diary_hurried, .later (.later (.later (.later (.later .event))))⟩
  exact ⟨m, (moves_linked m).1, by decide⟩

end HandheldUI.Sidebar
