import Mathlib.Order.Defs.Unbundled
import HandheldUI.Action

/-! The diary of a run whose listeners make calls: each call with the state in which it begins, and
each event with the state at it, in the order in which they happen. A call that a listener makes
begins after the event and ends before the next entry of the action that announced it. -/

namespace HandheldUI

variable {ρ σ ε ω β κ : Type}

mutual

/-- The step ends in a state and a value, its listeners making calls; the diary has all that
happens on the way. -/
inductive Step.Writes (call : κ → Action ρ σ ε ω β) :
    {α : Type} → Step ρ σ ε ω α → List (σ × (κ ⊕ ε)) → σ → α → Prop where
  | done {α : Type} {s : σ} {a : α} : Step.Writes call (.done s a) [] s a
  | say {α : Type} {s t : σ} {o : ω} {rest : Step ρ σ ε ω α} {d : List (σ × (κ ⊕ ε))} {a : α} :
    Step.Writes call rest d t a → Step.Writes call (.say s o rest) d t a
  | announce {α : Type} {s u t : σ} {e : ε} {next : ρ → σ → Step ρ σ ε ω α} {r : ρ}
      {inner outer : List (σ × (κ ⊕ ε))} {a : α} :
    Diary call s inner u → Step.Writes call (next r u) outer t a →
      Step.Writes call (.announce s e next) ((s, .inr e) :: inner ++ outer) t a

/-- Calls one after the other lead from one state to another. -/
inductive Diary (call : κ → Action ρ σ ε ω β) : σ → List (σ × (κ ⊕ ε)) → σ → Prop where
  | nil {s : σ} : Diary call s [] s
  | cons {s u t : σ} {r : ρ} {c : κ} {b : β} {first rest : List (σ × (κ ⊕ ε))} :
    Step.Writes call ((call c).run r s) first u b → Diary call u rest t →
      Diary call s ((s, .inl c) :: first ++ rest) t

end

variable {α : Type}

/-- The step comes to a state of `Q` and goes on along `R` from there, and its own events are among
`F`, as long as the listeners go along `R` too. -/
def Step.Along (R : σ → σ → Prop) (F : σ → ε → Prop) : (σ → Prop) → Step ρ σ ε ω α → Prop
  | Q, done t _ => Q t
  | Q, say _ _ rest => rest.Along R F Q
  | Q, announce t e next => Q t ∧ F t e ∧ ∀ r u, R t u → (next r u).Along R F (R u)

/-- The step has `n` events of the kind `p` of its own, whatever the listeners do. -/
def Step.Owes (p : ε → Bool) : Nat → Step ρ σ ε ω α → Prop
  | n, done _ _ => n = 0
  | n, say _ _ rest => rest.Owes p n
  | n, announce _ e next => ∃ k, n = k + (p e).toNat ∧ ∀ r t, (next r t).Owes p k

variable {call : κ → Action ρ σ ε ω β}

section Along

variable {R : σ → σ → Prop} {F : σ → ε → Prop} {G : σ → κ → σ → Prop} {I Q Q' : σ → Prop}

theorem Step.Along.mono {x : Step ρ σ ε ω α} (h : ∀ t, Q t → Q' t) (hx : x.Along R F Q) :
    x.Along R F Q' := by
  induction x with
  | done t a => exact h t hx
  | say _ _ rest ih => exact ih hx
  | announce t e next => exact ⟨h t hx.1, hx.2⟩

theorem Step.Along.say {s : σ} {o : ω} {rest : Step ρ σ ε ω α} (h : rest.Along R F Q) :
    (Step.say s o rest).Along R F Q := h

/-- What is true of every state after an entry. -/
def Follows (R : σ → σ → Prop) (G : σ → κ → σ → Prop) (y : σ × (κ ⊕ ε)) (t : σ) : Prop :=
  match y.2 with
  | .inl c => G y.1 c t
  | .inr _ => R y.1 t

theorem Follows.of_call {y : σ × (κ ⊕ ε)} {c : κ} {t : σ} (h : Follows R G y t)
    (hy : y.2 = .inl c) : G y.1 c t := by
  rwa [Follows, hy] at h

theorem Follows.of_event {y : σ × (κ ⊕ ε)} {e : ε} {t : σ} (h : Follows R G y t)
    (hy : y.2 = .inr e) : R y.1 t := by
  rwa [Follows, hy] at h

/-- The states of a diary and its end are of `Q`, and each entry tells on all that follow. -/
structure Unfolds (R : σ → σ → Prop) (F : σ → ε → Prop) (G : σ → κ → σ → Prop) (Q : σ → Prop)
    (d : List (σ × (κ ⊕ ε))) (t : σ) : Prop where
  ends : Q t
  states : ∀ y ∈ d, Q y.1
  ordered : d.Pairwise fun y z => Follows R G y z.1
  lasts : ∀ y ∈ d, Follows R G y t
  events : ∀ y ∈ d, ∀ e, y.2 = .inr e → F y.1 e

namespace Unfolds

variable {d d' : List (σ × (κ ⊕ ε))} {t u : σ}

theorem nil (ht : Q t) : Unfolds R F G Q [] t :=
  ⟨ht, by simp, .nil, by simp, by simp⟩

theorem cons {y : σ × (κ ⊕ ε)} (hy : Q y.1) (he : ∀ e, y.2 = .inr e → F y.1 e)
    (hQ : ∀ t, Follows R G y t → Q t) (h : Unfolds R F G (Follows R G y) d t) :
    Unfolds R F G Q (y :: d) t where
  ends := hQ t h.ends
  states := List.forall_mem_cons.2 ⟨hy, fun z hz => hQ z.1 (h.states z hz)⟩
  ordered := List.pairwise_cons.2 ⟨h.states, h.ordered⟩
  lasts := List.forall_mem_cons.2 ⟨h.ends, h.lasts⟩
  events := List.forall_mem_cons.2 ⟨he, h.events⟩

theorem append [IsTrans σ R] (hQ : ∀ t u, Q t → R t u → Q u)
    (hG : ∀ s c t u, G s c t → R t u → G s c u) (h : Unfolds R F G Q d u)
    (h' : Unfolds R F G (R u) d' t) : Unfolds R F G Q (d ++ d') t := by
  have follows (y : σ × (κ ⊕ ε)) (v : σ) (hy : Follows R G y u) (hv : R u v) :
      Follows R G y v := by
    obtain ⟨s, c | e⟩ := y
    · exact hG s c u v hy hv
    · exact IsTrans.trans s u v hy hv
  constructor
  · exact hQ u t h.ends h'.ends
  · exact List.forall_mem_append.2 ⟨h.states, fun y hy => hQ u y.1 h.ends (h'.states y hy)⟩
  · refine List.pairwise_append.2 ⟨h.ordered, h'.ordered, fun y hy z hz => ?_⟩
    exact follows y z.1 (h.lasts y hy) (h'.states z hz)
  · exact List.forall_mem_append.2 ⟨fun y hy => follows y t (h.lasts y hy) h'.ends, h'.lasts⟩
  · exact List.forall_mem_append.2 ⟨h.events, h'.events⟩

end Unfolds

variable [IsPreorder σ R]

mutual

theorem Step.Writes.unfolds (hI : ∀ s t, I s → R s t → I t)
    (hG : ∀ s c t, I s → G s c t → R s t) (hGR : ∀ s c t u, G s c t → R t u → G s c u)
    (h : ∀ c r s, I s → ((call c).run r s).Along R F (G s c)) {α : Type} {x : Step ρ σ ε ω α}
    {d : List (σ × (κ ⊕ ε))} {t : σ} {a : α} {Q : σ → Prop} (run : Step.Writes call x d t a)
    (hx : x.Along R F Q) (hQ : ∀ t u, Q t → R t u → Q u) (hQI : ∀ t, Q t → I t) :
    Unfolds R F G Q d t :=
  match run with
  | .done => .nil hx
  | .say run => run.unfolds hI hG hGR h hx hQ hQI
  | .announce (s := s) (u := u) (e := e) first rest => by
    obtain ⟨hs, he, hnext⟩ := hx
    have hin := first.unfolds hI hG hGR h (hQI s hs)
    -- the listeners go along `R`, and so the rest of the step is known from where they end
    have hu : R s u := hin.ends
    have hout := rest.unfolds hI hG hGR h (hnext _ u hu) (fun _ _ => IsTrans.trans _ _ _)
      fun v => hI u v (hI s u (hQI s hs) hu)
    have hrest := hin.append (fun _ _ => IsTrans.trans _ _ _) hGR hout
    refine .cons hs ?_ (fun v hv => hQ s v hs hv) hrest
    intro f hf
    obtain rfl := Sum.inr.inj hf
    exact he

/-- Where every call goes along `R` as long as its listeners do, the whole run does, the states
after a call are what `G` says of it, and the events are those that the calls may have. -/
theorem Diary.unfolds (hI : ∀ s t, I s → R s t → I t)
    (hG : ∀ s c t, I s → G s c t → R s t) (hGR : ∀ s c t u, G s c t → R t u → G s c u)
    (h : ∀ c r s, I s → ((call c).run r s).Along R F (G s c))
    {d : List (σ × (κ ⊕ ε))} {s t : σ} (run : Diary call s d t) (hs : I s) :
    Unfolds R F G (R s) d t :=
  match run with
  | .nil => .nil (refl s)
  | .cons (u := u) (r := r) (c := c) first rest => by
    have hc (v : σ) (hv : G s c v) : R s v := hG s c v hs hv
    have hin := first.unfolds hI hG hGR h (h c r s hs) (hGR s c) fun v hv => hI s v hs (hc v hv)
    have hout := rest.unfolds hI hG hGR h (hI s u hs (hc u hin.ends))
    exact .cons (refl s) nofun hc (hin.append (hGR s c) hGR hout)

end

end Along

section Owes

variable {I : σ → Prop} {p : ε → Bool} {q : σ → κ → Bool}

/-- The entry is an event of the kind `p`. -/
def isEvent (p : ε → Bool) (y : σ × (κ ⊕ ε)) : Bool := y.2.elim (fun _ => false) p

/-- The entry is a call that begins in a state where `q` tells it from others. -/
def isCall (q : σ → κ → Bool) (y : σ × (κ ⊕ ε)) : Bool := y.2.elim (q y.1) fun _ => false

theorem isEvent_iff {y : σ × (κ ⊕ ε)} : isEvent p y ↔ ∃ e, y.2 = .inr e ∧ p e := by
  obtain ⟨s, c | e⟩ := y <;> simp [isEvent]

theorem isCall_iff {y : σ × (κ ⊕ ε)} : isCall q y ↔ ∃ c, y.2 = .inl c ∧ q y.1 c := by
  obtain ⟨s, c | e⟩ := y <;> simp [isCall]

mutual

theorem Step.Writes.countP_isEvent (h : ∀ c r s, I s → ((call c).run r s).Owes p (q s c).toNat)
    {α : Type} {x : Step ρ σ ε ω α} {n : Nat} {d : List (σ × (κ ⊕ ε))} {t : σ} {a : α}
    (run : Step.Writes call x d t a) (hx : x.Owes p n) (hd : ∀ y ∈ d, I y.1) :
    d.countP (isEvent p) = d.countP (isCall q) + n :=
  match run with
  | .done => by
    obtain rfl : n = 0 := hx
    rfl
  | .say run => run.countP_isEvent h hx hd
  | .announce (e := e) first rest => by
    obtain ⟨k, rfl, hnext⟩ := hx
    -- the listeners' calls have as many of these events as they are, and this step one more
    have hin := first.countP_isEvent h fun y hy => hd y (by simp [hy])
    have hout := rest.countP_isEvent h (hnext _ _) fun y hy => hd y (by simp [hy])
    rw [List.countP_append, List.countP_append, List.countP_cons, List.countP_cons, hin, hout]
    cases he : p e <;> simp [isEvent, isCall, he] <;> omega

/-- Where every call in a state that `q` tells from others has one event of the kind `p` of its own,
and every other call none, there are as many such events as such calls. -/
theorem Diary.countP_isEvent (h : ∀ c r s, I s → ((call c).run r s).Owes p (q s c).toNat)
    {d : List (σ × (κ ⊕ ε))} {s t : σ} (run : Diary call s d t) (hd : ∀ y ∈ d, I y.1) :
    d.countP (isEvent p) = d.countP (isCall q) :=
  match run with
  | .nil => rfl
  | .cons (r := r) (c := c) first rest => by
    have hs : I s := hd (s, .inl c) (by simp)
    have hin := first.countP_isEvent h (h c r s hs) fun y hy => hd y (by simp [hy])
    have hout := rest.countP_isEvent h fun y hy => hd y (by simp [hy])
    rw [List.countP_append, List.countP_append, List.countP_cons, List.countP_cons, hin, hout]
    cases hq : q s c <;> simp [isEvent, isCall, hq]

end

end Owes

section Does

/-- What a step does of its own: its events, each with how the listeners have left things, and its
remarks. Nothing is asked of the listeners. -/
inductive Step.Does : Step ρ σ ε ω α → List ((ε × ρ × σ) ⊕ ω) → σ → α → Prop where
  | done {s : σ} {a : α} : Step.Does (.done s a) [] s a
  | say {s t : σ} {o : ω} {rest : Step ρ σ ε ω α} {own : List ((ε × ρ × σ) ⊕ ω)} {a : α} :
    Step.Does rest own t a → Step.Does (.say s o rest) (.inr o :: own) t a
  | announce {s u t : σ} {e : ε} {next : ρ → σ → Step ρ σ ε ω α} {r : ρ}
      {own : List ((ε × ρ × σ) ⊕ ω)} {a : α} :
    Step.Does (next r u) own t a → Step.Does (.announce s e next) (.inl (e, r, u) :: own) t a

def ownEvents (own : List ((ε × ρ × σ) ⊕ ω)) : List ε :=
  own.filterMap fun y => y.getLeft?.map (·.1)

def writtenEvents (d : List (σ × (κ ⊕ ε))) : List ε := d.filterMap fun y => y.2.getRight?

section

variable (h : List (σ × (κ ⊕ ε))) (s : σ)

@[simp] theorem writtenEvents_concat_call (c : κ) :
    writtenEvents (h ++ [(s, .inl c)]) = writtenEvents h := by
  simp [writtenEvents]

@[simp] theorem writtenEvents_concat_event (e : ε) :
    writtenEvents (h ++ [(s, .inr e)]) = writtenEvents h ++ [e] := by
  simp [writtenEvents]

end

/-- Listeners that make calls leave things in some way, and what they write comes between. -/
theorem Step.Writes.does {x : Step ρ σ ε ω α} {d : List (σ × (κ ⊕ ε))} {t : σ} {a : α}
    (run : Step.Writes call x d t a) :
    ∃ own, Step.Does x own t a ∧ (ownEvents own).Sublist (writtenEvents d) :=
  match run with
  | .done => ⟨[], .done, .slnil⟩
  | .say run => by
    obtain ⟨own, h, hs⟩ := run.does
    exact ⟨_, .say h, hs⟩
  | .announce (s := s) (e := e) _ rest => by
    obtain ⟨own, h, hs⟩ := rest.does
    refine ⟨_, .announce h, ?_⟩
    have hw (d d' : List (σ × (κ ⊕ ε))) : writtenEvents ((s, .inr e) :: d ++ d') =
        e :: (writtenEvents d ++ writtenEvents d') := congrArg (e :: ·) List.filterMap_append
    rw [hw]
    exact (hs.trans (List.sublist_append_right _ _)).cons_cons e

/-- The step's own writes leave what `f` reads as it was, or as the listeners have left it. -/
def Step.Spares {γ : Type} (f : σ → γ) : σ → Step ρ σ ε ω α → Prop
  | s, done t _ => f t = f s
  | s, say t _ rest => f t = f s ∧ rest.Spares f t
  | s, announce t _ next => f t = f s ∧ ∀ r u, (next r u).Spares f u

end Does

end HandheldUI
