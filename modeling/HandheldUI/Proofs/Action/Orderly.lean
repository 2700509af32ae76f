import HandheldUI.Action.Listeners
import HandheldUI.Proofs.Action.Diary

/-! Listeners that leave a state fit for the call that waits for them. What they may do is the same
as before; what counts is the state at their return, judged by the call and by the event. A call in
the middle of its work may owe something, so that an invariant is kept with a debt that grows at
some events and is paid by the time the call goes on. -/

namespace HandheldUI

variable {ρ σ ε ω β κ : Type}

mutual

/-- The step of a call ends in a state and a value, its listeners making calls. They leave a fit
state at every event. -/
inductive Step.EndsFit (admits : ρ → Prop) (fits : κ → ε → σ → Prop) (call : κ → Action ρ σ ε ω β) :
    κ → {α : Type} → Step ρ σ ε ω α → List (σ × ε) → σ → α → Prop where
  | done {c : κ} {α : Type} {s : σ} {a : α} : Step.EndsFit admits fits call c (.done s a) [] s a
  | say {c : κ} {α : Type} {s : σ} {o : ω} {rest : Step ρ σ ε ω α} {trace : List (σ × ε)} {t : σ}
      {a : α} :
    Step.EndsFit admits fits call c rest trace t a →
      Step.EndsFit admits fits call c (.say s o rest) trace t a
  | announce {c : κ} {α : Type} {s : σ} {e : ε} {next : ρ → σ → Step ρ σ ε ω α} {r : ρ}
      {inner outer : List (σ × ε)} {u t : σ} {a : α} :
    FitCalls admits fits call s inner u → fits c e u → admits r →
      Step.EndsFit admits fits call c (next r u) outer t a →
      Step.EndsFit admits fits call c (.announce s e next) ((s, e) :: inner ++ outer) t a

/-- Calls one after the other lead from one state to another, and the listeners of each leave a fit
state at every event. -/
inductive FitCalls (admits : ρ → Prop) (fits : κ → ε → σ → Prop) (call : κ → Action ρ σ ε ω β) :
    σ → List (σ × ε) → σ → Prop where
  | nil {s : σ} : FitCalls admits fits call s [] s
  | cons {s t u : σ} {r : ρ} {c : κ} {b : β} {first rest : List (σ × ε)} :
    admits r → Step.EndsFit admits fits call c ((call c).run r s) first u b →
      FitCalls admits fits call u rest t → FitCalls admits fits call s (first ++ rest) t

end

variable {admits : ρ → Prop} {fits : κ → ε → σ → Prop} {call : κ → Action ρ σ ε ω β} {α : Type}

mutual

theorem Step.EndsFit.ends {α : Type} {c : κ} {x : Step ρ σ ε ω α} {trace : List (σ × ε)} {t : σ}
    {a : α} (run : Step.EndsFit admits fits call c x trace t a) :
    Step.Ends admits call x trace t a :=
  match run with
  | .done => .done
  | .say run => .say run.ends
  | .announce inner _ hr outer => .announce inner.calls hr outer.ends

/-- Such calls are calls. -/
theorem FitCalls.calls {s t : σ} {trace : List (σ × ε)}
    (run : FitCalls admits fits call s trace t) : Calls admits call s trace t :=
  match run with
  | .nil => .nil
  | .cons hr first rest => .cons hr first.ends rest.calls

end

mutual

theorem Step.Writes.endsFit (hf : ∀ c e s, fits c e s) {α : Type} {x : Step ρ σ ε ω α}
    {d : List (σ × (κ ⊕ ε))} {t : σ} {a : α} (run : Step.Writes call x d t a) (c : κ) :
    ∃ trace, Step.EndsFit (fun _ => True) fits call c x trace t a :=
  match run with
  | .done => ⟨_, .done⟩
  | .say run => by
    obtain ⟨trace, h⟩ := run.endsFit hf c
    exact ⟨trace, .say h⟩
  | .announce first rest => by
    obtain ⟨inner, hin⟩ := first.fitCalls hf
    obtain ⟨outer, hout⟩ := rest.endsFit hf c
    exact ⟨_, .announce hin (hf _ _ _) trivial hout⟩

/-- Where every state is fit, all calls are such calls. -/
theorem Diary.fitCalls (hf : ∀ c e s, fits c e s) {d : List (σ × (κ ⊕ ε))} {s t : σ}
    (run : Diary call s d t) : ∃ trace, FitCalls (fun _ => True) fits call s trace t :=
  match run with
  | .nil => ⟨_, .nil⟩
  | .cons first rest => by
    obtain ⟨inner, hin⟩ := first.endsFit hf _
    obtain ⟨outer, hout⟩ := rest.fitCalls hf
    exact ⟨_, .cons trivial hin hout⟩

end

variable {γ : Type}

/-- At its next event, or else at its end, the step has `I` with the debt `k`, to which the event
adds. -/
def Step.Meets (owes : ε → γ → γ) (I : γ → σ → Prop) (k : γ) : Step ρ σ ε ω α → Prop
  | done s _ => I k s
  | say _ _ rest => rest.Meets owes I k
  | announce s e _ => I (owes e k) s

/-- The step has `I` at each announcement and at its end as long as the listeners keep it and leave
a fit state, and it is the fit states after which it goes on to have it. -/
def Step.KeepsIff (admits : ρ → Prop) (fits : ε → σ → Prop) (owes : ε → γ → γ) (I : γ → σ → Prop)
    (k : γ) : Step ρ σ ε ω α → Prop
  | done s _ => I k s
  | say _ _ rest => rest.KeepsIff admits fits owes I k
  | announce s e next => I (owes e k) s ∧ ∀ r t, admits r → I (owes e k) t →
      (fits e t ↔ (next r t).Meets owes I k) ∧
      (fits e t → (next r t).KeepsIff admits fits owes I k)

variable {owes : ε → γ → γ} {I : γ → σ → Prop}

theorem Step.KeepsIff.say {fits : ε → σ → Prop} {k : γ} {s : σ} {o : ω} {rest : Step ρ σ ε ω α}
    (h : rest.KeepsIff admits fits owes I k) :
    (Step.say s o rest).KeepsIff admits fits owes I k := h

/-- A report at the end of a call, which asks nothing of the listeners. -/
theorem Step.KeepsIff.report {fits : ε → σ → Prop} {k : γ} {s : σ} {o : ω} {e : ε} {g : σ → σ}
    {a : α} (hs : I k s) (he : owes e k = k) (hf : ∀ t, fits e t) (hg : ∀ t, I k t → I k (g t)) :
    (.say s o (announce s e fun _ t => done (g t) a) : Step ρ σ ε ω α).KeepsIff
      admits fits owes I k := by
  change I (owes e k) s ∧ ∀ r t, admits r → I (owes e k) t →
    (fits e t ↔ I k (g t)) ∧ (fits e t → I k (g t))
  rw [he]
  refine ⟨hs, fun _ t _ ht => ?_⟩
  exact ⟨iff_of_true (hf t) (hg t ht), fun _ => hg t ht⟩

/-- A request in the middle of a call: the fit states are those in which the call has `I` next. -/
theorem Step.KeepsIff.request {fits : ε → σ → Prop} {k : γ} {s : σ} {e : ε}
    {next : ρ → σ → Step ρ σ ε ω α} (hs : I (owes e k) s)
    (hf : ∀ r t, I (owes e k) t → (fits e t ↔ (next r t).Meets owes I k))
    (hn : ∀ r t, (next r t).Meets owes I k → (next r t).KeepsIff admits fits owes I k) :
    (announce s e next).KeepsIff admits fits owes I k := by
  refine ⟨hs, fun r t _ ht => ⟨hf r t ht, fun h => ?_⟩⟩
  exact hn r t ((hf r t ht).1 h)

mutual

theorem Step.EndsFit.keeps
    (h : ∀ k c r s, admits r → I k s → ((call c).run r s).KeepsIff admits (fits c) owes I k)
    {α : Type} {c : κ} {k : γ} {x : Step ρ σ ε ω α} {trace : List (σ × ε)} {t : σ} {a : α}
    (run : Step.EndsFit admits fits call c x trace t a) (hx : x.KeepsIff admits (fits c) owes I k) :
    I k t :=
  match run with
  | .done => hx
  | .say run => run.keeps h hx
  | .announce inner hu hr outer => by
    -- the listeners start and end with the debt of the event, which a fit state pays
    have hI := inner.keeps h hx.1
    exact outer.keeps h ((hx.2 _ _ hr hI).2 hu)

/-- What every call keeps if its listeners leave fit states holds after all calls, at any depth of
nesting with the debt of the calls that wait. -/
theorem FitCalls.keeps
    (h : ∀ k c r s, admits r → I k s → ((call c).run r s).KeepsIff admits (fits c) owes I k)
    {k : γ} {s t : σ} {trace : List (σ × ε)} (run : FitCalls admits fits call s trace t)
    (hs : I k s) : I k t :=
  match run with
  | .nil => hs
  | .cons hr first rest => by
    have hu := first.keeps h (h _ _ _ _ hr hs)
    exact rest.keeps h hu

end

@[simp] theorem Action.run_seqRight {α' : Type} (x : Action ρ σ ε ω α) (y : Action ρ σ ε ω α')
    (r : ρ) (s : σ) : (x *> y).run r s = (x.run r s).bind (fun _ => y) r := rfl

end HandheldUI
