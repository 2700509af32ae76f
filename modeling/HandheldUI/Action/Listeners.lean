import HandheldUI.Action

/-!
Actions whose listeners call back. Nothing is known of a listener but which calls it can make; it
may make any number of them, at every announcement, and the listeners of those calls may do the
same. The trace is what a listener sees that was there before all others: each event, with the
state at it.
-/

namespace HandheldUI

variable {ρ σ ε ω β κ : Type}

mutual

/-- The step ends in a state and a value, its listeners making calls, in surroundings that are
admitted. -/
inductive Step.Ends (admits : ρ → Prop) (call : κ → Action ρ σ ε ω β) :
    {α : Type} → Step ρ σ ε ω α → List (σ × ε) → σ → α → Prop where
  | done {α : Type} {s : σ} {a : α} : Step.Ends admits call (.done s a) [] s a
  | say {α : Type} {s : σ} {o : ω} {rest : Step ρ σ ε ω α} {trace : List (σ × ε)} {t : σ} {a : α} :
    Step.Ends admits call rest trace t a → Step.Ends admits call (.say s o rest) trace t a
  | announce {α : Type} {s : σ} {e : ε} {next : ρ → σ → Step ρ σ ε ω α} {r : ρ}
      {inner outer : List (σ × ε)} {u t : σ} {a : α} :
    Calls admits call s inner u → admits r → Step.Ends admits call (next r u) outer t a →
      Step.Ends admits call (.announce s e next) ((s, e) :: inner ++ outer) t a

/-- Calls one after the other lead from one state to another. -/
inductive Calls (admits : ρ → Prop) (call : κ → Action ρ σ ε ω β) :
    σ → List (σ × ε) → σ → Prop where
  | nil {s : σ} : Calls admits call s [] s
  | cons {s t u : σ} {r : ρ} {c : κ} {b : β} {first rest : List (σ × ε)} :
    admits r → Step.Ends admits call ((call c).run r s) first u b → Calls admits call u rest t →
      Calls admits call s (first ++ rest) t

end

variable {α : Type}

/-- The step has `I` at each announcement and at its end, as long as the listeners keep it. -/
def Step.Keeps (admits : ρ → Prop) (I : σ → Prop) : Step ρ σ ε ω α → Prop
  | done s _ => I s
  | say _ _ rest => rest.Keeps admits I
  | announce s _ next => I s ∧ ∀ r t, admits r → I t → (next r t).Keeps admits I

variable {admits : ρ → Prop} {call : κ → Action ρ σ ε ω β} {I : σ → Prop}

mutual

theorem Step.Ends.keeps (h : ∀ c r s, admits r → I s → ((call c).run r s).Keeps admits I) {α : Type}
    {x : Step ρ σ ε ω α} {trace : List (σ × ε)} {t : σ} {a : α}
    (run : Step.Ends admits call x trace t a) (hx : x.Keeps admits I) :
    I t ∧ ∀ p ∈ trace, I p.1 :=
  match run with
  | .done => ⟨hx, by simp⟩
  | .say run => run.keeps h hx
  | .announce (u := u) inner hr outer => by
    have ⟨hu, hin⟩ := inner.keeps h hx.1
    have ⟨ht, hout⟩ := outer.keeps h (hx.2 _ u hr hu)
    refine ⟨ht, fun p hp => ?_⟩
    rcases List.mem_cons.1 hp with rfl | hp
    · exact hx.1
    · exact (List.mem_append.1 hp).elim (hin p) (hout p)

/-- What every call keeps, whatever its listeners do, holds at each event and after all calls. -/
theorem Calls.keeps (h : ∀ c r s, admits r → I s → ((call c).run r s).Keeps admits I)
    {s t : σ} {trace : List (σ × ε)} (run : Calls admits call s trace t) (hs : I s) :
    I t ∧ ∀ p ∈ trace, I p.1 :=
  match run with
  | .nil => ⟨hs, by simp⟩
  | .cons hr first rest => by
    have ⟨hu, h₁⟩ := first.keeps h (h _ _ _ hr hs)
    have ⟨ht, h₂⟩ := rest.keeps h hu
    exact ⟨ht, fun p hp => (List.mem_append.1 hp).elim (h₁ p) (h₂ p)⟩

end

end HandheldUI
