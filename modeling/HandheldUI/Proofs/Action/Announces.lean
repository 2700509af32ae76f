import HandheldUI.Proofs.Action.Quiet

/-! Which events an action can announce when no listener calls back. -/

namespace HandheldUI.Action

variable {ρ ρ' σ σ' ε ε' ω ω' α β : Type}

/-- Wherever it starts, the action announces nothing but what `E` allows. -/
def Announces (E : ε → Prop) (x : Action ρ σ ε ω α) : Prop :=
  ∀ r s, ∀ e ∈ (x.quiet r s).events, E e

namespace Announces

variable {E : ε → Prop} {x y : Action ρ σ ε ω α} {f : α → Action ρ σ ε ω β}

theorem pure (a : α) : Announces E (pure a : Action ρ σ ε ω α) := by
  intro r s e he
  simp at he

theorem get : Announces E (get : Action ρ σ ε ω σ) := by
  intro r s e he
  simp at he

theorem modify (g : σ → σ) : Announces E (modify g : Action ρ σ ε ω Unit) := by
  intro r s e he
  simp at he

theorem say (o : ω) : Announces E (say o : Action ρ σ ε ω Unit) := by
  intro r s e he
  simp at he

theorem announce {e : ε} (h : E e) : Announces E (announce e : Action ρ σ ε ω Unit) := by
  intro r s e' he
  obtain rfl : e' = e := by simpa using he
  exact h

theorem ite {c : Prop} [Decidable c] (hx : Announces E x) (hy : Announces E y) :
    Announces E (if c then x else y) := by
  split
  · exact hx
  · exact hy

theorem bind (hx : Announces E x) (hf : ∀ a, Announces E (f a)) : Announces E (x >>= f) := by
  intro r s e he
  rw [quiet_bind, Outcome.events_after, Outcome.filterMap_out, List.mem_append] at he
  exact he.elim (hx r s e) (hf _ r _ e)

end Announces

end HandheldUI.Action
