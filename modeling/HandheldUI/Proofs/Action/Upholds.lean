import HandheldUI.Action.Quiet

/-! Invariants without listeners that call back, together with what an action remarks on while it
can rely on them. -/

namespace HandheldUI.Action

variable {ρ σ ε ω α β : Type}

/-- Started with `I`, the action ends with it, and it remarks on nothing but what `P` allows. -/
def Upholds (I : σ → Prop) (P : ω → Prop) (x : Action ρ σ ε ω α) : Prop :=
  ∀ r s, I s → I (x.quiet r s).state ∧ ∀ o, .inr o ∈ (x.quiet r s).out → P o

namespace Upholds

variable {I : σ → Prop} {P : ω → Prop} {x y : Action ρ σ ε ω α} {f : α → Action ρ σ ε ω β}

/-- An action that does not speak. -/
theorem of_silent (hs : ∀ r s, I s → I (x.quiet r s).state) (ho : ∀ r s, (x.quiet r s).out = []) :
    Upholds I P x := by
  intro r s h
  refine ⟨hs r s h, ?_⟩
  simp [ho r s]

theorem pure (a : α) : Upholds I P (pure a : Action ρ σ ε ω α) :=
  of_silent (fun _ _ h => h) fun _ _ => rfl

theorem read : Upholds I P (read : Action ρ σ ε ω ρ) := of_silent (fun _ _ h => h) fun _ _ => rfl

theorem get : Upholds I P (get : Action ρ σ ε ω σ) := of_silent (fun _ _ h => h) fun _ _ => rfl

theorem modify {g : σ → σ} (h : ∀ s, I s → I (g s)) :
    Upholds I P (modify g : Action ρ σ ε ω Unit) :=
  of_silent (fun _ s hs => h s hs) fun _ _ => rfl

theorem say {o : ω} (h : P o) : Upholds I P (say o : Action ρ σ ε ω Unit) := by
  intro r s hs
  refine ⟨hs, fun o' ho => ?_⟩
  obtain rfl : o' = o := by simpa using ho
  exact h

theorem announce (e : ε) : Upholds I P (announce e : Action ρ σ ε ω Unit) := by
  intro r s hs
  exact ⟨hs, by simp⟩

theorem ite {c : Prop} [Decidable c] (hx : c → Upholds I P x) (hy : Upholds I P y) :
    Upholds I P (if c then x else y) := by
  split
  · exact hx ‹c›
  · exact hy

/-- The rest may rely on what is known of the value. -/
theorem bind_of {Q : α → Prop} (hx : Upholds I P x) (hq : ∀ r s, I s → Q (x.quiet r s).value)
    (hf : ∀ a, Q a → Upholds I P (f a)) : Upholds I P (x >>= f) := by
  intro r s hs
  obtain ⟨ht, hp⟩ := hx r s hs
  obtain ⟨hu, hp'⟩ := hf _ (hq r s hs) r _ ht
  rw [quiet_bind]
  refine ⟨hu, fun o ho => ?_⟩
  rcases List.mem_append.1 ho with ho | ho
  · exact hp o ho
  · exact hp' o ho

theorem bind (hx : Upholds I P x) (hf : ∀ a, Upholds I P (f a)) : Upholds I P (x >>= f) :=
  hx.bind_of (Q := fun _ => True) (fun _ _ _ => trivial) fun a _ => hf a

end Upholds

end HandheldUI.Action
