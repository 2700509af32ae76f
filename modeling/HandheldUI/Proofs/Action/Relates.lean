import Mathlib.Order.Defs.Unbundled
import HandheldUI.Proofs.Action.Quiet

/-! What an action does to the state when no listener calls back, as a relation between the state
before and the state after. A relation that is reflexive and transitive passes through every way of
building an action, so a frame condition is checked at the few writes only. -/

namespace HandheldUI.Action

variable {ρ ρ' σ σ' ε ε' ω ω' α β : Type}

/-- Wherever it starts, the action ends in a state that `R` allows. -/
def Relates (R : σ → σ → Prop) (x : Action ρ σ ε ω α) : Prop :=
  ∀ r s, R s (x.quiet r s).state

instance {R : β → β → Prop} [IsPreorder β R] (f : σ → β) : IsPreorder σ (InvImage R f) where
  refl s := refl (f s)
  trans _ _ _ := IsTrans.trans (r := R) _ _ _

/-- The action leaves what `f` reads of the state as it is. -/
abbrev Leaves (f : σ → β) (x : Action ρ σ ε ω α) : Prop := Relates (InvImage Eq f) x

theorem Leaves.within {v : View ρ' σ' ρ σ} {f : σ' → β} {g : ε → ε'} {h : ω → ω'}
    {x : Action ρ σ ε ω α} (hv : ∀ s t, f (v.put s t) = f t) : Leaves f (x.within v g h) := by
  intro r t
  rw [quiet_within]
  exact (hv _ t).symm

theorem Leaves.relates {R : β → β → Prop} [IsPreorder β R] {f : σ → β} {x : Action ρ σ ε ω α}
    (h : Leaves f x) : Relates (InvImage R f) x := by
  intro r s
  rw [InvImage, ← (h r s : f s = _)]
  exact refl _

namespace Relates

variable {R : σ → σ → Prop} {x y : Action ρ σ ε ω α} {f : α → Action ρ σ ε ω β}

theorem mono {R' : σ → σ → Prop} (h : ∀ s t, R s t → R' s t) (hx : Relates R x) :
    Relates R' x :=
  fun r s => h _ _ (hx r s)

theorem modify {g : σ → σ} (h : ∀ s, R s (g s)) :
    Relates R (modify g : Action ρ σ ε ω Unit) :=
  fun _ s => h s

theorem ite {c : Prop} [Decidable c] (hx : Relates R x) (hy : Relates R y) :
    Relates R (if c then x else y) := by
  split
  · exact hx
  · exact hy

/-- The action of a part, if what `R` allows for the part is allowed for the whole. -/
theorem within {v : View ρ' σ' ρ σ} {R' : σ' → σ' → Prop} {g : ε → ε'} {h : ω → ω'}
    (hx : Relates R x) (hv : ∀ s t, R (v.get t) s → R' t (v.put s t)) :
    Relates R' (x.within v g h) := by
  intro r t
  rw [quiet_within]
  exact hv _ t (hx _ _)

/-- After a look at the state, the rest may rely on what it saw. -/
theorem get_bind {f : σ → Action ρ σ ε ω α} (h : ∀ r s, R s ((f s).quiet r s).state) :
    Relates R (MonadState.get >>= f) :=
  h

/-- One action after the other, each with a relation of its own. -/
theorem chain {S T : σ → σ → Prop} (h : ∀ {s t u}, R s t → S t u → T s u) (hx : Relates R x)
    (hf : ∀ a, Relates S (f a)) : Relates T (x >>= f) := by
  intro r s
  rw [quiet_bind, Outcome.state_after]
  exact h (hx r s) (hf _ r _)

variable [IsPreorder σ R]

theorem pure (a : α) : Relates R (pure a : Action ρ σ ε ω α) := fun _ s => refl s

theorem read : Relates R (read : Action ρ σ ε ω ρ) := fun _ s => refl s

theorem get : Relates R (get : Action ρ σ ε ω σ) := fun _ s => refl s

theorem say (o : ω) : Relates R (say o : Action ρ σ ε ω Unit) := fun _ s => refl s

theorem announce (e : ε) : Relates R (announce e : Action ρ σ ε ω Unit) := fun _ s => refl s

theorem bind (hx : Relates R x) (hf : ∀ a, Relates R (f a)) : Relates R (x >>= f) :=
  .chain (IsTrans.trans _ _ _) hx hf

end Relates

end HandheldUI.Action
