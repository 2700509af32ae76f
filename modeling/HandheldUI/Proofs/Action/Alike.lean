import HandheldUI.Proofs.Action.Quiet

/-! Two runs beside each other, from states that a relation takes for alike. They stay alike if
neither of them ever shows where the states differ: they say and announce the same, and have the
same result. -/

namespace HandheldUI

variable {ρ ρ' σ σ' ε ε' ω ω' α β κ : Type}

/-- The steps say and announce the same, in states that are alike, and end with the same result. It
does not matter which alike states the listeners leave behind. All remarks are among `P`. -/
inductive Step.Alike (R : σ → σ → Prop) (P : ω → Prop) :
    Step ρ σ ε ω α → Step ρ σ ε ω α → Prop where
  | done {s t : σ} {a : α} : R s t → Alike R P (.done s a) (.done t a)
  | say {s t : σ} {o : ω} {x y : Step ρ σ ε ω α} : R s t → P o → Alike R P x y →
    Alike R P (.say s o x) (.say t o y)
  | announce {s t : σ} {e : ε} {f g : ρ → σ → Step ρ σ ε ω α} : R s t →
    (∀ r s' t', R s' t' → Alike R P (f r s') (g r t')) →
    Alike R P (.announce s e f) (.announce t e g)

namespace Step.Alike

variable {R : σ → σ → Prop} {R' : σ' → σ' → Prop} {P : ω → Prop} {P' : ω' → Prop}
  {x y : Step ρ σ ε ω α}

theorem bind {f : α → Action ρ σ ε ω β} (h : Alike R P x y)
    (hf : ∀ a r s t, R s t → ((f a).run r s).Alike R P ((f a).run r t)) (r : ρ) :
    (x.bind f r).Alike R P (y.bind f r) := by
  induction h generalizing r with
  | done hs => exact hf _ _ _ _ hs
  | say hs ho _ ih => exact .say hs ho (ih r)
  | announce hs _ ih => exact .announce hs fun r' s' t' h' => ih r' s' t' h' r'

/-- A part that is alike in alike states, in a whole that sees nothing else of it. -/
theorem within {v : View ρ' σ' ρ σ} {f : ε → ε'} {g : ω → ω'} (h : Alike R P x y)
    (he : ∀ r t t', R' t t' → v.env r t = v.env r t')
    (hg : ∀ t t', R' t t' → R (v.get t) (v.get t'))
    (hp : ∀ s s' t t', R s s' → R' t t' → R' (v.put s t) (v.put s' t'))
    (ho : ∀ o, P o → P' (g o)) {t t' : σ'} (ht : R' t t') :
    (x.within v f g t).Alike R' P' (y.within v f g t') := by
  induction h generalizing t t' with
  | done hs => exact .done (hp _ _ _ _ hs ht)
  | say hs hsay _ ih => exact .say (hp _ _ _ _ hs ht) (ho _ hsay) (ih ht)
  | announce hs _ ih =>
    -- the listeners may change all of the whole, and the part with it, as long as both stay alike
    refine .announce (hp _ _ _ _ hs ht) fun r u u' hu => ?_
    rw [he r u u' hu]
    exact ih _ _ _ (hg u u' hu) hu

/-- Equal states show nothing. -/
theorem refl (x : Step ρ σ ε ω α) : Alike Eq (fun _ => True) x x := by
  induction x with
  | done s a => exact .done rfl
  | say s o rest ih => exact .say rfl trivial ih
  | announce s e next ih =>
    refine .announce rfl ?_
    rintro r s' _ rfl
    exact ih r s'

theorem quiet (h : Alike R P x y) (r : ρ) :
    R (x.quiet r).state (y.quiet r).state ∧ (x.quiet r).value = (y.quiet r).value ∧
      (x.quiet r).out = (y.quiet r).out ∧ ∀ o, .inr o ∈ (x.quiet r).out → P o := by
  induction h with
  | done hs => exact ⟨hs, rfl, rfl, by simp [Step.quiet]⟩
  | say hs ho _ ih =>
    obtain ⟨hst, hv, hout, hp⟩ := ih
    refine ⟨hst, hv, ?_, ?_⟩
    · simp [Step.quiet, hout]
    · intro o hm
      rcases List.mem_append.1 hm with hm | hm
      · obtain rfl : o = _ := by simpa using hm
        exact ho
      · exact hp o hm
  | announce hs _ ih =>
    obtain ⟨hst, hv, hout, hp⟩ := ih r _ _ hs
    refine ⟨hst, hv, ?_, ?_⟩
    · simp [Step.quiet, hout]
    · intro o hm
      rcases List.mem_append.1 hm with hm | hm
      · simp at hm
      · exact hp o hm

end Step.Alike

namespace Action

/-- From states that are alike, the action shows nothing of what they differ in. -/
def Alike (R : σ → σ → Prop) (P : ω → Prop) (x : Action ρ σ ε ω α) : Prop :=
  ∀ r s t, R s t → (x.run r s).Alike R P (x.run r t)

namespace Alike

variable {R : σ → σ → Prop} {P : ω → Prop} {x y : Action ρ σ ε ω α} {f : α → Action ρ σ ε ω β}

theorem pure (a : α) : Alike R P (pure a : Action ρ σ ε ω α) := fun _ _ _ h => .done h

theorem read : Alike R P (read : Action ρ σ ε ω ρ) := fun _ _ _ h => .done h

theorem modify {g : σ → σ} (hg : ∀ s t, R s t → R (g s) (g t)) :
    Alike R P (modify g : Action ρ σ ε ω Unit) :=
  fun _ s t h => .done (hg s t h)

theorem say {o : ω} (ho : P o) : Alike R P (say o : Action ρ σ ε ω Unit) :=
  fun _ _ _ h => .say h ho (.done h)

theorem announce (e : ε) : Alike R P (announce e : Action ρ σ ε ω Unit) :=
  fun _ _ _ h => .announce h fun _ _ _ h' => .done h'

theorem ite {c : Prop} [Decidable c] (hx : Alike R P x) (hy : Alike R P y) :
    Alike R P (if c then x else y) := by
  split
  · exact hx
  · exact hy

theorem bind (hx : Alike R P x) (hf : ∀ a, Alike R P (f a)) : Alike R P (x >>= f) :=
  fun r s t h => (hx r s t h).bind (fun a r s t => hf a r s t) r

/-- After a look at the state, the rest must not depend on what the states differ in. -/
theorem get_bind {f : σ → Action ρ σ ε ω α}
    (h : ∀ r s t, R s t → ((f s).run r s).Alike R P ((f t).run r t)) :
    Alike R P (MonadState.get >>= f) :=
  h

theorem eq (x : Action ρ σ ε ω α) : Alike Eq (fun _ => True) x := by
  rintro r s _ rfl
  exact .refl _

theorem within {R' : σ' → σ' → Prop} {P' : ω' → Prop} {v : View ρ' σ' ρ σ} {f : ε → ε'}
    {g : ω → ω'} (hx : Alike R P x) (he : ∀ r t t', R' t t' → v.env r t = v.env r t')
    (hg : ∀ t t', R' t t' → R (v.get t) (v.get t'))
    (hp : ∀ s s' t t', R s s' → R' t t' → R' (v.put s t) (v.put s' t'))
    (ho : ∀ o, P o → P' (g o)) : Alike R' P' (x.within v f g) := by
  intro r t t' ht
  rw [run_within, run_within, ← he r t t' ht]
  exact (hx _ _ _ (hg t t' ht)).within he hg hp ho ht

end Alike

end Action

end HandheldUI
