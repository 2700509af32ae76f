import HandheldUI.Proofs.Action.Maintains

/-! Invariants under listeners that call back, together with what an action announces while it can
rely on them. -/

namespace HandheldUI

variable {ρ ρ' σ σ' ε ε' ω ω' α β : Type}

namespace Step

/-- The step has `I` at each announcement and at its end, as long as the listeners keep it, and
announces nothing but what `E` allows. -/
def Abides (admits : ρ → Prop) (I : σ → Prop) (E : ε → Prop) : Step ρ σ ε ω α → Prop
  | done s _ => I s
  | say _ _ rest => rest.Abides admits I E
  | announce s e next => I s ∧ E e ∧ ∀ r t, admits r → I t → (next r t).Abides admits I E

namespace Abides

variable {admits : ρ → Prop} {I : σ → Prop} {E : ε → Prop} {x : Step ρ σ ε ω α}

theorem keeps (hx : x.Abides admits I E) : x.Keeps admits I := by
  induction x with
  | done s a => exact hx
  | say s o rest ih => exact ih hx
  | announce s e next ih =>
    obtain ⟨hs, -, hnext⟩ := hx
    exact ⟨hs, fun r t hr ht => ih r t (hnext r t hr ht)⟩

theorem events (hx : x.Abides admits I E) {r : ρ} (hr : admits r) :
    ∀ e ∈ (x.quiet r).events, E e := by
  induction x with
  | done s a => simp [quiet, Outcome.events]
  | say s o rest ih => exact ih hx
  | announce s e next ih =>
    obtain ⟨hs, he, hnext⟩ := hx
    intro e' he'
    -- listeners that do nothing leave surroundings and state as they are at the event
    rcases List.mem_cons.1 he' with rfl | he'
    · exact he
    · exact ih r s (hnext r s hr hs) e' he'

theorem bind {f : α → Action ρ σ ε ω β} {r : ρ} (hx : x.Abides admits I E) (hr : admits r)
    (hf : ∀ a r s, admits r → I s → ((f a).run r s).Abides admits I E) :
    (x.bind f r).Abides admits I E := by
  induction x generalizing r with
  | done s a => exact hf a r s hr hx
  | say s o rest ih => exact ih hx hr
  | announce s e next ih =>
    obtain ⟨hs, he, hnext⟩ := hx
    exact ⟨hs, he, fun r' t hr' ht => ih r' t (hnext r' t hr' ht) hr'⟩

variable {v : View ρ' σ' ρ σ} {f : ε → ε'} {g : ω → ω'} {admits' : ρ' → Prop} {I' : σ' → Prop}
  {E' : ε' → Prop}

theorem within (henv : ∀ r t, admits' r → admits (v.env r t)) (hget : ∀ t, I' t → I (v.get t))
    (hput : ∀ s t, I' t → I s → I' (v.put s t)) (hevent : ∀ e, E e → E' (f e))
    (hx : x.Abides admits I E) {t : σ'} (ht : I' t) :
    (x.within v f g t).Abides admits' I' E' := by
  induction x generalizing t with
  | done s a => exact hput s t ht hx
  | say s o rest ih => exact ih hx ht
  | announce s e next ih =>
    obtain ⟨hs, he, hnext⟩ := hx
    refine ⟨hput s t ht hs, hevent e he, fun r t' hr ht' => ?_⟩
    exact ih _ _ (hnext _ _ (henv r t' hr) (hget t' ht')) ht'

end Abides

end Step

namespace Action

/-- The same of an action, wherever it starts with `I`. -/
def Abides (admits : ρ → Prop) (I : σ → Prop) (E : ε → Prop) (x : Action ρ σ ε ω α) : Prop :=
  ∀ r s, admits r → I s → (x.run r s).Abides admits I E

namespace Abides

variable {admits : ρ → Prop} {I : σ → Prop} {E : ε → Prop} {x y : Action ρ σ ε ω α}

theorem pure (a : α) : Abides admits I E (pure a : Action ρ σ ε ω α) := fun _ _ _ hs => hs

theorem read : Abides admits I E (read : Action ρ σ ε ω ρ) := fun _ _ _ hs => hs

theorem get : Abides admits I E (get : Action ρ σ ε ω σ) := fun _ _ _ hs => hs

theorem modify {g : σ → σ} (h : ∀ s, I s → I (g s)) :
    Abides admits I E (modify g : Action ρ σ ε ω Unit) :=
  fun _ s _ hs => h s hs

theorem say (o : ω) : Abides admits I E (say o : Action ρ σ ε ω Unit) := fun _ _ _ hs => hs

theorem ite {c : Prop} [Decidable c] (hx : Abides admits I E x) (hy : Abides admits I E y) :
    Abides admits I E (if c then x else y) := by
  split
  · exact hx
  · exact hy

theorem bind {f : α → Action ρ σ ε ω β} (hx : Abides admits I E x)
    (hf : ∀ a, Abides admits I E (f a)) : Abides admits I E (x >>= f) :=
  fun r s hr hs => (hx r s hr hs).bind hr hf

theorem map (f : α → β) (hx : Abides admits I E x) : Abides admits I E (f <$> x) :=
  hx.bind fun _ => pure _

theorem seqRight {z : Action ρ σ ε ω β} (hx : Abides admits I E x) (hz : Abides admits I E z) :
    Abides admits I E (x *> z) :=
  hx.bind fun _ => hz

variable {v : View ρ' σ' ρ σ} {f : ε → ε'} {g : ω → ω'} {admits' : ρ' → Prop} {I' : σ' → Prop}
  {E' : ε' → Prop}

/-- The action of a part that the invariant is about. -/
theorem within (hx : Abides admits I E x) (henv : ∀ r t, admits' r → admits (v.env r t))
    (hget : ∀ t, I' t → I (v.get t)) (hput : ∀ s t, I' t → I s → I' (v.put s t))
    (hevent : ∀ e, E e → E' (f e)) : Abides admits' I' E' (x.within v f g) :=
  fun r t hr ht => (hx _ _ (henv r t hr) (hget t ht)).within henv hget hput hevent ht

/-- The action of a part that neither the invariant nor the events are about. -/
theorem elsewhere (h : ∀ s t, I' t → I' (v.put s t)) (hevent : ∀ e, E' (f e)) :
    Abides admits' I' E' (x.within v f g) := by
  have any (x : Step ρ σ ε ω α) :
      x.Abides (fun _ => True) (fun _ => True) fun _ => True := by
    induction x with
    | done s a => trivial
    | say s o rest ih => exact ih
    | announce s e next ih => exact ⟨trivial, trivial, fun r t _ _ => ih r t⟩
  intro r t _ ht
  exact (any (x.run _ _)).within (fun _ _ _ => trivial) (fun _ _ => trivial)
    (fun s t ht _ => h s t ht) (fun e _ => hevent e) ht

end Abides

end Action

end HandheldUI
