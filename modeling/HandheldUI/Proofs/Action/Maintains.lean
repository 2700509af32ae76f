import HandheldUI.Action.Listeners
import HandheldUI.Action.Quiet

/-! Invariants under listeners that call back. An invariant passes through every way of building an
action, and nothing is asked of the actions of other parts, so it is checked at the few writes that
matter. What holds whatever the listeners do holds in particular when they do nothing. -/

namespace HandheldUI

variable {ρ ρ' σ σ' ε ε' ω ω' α β κ : Type}

namespace Step

variable {admits : ρ → Prop} {I : σ → Prop}

/-- The rest of the action starts where the listeners, and then the first part, have left off. -/
theorem Keeps.bind {x : Step ρ σ ε ω α} {f : α → Action ρ σ ε ω β} {r : ρ}
    (hx : x.Keeps admits I) (hr : admits r)
    (hf : ∀ a r s, admits r → I s → ((f a).run r s).Keeps admits I) :
    (x.bind f r).Keeps admits I := by
  induction x generalizing r with
  | done s a => exact hf a r s hr hx
  | say s o rest ih => exact ih hx hr
  | announce s e next ih =>
    refine ⟨hx.1, ?_⟩
    intro r' t hr' ht
    exact ih r' t (hx.2 r' t hr' ht) hr'

theorem Keeps.within {v : View ρ' σ' ρ σ} {f : ε → ε'} {g : ω → ω'} {admits' : ρ' → Prop}
    {I' : σ' → Prop} (henv : ∀ r t, admits' r → admits (v.env r t))
    (hget : ∀ t, I' t → I (v.get t)) (hput : ∀ s t, I' t → I s → I' (v.put s t))
    {x : Step ρ σ ε ω α} (hx : x.Keeps admits I) {t : σ'} (ht : ∀ s, I s → I' (v.put s t)) :
    (x.within v f g t).Keeps admits' I' := by
  induction x generalizing t with
  | done s a => exact ht s hx
  | say s o rest ih => exact ih hx ht
  | announce s e next ih =>
    refine ⟨ht s hx.1, ?_⟩
    intro r t' hr ht'
    exact ih _ _ (hx.2 _ _ (henv r t' hr) (hget t' ht')) fun u hu => hput u t' ht' hu

theorem Keeps.quiet {x : Step ρ σ ε ω α} (hx : x.Keeps admits I) {r : ρ} (hr : admits r) :
    I (x.quiet r).state := by
  induction x with
  | done s a => exact hx
  | say s o rest ih => exact ih hx
  | announce s e next ih => exact ih r s (hx.2 r s hr hx.1)

/-- Without listeners a step ends as it does when they do nothing. -/
theorem ends_quiet (call : κ → Action ρ σ ε ω β) {r : ρ} (hr : admits r) (x : Step ρ σ ε ω α) :
    ∃ trace, Ends admits call x trace (x.quiet r).state (x.quiet r).value := by
  induction x with
  | done s a => exact ⟨[], .done⟩
  | say s o rest ih =>
    obtain ⟨trace, h⟩ := ih
    exact ⟨trace, .say h⟩
  | announce s e next ih =>
    obtain ⟨trace, h⟩ := ih r s
    exact ⟨_, .announce .nil hr h⟩

end Step

theorem calls_quietRun {admits : ρ → Prop} (call : κ → Action ρ σ ε ω β) (h : List (ρ × κ))
    (hr : ∀ y ∈ h, admits y.1) (s : σ) :
    ∃ trace, Calls admits call s trace (Action.quietRun call h s).state := by
  induction h generalizing s with
  | nil => exact ⟨[], .nil⟩
  | cons y h ih =>
    have hy := hr y List.mem_cons_self
    obtain ⟨first, run⟩ := Step.ends_quiet call hy ((call y.2).run y.1 s)
    obtain ⟨rest, runs⟩ := ih (fun z hz => hr z (List.mem_cons_of_mem _ hz)) _
    exact ⟨first ++ rest, .cons hy run runs⟩

/-- A state that somebody finds in a run of calls: after some of the calls, or at an event, once the
listeners that come first have made some calls of their own. -/
def Occurs (admits : ρ → Prop) (call : κ → Action ρ σ ε ω β) (s g : σ) : Prop :=
  ∃ trace t, Calls admits call s trace t ∧
    (g = t ∨ ∃ p ∈ trace, ∃ later, Calls admits call p.1 later g)

namespace Action

/-- Started with `I`, the action has it at each announcement and at its end, as long as the
listeners keep it. -/
def Maintains (admits : ρ → Prop) (I : σ → Prop) (x : Action ρ σ ε ω α) : Prop :=
  ∀ r s, admits r → I s → (x.run r s).Keeps admits I

namespace Maintains

variable {admits : ρ → Prop} {I : σ → Prop} {x y : Action ρ σ ε ω α}

theorem pure (a : α) : Maintains admits I (pure a : Action ρ σ ε ω α) := fun _ _ _ hs => hs

theorem read : Maintains admits I (read : Action ρ σ ε ω ρ) := fun _ _ _ hs => hs

theorem get : Maintains admits I (get : Action ρ σ ε ω σ) := fun _ _ _ hs => hs

theorem modify {g : σ → σ} (h : ∀ s, I s → I (g s)) :
    Maintains admits I (modify g : Action ρ σ ε ω Unit) :=
  fun _ s _ hs => h s hs

theorem say (o : ω) : Maintains admits I (say o : Action ρ σ ε ω Unit) := fun _ _ _ hs => hs

theorem announce (e : ε) : Maintains admits I (announce e : Action ρ σ ε ω Unit) :=
  fun _ _ _ hs => ⟨hs, fun _ _ _ ht => ht⟩

theorem ite {c : Prop} [Decidable c] (hx : Maintains admits I x) (hy : Maintains admits I y) :
    Maintains admits I (if c then x else y) := by
  split
  · exact hx
  · exact hy

theorem bind {f : α → Action ρ σ ε ω β} (hx : Maintains admits I x)
    (hf : ∀ a, Maintains admits I (f a)) : Maintains admits I (x >>= f) :=
  fun r s hr hs => (hx r s hr hs).bind hr hf

theorem map (f : α → β) (hx : Maintains admits I x) : Maintains admits I (f <$> x) :=
  hx.bind fun _ => pure _

theorem seqRight {z : Action ρ σ ε ω β} (hx : Maintains admits I x)
    (hz : Maintains admits I z) : Maintains admits I (x *> z) :=
  hx.bind fun _ => hz

variable {v : View ρ' σ' ρ σ} {f : ε → ε'} {g : ω → ω'} {I' : σ' → Prop}

/-- The action of a part that the invariant is about. -/
theorem within {admits' : ρ' → Prop} (hx : Maintains admits I x)
    (henv : ∀ r t, admits' r → admits (v.env r t)) (hget : ∀ t, I' t → I (v.get t))
    (hput : ∀ s t, I' t → I s → I' (v.put s t)) : Maintains admits' I' (x.within v f g) :=
  fun r t hr ht =>
    (hx _ _ (henv r t hr) (hget t ht)).within henv hget hput fun s hs => hput s t ht hs

/-- The action of a part that the invariant does not look at. -/
theorem elsewhere {admits' : ρ' → Prop} (h : ∀ s t, I' t → I' (v.put s t)) :
    Maintains admits' I' (x.within v f g) := by
  have any (x : Step ρ σ ε ω α) : x.Keeps (fun _ => True) fun _ => True := by
    induction x with
    | done s a => trivial
    | say s o rest ih => exact ih
    | announce s e next ih => exact ⟨trivial, fun r t _ _ => ih r t⟩
  have hx : Maintains (fun _ => True) (fun _ => True) x := fun r s _ _ => any (x.run r s)
  exact hx.within (fun _ _ _ => trivial) (fun _ _ => trivial) fun s t ht _ => h s t ht

/-- What every call maintains holds wherever somebody looks. -/
theorem occurs {call : κ → Action ρ σ ε ω β} (h : ∀ c, Maintains admits I (call c)) {s g : σ}
    (hs : I s) (hg : Occurs admits call s g) : I g := by
  obtain ⟨trace, t, run, hg⟩ := hg
  obtain ⟨ht, hp⟩ := run.keeps h hs
  rcases hg with rfl | ⟨p, hmem, later, sub⟩
  · exact ht
  · exact (sub.keeps h (hp p hmem)).1

end Maintains

end Action

end HandheldUI
