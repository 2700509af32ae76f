import HandheldUI.Action.Quiet

/-! The outcome of an action when no listener calls back, for the remaining ways of building one,
and what it announces. -/

namespace HandheldUI

variable {ρ σ ε ω α β : Type}

namespace Outcome

@[simp] theorem events_mk (s : σ) (xs : List (ε ⊕ ω)) (a : α) :
    (⟨s, xs, a⟩ : Outcome σ ε ω α).events = xs.filterMap Sum.getLeft? := rfl

@[simp] theorem filterMap_out (x : Outcome σ ε ω α) : x.out.filterMap Sum.getLeft? = x.events := rfl

@[simp] theorem events_after (xs : List (ε ⊕ ω)) (x : Outcome σ ε ω α) :
    (x.after xs).events = xs.filterMap Sum.getLeft? ++ x.events :=
  List.filterMap_append

end Outcome

namespace Action

@[simp] theorem quiet_ite (c : Prop) {_ : Decidable c} (x y : Action ρ σ ε ω α) (r : ρ) (s : σ) :
    (if c then x else y).quiet r s = if c then x.quiet r s else y.quiet r s := by
  split <;> rfl

@[simp] theorem quiet_map (f : α → β) (x : Action ρ σ ε ω α) (r : ρ) (s : σ) :
    (f <$> x).quiet r s = ⟨(x.quiet r s).state, (x.quiet r s).out, f (x.quiet r s).value⟩ := by
  change (x >>= fun a => pure (f a)).quiet r s = _
  rw [quiet_bind]
  simp [Outcome.after]

@[simp] theorem quiet_discard (x : Action ρ σ ε ω α) (r : ρ) (s : σ) :
    (discard x).quiet r s = ⟨(x.quiet r s).state, (x.quiet r s).out, ()⟩ :=
  quiet_map (fun _ => ()) x r s

@[simp] theorem quiet_seqRight (x : Action ρ σ ε ω α) (y : Action ρ σ ε ω β) (r : ρ) (s : σ) :
    (x *> y).quiet r s = (y.quiet r (x.quiet r s).state).after (x.quiet r s).out :=
  quiet_bind x (fun _ => y) r s

end Action

end HandheldUI
