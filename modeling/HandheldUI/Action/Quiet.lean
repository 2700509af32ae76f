import HandheldUI.Action

/-!
Actions whose listeners do not call back: an action is then a function of the surroundings and the
state. The lemmas say what that function is for each way of building an action.
-/

namespace HandheldUI

/-- How an action ends: its state, what it announced and said, in order, and its result. -/
structure Outcome (σ ε ω α : Type) where
  state : σ
  out : List (ε ⊕ ω)
  value : α

namespace Outcome

variable {σ ε ω α : Type}

/-- The events alone. -/
def events (x : Outcome σ ε ω α) : List ε := x.out.filterMap Sum.getLeft?

/-- The same with something before it. -/
def after (before : List (ε ⊕ ω)) (x : Outcome σ ε ω α) : Outcome σ ε ω α :=
  { x with out := before ++ x.out }

@[simp] theorem after_nil (x : Outcome σ ε ω α) : x.after [] = x := rfl

@[simp] theorem after_after (xs ys : List (ε ⊕ ω)) (x : Outcome σ ε ω α) :
    (x.after ys).after xs = x.after (xs ++ ys) := by simp [after]

@[simp] theorem state_after (xs : List (ε ⊕ ω)) (x : Outcome σ ε ω α) :
    (x.after xs).state = x.state := rfl

@[simp] theorem out_after (xs : List (ε ⊕ ω)) (x : Outcome σ ε ω α) :
    (x.after xs).out = xs ++ x.out := rfl

@[simp] theorem value_after (xs : List (ε ⊕ ω)) (x : Outcome σ ε ω α) :
    (x.after xs).value = x.value := rfl

end Outcome

variable {ρ ρ' σ σ' ε ε' ω ω' α β κ : Type}

/-- The outcome in surroundings that stay as they are. -/
def Step.quiet (r : ρ) : Step ρ σ ε ω α → Outcome σ ε ω α
  | done s a => ⟨s, [], a⟩
  | say _ o rest => (rest.quiet r).after [.inr o]
  | announce s e next => ((next r s).quiet r).after [.inl e]

theorem Step.quiet_bind (f : α → Action ρ σ ε ω β) (r : ρ) (x : Step ρ σ ε ω α) :
    (x.bind f r).quiet r =
      (((f (x.quiet r).value).run r (x.quiet r).state).quiet r).after (x.quiet r).out := by
  induction x with
  | done s a => rfl
  | say s o rest ih => simp [Step.bind, quiet, ih]
  | announce s e next ih => simp [Step.bind, quiet, ih]

theorem Step.quiet_within (v : View ρ' σ' ρ σ) (f : ε → ε') (g : ω → ω') (r : ρ') (t : σ')
    (x : Step ρ σ ε ω α) :
    (x.within v f g t).quiet r =
      ⟨v.put (x.quiet (v.env r t)).state t, (x.quiet (v.env r t)).out.map (Sum.map f g),
        (x.quiet (v.env r t)).value⟩ := by
  induction x generalizing t with
  | done s a => rfl
  | say s o rest ih => simp [Step.within, quiet, ih, Outcome.after]
  | announce s e next ih =>
    simp [Step.within, quiet, ih, Outcome.after, v.env_put, v.get_put, v.put_put]

namespace Action

def quiet (x : Action ρ σ ε ω α) (r : ρ) (s : σ) : Outcome σ ε ω α := (x.run r s).quiet r

@[simp] theorem quiet_pure (a : α) (r : ρ) (s : σ) :
    (pure a : Action ρ σ ε ω α).quiet r s = ⟨s, [], a⟩ := rfl

@[simp] theorem quiet_read (r : ρ) (s : σ) :
    (read : Action ρ σ ε ω ρ).quiet r s = ⟨s, [], r⟩ := rfl

@[simp] theorem quiet_get (r : ρ) (s : σ) :
    (get : Action ρ σ ε ω σ).quiet r s = ⟨s, [], s⟩ := rfl

@[simp] theorem quiet_set (t : σ) (r : ρ) (s : σ) :
    (MonadStateOf.set t : Action ρ σ ε ω Unit).quiet r s = ⟨t, [], ()⟩ := rfl

@[simp] theorem quiet_modify (f : σ → σ) (r : ρ) (s : σ) :
    (modify f : Action ρ σ ε ω Unit).quiet r s = ⟨f s, [], ()⟩ := rfl

@[simp] theorem quiet_say (o : ω) (r : ρ) (s : σ) :
    (say o : Action ρ σ ε ω Unit).quiet r s = ⟨s, [.inr o], ()⟩ := rfl

@[simp] theorem quiet_announce (e : ε) (r : ρ) (s : σ) :
    (announce e : Action ρ σ ε ω Unit).quiet r s = ⟨s, [.inl e], ()⟩ := rfl

@[simp] theorem quiet_bind (x : Action ρ σ ε ω α) (f : α → Action ρ σ ε ω β) (r : ρ) (s : σ) :
    (x >>= f).quiet r s =
      ((f (x.quiet r s).value).quiet r (x.quiet r s).state).after (x.quiet r s).out :=
  Step.quiet_bind f r (x.run r s)

@[simp] theorem quiet_within (v : View ρ' σ' ρ σ) (f : ε → ε') (g : ω → ω')
    (x : Action ρ σ ε ω α) (r : ρ') (t : σ') :
    (x.within v f g).quiet r t =
      ⟨v.put (x.quiet (v.env r t) (v.get t)).state t,
        (x.quiet (v.env r t) (v.get t)).out.map (Sum.map f g),
        (x.quiet (v.env r t) (v.get t)).value⟩ :=
  Step.quiet_within v f g r t _

/-- The outcome of calls one after the other, each in surroundings of its own. -/
def quietRun (call : κ → Action ρ σ ε ω α) : List (ρ × κ) → σ → Outcome σ ε ω (List α)
  | [], s => ⟨s, [], []⟩
  | (r, c) :: rest, s =>
    let x := (call c).quiet r s
    let y := (quietRun call rest x.state).after x.out
    { y with value := x.value :: y.value }

theorem quietRun_append (call : κ → Action ρ σ ε ω α) (xs ys : List (ρ × κ)) (s : σ) :
    quietRun call (xs ++ ys) s =
      let x := quietRun call xs s
      let y := (quietRun call ys x.state).after x.out
      { y with value := x.value ++ y.value } := by
  induction xs generalizing s with
  | nil => rfl
  | cons x xs ih => simp [quietRun, ih, Outcome.after]

end Action

end HandheldUI
