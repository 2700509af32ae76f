/-!
Actions that listeners may interrupt.

An action owns a state `σ` and reads its surroundings `ρ`. On its way it may make remarks `ω`, which
nobody answers, and announce events `ε`. At an announcement the listeners act first, on this state
like anybody else, and the action goes on with whatever state and surroundings it then finds. So a
call made from inside an event is not a special case: it is what `announce` waits for.
-/

namespace HandheldUI

/-- Where an action stands: at its end, at a remark, or waiting for the listeners of an event. -/
inductive Step (ρ σ ε ω α : Type) where
  | done (s : σ) (a : α)
  | say (s : σ) (o : ω) (rest : Step ρ σ ε ω α)
  | announce (s : σ) (e : ε) (next : ρ → σ → Step ρ σ ε ω α)

/-- A computation on the state `σ` in the surroundings `ρ`. -/
structure Action (ρ σ ε ω α : Type) where
  run : ρ → σ → Step ρ σ ε ω α

namespace Step

variable {ρ σ ε ω α β W : Type}

/-- Goes on with `f` in the surroundings that were seen last. -/
def bind (f : α → Action ρ σ ε ω β) : ρ → Step ρ σ ε ω α → Step ρ σ ε ω β
  | r, done s a => (f a).run r s
  | r, say s o rest => say s o (rest.bind f r)
  | _, announce s e next => announce s e fun r t => (next r t).bind f r

@[simp] theorem bind_done (f : α → Action ρ σ ε ω β) (r : ρ) (s : σ) (a : α) :
    (done s a : Step ρ σ ε ω α).bind f r = (f a).run r s := rfl

@[simp] theorem bind_say (f : α → Action ρ σ ε ω β) (r : ρ) (s : σ) (o : ω)
    (rest : Step ρ σ ε ω α) : (say s o rest).bind f r = say s o (rest.bind f r) := rfl

@[simp] theorem bind_announce (f : α → Action ρ σ ε ω β) (r : ρ) (s : σ) (e : ε)
    (next : ρ → σ → Step ρ σ ε ω α) :
    (announce s e next).bind f r = announce s e fun r t => (next r t).bind f r := rfl

/-- Runs a step to its end beside an observer `w`: `heard` takes in a remark, and `told` an event,
answering with the surroundings and the state that the listeners leave behind. -/
def play (heard : ω → σ → W → W) (told : ε → σ → W → W × ρ × σ) :
    Step ρ σ ε ω α → W → W × σ × α
  | done s a, w => (w, s, a)
  | say s o rest, w => rest.play heard told (heard o s w)
  | announce s e next, w =>
    let (w, r, t) := told e s w
    (next r t).play heard told w

end Step

/-- A part of type `σ` in a larger state `σ'`, with the surroundings `ρ` that the part sees. Writing
the part changes nothing else, its surroundings included. -/
structure View (ρ' σ' ρ σ : Type) where
  env : ρ' → σ' → ρ
  get : σ' → σ
  put : σ → σ' → σ'
  get_put : ∀ s t, get (put s t) = s := by intros; rfl
  put_get : ∀ t, put (get t) t = t := by intros; rfl
  put_put : ∀ s u t, put s (put u t) = put s t := by intros; rfl
  env_put : ∀ r s t, env r (put s t) = env r t := by intros; rfl

namespace Step

variable {ρ ρ' σ σ' ε ε' ω ω' α : Type}

/-- The step of a part as a step of the larger state `t`. -/
def within (v : View ρ' σ' ρ σ) (f : ε → ε') (g : ω → ω') :
    σ' → Step ρ σ ε ω α → Step ρ' σ' ε' ω' α
  | t, done s a => done (v.put s t) a
  | t, say s o rest => say (v.put s t) (g o) (rest.within v f g t)
  | t, announce s e next =>
    announce (v.put s t) (f e) fun r t => (next (v.env r t) (v.get t)).within v f g t

end Step

namespace Action

variable {ρ ρ' σ σ' ε ε' ω ω' α β : Type}

instance : Monad (Action ρ σ ε ω) where
  pure a := ⟨fun _ s => .done s a⟩
  bind x f := ⟨fun r s => (x.run r s).bind f r⟩

instance : MonadReaderOf ρ (Action ρ σ ε ω) where
  read := ⟨fun r s => .done s r⟩

instance : MonadStateOf σ (Action ρ σ ε ω) where
  get := ⟨fun _ s => .done s s⟩
  set s := ⟨fun _ _ => .done s ()⟩
  modifyGet f := ⟨fun _ s => .done (f s).2 (f s).1⟩

def say (o : ω) : Action ρ σ ε ω Unit := ⟨fun _ s => .say s o (.done s ())⟩

def announce (e : ε) : Action ρ σ ε ω Unit := ⟨fun _ s => .announce s e fun _ t => .done t ()⟩

/-- The action of a part, its events and remarks renamed by `f` and `g`. -/
def within (v : View ρ' σ' ρ σ) (f : ε → ε') (g : ω → ω') (x : Action ρ σ ε ω α) :
    Action ρ' σ' ε' ω' α :=
  ⟨fun r t => (x.run (v.env r t) (v.get t)).within v f g t⟩

/-! What the steps of an action are, for each way of building one. -/

variable (r : ρ) (s : σ)

@[simp] theorem run_pure (a : α) : (pure a : Action ρ σ ε ω α).run r s = .done s a := rfl

@[simp] theorem run_bind (x : Action ρ σ ε ω α) (f : α → Action ρ σ ε ω β) :
    (x >>= f).run r s = (x.run r s).bind f r := rfl

@[simp] theorem run_read : (read : Action ρ σ ε ω ρ).run r s = .done s r := rfl

@[simp] theorem run_get : (get : Action ρ σ ε ω σ).run r s = .done s s := rfl

@[simp] theorem run_set (t : σ) :
    (MonadStateOf.set t : Action ρ σ ε ω Unit).run r s = .done t () := rfl

@[simp] theorem run_modify (f : σ → σ) :
    (modify f : Action ρ σ ε ω Unit).run r s = .done (f s) () := rfl

@[simp] theorem run_say (o : ω) :
    (say o : Action ρ σ ε ω Unit).run r s = .say s o (.done s ()) := rfl

@[simp] theorem run_announce (e : ε) :
    (announce e : Action ρ σ ε ω Unit).run r s = .announce s e fun _ t => .done t () := rfl

@[simp] theorem run_within (v : View ρ' σ' ρ σ) (f : ε → ε') (g : ω → ω')
    (x : Action ρ σ ε ω α) (r : ρ') (t : σ') :
    (x.within v f g).run r t = (x.run (v.env r t) (v.get t)).within v f g t := rfl

@[simp] theorem run_ite (c : Prop) [Decidable c] (x y : Action ρ σ ε ω α) :
    (if c then x else y).run r s = if c then x.run r s else y.run r s := apply_ite (·.run r s) c x y

end Action

end HandheldUI
