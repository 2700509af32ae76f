import HandheldUI.Action.Quiet
import HandheldUI.Proofs.Action.Diary

/-! The moments of a run at which somebody can look: before a call is made, by whomever, at an event
and after all calls. A listener that looks between two of its calls could make one there, so these
are all moments. Each comes with the entries so far, and an invariant may speak of both. Where
listeners only look, the diary can be computed from the calls. -/

namespace HandheldUI

variable {ρ σ ε ω α β κ : Type}

/-- Somebody who looks when `h` is all of the diary that has been written finds the state `g`; the
diary leads to `t` in the end. -/
inductive Finds (t : σ) : List (σ × (κ ⊕ ε)) → List (σ × (κ ⊕ ε)) → σ → Prop where
  | last : Finds t [] [] t
  | call {g : σ} {c : κ} {d : List (σ × (κ ⊕ ε))} : Finds t ((g, .inl c) :: d) [] g
  | event {g : σ} {e : ε} {d : List (σ × (κ ⊕ ε))} : Finds t ((g, .inr e) :: d) [(g, .inr e)] g
  | later {y : σ × (κ ⊕ ε)} {d h : List (σ × (κ ⊕ ε))} {g : σ} :
    Finds t d h g → Finds t (y :: d) (y :: h) g

/-- After the whole diary somebody finds where it leads. -/
theorem finds_last (t : σ) (d : List (σ × (κ ⊕ ε))) : Finds t d d t := by
  induction d with
  | nil => exact .last
  | cons y d ih => exact .later ih

/-- In some run from `s`, somebody finds the state `g` after the entries `h`. -/
def Moment (call : κ → Action ρ σ ε ω β) (s : σ) (h : List (σ × (κ ⊕ ε))) (g : σ) : Prop :=
  ∃ d t, Diary call s d t ∧ Finds t d h g

/-- Written after the entries `h`, the diary has `K` of the entries and the state at all moments. -/
def Recorded (K : List (σ × (κ ⊕ ε)) → σ → Prop) (h d : List (σ × (κ ⊕ ε))) (t : σ) : Prop :=
  ∀ l g, Finds t d l g → K (h ++ l) g

namespace Recorded

variable {K : List (σ × (κ ⊕ ε)) → σ → Prop} {h d d' : List (σ × (κ ⊕ ε))} {s t u : σ}

theorem nil (ht : K h t) : Recorded K h [] t := by
  intro l g hf
  cases hf
  simpa using ht

theorem call {c : κ} (hs : K h s) (hd : Recorded K (h ++ [(s, .inl c)]) d t) :
    Recorded K h ((s, .inl c) :: d) t := by
  intro l g hf
  cases hf with
  | call => simpa using hs
  | later hf => simpa using hd _ g hf

theorem event {e : ε} (hs : K (h ++ [(s, .inr e)]) s) (hd : Recorded K (h ++ [(s, .inr e)]) d t) :
    Recorded K h ((s, .inr e) :: d) t := by
  intro l g hf
  cases hf with
  | event => exact hs
  | later hf => simpa using hd _ g hf

theorem append (hd : Recorded K h d u) (hd' : Recorded K (h ++ d) d' t) :
    Recorded K h (d ++ d') t := by
  induction d generalizing h with
  | nil => simpa using hd'
  | cons y d ih =>
    have hlater : Recorded K (h ++ [y]) d u := fun l g hf => by simpa using hd _ g (.later hf)
    have hrest : Recorded K (h ++ [y]) (d ++ d') t := ih hlater (by simpa using hd')
    obtain ⟨s, c | e⟩ := y
    · have hs : K h s := by simpa using hd [] s .call
      exact .call hs hrest
    · exact .event (hd _ s .event) hrest

theorem last (hd : Recorded K h d t) : K (h ++ d) t := hd d t (finds_last t d)

end Recorded

namespace Step

variable {K : List (σ × (κ ⊕ ε)) → σ → Prop}

/-- Started after the entries `h`, the step has `K` of the entries and the state at each of its
events and at its end, as long as the listeners leave it so. -/
def Records (K : List (σ × (κ ⊕ ε)) → σ → Prop) :
    List (σ × (κ ⊕ ε)) → Step ρ σ ε ω α → Prop
  | h, done s _ => K h s
  | h, say _ _ rest => rest.Records K h
  | h, announce s e next =>
    K (h ++ [(s, .inr e)]) s ∧ ∀ h' r t, K h' t → (next r t).Records K h'

theorem Records.bind {x : Step ρ σ ε ω α} {f : α → Action ρ σ ε ω β} {r : ρ}
    {h : List (σ × (κ ⊕ ε))} (hx : x.Records K h)
    (hf : ∀ a h r s, K h s → ((f a).run r s).Records K h) : (x.bind f r).Records K h := by
  induction x generalizing h r with
  | done s a => exact hf a h r s hx
  | say s o rest ih => exact ih hx
  | announce s e next ih =>
    refine ⟨hx.1, fun h' r' t ht => ?_⟩
    exact ih r' t (hx.2 h' r' t ht)

end Step

variable {call : κ → Action ρ σ ε ω β} {K : List (σ × (κ ⊕ ε)) → σ → Prop}

mutual

theorem Step.Writes.recorded
    (hK : ∀ c h r s, K h s → ((call c).run r s).Records K (h ++ [(s, .inl c)])) {α : Type}
    {x : Step ρ σ ε ω α} {d : List (σ × (κ ⊕ ε))} {t : σ} {a : α} (run : Step.Writes call x d t a)
    {h : List (σ × (κ ⊕ ε))} (hx : x.Records K h) : Recorded K h d t :=
  match run with
  | .done => .nil hx
  | .say run => run.recorded hK hx
  | .announce first rest => by
    obtain ⟨hs, hnext⟩ := hx
    have hin := first.recorded hK hs
    -- the step goes on with whatever the listeners have left and written
    have hout := rest.recorded hK (hnext _ _ _ hin.last)
    exact .event hs (hin.append hout)

theorem Diary.recorded
    (hK : ∀ c h r s, K h s → ((call c).run r s).Records K (h ++ [(s, .inl c)]))
    {d : List (σ × (κ ⊕ ε))} {s t : σ} (run : Diary call s d t) {h : List (σ × (κ ⊕ ε))}
    (hs : K h s) : Recorded K h d t :=
  match run with
  | .nil => .nil hs
  | .cons (r := r) (c := c) first rest => by
    have hin := first.recorded hK (hK c h r s hs)
    exact .call hs (hin.append (rest.recorded hK hin.last))

end

/-- What every call records holds at every moment. -/
theorem Moment.holds {s : σ} (hs : K [] s)
    (hK : ∀ c h r s, K h s → ((call c).run r s).Records K (h ++ [(s, .inl c)]))
    {h : List (σ × (κ ⊕ ε))} {g : σ} (hm : Moment call s h g) : K h g := by
  obtain ⟨d, t, run, hg⟩ := hm
  exact run.recorded hK hs h g hg

theorem Diary.moment {d : List (σ × (κ ⊕ ε))} {s t : σ} (run : Diary call s d t) :
    Moment call s d t :=
  ⟨d, t, run, finds_last t d⟩

section Unanswered

/-- The events of a step, each with the state at it, where listeners only look. -/
def Step.seen (r : ρ) : Step ρ σ ε ω α → List (σ × ε)
  | done _ _ => []
  | say _ _ rest => rest.seen r
  | announce s e next => (s, e) :: (next r s).seen r

theorem Step.seen_bind (f : α → Action ρ σ ε ω β) (r : ρ) (x : Step ρ σ ε ω α) :
    (x.bind f r).seen r =
      x.seen r ++ ((f (x.quiet r).value).run r (x.quiet r).state).seen r := by
  induction x with
  | done s a => rfl
  | say s o rest ih => exact ih
  | announce s e next ih => exact congrArg ((s, e) :: ·) (ih r s)

/-- A step that goes along `R` does so where nobody else does anything. -/
theorem Step.Along.quiet {R : σ → σ → Prop} [IsPreorder σ R] {F : σ → ε → Prop} {Q : σ → Prop}
    {x : Step ρ σ ε ω α} (hx : x.Along R F Q) (hQ : ∀ s t, Q s → R s t → Q t) {r : ρ} :
    Q (x.quiet r).state := by
  induction x generalizing Q with
  | done s a => exact hx
  | say s o rest ih => exact ih hx hQ
  | announce s e next ih =>
    obtain ⟨hs, -, hnext⟩ := hx
    exact hQ s _ hs (ih r s (hnext r s (refl s)) fun _ _ => IsTrans.trans _ _ _)

/-- What such a step writes. -/
def Step.entries (r : ρ) (x : Step ρ σ ε ω α) : List (σ × (κ ⊕ ε)) :=
  (x.seen r).map fun y => (y.1, .inr y.2)

/-- The diary of calls one after the other, each in surroundings of its own. -/
def Action.quietDiary (call : κ → Action ρ σ ε ω β) : List (ρ × κ) → σ → List (σ × (κ ⊕ ε))
  | [], _ => []
  | (r, c) :: rest, s =>
    (s, .inl c) :: ((call c).run r s).entries r ++
      quietDiary call rest ((call c).quiet r s).state

variable (call)

theorem Step.writes_entries (r : ρ) (x : Step ρ σ ε ω α) :
    Step.Writes call x (x.entries r) (x.quiet r).state (x.quiet r).value := by
  induction x with
  | done s a => exact .done
  | say s o rest ih => exact .say ih
  | announce s e next ih => exact .announce .nil (ih r s)

theorem diary_quietDiary (h : List (ρ × κ)) (s : σ) :
    Diary call s (Action.quietDiary call h s) (Action.quietRun call h s).state := by
  induction h generalizing s with
  | nil => exact .nil
  | cons y rest ih => exact .cons (Step.writes_entries call y.1 _) (ih _)

theorem call_mem_quietDiary {h : List (ρ × κ)} {y : ρ × κ} (hy : y ∈ h) (s : σ) :
    ∃ t, (t, .inl y.2) ∈ Action.quietDiary call h s := by
  induction h generalizing s with
  | nil => cases hy
  | cons z rest ih =>
    rcases List.mem_cons.1 hy with rfl | hy
    · exact ⟨s, List.mem_cons_self⟩
    · obtain ⟨t, ht⟩ := ih hy ((call z.2).quiet z.1 s).state
      exact ⟨t, List.mem_cons_of_mem _ (List.mem_append_right _ ht)⟩

end Unanswered

end HandheldUI
