import HandheldUI.Proofs.Action.Diary

/-! The journal of a run whose listeners make calls. Its entries say more than those of a diary: of
an event to which call it belongs, and where its listeners are done. A call is known by the place of
its own entry. -/

namespace HandheldUI

variable {ρ σ ε ω β κ : Type}

inductive Deed (κ ε : Type) where
  | made (c : κ)
  /-- The call `c`, made at the place `n`, announces an event. -/
  | told (n : Nat) (c : κ) (e : ε)
  /-- The listeners of that event are done. -/
  | heard (n : Nat) (c : κ) (e : ε)

mutual

/-- The step of the call at the place `n` ends in a state and a value, its listeners making calls;
meanwhile the journal grows from the first list to the second. -/
inductive Step.Logs (call : κ → Action ρ σ ε ω β) : Nat → κ → {α : Type} →
    List (σ × Deed κ ε) → Step ρ σ ε ω α → List (σ × Deed κ ε) → σ → α → Prop where
  | done {n : Nat} {c : κ} {α : Type} {h : List (σ × Deed κ ε)} {s : σ} {a : α} :
    Step.Logs call n c h (.done s a) h s a
  | say {n : Nat} {c : κ} {α : Type} {h h' : List (σ × Deed κ ε)} {s t : σ} {o : ω}
      {rest : Step ρ σ ε ω α} {a : α} :
    Step.Logs call n c h rest h' t a → Step.Logs call n c h (.say s o rest) h' t a
  | announce {n : Nat} {c : κ} {α : Type} {h g h' : List (σ × Deed κ ε)} {s u t : σ} {e : ε}
      {next : ρ → σ → Step ρ σ ε ω α} {r : ρ} {a : α} :
    Journal call s (h ++ [(s, .told n c e)]) g u →
      Step.Logs call n c (g ++ [(u, .heard n c e)]) (next r u) h' t a →
      Step.Logs call n c h (.announce s e next) h' t a

/-- Calls one after the other lead from one state to another. -/
inductive Journal (call : κ → Action ρ σ ε ω β) :
    σ → List (σ × Deed κ ε) → List (σ × Deed κ ε) → σ → Prop where
  | nil {s : σ} {h : List (σ × Deed κ ε)} : Journal call s h h s
  | cons {s u t : σ} {r : ρ} {c : κ} {b : β} {h g h' : List (σ × Deed κ ε)} :
    Step.Logs call h.length c (h ++ [(s, .made c)]) ((call c).run r s) g u b →
      Journal call u g h' t → Journal call s h h' t

end

variable {α : Type} {call : κ → Action ρ σ ε ω β}

section Goes

mutual

theorem Step.Logs.isPrefix {n : Nat} {c : κ} {α : Type} {x : Step ρ σ ε ω α}
    {h h' : List (σ × Deed κ ε)} {t : σ} {a : α} (run : Step.Logs call n c h x h' t a) : h <+: h' :=
  match run with
  | .done => List.prefix_refl _
  | .say run => run.isPrefix
  | .announce first rest =>
    (List.prefix_append _ _).trans <| first.isPrefix.trans <|
      (List.prefix_append _ _).trans rest.isPrefix

/-- A journal is only added to. -/
theorem Journal.isPrefix {s t : σ} {h h' : List (σ × Deed κ ε)} (run : Journal call s h h' t) :
    h <+: h' :=
  match run with
  | .nil => List.prefix_refl _
  | .cons first rest => (List.prefix_append _ _).trans (first.isPrefix.trans rest.isPrefix)

end

/-- Nobody has done anything since the entries `h`, or the first entry since is a call. -/
def Goes (h : List (σ × Deed κ ε)) (s : σ) (h' : List (σ × Deed κ ε)) (t : σ) : Prop :=
  h' = h ∧ t = s ∨ ∃ c d, h' = h ++ (s, .made c) :: d

theorem Journal.goes {s t : σ} {h h' : List (σ × Deed κ ε)} (run : Journal call s h h' t) :
    Goes h s h' t :=
  match run with
  | .nil => .inl ⟨rfl, rfl⟩
  | .cons (c := c) first rest => by
    obtain ⟨d, rfl⟩ := first.isPrefix.trans rest.isPrefix
    exact .inr ⟨c, d, by simp⟩

end Goes

section Logged

variable {K : List (σ × Deed κ ε) → σ → Prop} {n : Nat} {c : κ}

/-- Started after the entries `h`, the step has `K` of the entries and the state at each of its
events and at its end, as long as the listeners leave it so. -/
def Step.Logged (K : List (σ × Deed κ ε) → σ → Prop) (n : Nat) (c : κ) :
    List (σ × Deed κ ε) → Step ρ σ ε ω α → Prop
  | h, done s _ => K h s
  | h, say _ _ rest => rest.Logged K n c h
  | h, announce s e next =>
    K (h ++ [(s, .told n c e)]) s ∧
      ∀ h' r t, Goes (h ++ [(s, .told n c e)]) s h' t → K h' t →
        (next r t).Logged K n c (h' ++ [(t, .heard n c e)])

theorem Step.Logged.bind {x : Step ρ σ ε ω α} {f : α → Action ρ σ ε ω β} {r : ρ}
    {h : List (σ × Deed κ ε)} (hx : x.Logged K n c h)
    (hf : ∀ a h r s, K h s → ((f a).run r s).Logged K n c h) : (x.bind f r).Logged K n c h := by
  induction x generalizing h r with
  | done s a => exact hf a h r s hx
  | say s o rest ih => exact ih hx
  | announce s e next ih =>
    refine ⟨hx.1, fun h' r' t hgoes ht => ?_⟩
    exact ih r' t (hx.2 h' r' t hgoes ht)

mutual

theorem Step.Logs.holds
    (hK : ∀ c h r s, K h s → ((call c).run r s).Logged K h.length c (h ++ [(s, .made c)]))
    {n : Nat} {c : κ} {α : Type} {x : Step ρ σ ε ω α} {h h' : List (σ × Deed κ ε)} {t : σ} {a : α}
    (run : Step.Logs call n c h x h' t a) (hx : x.Logged K n c h) : K h' t :=
  match run with
  | .done => hx
  | .say run => run.holds hK hx
  | .announce first rest => rest.holds hK (hx.2 _ _ _ first.goes (first.holds hK hx.1))

/-- What every call logs holds after the whole run. -/
theorem Journal.holds
    (hK : ∀ c h r s, K h s → ((call c).run r s).Logged K h.length c (h ++ [(s, .made c)]))
    {h h' : List (σ × Deed κ ε)} {s t : σ} (run : Journal call s h h' t) (hs : K h s) : K h' t :=
  match run with
  | .nil => hs
  | .cons first rest => rest.holds hK (first.holds hK (hK _ _ _ _ hs))

end

end Logged

section Plain

/-- The entry as a diary has it. -/
def Deed.plain? : Deed κ ε → Option (κ ⊕ ε)
  | made c => some (.inl c)
  | told _ _ e => some (.inr e)
  | heard _ _ _ => none

/-- What a journal says as a diary. -/
def plainly (h : List (σ × Deed κ ε)) : List (σ × (κ ⊕ ε)) :=
  h.filterMap fun y => y.2.plain?.map (y.1, ·)

theorem plainly_append (h h' : List (σ × Deed κ ε)) :
    plainly (h ++ h') = plainly h ++ plainly h' :=
  List.filterMap_append

mutual

theorem Step.Logs.writes {n : Nat} {c : κ} {α : Type} {x : Step ρ σ ε ω α}
    {h h' : List (σ × Deed κ ε)} {t : σ} {a : α} (run : Step.Logs call n c h x h' t a) :
    ∃ d, Step.Writes call x d t a ∧ plainly h' = plainly h ++ d :=
  match run with
  | .done => ⟨[], .done, by simp⟩
  | .say run => by
    obtain ⟨d, hd, hh⟩ := run.writes
    exact ⟨d, .say hd, hh⟩
  | .announce (s := s) (e := e) first rest => by
    obtain ⟨d, hd, hg⟩ := first.diary
    obtain ⟨d', hd', hh⟩ := rest.writes
    refine ⟨(s, .inr e) :: d ++ d', .announce hd hd', ?_⟩
    rw [hh, plainly_append, hg, plainly_append]
    simp [plainly, Deed.plain?]

theorem Journal.diary {s t : σ} {h h' : List (σ × Deed κ ε)} (run : Journal call s h h' t) :
    ∃ d, Diary call s d t ∧ plainly h' = plainly h ++ d :=
  match run with
  | .nil => ⟨[], .nil, by simp⟩
  | .cons (s := s) (c := c) first rest => by
    obtain ⟨d, hd, hg⟩ := first.writes
    obtain ⟨d', hd', hh⟩ := rest.diary
    refine ⟨(s, .inl c) :: d ++ d', .cons hd hd', ?_⟩
    rw [hh, hg, plainly_append]
    simp [plainly, Deed.plain?]

end

mutual

theorem Step.Writes.logs {α : Type} {x : Step ρ σ ε ω α} {d : List (σ × (κ ⊕ ε))} {t : σ} {a : α}
    (run : Step.Writes call x d t a) (n : Nat) (c : κ) (h : List (σ × Deed κ ε)) :
    ∃ h', Step.Logs call n c h x h' t a ∧ plainly h' = plainly h ++ d :=
  match run with
  | .done => ⟨h, .done, by simp⟩
  | .say run => by
    obtain ⟨h', hl, hh⟩ := run.logs n c h
    exact ⟨h', .say hl, hh⟩
  | .announce (s := s) (u := u) (e := e) first rest => by
    obtain ⟨g, hl, hg⟩ := first.journal (h ++ [(s, .told n c e)])
    obtain ⟨h', hl', hh⟩ := rest.logs n c (g ++ [(u, .heard n c e)])
    refine ⟨h', .announce hl hl', ?_⟩
    rw [hh, plainly_append, hg, plainly_append]
    simp [plainly, Deed.plain?]

theorem Diary.journal {s t : σ} {d : List (σ × (κ ⊕ ε))} (run : Diary call s d t)
    (h : List (σ × Deed κ ε)) : ∃ h', Journal call s h h' t ∧ plainly h' = plainly h ++ d :=
  match run with
  | .nil => ⟨h, .nil, by simp⟩
  | .cons (s := s) (c := c) first rest => by
    obtain ⟨g, hl, hg⟩ := first.logs h.length c (h ++ [(s, .made c)])
    obtain ⟨h', hl', hh⟩ := rest.journal g
    refine ⟨h', .cons hl hl', ?_⟩
    rw [hh, hg, plainly_append]
    simp [plainly, Deed.plain?]

end

/-- The diaries are just what journals say. -/
theorem diary_iff_journal {s t : σ} {d : List (σ × (κ ⊕ ε))} :
    Diary call s d t ↔ ∃ h, Journal call s [] h t ∧ plainly h = d := by
  constructor
  · intro run
    obtain ⟨h, hl, hd⟩ := run.journal []
    exact ⟨h, hl, hd⟩
  · rintro ⟨h, run, rfl⟩
    obtain ⟨d, hd, hh⟩ := run.diary
    rwa [hh]

end Plain

end HandheldUI
