import HandheldUI.Action.Quiet

/-! What has happened so far, as a list of entries with the last one at its end. An entry is judged
together with the entries before it. -/

namespace HandheldUI

namespace History

variable {β : Type} {P Q : List β → β → Prop} {h : List β} {y : β}

/-- Every entry was a `P`. -/
def Always (P : List β → β → Prop) (h : List β) : Prop :=
  ∀ before y after, h = before ++ y :: after → P before y

/-- There was a `P`, and every entry after it was a `Q`. -/
def Since (P Q : List β → β → Prop) (h : List β) : Prop :=
  ∃ before y after, h = before ++ y :: after ∧ P before y ∧
    ∀ mid z rest, after = mid ++ z :: rest → Q (before ++ y :: mid) z

/-- An entry of a longer history is the new one or one of the old ones. -/
theorem concat_eq_iff {before after : List β} {z : β} : h ++ [y] = before ++ z :: after ↔
    before = h ∧ z = y ∧ after = [] ∨ ∃ rest, after = rest ++ [y] ∧ h = before ++ z :: rest := by
  constructor
  · intro he
    -- the two sides are compared from their last entries
    rcases List.eq_nil_or_concat after with rfl | ⟨rest, w, rfl⟩
    · obtain ⟨hb, hz⟩ := List.append_inj' he rfl
      exact .inl ⟨hb.symm, (List.singleton_inj.1 hz).symm, rfl⟩
    · rw [List.concat_eq_append, ← List.cons_append, ← List.append_assoc] at he
      obtain ⟨hh, hw⟩ := List.append_inj' he rfl
      exact .inr ⟨rest, by rw [List.concat_eq_append, hw], hh⟩
  · rintro (⟨rfl, rfl, rfl⟩ | ⟨rest, rfl, rfl⟩)
    · rfl
    · simp

theorem always_nil : Always P [] := by
  intro before y after he
  simp at he

theorem always_concat : Always P (h ++ [y]) ↔ Always P h ∧ P h y := by
  constructor
  · intro ha
    refine ⟨fun before z after he => ha before z (after ++ [y]) (by simp [he]), ?_⟩
    exact ha h y [] rfl
  · rintro ⟨ha, hy⟩ before z after he
    rcases concat_eq_iff.1 he with ⟨rfl, rfl, -⟩ | ⟨rest, -, hr⟩
    · exact hy
    · exact ha before z rest hr

/-- The rest of a history is judged together with its first entry. -/
theorem always_cons : Always P (y :: h) ↔ P [] y ∧ Always (fun before => P (y :: before)) h := by
  constructor
  · intro ha
    refine ⟨ha [] y h rfl, fun before z after he => ?_⟩
    exact ha (y :: before) z after (by rw [he, List.cons_append])
  · intro ⟨hy, ha⟩ before z after he
    cases before with
    | nil =>
      cases he
      exact hy
    | cons first rest =>
      cases he
      exact ha rest z after rfl

instance decidableAlways : ∀ (P : List β → β → Prop) [∀ before y, Decidable (P before y)]
    (h : List β), Decidable (Always P h)
  | _, _, [] => isTrue always_nil
  | P, _, y :: h =>
    have := decidableAlways (fun before => P (y :: before)) h
    decidable_of_iff _ always_cons.symm

theorem not_since_nil : ¬Since P Q [] := by
  rintro ⟨before, y, after, he, -⟩
  simp at he

/-- The last entry was the `P`, or there was one before and the last entry is a `Q`. -/
theorem since_concat : Since P Q (h ++ [y]) ↔ P h y ∨ Since P Q h ∧ Q h y := by
  constructor
  · rintro ⟨before, z, after, he, hp, hq⟩
    rcases concat_eq_iff.1 he with ⟨rfl, rfl, -⟩ | ⟨rest, rfl, rfl⟩
    · exact .inl hp
    · refine .inr ⟨⟨before, z, rest, rfl, hp, ?_⟩, hq rest y [] rfl⟩
      intro mid w tail hr
      exact hq mid w (tail ++ [y]) (by simp [hr])
  · rintro (hp | ⟨⟨before, z, after, rfl, hp, hq⟩, hy⟩)
    · exact ⟨h, y, [], rfl, hp, by simp⟩
    · refine ⟨before, z, after ++ [y], by simp, hp, ?_⟩
      intro mid w tail he
      rcases concat_eq_iff.1 he with ⟨rfl, rfl, -⟩ | ⟨rest, -, hr⟩
      · exact hy
      · exact hq mid w rest hr

end History

namespace Action

variable {ρ σ ε ω α κ : Type}

/-- The state that a history of calls leads to. -/
def reached (call : κ → Action ρ σ ε ω α) (s : σ) (h : List (ρ × κ)) : σ :=
  (quietRun call h s).state

@[simp] theorem reached_nil (call : κ → Action ρ σ ε ω α) (s : σ) : reached call s [] = s := rfl

@[simp] theorem reached_concat (call : κ → Action ρ σ ε ω α) (s : σ) (h : List (ρ × κ))
    (y : ρ × κ) : reached call s (h ++ [y]) = ((call y.2).quiet y.1 (reached call s h)).state := by
  rw [reached, quietRun_append]
  rfl

theorem events_quietRun_concat (call : κ → Action ρ σ ε ω α) (s : σ) (h : List (ρ × κ))
    (y : ρ × κ) : (quietRun call (h ++ [y]) s).events =
      (quietRun call h s).events ++ ((call y.2).quiet y.1 (reached call s h)).events := by
  have hlast (t : σ) : (quietRun call [y] t).events = ((call y.2).quiet y.1 t).events := by
    rw [quietRun, quietRun, Outcome.after]
    simp only [List.append_nil]
    rfl
  rw [quietRun_append, ← hlast]
  exact List.filterMap_append

end Action

end HandheldUI
