import HandheldUI.Focus
import HandheldUI.Proofs.Action.Quiet

/-! What each call does to the covers of the focus. Only `cover` and `uncover` touch them, by one,
and each is refused at one end of the room. -/

namespace HandheldUI.Focus

open HandheldUI.Action

theorem isFull_iff (f : Focus) : f.isFull = true ↔ 3 ≤ f.depth := by
  rw [isFull, decide_eq_true_iff, capacity]
  omega

@[simp] theorem depth_setTop (o : Owner) (f : Focus) : (f.setTop o).depth = f.depth := by
  obtain ⟨b, covers⟩ := f
  cases covers <;> rfl

@[simp] theorem depth_pointAt (n : Nat) (f : Focus) : (f.pointAt n).depth = f.depth :=
  depth_setTop _ f

theorem quiet_cover (f : Focus) :
    cover.quiet () f =
      if f.isFull then
        ⟨f, [.inr (.refused (.full f.depth)), .inl (.refused (.full f.depth))], false⟩
      else
        ⟨{ f with covers := { zone := .overlay } :: f.covers },
          [.inl (.covered (f.depth + 1)), .inr (.covered (f.depth + 1))], true⟩ := by
  unfold cover
  by_cases h : f.isFull
  · simp [h, refuse, Outcome.after]
  · simp [h, Outcome.after, depth]

theorem quiet_uncover (f : Focus) :
    uncover.quiet () f =
      if f.depth = 0 then
        ⟨f, [.inr (.refused (.bare f.depth)), .inl (.refused (.bare f.depth))], false⟩
      else
        ⟨{ f with covers := f.covers.tail },
          [.inl (.uncovered (f.depth - 1)), .inr (.uncovered (f.depth - 1))], true⟩ := by
  unfold uncover
  by_cases h : f.depth = 0
  · simp [h, refuse, Outcome.after]
  · simp [h, Outcome.after]
    simp [depth]

theorem depth_quiet_cover (f : Focus) :
    (cover.quiet () f).state.depth = f.depth + (!f.isFull).toNat := by
  rw [quiet_cover]
  cases f.isFull <;> simp [depth]

theorem depth_quiet_uncover (f : Focus) : (uncover.quiet () f).state.depth = f.depth - 1 := by
  rw [quiet_uncover]
  by_cases h : f.depth = 0
  · simp [h]
  · rw [if_neg h]
    simp [depth]

theorem value_quiet_cover (f : Focus) : (cover.quiet () f).value = !f.isFull := by
  rw [quiet_cover]
  cases f.isFull <;> rfl

theorem value_quiet_uncover (f : Focus) :
    (uncover.quiet () f).value = decide (f.depth ≠ 0) := by
  rw [quiet_uncover]
  by_cases h : f.depth = 0 <;> simp [h]

theorem depth_quiet_give (z : Zone) (f : Focus) : ((give z).quiet () f).state.depth = f.depth := by
  unfold give
  by_cases h : 0 < f.depth ∧ z ≠ .overlay
  · simp [h]
  · by_cases hz : f.zone = z <;> simp [h, hz]

/-- A call that is neither `cover` nor `uncover`. -/
def Call.sparesCovers {α : Type} : Call α → Bool
  | cover | uncover => false
  | _ => true

variable {α : Type} [Scalar α]

theorem depth_quiet_of_sparesCovers {c : Call α} (h : c.sparesCovers) (f : Focus) :
    (c.run.quiet () f).state.depth = f.depth := by
  cases c with
  | give z => simpa [Call.run] using depth_quiet_give z f
  | pointAt x => simp [Call.run]
  | toSidebar => simpa [Call.run, Focus.toSidebar] using depth_quiet_give .sidebar f
  | toContent s => simpa [Call.run, Focus.toContent] using depth_quiet_give s.content f
  | cover => simp [Call.sparesCovers] at h
  | uncover => simp [Call.sparesCovers] at h

theorem value_quiet_of_sparesCovers {c : Call α} (h : c.sparesCovers) (f : Focus) :
    (c.run.quiet () f).value = none := by
  cases c with
  | cover => simp [Call.sparesCovers] at h
  | uncover => simp [Call.sparesCovers] at h
  | _ => simp [Call.run]

end HandheldUI.Focus
