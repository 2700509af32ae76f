import Mathlib.Algebra.Order.Field.Basic
import Mathlib.Algebra.Order.Ring.Rat
import Mathlib.Tactic.Linarith
import Mathlib.Tactic.NormNum
import Mathlib.Tactic.Ring
import HandheldUI.Proofs.Scalar.Rational
import HandheldUI.Sidebar.Look

/-! The shape of the two movements of the sidebar, on exact numbers. There the looks of a movement
have one formula without cases, so that they come closer to the end of the movement all the time; and
the pill is there only when hardly anything of the sidebar is. -/

namespace HandheldUI.Sidebar

open Scalar (monotone_toUnit toUnit_mem toUnit_of_nonpos toUnit_of_one_le)

section Numbers

variable {t : Rat}

theorem pillStart_eq : (pillStart : Rat) = 71 / 100 := by decide +kernel

theorem pillEnd_eq : (pillEnd : Rat) = 29 / 100 := by decide +kernel

theorem eased_of_lt (h : t < 1 / 2) : eased t = 4 * t ^ 3 := by
  have hhalf : (1 / 2 : Rat) = 0.5 := by norm_num
  rw [hhalf] at h
  calc eased t = 4 * t * t * t := if_pos h
    _ = 4 * t ^ 3 := by ring

theorem eased_of_le (h : 1 / 2 ≤ t) : eased t = 1 - (2 - 2 * t) ^ 3 / 2 := by
  have hhalf : (1 / 2 : Rat) = 0.5 := by norm_num
  rw [hhalf] at h
  calc eased t = 1 - (-2 * t + 2) * (-2 * t + 2) * (-2 * t + 2) / 2 := if_neg h.not_gt
    _ = 1 - (2 - 2 * t) ^ 3 / 2 := by ring

theorem monotoneOn_eased : MonotoneOn (eased : Rat → Rat) (Set.Icc 0 1) := by
  rintro t ⟨ht, -⟩ u ⟨-, hu⟩ h
  rcases lt_or_ge u (1 / 2) with hu' | hu'
  · rw [eased_of_lt (h.trans_lt hu'), eased_of_lt hu']
    gcongr
  · rw [eased_of_le hu']
    rcases lt_or_ge t (1 / 2) with ht' | ht'
    · -- the two pieces meet halfway
      have hleft : t ^ 3 ≤ (1 / 2) ^ 3 := by gcongr
      have hright : (2 - 2 * u) ^ 3 ≤ 1 ^ 3 := by
        gcongr
        · linarith
        · linarith
      rw [eased_of_lt ht']
      linarith
    · have hsub : (2 - 2 * u) ^ 3 ≤ (2 - 2 * t) ^ 3 := by
        gcongr
        linarith
      rw [eased_of_le ht']
      linarith

theorem eased_zero : eased (0 : Rat) = 0 := by decide +kernel

theorem eased_one : eased (1 : Rat) = 1 := by decide +kernel

theorem eased_mem (ht : t ∈ Set.Icc 0 1) : eased t ∈ Set.Icc 0 1 := by
  have h0 : eased 0 ≤ eased t :=
    monotoneOn_eased (Set.left_mem_Icc.2 zero_le_one) ht ht.1
  have h1 : eased t ≤ eased 1 :=
    monotoneOn_eased ht (Set.right_mem_Icc.2 zero_le_one) ht.2
  rw [eased_zero] at h0
  rw [eased_one] at h1
  exact ⟨h0, h1⟩

end Numbers

section Shares

/-- How much of the pill there is when a collapse has come so far. -/
def grown (p : Rat) : Rat := Scalar.toUnit ((p - 71 / 100) / (29 / 100))

/-- How much of the pill is left when an expansion has come so far. -/
def shrunk (p : Rat) : Rat := Scalar.toUnit (1 - p / (29 / 100))

/-- How far the sidebar has widened when an expansion has come so far. -/
def widened (p : Rat) : Rat := Scalar.toUnit ((p - 29 / 100) / (71 / 100))

variable {p : Rat}

theorem grown_of_le (h : p ≤ 71 / 100) : grown p = 0 :=
  toUnit_of_nonpos (div_nonpos_of_nonpos_of_nonneg (sub_nonpos.2 h) (by norm_num))

theorem widened_of_le (h : p ≤ 29 / 100) : widened p = 0 :=
  toUnit_of_nonpos (div_nonpos_of_nonpos_of_nonneg (sub_nonpos.2 h) (by norm_num))

theorem shrunk_of_le (h : 29 / 100 ≤ p) : shrunk p = 0 :=
  toUnit_of_nonpos (sub_nonpos.2 ((one_le_div (by norm_num)).2 h))

theorem monotone_grown : Monotone grown := fun p q h => monotone_toUnit (by gcongr)

theorem monotone_widened : Monotone widened := fun p q h => monotone_toUnit (by gcongr)

theorem antitone_shrunk : Antitone shrunk := fun p q h => monotone_toUnit (by gcongr)

end Shares

namespace Look

section WithPill

variable {a b : Look Rat} {v w s t : Rat}

/-- The measures stay between those of the two looks at rest. -/
structure Sized (a : Look Rat) : Prop where
  width : a.width ∈ Set.Icc 0 130
  pill : a.pill ∈ Set.Icc 44 140
  opacity : a.opacity ∈ Set.Icc 0 1

/-- The second of two looks is that of a sidebar further in: it is not wider, and shows no less of
the pill. -/
structure Inward (a b : Look Rat) : Prop where
  width : b.width ≤ a.width
  pill : a.pill ≤ b.pill
  opacity : a.opacity ≤ b.opacity

theorem pill_withPill (w s : Rat) : (withPill w s).pill = 44 + 96 * s := rfl

theorem withPill_zero (w : Rat) : withPill w 0 = withoutPill w := by
  simp only [withPill, withoutPill, mul_zero, add_zero]

theorem sized_withPill (hw : w ∈ Set.Icc 0 1) (hs : s ∈ Set.Icc 0 1) :
    (withPill (130 * w) s).Sized := by
  obtain ⟨hw0, hw1⟩ := hw
  obtain ⟨hs0, hs1⟩ := hs
  refine ⟨?_, ?_, hs0, hs1⟩
  · change 130 * w ∈ Set.Icc 0 130
    constructor <;> linarith
  · rw [pill_withPill]
    constructor <;> linarith

theorem inward_withPill (hw : w ≤ v) (hs : s ≤ t) :
    (withPill (130 * v) s).Inward (withPill (130 * w) t) where
  width := by
    change 130 * w ≤ 130 * v
    gcongr
  pill := by
    rw [pill_withPill, pill_withPill]
    gcongr
  opacity := hs

end WithPill

/-- In exact numbers the looks of a movement have no breaks, and so no cases either. -/
theorem during_collapsing (x : Rat) : during .collapsing x =
    withPill (130 * (1 - eased (Scalar.toUnit x))) (grown (Scalar.toUnit x)) := by
  have hp : Scalar.toUnit x ∈ Set.Icc 0 1 := toUnit_mem x
  have hspan : 1 - (pillStart : Rat) = 29 / 100 := by decide +kernel
  unfold during
  generalize Scalar.toUnit x = p at hp
  dsimp only
  split
  · next h =>
    obtain rfl : p = 1 := le_antisymm hp.2 h
    decide +kernel
  · split
    · next h =>
      rw [pillStart_eq] at h
      rw [grown_of_le h, withPill_zero]
      rfl
    · rw [grown, ← hspan, ← pillStart_eq]
      rfl

theorem during_expanding (x : Rat) : during .expanding x =
    withPill (130 * widened (Scalar.toUnit x)) (shrunk (Scalar.toUnit x)) := by
  have hp : Scalar.toUnit x ∈ Set.Icc 0 1 := toUnit_mem x
  have hspan : 1 - (pillEnd : Rat) = 71 / 100 := by decide +kernel
  unfold during
  generalize Scalar.toUnit x = p at hp
  dsimp only
  split
  · next h =>
    obtain rfl : p = 1 := le_antisymm hp.2 h
    decide +kernel
  · split
    · next h =>
      rw [pillEnd_eq] at h
      rw [widened_of_le h.le, mul_zero, shrunk, ← pillEnd_eq]
    · next h =>
      have h : ¬p < 29 / 100 := pillEnd_eq ▸ h
      rw [shrunk_of_le (not_lt.1 h), withPill_zero, widened, ← hspan, ← pillEnd_eq]
      rfl

variable {x y : Rat}

theorem sized_rest : (expanded : Look Rat).Sized ∧ (collapsed : Look Rat).Sized :=
  ⟨by constructor <;> decide +kernel, by constructor <;> decide +kernel⟩

theorem sized_during (phase : Phase) (x : Rat) : (during phase x).Sized := by
  have hp : Scalar.toUnit x ∈ Set.Icc 0 1 := toUnit_mem x
  cases phase with
  | expanded => exact sized_rest.1
  | collapsed => exact sized_rest.2
  | collapsing =>
    obtain ⟨h0, h1⟩ := eased_mem hp
    rw [during_collapsing]
    exact sized_withPill ⟨sub_nonneg.2 h1, sub_le_self 1 h0⟩ (toUnit_mem _)
  | expanding =>
    rw [during_expanding]
    exact sized_withPill (toUnit_mem _) (toUnit_mem _)

theorem during_of_nonpos (h : x ≤ 0) :
    (during .collapsing x : Look Rat) = expanded ∧ (during .expanding x : Look Rat) = collapsed := by
  rw [during_collapsing, during_expanding, toUnit_of_nonpos h]
  decide +kernel

theorem during_of_one_le (h : 1 ≤ x) :
    (during .collapsing x : Look Rat) = collapsed ∧ (during .expanding x : Look Rat) = expanded := by
  rw [during_collapsing, during_expanding, toUnit_of_one_le h]
  decide +kernel

theorem inward_collapsing (h : x ≤ y) :
    (during .collapsing x).Inward (during .collapsing y) := by
  have hp : Scalar.toUnit x ≤ Scalar.toUnit y := monotone_toUnit h
  have heased : eased (Scalar.toUnit x) ≤ eased (Scalar.toUnit y) :=
    monotoneOn_eased (toUnit_mem x) (toUnit_mem y) hp
  rw [during_collapsing, during_collapsing]
  exact inward_withPill (sub_le_sub_left heased 1) (monotone_grown hp)

theorem inward_expanding (h : x ≤ y) :
    (during .expanding y).Inward (during .expanding x) := by
  have hp : Scalar.toUnit x ≤ Scalar.toUnit y := monotone_toUnit h
  rw [during_expanding, during_expanding]
  exact inward_withPill (monotone_widened hp) (antitone_shrunk hp)

theorem width_lt_of_collapsing (h : 0 < (during .collapsing x).opacity) :
    (during .collapsing x).width < 13 := by
  rw [during_collapsing] at h ⊢
  have hp : 71 / 100 < Scalar.toUnit x := by
    by_contra hp
    exact h.ne' (grown_of_le (not_lt.1 hp))
  have heased : eased (71 / 100) ≤ eased (Scalar.toUnit x) :=
    monotoneOn_eased (by constructor <;> norm_num) (toUnit_mem x) hp.le
  calc 130 * (1 - eased (Scalar.toUnit x)) ≤ 130 * (1 - eased (71 / 100)) := by gcongr
    _ < 13 := by decide +kernel

theorem width_eq_zero_of_expanding (h : 0 < (during .expanding x).opacity) :
    (during .expanding x).width = 0 := by
  rw [during_expanding] at h ⊢
  have hp : Scalar.toUnit x < 29 / 100 := by
    by_contra hp
    exact h.ne' (shrunk_of_le (not_lt.1 hp))
  change 130 * widened _ = 0
  rw [widened_of_le hp.le, mul_zero]

end Look

/-- Both movements at every progress. The measures stay within those at rest. A movement starts with
the looks of the one rest and ends with those of the other; in between the sidebar only goes in while
it collapses, and only comes out while it expands. As long as anything of the pill shows, less than a
tenth of the sidebar does, and nothing of it when it expands. -/
theorem during_shape (x y : Rat) :
    (∀ phase, (Look.during phase x).Sized) ∧
    (x ≤ 0 → Look.during .collapsing x = .expanded ∧ Look.during .expanding x = .collapsed) ∧
    (1 ≤ x → Look.during .collapsing x = .collapsed ∧ Look.during .expanding x = .expanded) ∧
    (x ≤ y → (Look.during .collapsing x).Inward (Look.during .collapsing y) ∧
      (Look.during .expanding y).Inward (Look.during .expanding x)) ∧
    (0 < (Look.during .collapsing x).opacity → (Look.during .collapsing x).width < 13) ∧
    (0 < (Look.during .expanding x).opacity → (Look.during .expanding x).width = 0) :=
  ⟨fun phase => Look.sized_during phase x, Look.during_of_nonpos, Look.during_of_one_le,
    fun h => ⟨Look.inward_collapsing h, Look.inward_expanding h⟩, Look.width_lt_of_collapsing,
    Look.width_eq_zero_of_expanding⟩

/-- Before a movement and after it, when the pill of a collapse has begun to grow, and when that of an
expansion is not yet gone. -/
theorem during_shape_with_pill :
    Look.during .collapsing (-1 : Rat) = .expanded ∧
    Look.during .collapsing (2 : Rat) = .collapsed ∧
    (Look.during .collapsing (-1 : Rat)).Inward (Look.during .collapsing 0.72) ∧
    0 < (Look.during .collapsing (0.72 : Rat)).opacity ∧
    (Look.during .collapsing (0.72 : Rat)).width < 13 ∧
    0 < (Look.during .expanding (0.28 : Rat)).opacity ∧
    (Look.during .expanding (0.28 : Rat)).width = 0 := by
  have hgrowing : 0 < (Look.during .collapsing (0.72 : Rat)).opacity := by decide +kernel
  have hleaving : 0 < (Look.during .expanding (0.28 : Rat)).opacity := by decide +kernel
  obtain ⟨-, hbefore, -, hinward, -⟩ := during_shape (-1) 0.72
  obtain ⟨-, -, -, -, hnarrow, -⟩ := during_shape 0.72 2
  obtain ⟨-, -, -, -, -, hgone⟩ := during_shape 0.28 2
  obtain ⟨-, -, hafter, -⟩ := during_shape 2 2
  exact ⟨(hbefore (by norm_num)).1, (hafter (by norm_num)).1, (hinward (by norm_num)).1, hgrowing,
    hnarrow hgrowing, hleaving, hgone hleaving⟩

end HandheldUI.Sidebar
