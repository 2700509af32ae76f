import HandheldUI.Proofs.Scalar.Packing

/-! Signs and order of machine numbers. Two numbers are always in order unless one of them is a
`NaN`, and quotients of what is not below zero are not below zero either. -/

namespace HandheldUI.Binary64

open Float.Model (UnpackedFloat)
open Float.Model.UnpackedFloat

section Order

theorem compare_swap (u v : UnpackedFloat) : v.compare u = (u.compare v).map .swap := by
  -- two finite numbers of one sign go by their exponents first
  have hfinite (e e' : Int) (m m' : Nat) : (compare e' e).then (compare m' m) =
      ((compare e e').then (compare m m')).swap := by
    rw [Ordering.swap_then, ← Std.OrientedCmp.eq_swap, ← Std.OrientedCmp.eq_swap]
  rcases u with ⟨⟨⟩⟩ | _ | ⟨⟨⟩⟩ | ⟨⟨⟩, m, e, pos⟩ <;>
    rcases v with ⟨⟨⟩⟩ | _ | ⟨⟨⟩⟩ | ⟨⟨⟩, m', e', pos'⟩ <;> try rfl
  · exact congrArg some (congrArg Ordering.swap (hfinite e e' m m'))
  · exact congrArg some (hfinite e e' m m')

/-- Numbers are in order. -/
theorem isSome_compare (u v : UnpackedFloat) :
    (u.compare v).isSome = ((sign? u).isSome && (sign? v).isSome) := by
  rcases u with ⟨⟨⟩⟩ | _ | ⟨⟨⟩⟩ | ⟨⟨⟩, m, e, pos⟩ <;>
    rcases v with ⟨⟨⟩⟩ | _ | ⟨⟨⟩⟩ | ⟨⟨⟩, m', e', pos'⟩ <;> rfl

variable {x y : Float}

theorem lt_iff : x < y ↔ (unpacked x).compare (unpacked y) = some .lt := by
  change decide (((unpacked x).compare (unpacked y) == some .lt) = true) = true ↔ _
  rw [decide_eq_true_iff, beq_iff_eq]

theorem le_iff : x ≤ y ↔ (unpacked x).compare (unpacked y) = some .lt ∨
    (unpacked x).compare (unpacked y) = some .eq := by
  change decide (((unpacked x).compare (unpacked y)).any (·.isLE) = true) = true ↔ _
  rw [decide_eq_true_iff]
  rcases (unpacked x).compare (unpacked y) with _ | _ | _ | _ <;> decide

theorem lt_of_not_le (hx : (sign? (unpacked x)).isSome) (hy : (sign? (unpacked y)).isSome)
    (h : ¬x ≤ y) : y < x := by
  obtain ⟨o, ho⟩ := Option.isSome_iff_exists.1
    ((isSome_compare (unpacked x) (unpacked y)).trans (by rw [hx, hy]; rfl))
  rw [le_iff, ho] at h
  rw [lt_iff, compare_swap, ho]
  cases o with
  | lt => exact absurd (.inl rfl) h
  | eq => exact absurd (.inr rfl) h
  | gt => rfl

theorem not_lt_of_lt (h : x < y) : ¬y < x := by
  rw [lt_iff] at h
  rw [lt_iff, compare_swap (unpacked x), h]
  simp [Ordering.swap]

theorem le_of_lt (h : x < y) : x ≤ y := le_iff.2 (.inl (lt_iff.1 h))

theorem max_of_lt (h : x < y) : Scalar.max x y = y := if_pos h

theorem max_of_gt (h : y < x) : Scalar.max x y = x :=
  (if_neg (not_lt_of_lt h)).trans (if_pos (le_of_lt h))

theorem min_of_lt (h : x < y) : Scalar.min x y = x :=
  (if_neg (not_lt_of_lt h)).trans (if_pos (le_of_lt h))

end Order

section Signs

/-- The number is not below zero. -/
def Unsigned (x : Float) : Prop := sign? (unpacked x) = some .positive

theorem zero_or_finite {x : Float} (hx : Scalar.isFinite x) :
    (∃ s, unpacked x = .zero s) ∨ ∃ s m e pos, unpacked x = .finite s m e pos := by
  have hparts : (partsOf? (unpacked x)).isSome := by
    rw [← parts?_eq, ← hx]
    exact Option.isSome_map.symm
  cases hu : unpacked x with
  | notANumber | infinity s =>
    rw [hu] at hparts
    cases hparts
  | zero s => exact .inl ⟨s, rfl⟩
  | finite s m e pos => exact .inr ⟨s, m, e, pos, rfl⟩

theorem sign?_roundWithAccuracy (s : Sign) (m : Nat) (e : Int) (a : Accuracy) :
    sign? (roundWithAccuracy .binary64 s m e a) = some s := by
  unfold roundWithAccuracy
  dsimp only
  generalize shiftToTargetExponent _ _ _ _ = y
  by_cases h : y.1.mantissa = 0
  · rw [dif_pos h]
    rfl
  · rw [dif_neg h]
    rfl

variable {x y z : Float}

theorem isSome_sign?_normalize (m e : Int) (s : Sign) :
    (sign? (UnpackedFloat.normalize .binary64 m e s)).isSome := by
  unfold UnpackedFloat.normalize UnpackedFloat.round
  split
  · exact congrArg Option.isSome (sign?_roundWithAccuracy _ _ _ _)
  · rfl
  · exact congrArg Option.isSome (sign?_roundWithAccuracy _ _ _ _)

/-- The difference of finite numbers may be infinite, but is a number. -/
theorem isSome_sign?_sub (hx : Scalar.isFinite x) (hy : Scalar.isFinite y) :
    (sign? (unpacked (x - y))).isSome := by
  rw [sub_eq_packed, sign?_unpacked_packed]
  rcases zero_or_finite hx with ⟨s, hu⟩ | ⟨s, m, e, pos, hu⟩ <;>
    rcases zero_or_finite hy with ⟨s', hv⟩ | ⟨s', m', e', pos', hv⟩ <;> rw [hu, hv]
  · cases s <;> cases s' <;> rfl
  · rfl
  · rfl
  · exact isSome_sign?_normalize _ _ _

theorem unsigned_of_pos (hz : unpacked z = .zero .positive) (h : z < x) : Unsigned x := by
  rw [lt_iff, hz] at h
  rcases hu : unpacked x with ⟨⟨⟩⟩ | _ | ⟨⟨⟩⟩ | ⟨⟨⟩, m, e, pos⟩ <;> rw [hu] at h <;>
    first | exact congrArg sign? hu | cases h

theorem Unsigned.le (hx : Unsigned x) (hz : unpacked z = .zero .positive) : z ≤ x := by
  rw [le_iff, hz]
  unfold Unsigned at hx
  rcases hu : unpacked x with ⟨⟨⟩⟩ | _ | ⟨⟨⟩⟩ | ⟨⟨⟩, m, e, pos⟩ <;> rw [hu] at hx <;>
    first | exact .inl rfl | exact .inr rfl | cases hx

theorem unsigned_max (hz : unpacked z = .zero .positive) (hx : (sign? (unpacked x)).isSome) :
    Unsigned (Scalar.max z x) := by
  unfold Scalar.max
  by_cases h : z < x
  · rw [if_pos h]
    exact unsigned_of_pos hz h
  · have hle : x ≤ z := by
      by_contra hn
      exact h (lt_of_not_le hx (by rw [hz]; rfl) hn)
    rw [if_neg h, if_pos hle]
    exact congrArg sign? hz

theorem Unsigned.div (hx : Unsigned x) {m : Nat} {e : Int} {pos : 0 < m}
    (hy : unpacked y = .finite .positive m e pos) : Unsigned (x / y) := by
  unfold Unsigned at hx ⊢
  rw [div_eq_packed, sign?_unpacked_packed, hy]
  rcases hu : unpacked x with ⟨⟨⟩⟩ | _ | ⟨⟨⟩⟩ | ⟨⟨⟩, m, e, pos⟩ <;> rw [hu] at hx <;>
    first | rfl | exact sign?_roundWithAccuracy _ _ _ _ | cases hx

/-- A finite number above zero. -/
theorem exists_unpacked_of_pos (hz : unpacked z = .zero .positive) (hx : Scalar.isFinite x)
    (h : z < x) : ∃ m e pos, unpacked x = .finite .positive m e pos := by
  have hs : Unsigned x := unsigned_of_pos hz h
  rw [lt_iff, hz] at h
  rcases zero_or_finite hx with ⟨s, hu⟩ | ⟨s, m, e, pos, hu⟩
  · rw [hu] at h
    cases h
  · rw [Unsigned, hu] at hs
    cases hs
    exact ⟨m, e, pos, hu⟩

end Signs

end HandheldUI.Binary64
