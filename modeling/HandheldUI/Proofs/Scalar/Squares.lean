import HandheldUI.Proofs.Scalar.Exact

/-! Squared distances of machine numbers. A square has no sign, so the difference that it is made of
may be taken either way round; and a sum of squares is no less than each of them, as long as it is a
number. -/

namespace HandheldUI.Binary64

open Float.Model (UnpackedFloat Format)
open Float.Model.UnpackedFloat

section Magnitudes

variable {u v : UnpackedFloat} {a b : Rat}

theorem abs_roundWithAccuracy (s : Sign) (m : Nat) (e : Int) (c : Accuracy) :
    (roundWithAccuracy .binary64 s m e c).abs = roundWithAccuracy .binary64 .positive m e c := by
  unfold roundWithAccuracy
  dsimp only
  generalize shiftToTargetExponent _ _ _ _ = y
  by_cases h : y.1.mantissa = 0
  · rw [dif_pos h, dif_pos h]
    rfl
  · rw [dif_neg h, dif_neg h]
    rfl

theorem abs_normalize_neg (m e : Int) (z : Sign) :
    (UnpackedFloat.normalize .binary64 (-m) e z).abs =
      (UnpackedFloat.normalize .binary64 m e z).abs := by
  have hround (s : Sign) (n : Nat) : (UnpackedFloat.round .binary64 s n e).abs =
      UnpackedFloat.round .binary64 .positive n e := abs_roundWithAccuracy _ _ _ _
  unfold UnpackedFloat.normalize
  rcases lt_trichotomy m 0 with h | rfl | h
  · rw [compare_lt_iff_lt.2 h, compare_gt_iff_gt.2 (show 0 < -m by omega)]
    exact (hround _ _).trans (hround _ _).symm
  · rfl
  · rw [compare_gt_iff_gt.2 h, compare_lt_iff_lt.2 (show -m < 0 by omega), Int.neg_neg]
    exact (hround _ _).trans (hround _ _).symm

theorem abs_sub_comm_unpacked (u v : UnpackedFloat) :
    (UnpackedFloat.sub .binary64 u v).abs = (UnpackedFloat.sub .binary64 v u).abs := by
  rcases u with ⟨⟨⟩⟩ | _ | ⟨⟨⟩⟩ | ⟨s, m, e, pos⟩ <;>
    rcases v with ⟨⟨⟩⟩ | _ | ⟨⟨⟩⟩ | ⟨s', m', e', pos'⟩ <;> try rfl
  -- only finite numbers are left; their mantissas are brought to one exponent
  have hsub (s s' : Sign) (m m' : Nat) (e e' : Int) (pos : 0 < m) (pos' : 0 < m') :
      UnpackedFloat.sub .binary64 (.finite s m e pos) (.finite s' m' e' pos') =
        UnpackedFloat.normalize .binary64 (s.apply (m <<< (e - min e e').toNat : Nat) -
          s'.apply (m' <<< (e' - min e e').toNat : Nat)) (min e e') .positive := rfl
  rw [hsub, hsub, Int.min_comm e' e, ← abs_normalize_neg, Int.neg_sub]

theorem mul_self_abs (u : UnpackedFloat) :
    UnpackedFloat.mul .binary64 u u = UnpackedFloat.mul .binary64 u.abs u.abs := by
  rcases u with ⟨⟨⟩⟩ | _ | ⟨⟨⟩⟩ | ⟨⟨⟩, m, e, pos⟩ <;> rfl

theorem abs_unpacked_packed (u : UnpackedFloat) :
    (unpacked (packed u)).abs = unpacked (packed u.abs) := by
  change (UnpackedFloat.unpack .binary64 (UnpackedFloat.pack .binary64 u)).abs =
    UnpackedFloat.unpack .binary64 (UnpackedFloat.pack .binary64 u.abs)
  cases u with
  | notANumber => rfl
  | infinity s => cases s <;> rfl
  | zero s => cases s <;> rfl
  | finite s m e pos =>
    change _ = UnpackedFloat.unpack .binary64 (UnpackedFloat.pack .binary64 (.finite .positive m e pos))
    rw [pack_finite, pack_finite]
    by_cases hlarge : 972 ≤ e
    · rw [if_pos hlarge, if_pos hlarge]
      cases s <;> rfl
    · rw [if_neg hlarge, if_neg hlarge]
      have hfields (k : BitVec 11) (n : BitVec 52) :
          (UnpackedFloat.unpack .binary64 (packComponents .binary64 s k n)).abs =
            UnpackedFloat.unpack .binary64 (packComponents .binary64 .positive k n) := by
        rw [unpack_packComponents, unpack_packComponents]
        by_cases hk : k = -1#11
        · rw [if_pos hk, if_pos hk]
          by_cases hn : n = 0#52
          · rw [if_pos hn, if_pos hn]
            rfl
          · rw [if_neg hn, if_neg hn]
            rfl
        · rw [if_neg hk, if_neg hk]
          by_cases hk : k = 0#11
          · rw [if_pos hk, if_pos hk]
            by_cases hn : n = 0#52
            · rw [dif_pos hn, dif_pos hn]
              rfl
            · rw [dif_neg hn, dif_neg hn]
              rfl
          · rw [if_neg hk, if_neg hk]
            rfl
      by_cases hlog : m.log2 = 52
      · rw [if_pos hlog, if_pos hlog]
        exact hfields _ _
      · rw [if_neg hlog, if_neg hlog]
        exact hfields _ _

theorem abs_of_sign {u : UnpackedFloat} (h : sign? u = some .positive) : u.abs = u := by
  rcases u with ⟨⟨⟩⟩ | _ | ⟨⟨⟩⟩ | ⟨⟨⟩, m, e, pos⟩ <;> first | rfl | cases h

/-- The difference is the nearest number but for its sign. -/
theorem roundsTo_abs_sub (hu : Held u) (hv : Held v) (ha : Valued u a) (hb : Valued v b)
    (hne : a ≠ b) : RoundsTo |a - b| (UnpackedFloat.sub .binary64 u v).abs := by
  rcases lt_or_gt_of_ne hne with hlt | hlt
  · rw [abs_sub_comm_unpacked, abs_sub_comm, abs_of_pos (sub_pos.2 hlt)]
    cases difference_sub hv hu hb ha with
    | above _ h => rwa [abs_of_sign h.sign_eq]
    | equal h => exact absurd h.symm hne
    | below h => exact absurd hlt h.not_gt
  · rw [abs_of_pos (sub_pos.2 hlt)]
    cases difference_sub hu hv ha hb with
    | above _ h => rwa [abs_of_sign h.sign_eq]
    | equal h => exact absurd h hne
    | below h => exact absurd hlt h.not_gt

end Magnitudes

section Sums

variable {x y z : Float} {a b : Rat}

/-- A square has no sign, unless it is no number. -/
theorem unsigned_square (h : unpacked (x * x) ≠ .notANumber) : Unsigned (x * x) := by
  have hx : x * x = packed (UnpackedFloat.mul .binary64 (unpacked x) (unpacked x)) := rfl
  rw [hx] at h
  rw [hx, Unsigned, sign?_unpacked_packed]
  generalize unpacked x = u at h
  rcases u with ⟨⟨⟩⟩ | _ | ⟨⟨⟩⟩ | ⟨⟨⟩, m, e, pos⟩
  · rfl
  · rfl
  · exact absurd (unpacked_packed .notANumber) h
  · rfl
  · rfl
  · exact sign?_roundWithAccuracy _ _ _ _
  · exact sign?_roundWithAccuracy _ _ _ _

theorem ne_notANumber_of_le (h : x ≤ y) : unpacked x ≠ .notANumber := by
  intro hx
  rw [le_iff, hx] at h
  rcases h with h | h <;> cases h

/-- What bounds a sum of squares bounds each of them. -/
theorem square_le_of_sum_le (hz : Unsigned z) (h : x * x + y * y ≤ z) :
    Unsigned (y * y) ∧ y * y ≤ z := by
  have hsum : unpacked (x * x + y * y) ≠ .notANumber := ne_notANumber_of_le h
  rw [add_eq_packed] at hsum
  have hx : Unsigned (x * x) := by
    refine unsigned_square fun hx => hsum ?_
    rw [hx]
    exact unpacked_packed .notANumber
  have hy : Unsigned (y * y) := by
    refine unsigned_square fun hy => hsum ?_
    rw [hy]
    generalize unpacked (x * x) = u
    cases u <;> exact unpacked_packed .notANumber
  exact ⟨hy, hy.le_trans (hx.add hy) hz (hx.le_add hy) h⟩

end Sums

section Distances

variable {x y z : Float} {a b : Rat} {k n : Nat}

theorem RoundsTo.le_packed {q : Rat} {u : UnpackedFloat} (h : RoundsTo q u) (hk : k < 2 ^ 53)
    (hlt : k < q) : Float.ofNat k ≤ packed u := by
  have hle := ((unsigned_ofNat hk).roundsTo (valued_ofNat hk)).1.packed_le h hlt
  rwa [packed_unpacked] at hle

/-- Of two numbers that are far apart the difference has a large square. -/
theorem ofNat_le_square_sub (ha : Valued (unpacked x) a) (hb : Valued (unpacked y) b)
    (hfar : n < |a - b|) (hn : n < 2 ^ 53) (hk : k < 2 ^ 53) (hkn : k < n * n) :
    Float.ofNat k ≤ (x - y) * (x - y) := by
  have hne : a ≠ b := by
    rintro rfl
    rw [sub_self, abs_zero] at hfar
    exact absurd hfar (Nat.cast_nonneg n).not_gt
  obtain ⟨m, e, hm, hnear⟩ :=
    roundsTo_abs_sub (held_unpacked x) (held_unpacked y) ha hb hne
  have hsize : (n : Rat) ≤ size m e := by
    obtain ⟨m', e', hgrid, -, hs⟩ := representable_natCast hn
    rw [← hs]
    exact (hs ▸ nearest_size hgrid : Nearest n m' e').size_le hnear hfar
  obtain ⟨d, hd⟩ : ∃ d, packed (ofMantissa .positive m e) = d := ⟨_, rfl⟩
  have hmul : (x - y) * (x - y) =
      packed (UnpackedFloat.mul .binary64 (unpacked d) (unpacked d)) := by
    have hsub : x - y = packed (UnpackedFloat.sub .binary64 (unpacked x) (unpacked y)) := rfl
    rw [mul_eq_packed, mul_self_abs, hsub, abs_unpacked_packed, hm, hd]
  rw [hmul]
  rcases Int.lt_or_le 971 e with he | he
  -- a difference that is too large is infinite, and so is its square
  · rw [← hd, hnear.onGrid.unpacked_packed_large (by omega)]
    exact le_of_infinity (congrArg Option.isSome (unsigned_ofNat hk))
      (unpacked_packed (.infinity .positive))
  · have hs : Unsigned d := hd ▸ unsigned_packed_ofMantissa m e
    have hv : Valued (unpacked d) (size m e) := by
      rw [← hd, unpacked_packed (hnear.onGrid.held he)]
      exact valued_ofMantissa m e
    refine (hs.roundsTo_mul hs hv hv).le_packed hk ?_
    calc (k : Rat) < n * n := by exact_mod_cast hkn
      _ ≤ size m e * size m e := mul_self_le_mul_self (Nat.cast_nonneg n) hsize

/-- What has a finite distance to a number is finite. -/
theorem exists_valued_of_square_le (hy : Valued (unpacked y) b) (hz : Valued (unpacked z) a)
    (hs : Unsigned ((x - y) * (x - y))) (h : (x - y) * (x - y) ≤ z) :
    ∃ c, Valued (unpacked x) c := by
  by_contra hn
  have hx : (sign? (unpacked x)).isSome := by
    rw [Unsigned, mul_eq_packed, sign?_unpacked_packed, sub_eq_packed] at hs
    generalize unpacked x = u at hs
    cases u with
    | notANumber =>
      have hnan : UnpackedFloat.sub .binary64 .notANumber (unpacked y) = .notANumber := rfl
      rw [hnan, unpacked_packed .notANumber] at hs
      cases hs
    | infinity | zero | finite => rfl
  obtain ⟨s, hu⟩ := (valued_or_infinity hx).resolve_left hn
  have hsub : x - y = packed (.infinity s) := by
    rw [sub_eq_packed, hu]
    generalize unpacked y = v at hy
    cases hy <;> rfl
  have hsquare : (x - y) * (x - y) = packed (.infinity .positive) := by
    rw [hsub, mul_eq_packed, unpacked_packed (.infinity s)]
    cases s <;> rfl
  rw [hsquare] at h
  exact not_infinity_le (unpacked_packed (.infinity .positive)) hz h

end Distances

end HandheldUI.Binary64
