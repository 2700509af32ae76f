import HandheldUI.Proofs.Scalar.Nearest

/-! Machine arithmetic keeps order. Finite numbers compare as their values do, and differences and
quotients are those of the values, rounded to the nearest number; so what is above zero grows with
what it is made from, up to what is infinite. -/

namespace HandheldUI.Binary64

open Float.Model (UnpackedFloat Format)
open Float.Model.UnpackedFloat

section Order

/-- The values of finite numbers. -/
inductive Valued : UnpackedFloat → Rat → Prop where
  | zero (s : Sign) : Valued (.zero s) 0
  | positive (m : Nat) (e : Int) (pos : 0 < m) : Valued (.finite .positive m e pos) (size m e)
  | negative (m : Nat) (e : Int) (pos : 0 < m) : Valued (.finite .negative m e pos) (-size m e)

variable {u v : UnpackedFloat} {a b : Rat}

theorem Valued.unique (ha : Valued u a) (hb : Valued u b) : a = b := by
  cases ha <;> cases hb <;> rfl

theorem Held.onGrid {s : Sign} {m : Nat} {e : Int} {pos : 0 < m} (h : Held (.finite s m e pos)) :
    OnGrid m e := by
  cases h with
  | finite _ _ _ _ hm he _ full => exact ⟨hm, he, full⟩

/-- Small naturals are what they are as machine numbers. -/
theorem exists_unpacked_ofNat {n : Nat} (pos : 0 < n) (hn : n < 2 ^ 53) : ∃ m e pos',
    unpacked (Float.ofNat n) = .finite .positive m e pos' ∧ OnGrid m e ∧ size m e = n := by
  have hlog : n.log2 ≤ 52 := Nat.le_of_lt_succ ((Nat.log2_lt pos.ne').2 hn)
  obtain ⟨hlow, hhigh⟩ := shifted_bounds pos hlog
  refine ⟨_, _, _, unpacked_ofNat_small pos hn, ⟨hhigh, by omega, .inl hlow⟩, ?_⟩
  rw [size_shift, show (n.log2 - 52 : Int) + (52 - n.log2 : Nat) = 0 by omega, size, zpow_zero,
    mul_one]

theorem valued_ofNat {n : Nat} (hn : n < 2 ^ 53) : Valued (unpacked (Float.ofNat n)) n := by
  rcases Nat.eq_zero_or_pos n with rfl | pos
  · exact .zero .positive
  · obtain ⟨m, e, pos', hu, -, hs⟩ := exists_unpacked_ofNat pos hn
    rw [hu, ← hs]
    exact .positive m e pos'

theorem compare_neg (a b : Rat) : compare (-a) (-b) = (compare a b).swap := by
  rcases lt_trichotomy a b with h | rfl | h
  · rw [compare_lt_iff_lt.2 h, compare_gt_iff_gt.2 (neg_lt_neg h)]
    rfl
  · rw [compare_eq_iff_eq.2 (rfl : a = a), compare_eq_iff_eq.2 (rfl : -a = -a)]
    rfl
  · rw [compare_gt_iff_gt.2 h, compare_lt_iff_lt.2 (neg_lt_neg h)]
    rfl

/-- Finite numbers compare as their values. -/
theorem compare_eq_compare (hu : Held u) (hv : Held v) (ha : Valued u a) (hb : Valued v b) :
    u.compare v = some (compare a b) := by
  cases ha with
  | zero s =>
    cases hb with
    | zero s' => exact congrArg some (compare_eq_iff_eq.2 (rfl : (0 : Rat) = 0)).symm
    | positive m e pos => exact congrArg some (compare_lt_iff_lt.2 (size_pos pos e)).symm
    | negative m e pos =>
      exact congrArg some (compare_gt_iff_gt.2 (neg_lt_zero.2 (size_pos pos e))).symm
  | positive m e pos =>
    have hm : 0 < size m e := size_pos pos e
    cases hb with
    | zero s' => exact congrArg some (compare_gt_iff_gt.2 hm).symm
    | positive m' e' pos' => exact congrArg some (compare_size hu.onGrid hv.onGrid)
    | negative m' e' pos' =>
      have hm' : 0 < size m' e' := size_pos pos' e'
      exact congrArg some (compare_gt_iff_gt.2 ((neg_lt_zero.2 hm').trans hm)).symm
  | negative m e pos =>
    have hm : 0 < size m e := size_pos pos e
    cases hb with
    | zero s' => exact congrArg some (compare_lt_iff_lt.2 (neg_lt_zero.2 hm)).symm
    | positive m' e' pos' =>
      have hm' : 0 < size m' e' := size_pos pos' e'
      exact congrArg some (compare_lt_iff_lt.2 ((neg_lt_zero.2 hm).trans hm')).symm
    | negative m' e' pos' =>
      rw [compare_neg, ← compare_size hu.onGrid hv.onGrid]
      rfl

variable {x y z : Float}

theorem le_iff_of_valued (ha : Valued (unpacked x) a) (hb : Valued (unpacked y) b) :
    x ≤ y ↔ a ≤ b := by
  rw [le_iff, compare_eq_compare (held_unpacked x) (held_unpacked y) ha hb, Option.some_inj,
    Option.some_inj, compare_lt_iff_lt, compare_eq_iff_eq, le_iff_lt_or_eq]

/-- A number is finite or infinite. -/
theorem valued_or_infinity (h : (sign? u).isSome) : (∃ a, Valued u a) ∨ ∃ s, u = .infinity s := by
  rcases u with s | _ | s | ⟨⟨⟩, m, e, pos⟩
  · exact .inr ⟨s, rfl⟩
  · cases h
  · exact .inl ⟨0, .zero s⟩
  · exact .inl ⟨_, .negative m e pos⟩
  · exact .inl ⟨_, .positive m e pos⟩

theorem le_of_infinity (hx : (sign? (unpacked x)).isSome)
    (hy : unpacked y = .infinity .positive) : x ≤ y := by
  rw [le_iff, hy]
  rcases hu : unpacked x with ⟨⟨⟩⟩ | _ | ⟨⟨⟩⟩ | ⟨⟨⟩, m, e, pos⟩ <;> rw [hu] at hx <;>
    first | exact .inl rfl | exact .inr rfl | cases hx

theorem not_infinity_le (hx : unpacked x = .infinity .positive) (hb : Valued (unpacked y) b) :
    ¬x ≤ y := by
  rw [le_iff, hx]
  generalize unpacked y = v at hb
  cases hb <;> rintro (h | h) <;> cases h

theorem Unsigned.valued_or_infinity (hx : Unsigned x) :
    (∃ a, Valued (unpacked x) a) ∨ unpacked x = .infinity .positive := by
  rcases Binary64.valued_or_infinity (congrArg Option.isSome hx) with h | ⟨s, hs⟩
  · exact .inl h
  · rw [Unsigned, hs] at hx
    cases hx
    exact .inr hs

theorem Unsigned.le_trans (hx : Unsigned x) (hy : Unsigned y) (hz : Unsigned z) (h : x ≤ y)
    (h' : y ≤ z) : x ≤ z := by
  rcases hz.valued_or_infinity with ⟨c, hc⟩ | hz
  · rcases hy.valued_or_infinity with ⟨b, hb⟩ | hy
    · rcases hx.valued_or_infinity with ⟨a, ha⟩ | hx
      · rw [le_iff_of_valued ha hb] at h
        rw [le_iff_of_valued hb hc] at h'
        exact (le_iff_of_valued ha hc).2 (h.trans h')
      · exact absurd h (not_infinity_le hx hb)
    · exact absurd h' (not_infinity_le hy hc)
  · exact le_of_infinity (congrArg Option.isSome hx) hz

theorem Unsigned.le_refl (hx : Unsigned x) : x ≤ x := by
  by_contra h
  have hs : (sign? (unpacked x)).isSome := congrArg Option.isSome hx
  have hlt : x < x := lt_of_not_le hs hs h
  exact not_lt_of_lt hlt hlt

end Order

section Packing

variable {m m' : Nat} {e e' : Int}

theorem valued_ofMantissa (m : Nat) (e : Int) : Valued (ofMantissa .positive m e) (size m e) := by
  rcases Nat.eq_zero_or_pos m with rfl | pos
  · rw [size_zero]
    exact .zero .positive
  · rw [ofMantissa_of_pos .positive pos]
    exact .positive m e pos

theorem OnGrid.held (h : OnGrid m e) (he : e ≤ 971) : Held (ofMantissa .positive m e) := by
  rcases Nat.eq_zero_or_pos m with rfl | pos
  · exact .zero .positive
  · rw [ofMantissa_of_pos .positive pos]
    exact .finite .positive m e pos h.lt h.le he h.full

theorem OnGrid.unpacked_packed_large (h : OnGrid m e) (he : 972 ≤ e) :
    unpacked (packed (ofMantissa .positive m e)) = .infinity .positive := by
  have hfull : 2 ^ 52 ≤ m := h.full.resolve_right (by omega)
  rw [ofMantissa_of_pos .positive (by omega), unpacked_packed_of_large .positive _ he]

theorem unsigned_packed_ofMantissa (m : Nat) (e : Int) :
    Unsigned (packed (ofMantissa .positive m e)) := by
  rw [Unsigned, sign?_unpacked_packed]
  rcases Nat.eq_zero_or_pos m with rfl | pos
  · rfl
  · rw [ofMantissa_of_pos .positive pos]
    rfl

/-- What is too large becomes infinite, and nothing else does. -/
theorem packed_ofMantissa_le (h : OnGrid m e) (h' : OnGrid m' e')
    (hle : size m e ≤ size m' e') :
    packed (ofMantissa .positive m e) ≤ packed (ofMantissa .positive m' e') := by
  rcases Int.lt_or_le 971 e' with he' | he'
  · exact le_of_infinity (congrArg Option.isSome (unsigned_packed_ofMantissa m e))
      (h'.unpacked_packed_large he')
  · have he : e ≤ 971 := by
      by_contra he
      exact hle.not_gt (size_lt_of_lt h' h (by omega))
    have hu := unpacked_packed (h.held he)
    have hv := unpacked_packed (h'.held he')
    exact (le_iff_of_valued (hu.symm ▸ valued_ofMantissa m e)
      (hv.symm ▸ valued_ofMantissa m' e')).2 hle

/-- Of two exact results the larger one is not rounded to less. -/
theorem RoundsTo.packed_le {u v : UnpackedFloat} {a b : Rat} (hu : RoundsTo a u)
    (hv : RoundsTo b v) (h : a < b) : packed u ≤ packed v := by
  obtain ⟨m, e, rfl, ha⟩ := hu
  obtain ⟨m', e', rfl, hb⟩ := hv
  exact packed_ofMantissa_le ha.onGrid hb.onGrid (ha.size_le hb h)

end Packing

section Differences

/-- A mantissa that is filled up, so that nothing changes. -/
theorem size_decreased (m : Nat) {e t : Int} (h : t ≤ e) :
    size (m <<< (e - t).toNat) t = size m e := by
  rw [Nat.shiftLeft_eq, size_shift]
  congr 1
  omega

theorem roundsTo_round {n : Nat} (pos : 0 < n) (e : Int) :
    RoundsTo (size n e) (UnpackedFloat.round .binary64 .positive n e) := by
  obtain ⟨t, ht⟩ : ∃ t, max (n.log2 + e - 52) (-1074) = t := ⟨_, rfl⟩
  have hround : UnpackedFloat.round .binary64 .positive n e =
      roundWithAccuracy .binary64 .positive (n <<< (e - t).toNat) (e - (e - t).toNat) .exact := by
    rw [UnpackedFloat.round, targetExponent_eq, ht]
    rfl
  have hsize : size n e = (n <<< (e - t).toNat : Nat) / (1 : Nat) * 2 ^ (e - (e - t).toNat) := by
    rw [Nat.cast_one, div_one, Nat.shiftLeft_eq]
    refine Eq.trans ?_ (size_shift n _ _).symm
    congr 1
    omega
  rw [hround, hsize]
  refine roundsTo_roundWithAccuracy (divided_one _) ?_
  rw [Nat.shiftLeft_eq, log2_mul_two_pow pos]
  omega

theorem apply_decreased {s : Sign} {m : Nat} {e t : Int} {pos : 0 < m} {a : Rat}
    (ha : Valued (.finite s m e pos) a) (h : t ≤ e) :
    ((s.apply (m <<< (e - t).toNat : Nat) : Int) : Rat) * 2 ^ t = a := by
  have hsize : ((m <<< (e - t).toNat : Nat) : Rat) * 2 ^ t = size m e := size_decreased m h
  cases ha with
  | positive =>
    rw [← hsize]
    rfl
  | negative =>
    rw [← hsize, ← neg_mul]
    exact congrArg (· * _) (Int.cast_neg _)

theorem normalize_of_neg {m : Int} (h : m < 0) (e : Int) (z : Sign) :
    sign? (UnpackedFloat.normalize .binary64 m e z) = some .negative := by
  rw [UnpackedFloat.normalize, compare_lt_iff_lt.2 h]
  exact sign?_roundWithAccuracy _ _ _ _

theorem normalize_zero (e : Int) (z : Sign) :
    UnpackedFloat.normalize .binary64 0 e z = .zero z := rfl

theorem normalize_of_pos {m : Int} (h : 0 < m) (e : Int) (z : Sign) :
    RoundsTo (m * 2 ^ e) (UnpackedFloat.normalize .binary64 m e z) := by
  obtain ⟨n, rfl⟩ : ∃ n : Nat, m = n := ⟨m.toNat, by omega⟩
  rw [UnpackedFloat.normalize, compare_gt_iff_gt.2 h]
  exact roundsTo_round (by omega) e

/-- What the difference of `a` and `b` becomes, by their order. -/
inductive Difference (a b : Rat) (d : UnpackedFloat) : Prop where
  | below (h : a < b) (hs : sign? d = some .negative)
  | equal (h : a = b) (hz : ∃ s, d = .zero s)
  | above (h : b < a) (hr : RoundsTo (a - b) d)

variable {u v w : UnpackedFloat} {a b : Rat}

theorem difference_finite {s s' : Sign} {m m' : Nat} {e e' : Int} {pos : 0 < m} {pos' : 0 < m'}
    (ha : Valued (.finite s m e pos) a) (hb : Valued (.finite s' m' e' pos') b) :
    Difference a b
      (UnpackedFloat.sub .binary64 (.finite s m e pos) (.finite s' m' e' pos')) := by
  obtain ⟨t, ht⟩ : ∃ t, min e e' = t := ⟨_, rfl⟩
  obtain ⟨d, hd⟩ : ∃ d, s.apply (m <<< (e - t).toNat : Nat) -
      s'.apply (m' <<< (e' - t).toNat : Nat) = d := ⟨_, rfl⟩
  have hsub : UnpackedFloat.sub .binary64 (.finite s m e pos) (.finite s' m' e' pos') =
      UnpackedFloat.normalize .binary64 d t .positive := by
    rw [← hd, ← ht]
    rfl
  have hexact : (d : Rat) * 2 ^ t = a - b := by
    rw [← hd, Int.cast_sub, sub_mul, apply_decreased ha (by omega), apply_decreased hb (by omega)]
  have hpow : (0 : Rat) < 2 ^ t := by positivity
  rw [hsub]
  rcases lt_trichotomy d 0 with hneg | rfl | hpos
  · refine .below (sub_neg.1 ?_) (normalize_of_neg hneg t _)
    rw [← hexact]
    exact mul_neg_of_neg_of_pos (by exact_mod_cast hneg) hpow
  · refine .equal (sub_eq_zero.1 ?_) ⟨_, normalize_zero t _⟩
    rw [← hexact, Int.cast_zero, zero_mul]
  · refine .above (sub_pos.1 ?_) (hexact ▸ normalize_of_pos hpos t _)
    rw [← hexact]
    exact mul_pos (by exact_mod_cast hpos) hpow

theorem difference_sub (hu : Held u) (hv : Held v) (ha : Valued u a) (hb : Valued v b) :
    Difference a b (UnpackedFloat.sub .binary64 u v) := by
  cases ha with
  | zero s =>
    cases hb with
    | zero s' => exact .equal rfl (by cases s <;> cases s' <;> exact ⟨_, rfl⟩)
    | positive m e pos => exact .below (size_pos pos e) rfl
    | negative m e pos =>
      refine .above (neg_lt_zero.2 (size_pos pos e))
        ⟨m, e, (ofMantissa_of_pos .positive pos).symm, ?_⟩
      rw [zero_sub, neg_neg]
      exact nearest_size hv.onGrid
  | positive m e pos =>
    cases hb with
    | zero s =>
      refine .above (size_pos pos e) ⟨m, e, (ofMantissa_of_pos .positive pos).symm, ?_⟩
      rw [sub_zero]
      exact nearest_size hu.onGrid
    | positive m' e' pos' => exact difference_finite (.positive m e pos) (.positive m' e' pos')
    | negative m' e' pos' => exact difference_finite (.positive m e pos) (.negative m' e' pos')
  | negative m e pos =>
    cases hb with
    | zero s => exact .below (neg_lt_zero.2 (size_pos pos e)) rfl
    | positive m' e' pos' => exact difference_finite (.negative m e pos) (.positive m' e' pos')
    | negative m' e' pos' => exact difference_finite (.negative m e pos) (.negative m' e' pos')

/-- A result that is above zero once it is packed was so before. -/
theorem of_packed_pos {z : Float} {d : UnpackedFloat} (hz : unpacked z = .zero .positive)
    (h : z < packed d) : sign? d = some .positive ∧ ∀ s, d ≠ .zero s := by
  refine ⟨(sign?_unpacked_packed d).symm.trans (unsigned_of_pos hz h), ?_⟩
  rintro s rfl
  rw [lt_iff, hz, unpacked_packed (.zero s)] at h
  cases h

theorem eq_or_zero_of_compare_eq (h : u.compare v = some .eq) :
    u = v ∨ ∃ s s', u = .zero s ∧ v = .zero s' := by
  rcases u with ⟨⟨⟩⟩ | _ | s | ⟨⟨⟩, m, e, pos⟩ <;>
    rcases v with ⟨⟨⟩⟩ | _ | s' | ⟨⟨⟩, m', e', pos'⟩ <;>
    first
      | exact .inl rfl
      | exact .inr ⟨_, _, rfl, rfl⟩
      | cases h
      | exact .inl (finite_congr (compare_finite_eq h).2 (compare_finite_eq h).1)

/-- Signs of zeros make no difference to what is above zero. -/
theorem sub_congr (h : u.compare v = some .eq)
    (hne : ∀ s, UnpackedFloat.sub .binary64 u w ≠ .zero s) :
    UnpackedFloat.sub .binary64 u w = UnpackedFloat.sub .binary64 v w := by
  rcases eq_or_zero_of_compare_eq h with rfl | ⟨s, s', rfl, rfl⟩
  · rfl
  · cases w with
    | zero s₂ => cases s <;> cases s₂ <;> exact absurd rfl (hne _)
    | notANumber | infinity | finite => rfl

theorem isSome_of_lt (h : u.compare v = some .lt) : (sign? u).isSome ∧ (sign? v).isSome := by
  have hboth := isSome_compare u v
  rw [h] at hboth
  exact Bool.and_eq_true_iff.1 hboth.symm

theorem valued_of_lt (h : u.compare v = some .lt)
    (hs : sign? (UnpackedFloat.sub .binary64 u w) = some .positive) : ∃ a, Valued u a := by
  rcases valued_or_infinity (isSome_of_lt h).1 with ha | ⟨s, rfl⟩
  · exact ha
  · cases s with
    | positive => rcases v with ⟨⟨⟩⟩ | _ | _ | _ <;> cases h
    | negative => rcases w with ⟨⟨⟩⟩ | _ | _ | _ <;> cases hs

/-- With what is infinite a difference that is larger than one above zero is infinite. -/
theorem sub_eq_infinity (h : u.compare v = some .lt)
    (hs : sign? (UnpackedFloat.sub .binary64 u w) = some .positive)
    (hinf : (∃ s, v = .infinity s) ∨ ∃ s, w = .infinity s) :
    UnpackedFloat.sub .binary64 v w = .infinity .positive := by
  rcases hinf with ⟨s, rfl⟩ | ⟨s, rfl⟩
  · cases s with
    | negative => rcases u with ⟨⟨⟩⟩ | _ | _ | _ <;> cases h
    | positive =>
      rcases w with ⟨⟨⟩⟩ | _ | _ | _
      · rfl
      · rcases u with ⟨⟨⟩⟩ | _ | _ | _ <;> cases hs
      · rcases u with ⟨⟨⟩⟩ | _ | _ | _ <;> cases hs
      · rfl
      · rfl
  · cases s with
    | positive => rcases u with ⟨⟨⟩⟩ | _ | _ | _ <;> cases hs
    | negative =>
      have hv : (sign? v).isSome := (isSome_of_lt h).2
      rcases v with ⟨⟨⟩⟩ | _ | _ | _
      · rcases u with ⟨⟨⟩⟩ | _ | _ | _ <;> cases h
      · rfl
      · cases hv
      · rfl
      · rfl

theorem packed_sub_le_of_valued {c : Rat} (hu : Held u) (hv : Held v) (hw : Held w)
    (ha : Valued u a) (hb : Valued v b) (hc : Valued w c) (hab : a < b)
    (hs : sign? (UnpackedFloat.sub .binary64 u w) = some .positive)
    (hne : ∀ s, UnpackedFloat.sub .binary64 u w ≠ .zero s) :
    packed (UnpackedFloat.sub .binary64 u w) ≤ packed (UnpackedFloat.sub .binary64 v w) := by
  cases difference_sub hu hw ha hc with
  | below _ hneg => cases hneg.symm.trans hs
  | equal _ hz =>
    obtain ⟨s, hz⟩ := hz
    exact absurd hz (hne s)
  | above hca hround =>
    have hcb : c < b := hca.trans hab
    cases difference_sub hv hw hb hc with
    | below hbc => exact absurd hcb hbc.not_gt
    | equal hbc => exact absurd hcb hbc.not_gt
    | above _ hround' => exact hround.packed_le hround' (sub_lt_sub_right hab c)

theorem packed_sub_le (hu : Held u) (hv : Held v) (hw : Held w) (h : u.compare v = some .lt)
    (hs : sign? (UnpackedFloat.sub .binary64 u w) = some .positive)
    (hne : ∀ s, UnpackedFloat.sub .binary64 u w ≠ .zero s) :
    packed (UnpackedFloat.sub .binary64 u w) ≤ packed (UnpackedFloat.sub .binary64 v w) := by
  obtain ⟨a, ha⟩ := valued_of_lt h hs
  by_cases hinf : (∃ s, v = .infinity s) ∨ ∃ s, w = .infinity s
  · rw [sub_eq_infinity h hs hinf]
    exact le_of_infinity (by rw [sign?_unpacked_packed, hs]; rfl)
      (unpacked_packed (.infinity .positive))
  · obtain ⟨hv', hw'⟩ := not_or.1 hinf
    have hws : (sign? w).isSome := by
      cases w with
      | notANumber => cases u <;> cases hs
      | infinity | zero | finite => rfl
    obtain ⟨b, hb⟩ := (valued_or_infinity (isSome_of_lt h).2).resolve_right hv'
    obtain ⟨c, hc⟩ := (valued_or_infinity hws).resolve_right hw'
    rw [compare_eq_compare hu hv ha hb, Option.some_inj, compare_lt_iff_lt] at h
    exact packed_sub_le_of_valued hu hv hw ha hb hc h hs hne

/-- A difference above zero grows with what it is taken from. -/
theorem sub_le_sub {x y z t : Float} (ht : unpacked t = .zero .positive) (h : x ≤ y)
    (hpos : t < x - z) : x - z ≤ y - z := by
  obtain ⟨hs, hne⟩ := of_packed_pos ht hpos
  rcases le_iff.1 h with hlt | heq
  · exact packed_sub_le (held_unpacked x) (held_unpacked y) (held_unpacked z) hlt hs hne
  · have heq : x - z = y - z := congrArg packed (sub_congr heq hne)
    rw [← heq]
    exact Unsigned.le_refl (unsigned_of_pos ht hpos)

end Differences

section Quotients

theorem divided_div {n d : Nat} (hd : 0 < d) :
    Divided n d (.ofMantissaAndAccuracy (n / d) (accuracyOfFraction (n % d) d)) := by
  refine ⟨n % d, ?_, Nat.mod_lt n hd, ?_⟩
  · rw [mantissa_ofMantissaAndAccuracy]
    exact (Nat.div_add_mod' n d).symm
  · have hlt : n % d < d := Nat.mod_lt n hd
    generalize n % d = rest at hlt
    unfold accuracyOfFraction
    by_cases h0 : rest = 0
    · rw [if_pos h0]
      exact h0
    · rw [if_neg h0]
      rcases lt_trichotomy (2 * rest) d with h | h | h
      · rw [compare_lt_iff_lt.2 h]
        exact ⟨Nat.pos_of_ne_zero h0, h⟩
      · rw [compare_eq_iff_eq.2 h]
        exact h
      · rw [compare_gt_iff_gt.2 h]
        exact h

variable {m m' : Nat} {e e' : Int}

/-- The dividend is shifted so far that the quotient fills a mantissa. -/
theorem le_log2_div {k : Nat} (pos : 0 < m) (pos' : 0 < m') (h : m'.log2 + 53 ≤ m.log2 + k) :
    52 ≤ (m * 2 ^ k / m').log2 := by
  have hlow : 2 ^ 52 * m' ≤ m * 2 ^ k := by
    calc 2 ^ 52 * m' ≤ 2 ^ 52 * 2 ^ (m'.log2 + 1) := Nat.mul_le_mul_left _ Nat.lt_log2_self.le
      _ = 2 ^ (m'.log2 + 53) := by ring
      _ ≤ 2 ^ (m.log2 + k) := Nat.pow_le_pow_right (by decide) h
      _ = 2 ^ m.log2 * 2 ^ k := Nat.pow_add _ _ _
      _ ≤ m * 2 ^ k := Nat.mul_le_mul_right _ (Nat.log2_self_le pos.ne')
  have hquot : 2 ^ 52 ≤ m * 2 ^ k / m' := (Nat.le_div_iff_mul_le pos').2 hlow
  exact (Nat.le_log2 (by omega)).2 hquot

theorem roundsTo_div (pos : 0 < m) (pos' : 0 < m') : RoundsTo (size m e / size m' e')
    (UnpackedFloat.div .binary64 (.finite .positive m e pos) (.finite .positive m' e' pos')) := by
  obtain ⟨t, ht⟩ : ∃ t, min (e - e') (max (m.log2 + e - (m'.log2 + e') - 53) (-1074)) = t :=
    ⟨_, rfl⟩
  obtain ⟨k, hk⟩ : ∃ k : Nat, e - e' = t + k := ⟨(e - e' - t).toNat, by omega⟩
  have htarget : Format.binary64.targetExponent
      (Float.Model.totalExponent m e - Float.Model.totalExponent m' e') =
        max (m.log2 + e - (m'.log2 + e') - 53) (-1074) := by
    have hbits : Format.binary64.mantissaBits = 53 := rfl
    have hmin : Format.binary64.minExponent = -1074 := rfl
    rw [Format.targetExponent, Float.Model.totalExponent, Float.Model.totalExponent, hbits, hmin]
    omega
  have hshift : (e - e' - t).toNat = k := by omega
  have hdiv : UnpackedFloat.div .binary64 (.finite .positive m e pos) (.finite .positive m' e' pos') =
      roundWithAccuracy .binary64 .positive (m * 2 ^ k / m') t
        (accuracyOfFraction (m * 2 ^ k % m') m') := by
    change roundWithAccuracy .binary64 .positive (divCore .binary64 m e m' e').1 _ _ = _
    simp only [divCore, htarget, ht, hshift, Nat.shiftLeft_eq]
  have hpow : (2 : Rat) ^ e' ≠ 0 := by positivity
  have hexact : size m e / size m' e' = (m * 2 ^ k : Nat) / m' * 2 ^ t := by
    calc size m e / size m' e' = size m (t + k) * 2 ^ e' / (m' * 2 ^ e') := by
          rw [show e = t + k + e' by omega, size, size, zpow_add₀ two_ne_zero, size, ← mul_assoc]
      _ = size m (t + k) / m' := mul_div_mul_right _ _ hpow
      _ = (m * 2 ^ k : Nat) / m' * 2 ^ t := by rw [← size_shift, size, div_mul_eq_mul_div]
  rw [hdiv, hexact]
  refine roundsTo_roundWithAccuracy (divided_div pos') ?_
  rcases Int.lt_or_le (-1074) t with hlt | hle
  · exact .inl (le_log2_div pos pos' (by omega))
  · exact .inr hle

/-- A quotient by a finite divisor above zero grows with the dividend. -/
theorem Unsigned.div_le_div {x y d : Float} (hx : Unsigned x) (hy : Unsigned y) {posd : 0 < m'}
    (hd : unpacked d = .finite .positive m' e' posd) (h : x ≤ y) : x / d ≤ y / d := by
  have hxd : Unsigned (x / d) := hx.div hd
  have hyd : Unsigned (y / d) := hy.div hd
  have hqx : x / d = packed (UnpackedFloat.div .binary64 (unpacked x) (unpacked d)) := rfl
  have hqy : y / d = packed (UnpackedFloat.div .binary64 (unpacked y) (unpacked d)) := rfl
  rw [hd] at hqx hqy
  rcases hy.valued_or_infinity with ⟨b, hb⟩ | hinf
  · rcases hx.valued_or_infinity with ⟨a, ha⟩ | hinf
    · have hab : a ≤ b := (le_iff_of_valued ha hb).1 h
      have heldx : Held (unpacked x) := held_unpacked x
      have heldy : Held (unpacked y) := held_unpacked y
      unfold Unsigned at hx hy
      generalize unpacked x = u at hx ha hqx heldx
      generalize unpacked y = v at hy hb hqy heldy
      cases ha with
      | zero s =>
        cases hx
        refine hyd.le ?_
        rw [hqx]
        exact unpacked_packed (.zero .positive)
      | negative m e pos => cases hx
      | positive m e pos =>
        cases hb with
        | zero s => exact absurd (size_pos pos e) hab.not_gt
        | negative => cases hy
        | positive n k pos' =>
          rcases hab.lt_or_eq with hlt | heq
          · rw [hqx, hqy]
            refine (roundsTo_div _ posd).packed_le (roundsTo_div _ posd) ?_
            exact div_lt_div_of_pos_right hlt (size_pos posd e')
          · obtain ⟨rfl, rfl⟩ := size_inj heldx.onGrid heldy.onGrid heq
            rw [hqx.trans hqy.symm]
            exact hyd.le_refl
    · exact absurd h (not_infinity_le hinf hb)
  · refine le_of_infinity (congrArg Option.isSome hxd) ?_
    rw [hqy, hinf]
    exact unpacked_packed (.infinity .positive)

end Quotients

section Positive

/-- What is above zero. -/
inductive Positive : UnpackedFloat → Prop where
  | infinity : Positive (.infinity .positive)
  | finite (m : Nat) (e : Int) (pos : 0 < m) : Positive (.finite .positive m e pos)

variable {x y z d : Float}

theorem lt_iff_positive (hz : unpacked z = .zero .positive) : z < x ↔ Positive (unpacked x) := by
  rw [lt_iff, hz]
  generalize unpacked x = u
  constructor
  · intro h
    rcases u with ⟨⟨⟩⟩ | _ | _ | ⟨⟨⟩, m, e, pos⟩ <;> first | constructor | cases h
  · rintro ⟨⟩ <;> rfl

theorem Positive.of_le (hx : Positive (unpacked x)) (h : x ≤ y) : Positive (unpacked y) := by
  rw [le_iff] at h
  generalize unpacked x = u at hx h
  generalize unpacked y = v at h ⊢
  rcases v with ⟨⟨⟩⟩ | _ | _ | ⟨⟨⟩, m', e', pos'⟩ <;>
    first
      | constructor
      | cases hx <;> rcases h with h | h <;> cases h

theorem Positive.sign_eq {u : UnpackedFloat} (h : Positive u) : sign? u = some .positive := by
  cases h <;> rfl

/-- A quotient above zero is that of a number above zero. -/
theorem Positive.of_div {m : Nat} {e : Int} {pos : 0 < m}
    (hd : unpacked d = .finite .positive m e pos) (h : Positive (unpacked (x / d))) :
    Positive (unpacked x) := by
  have hdiv : unpacked (x / d) =
      unpacked (packed (UnpackedFloat.div .binary64 (unpacked x) (unpacked d))) := rfl
  rw [hdiv, hd] at h
  generalize unpacked x = u at h ⊢
  have hs := (sign?_unpacked_packed _).symm.trans h.sign_eq
  rcases u with ⟨⟨⟩⟩ | _ | s | ⟨⟨⟩, n, k, pos'⟩
  · cases hs
  · constructor
  · cases hs
  · have hzero : UnpackedFloat.div .binary64 (.zero s) (.finite .positive m e pos) =
        .zero (s / .positive) := rfl
    rw [hzero, unpacked_packed (.zero _)] at h
    cases h
  · cases (sign?_roundWithAccuracy _ _ _ _).symm.trans hs
  · constructor

/-- What is no number stays so, and makes nothing that is above zero. -/
theorem Positive.of_max (hz : unpacked z = .zero .positive)
    (h : Positive (unpacked (Scalar.max z x))) : Positive (unpacked x) := by
  by_cases hlt : z < x
  · exact (lt_iff_positive hz).1 hlt
  · unfold Scalar.max at h
    rw [if_neg hlt] at h
    by_cases hle : x ≤ z
    · rw [if_pos hle, hz] at h
      cases h
    · have hx : ¬(sign? (unpacked x)).isSome := fun hx => hlt (lt_of_not_le hx (by rw [hz]; rfl) hle)
      rw [if_neg hle, add_eq_packed, hz] at h
      generalize unpacked x = u at h hx
      cases u with
      | notANumber =>
        have hnan : UnpackedFloat.add .binary64 (.zero .positive) .notANumber = .notANumber := rfl
        rw [hnan, unpacked_packed .notANumber] at h
        cases h
      | infinity | zero | finite => exact absurd rfl hx

end Positive

end HandheldUI.Binary64
