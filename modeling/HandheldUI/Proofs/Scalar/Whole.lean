import HandheldUI.Proofs.Scalar.Rounding
import HandheldUI.Proofs.Scalar.Signs

/-! Whole machine numbers: those without a fractional part. Small naturals are what they are as
machine numbers, and large ones keep their order with them. Whole numbers stay whole when a small
natural is added, since rounding drops no more than a power of two above the point, and their
remainders by a small natural are small naturals. -/

namespace HandheldUI.Binary64

open Float.Model (UnpackedFloat Format)
open Float.Model.UnpackedFloat

section Naturals

theorem mul_one_unpacked (s : Sign) {m : Nat} {e : Int} (pos : 0 < m) (hm : 2 ^ 52 ≤ m)
    (hm' : m < 2 ^ 53) (he : -1074 ≤ e) :
    UnpackedFloat.mul .binary64 (.finite s m e pos) (.finite .positive (2 ^ 52) (-52) (by decide)) =
      .finite s m e pos := by
  -- the product has all bits of `m` and 52 zeros, which are shifted out again
  have hlog : (m * 2 ^ 52).log2 = 104 := by
    rw [Nat.log2_eq_iff (by positivity)]
    omega
  have hmul : UnpackedFloat.mul .binary64 (.finite s m e pos)
      (.finite .positive (2 ^ 52) (-52) (by decide)) =
        roundWithAccuracy .binary64 s (m * 2 ^ 52) (e + -52) .exact := by
    cases s <;> rfl
  have hnear : nearest (m * 2 ^ 52) 52 = m := nearest_mul m 52
  rw [hmul, roundWithAccuracy_eq s (k := 52) (l := 0) pos (by omega)
    (by rw [hnear, (log2_eq_iff pos).2 ⟨hm, hm'⟩]; omega) (by rw [hnear]; rfl)]
  exact finite_congr rfl (by omega)

theorem unpacked_ofNat_zero : unpacked (Float.ofNat 0) = .zero .positive := rfl

/-- Naturals below 2 ^ 53 are machine numbers. -/
theorem unpacked_ofNat_small {n : Nat} (pos : 0 < n) (hn : n < 2 ^ 53) :
    unpacked (Float.ofNat n) =
      .finite .positive (n * 2 ^ (52 - n.log2)) (n.log2 - 52)
        (Nat.mul_pos pos (Nat.two_pow_pos _)) := by
  -- such a natural is taken as a word, and multiplied by the first power of ten
  have hfast : Float.ofNat n = n.toUInt64.toFloat * Float.exactlyRepresentablePowersOfTen[0] :=
    dif_pos ⟨hn, by decide⟩
  have hone : unpacked Float.exactlyRepresentablePowersOfTen[0] =
      .finite .positive (2 ^ 52) (-52) (by decide) := rfl
  have hword : unpacked n.toUInt64.toFloat =
      unpacked (packed (UnpackedFloat.ofNat .binary64 n.toUInt64.toNat)) := rfl
  have htoNat : n.toUInt64.toNat = n := by
    change n % 2 ^ 64 = n
    omega
  have hlog : n.log2 ≤ 52 := by
    have h : n.log2 < 53 := (Nat.log2_lt (by omega)).2 hn
    omega
  have hfull : 2 ^ 52 ≤ n * 2 ^ (52 - n.log2) ∧ n * 2 ^ (52 - n.log2) < 2 ^ 53 :=
    shifted_bounds pos hlog
  have hround : UnpackedFloat.ofNat .binary64 n =
      .finite .positive (n * 2 ^ (52 - n.log2)) (n.log2 - 52) (by positivity) := by
    have h : UnpackedFloat.ofNat .binary64 n = UnpackedFloat.round .binary64 .positive n 0 := by
      obtain ⟨k, rfl⟩ : ∃ k, n = k + 1 := ⟨n - 1, by omega⟩
      rfl
    rw [h, round_of_log2_le .positive pos hlog (by omega)]
    exact finite_congr rfl (by omega)
  have hheld : Held (.finite .positive (n * 2 ^ (52 - n.log2)) (n.log2 - 52) (by positivity)) :=
    .finite _ _ _ _ hfull.2 (by omega) (by omega) (.inl hfull.1)
  rw [hfast, mul_eq_packed, hone, hword, htoNat, hround, unpacked_packed hheld,
    mul_one_unpacked .positive (by positivity) hfull.1 hfull.2 (by omega), unpacked_packed hheld]

/-- Larger ones go through the conversion of decimals, which fills them up with zeros. -/
theorem ofNat_eq_packed {n : Nat} (hn : 2 ^ 53 ≤ n) : Float.ofNat n =
    packed (roundWithAccuracy .binary64 .positive (n <<< 53 * 1) (-53) .exact) := by
  have hslow : Float.ofNat n = packed (UnpackedFloat.ofScientific .binary64 n 0) :=
    dif_neg fun h => absurd h.1 (by omega)
  have hround : UnpackedFloat.ofScientific .binary64 n 0 =
      roundWithAccuracy .binary64 .positive (n <<< 53 * 1) (-53) .exact := by
    unfold UnpackedFloat.ofScientific
    have hexp : ¬(0 : Int) < -(2 ^ Format.binary64.exponentBits + n.log2) := by
      have h : (0 : Int) ≤ 2 ^ Format.binary64.exponentBits := by decide
      omega
    rw [dif_neg (by omega), if_neg (by decide), if_neg hexp, if_pos (by decide)]
    rfl
  rw [hslow, hround]

/-- They are rounded, perhaps to infinity. -/
theorem unpacked_ofNat_large {n : Nat} (hn : 2 ^ 53 ≤ n) :
    unpacked (Float.ofNat n) = .infinity .positive ∨
      ∃ m e pos, unpacked (Float.ofNat n) = .finite .positive m e pos ∧ 0 < e := by
  have hlog : 106 ≤ (n <<< 53 * 1).log2 := by
    rw [Nat.le_log2 (by rw [Nat.shiftLeft_eq]; omega), Nat.shiftLeft_eq]
    omega
  obtain ⟨q, t, pos, hq, hcases, hfull⟩ := roundWithAccuracy_full .positive (n := n <<< 53 * 1)
    (e := -53) (by omega) (by omega)
  have ht : 0 < t := by omega
  rw [ofNat_eq_packed hn, hq]
  by_cases hlarge : 972 ≤ t
  · exact .inl (unpacked_packed_of_large .positive pos hlarge)
  · exact .inr ⟨q, t, pos,
      unpacked_packed (.finite _ _ _ _ (by omega) (by omega) (by omega) (.inl hfull)), ht⟩

/-- Rounding does not reorder naturals that stay what they are. -/
theorem ofNat_lt_ofNat {m n : Nat} (hm : m < 2 ^ 53) (h : m < n) :
    Float.ofNat m < Float.ofNat n := by
  rw [lt_iff]
  rcases Nat.eq_zero_or_pos m with rfl | mpos
  · rw [unpacked_ofNat_zero]
    rcases Nat.lt_or_ge n (2 ^ 53) with hn | hn
    · rw [unpacked_ofNat_small h hn]
      rfl
    · rcases unpacked_ofNat_large hn with hu | ⟨q, e, pos, hu, -⟩ <;> rw [hu] <;> rfl
  · have hmlog : m.log2 < 53 := (Nat.log2_lt (by omega)).2 hm
    rw [unpacked_ofNat_small mpos hm]
    rcases Nat.lt_or_ge n (2 ^ 53) with hn | hn
    · have hlog : m.log2 ≤ n.log2 :=
        (Nat.le_log2 (by omega)).2 (Nat.le_trans (Nat.log2_self_le (by omega)) (by omega))
      rw [unpacked_ofNat_small (by omega) hn]
      -- the exponents decide, or at equal ones the mantissas
      refine congrArg some (Ordering.then_eq_lt.2 ?_)
      rcases Nat.lt_or_eq_of_le hlog with hlt | heq
      · exact .inl (compare_lt_iff_lt.2 (by omega))
      · refine .inr ⟨compare_eq_iff_eq.2 (by rw [heq]), compare_lt_iff_lt.2 ?_⟩
        rw [heq]
        exact Nat.mul_lt_mul_of_pos_right h (Nat.two_pow_pos _)
    · rcases unpacked_ofNat_large hn with hu | ⟨q, e, pos, hu, he⟩ <;> rw [hu]
      · rfl
      · exact congrArg some (Ordering.then_eq_lt.2 (.inl (compare_lt_iff_lt.2 (by omega))))

theorem max_zero_ofNat (k : Nat) :
    Scalar.max (Float.ofNat 0) (Float.ofNat k) = Float.ofNat k := by
  rcases Nat.eq_zero_or_pos k with rfl | pos
  · decide +kernel
  · exact max_of_lt (ofNat_lt_ofNat (by decide) pos)

end Naturals

section Whole

/-- A finite number without a fractional part. -/
def IsWhole : UnpackedFloat → Prop
  | .zero _ => True
  | .finite _ m e _ => 2 ^ (-e).toNat ∣ m
  | _ => False

/-- It stays one at a smaller exponent. -/
theorem dvd_mul_two_pow {m : Nat} {e t : Int} (h : 2 ^ (-e).toNat ∣ m) (he : t ≤ e) :
    2 ^ (-t).toNat ∣ m * 2 ^ (e - t).toNat := by
  obtain ⟨a, rfl⟩ := h
  have hle : (-t).toNat ≤ (-e).toNat + (e - t).toNat := by omega
  rw [Nat.mul_right_comm, ← Nat.pow_add]
  exact Nat.dvd_mul_right_of_dvd (Nat.pow_dvd_pow 2 hle) a

theorem log2_add_nonneg {m : Nat} {e : Int} (pos : 0 < m) (h : 2 ^ (-e).toNat ∣ m) :
    0 ≤ m.log2 + e := by
  have hle : 2 ^ (-e).toNat ≤ m := Nat.le_of_dvd pos h
  have hlog : (-e).toNat ≤ m.log2 := (Nat.le_log2 (by omega)).2 hle
  omega

/-- Rounding keeps a number whole: what falls out of its mantissa is zero, or else the result has
nothing behind the point. -/
theorem round_whole (s : Sign) {n : Nat} {e : Int} (pos : 0 < n) (hwhole : 2 ^ (-e).toNat ∣ n)
    (he : e ≤ 971) (hmax : 2 * n < (2 ^ 54 - 1) * 2 ^ (971 - e).toNat) :
    IsWhole (UnpackedFloat.round .binary64 s n e) ∧
      Held (UnpackedFloat.round .binary64 s n e) := by
  have hlog : 0 ≤ n.log2 + e := log2_add_nonneg pos hwhole
  -- the magnitude leaves room for the exponent
  have htop : n.log2 + e ≤ 1023 := by
    have hlt : n < 2 ^ (53 + (971 - e).toNat) := by
      rw [Nat.pow_add]
      have hle : (2 ^ 54 - 1) * 2 ^ (971 - e).toNat ≤ 2 * 2 ^ 53 * 2 ^ (971 - e).toNat :=
        Nat.mul_le_mul_right _ (by decide)
      omega
    have hlog' : n.log2 < 53 + (971 - e).toNat := (Nat.log2_lt (by omega)).2 hlt
    omega
  rcases Nat.le_total n.log2 52 with hle | hle
  · rw [round_of_log2_le s pos hle (by omega)]
    obtain ⟨hfull, hfull'⟩ := shifted_bounds pos hle
    refine ⟨?_, .finite _ _ _ _ hfull' (by omega) (by omega) (.inl hfull)⟩
    have h := dvd_mul_two_pow hwhole (t := n.log2 + e - 52) (by omega)
    rwa [show (e - (n.log2 + e - 52)).toNat = 52 - n.log2 by omega] at h
  · rw [round_of_le_log2 s hle (by omega)]
    obtain ⟨q, t, qpos, hq, hcases, hfull⟩ := roundWithAccuracy_full s hle (e := e) (by omega)
    rw [hq]
    obtain ⟨d, hd⟩ : ∃ d, n.log2 = d + 52 := ⟨n.log2 - 52, by omega⟩
    have hsub : n.log2 - 52 = d := by omega
    rw [hsub] at hcases
    rcases hcases with ⟨hlt, rfl, rfl⟩ | ⟨hnear, rfl, rfl⟩
    · refine ⟨?_, .finite _ _ _ _ hlt (by omega) (by omega) (.inl hfull)⟩
      obtain ⟨a, ha⟩ := hwhole
      change 2 ^ (-(n.log2 + e - 52)).toNat ∣ nearest n d
      -- with an exponent below zero, all that is shifted out of `n` is zeros
      rcases Int.lt_or_le (n.log2 + e - 52) 0 with hneg | hnn
      · have hexp : (-e).toNat = (-(n.log2 + e - 52)).toNat + d := by omega
        rw [hexp, Nat.pow_add, Nat.mul_right_comm] at ha
        have hnear : nearest n d = 2 ^ (-(n.log2 + e - 52)).toNat * a := by
          conv_lhs => rw [ha, nearest_mul]
        rw [hnear]
        exact Nat.dvd_mul_right _ _
      · rw [Int.toNat_of_nonpos (by omega)]
        exact Nat.one_dvd _
    · -- the mantissa has come to the next power of two, which the largest exponent has no room for
      have hexp : n.log2 + e ≠ 1023 := by
        intro h
        obtain ⟨-, hb⟩ := nearest_bounds n d
        rw [hnear] at hb
        rw [show (971 - e).toNat = d by omega] at hmax
        omega
      refine ⟨?_, .finite _ _ _ _ (by decide) (by omega) (by omega) (.inl (by decide))⟩
      exact Nat.pow_dvd_pow 2 (by omega)

theorem normalize_whole (s : Sign) {m : Int} {e : Int} (hwhole : 2 ^ (-e).toNat ∣ m.natAbs)
    (he : e ≤ 971) (hmax : 2 * m.natAbs < (2 ^ 54 - 1) * 2 ^ (971 - e).toNat) :
    IsWhole (UnpackedFloat.normalize .binary64 m e s) ∧
      Held (UnpackedFloat.normalize .binary64 m e s) := by
  unfold UnpackedFloat.normalize
  split
  · next h =>
    have hneg : m < 0 := compare_lt_iff_lt.1 h
    have habs : (-m).toNat = m.natAbs := by omega
    rw [habs]
    exact round_whole .negative (by omega) hwhole he hmax
  · exact ⟨trivial, .zero s⟩
  · next h =>
    have hpos : 0 < m := compare_gt_iff_gt.1 h
    have habs : m.toNat = m.natAbs := by omega
    rw [habs]
    exact round_whole .positive (by omega) hwhole he hmax

theorem natAbs_apply (s : Sign) (m : Nat) : (s.apply m).natAbs = m := by
  cases s
  · exact (Int.natAbs_neg m).trans (Int.natAbs_natCast m)
  · exact Int.natAbs_natCast m

theorem dvd_apply (s : Sign) {k m : Nat} (h : k ∣ m) : (k : Int) ∣ s.apply m := by
  rw [Int.natCast_dvd, natAbs_apply]
  exact h

theorem natAbs_apply_add_le (s s' : Sign) (m m' : Nat) :
    (s.apply m + s'.apply m').natAbs ≤ m + m' := by
  have h := Int.natAbs_add_le (s.apply m) (s'.apply m')
  rwa [natAbs_apply, natAbs_apply] at h

/-- The sum of whole numbers is whole if one of them has nothing but what a mantissa holds. -/
theorem add_whole {u v : UnpackedFloat} (hu : IsWhole u) (hv : IsWhole v) (hu' : Held u)
    (hv' : Held v) (small : ∀ s m e pos, u = .finite s m e pos → e ≤ 0) :
    IsWhole (UnpackedFloat.add .binary64 u v) ∧ Held (UnpackedFloat.add .binary64 u v) := by
  cases hu' with
  | notANumber => exact hu.elim
  | infinity s => exact hu.elim
  | zero s =>
    cases hv' with
    | notANumber => exact hv.elim
    | infinity s => exact hv.elim
    | zero s' => cases s <;> cases s' <;> exact ⟨trivial, .zero _⟩
    | finite s m e pos hm he he' full => exact ⟨hv, .finite s m e pos hm he he' full⟩
  | finite s m e pos hm he he' full =>
    cases hv' with
    | notANumber => exact hv.elim
    | infinity s => exact hv.elim
    | zero s' => exact ⟨hu, .finite s m e pos hm he he' full⟩
    | finite s' m' e' pos' hm' he₁ he₁' full' =>
      have hsmall : e ≤ 0 := small _ _ _ _ rfl
      have hle : min e e' ≤ e := Int.min_le_left ..
      have hle' : min e e' ≤ e' := Int.min_le_right ..
      have hadd : UnpackedFloat.add .binary64 (.finite s m e pos) (.finite s' m' e' pos') =
          UnpackedFloat.normalize .binary64 (s.apply (m <<< (e - min e e').toNat : Nat) +
            s'.apply (m' <<< (e' - min e e').toNat : Nat)) (min e e') .positive := rfl
      rw [hadd, Nat.shiftLeft_eq, Nat.shiftLeft_eq]
      -- both are brought to the smaller exponent `t`, at which they are added exactly
      generalize min e e' = t at hle hle'
      refine normalize_whole .positive ?_ (by omega) ?_
      · exact Int.natCast_dvd.1 (Int.dvd_add (dvd_apply s (dvd_mul_two_pow hu hle))
          (dvd_apply s' (dvd_mul_two_pow hv hle')))
      · have hlow : 2 * (m * 2 ^ (e - t).toNat) < 2 ^ (971 - t).toNat :=
          calc 2 * (m * 2 ^ (e - t).toNat) < 2 * (2 ^ 53 * 2 ^ (e - t).toNat) := by
                have h := Nat.mul_lt_mul_of_pos_right hm (Nat.two_pow_pos (e - t).toNat)
                omega
            _ = 2 ^ (54 + (e - t).toNat) := by ring
            _ ≤ 2 ^ (971 - t).toNat := Nat.pow_le_pow_right (by decide) (by omega)
        have hhigh : m' * 2 ^ (e' - t).toNat ≤ (2 ^ 53 - 1) * 2 ^ (971 - t).toNat :=
          Nat.mul_le_mul (by omega) (Nat.pow_le_pow_right (by decide) (by omega))
        have hsum := natAbs_apply_add_le s s' (m * 2 ^ (e - t).toNat) (m' * 2 ^ (e' - t).toNat)
        omega

end Whole

section Integers

theorem held_neg {u : UnpackedFloat} (h : Held u) : Held (UnpackedFloat.neg u) := by
  cases h with
  | notANumber => exact .notANumber
  | infinity s => exact .infinity _
  | zero s => exact .zero _
  | finite s m e pos hm he he' full => exact .finite _ m e pos hm he he' full

theorem unpacked_neg (x : Float) : unpacked (-x) = UnpackedFloat.neg (unpacked x) :=
  unpacked_packed (held_neg (held_unpacked x))

theorem neg_ofNat_lt {n : Nat} (pos : 0 < n) : -(Float.ofNat n) < Float.ofNat 0 := by
  rw [lt_iff, unpacked_neg, unpacked_ofNat_zero]
  rcases Nat.lt_or_ge n (2 ^ 53) with hn | hn
  · rw [unpacked_ofNat_small pos hn]
    rfl
  · rcases unpacked_ofNat_large hn with hu | ⟨q, e, qpos, hu, -⟩ <;> rw [hu] <;> rfl

/-- An integer other than 0 has the mantissa and the exponent of its magnitude. -/
theorem unpacked_ofInt_signed (s : Sign) {n m : Nat} {e : Int} {mpos : 0 < m} (pos : 0 < n)
    (hn : unpacked (Float.ofNat n) = .finite .positive m e mpos) :
    unpacked (Scalar.ofInt (signed (isNegative s) n)) = .finite s m e mpos := by
  obtain ⟨k, rfl⟩ : ∃ k, n = k + 1 := ⟨n - 1, by omega⟩
  cases s with
  | positive => exact hn
  | negative =>
    change unpacked (-(Float.ofNat (k + 1))) = _
    rw [unpacked_neg, hn]
    rfl

theorem compare_eq_of_le_of_le {x y : Float} (h : x ≤ y) (h' : y ≤ x) :
    (unpacked x).compare (unpacked y) = some .eq := by
  rw [le_iff] at h h'
  rw [compare_swap (unpacked x)] at h'
  rcases h with h | h
  · rw [h] at h'
    simp [Ordering.swap] at h'
  · exact h

theorem compare_finite_eq {s : Sign} {m m' : Nat} {e e' : Int} {pos : 0 < m} {pos' : 0 < m'}
    (h : UnpackedFloat.compare (.finite s m e pos) (.finite s m' e' pos') = some .eq) :
    e = e' ∧ m = m' := by
  cases s with
  | positive =>
    obtain ⟨he, hm⟩ := Ordering.then_eq_eq.1 (Option.some.inj h)
    exact ⟨compare_eq_iff_eq.1 he, compare_eq_iff_eq.1 hm⟩
  | negative =>
    obtain ⟨he, hm⟩ := Ordering.then_eq_eq.1 (Ordering.swap_eq_eq.1 (Option.some.inj h))
    exact ⟨compare_eq_iff_eq.1 he, compare_eq_iff_eq.1 hm⟩

/-- What equals its integer part is whole. -/
theorem isWhole_of_isSome_integer? {x : Float} (h : (Scalar.integer? x).isSome) :
    IsWhole (unpacked x) := by
  obtain ⟨i, hi⟩ := Option.isSome_iff_exists.1 h
  rw [Scalar.integer?, Option.filter_eq_some_iff] at hi
  obtain ⟨htrunc, hle⟩ := hi
  simp only [Bool.decide_and, Bool.and_eq_true, decide_eq_true_eq] at hle
  have heq := compare_eq_of_le_of_le hle.1 hle.2
  rw [truncate?_eq] at htrunc
  have hheld := held_unpacked x
  cases hu : unpacked x with
  | notANumber | infinity s =>
    rw [hu] at htrunc
    cases htrunc
  | zero s => trivial
  | finite s m e pos =>
    rw [hu] at htrunc heq hheld
    change 2 ^ (-e).toNat ∣ m
    rcases Int.lt_or_le e 0 with hneg | hnn
    · obtain ⟨k, rfl⟩ : ∃ k : Nat, e = .negSucc k := Int.eq_negSucc_of_lt_zero hneg
      obtain rfl : signed (isNegative s) (m >>> (k + 1)) = i := Option.some.inj htrunc
      cases hheld with
      | finite _ _ _ _ hm =>
        have hle : m >>> (k + 1) ≤ m := Nat.shiftRight_le m (k + 1)
        -- the integer part as a machine number has the exponent of what it is compared with
        rcases Nat.eq_zero_or_pos (m >>> (k + 1)) with hz | hpos
        · rw [hz] at heq
          cases s <;> cases heq
        · rw [unpacked_ofInt_signed s hpos (unpacked_ofNat_small hpos (by omega))] at heq
          obtain ⟨he, hm⟩ := compare_finite_eq heq
          have hexp : (-(Int.negSucc k)).toNat = 52 - (m >>> (k + 1)).log2 := by omega
          rw [hexp]
          exact Dvd.intro_left _ hm.symm
    · rw [Int.toNat_of_nonpos (by omega)]
      exact Nat.one_dvd m

end Integers

section Sums

variable {n : Nat}

theorem isWhole_ofNat (hn : n < 2 ^ 53) : IsWhole (unpacked (Float.ofNat n)) := by
  rcases Nat.eq_zero_or_pos n with rfl | pos
  · rw [unpacked_ofNat_zero]
    trivial
  · rw [unpacked_ofNat_small pos hn]
    have hexp : (-((n.log2 : Int) - 52)).toNat = 52 - n.log2 := by omega
    change 2 ^ (-((n.log2 : Int) - 52)).toNat ∣ _
    rw [hexp]
    exact Nat.dvd_mul_left _ n

theorem exponent_ofNat (hn : n < 2 ^ 53) {s : Sign} {m : Nat} {e : Int} {pos : 0 < m}
    (hu : unpacked (Float.ofNat n) = .finite s m e pos) : e ≤ 0 := by
  rcases Nat.eq_zero_or_pos n with rfl | npos
  · rw [unpacked_ofNat_zero] at hu
    cases hu
  · have hlog : n.log2 < 53 := (Nat.log2_lt (by omega)).2 hn
    rw [unpacked_ofNat_small npos hn] at hu
    cases hu
    omega

theorem isWhole_ofNat_add {x : Float} (hx : IsWhole (unpacked x)) (hn : n < 2 ^ 53) :
    IsWhole (unpacked (Float.ofNat n + x)) := by
  obtain ⟨hwhole, hheld⟩ := add_whole (isWhole_ofNat hn) hx (held_unpacked _) (held_unpacked x)
    fun _ _ _ _ => exponent_ofNat hn
  rw [add_eq_packed, unpacked_packed hheld]
  exact hwhole

end Sums

section Remainders

/-- An integer up to its sign, which 0 has too. -/
def ofSigned (b : Bool) (n : Nat) : Float := if b then -(Float.ofNat n) else Float.ofNat n

/-- Behind the point of a whole number there is nothing, so that its remainder by a natural is
the one of its integer part, written at the smaller of two exponents. -/
theorem rem_parts {m n : Nat} {e : Int} (b : Bool) (hwhole : 2 ^ (-e).toNat ∣ m) (he : -52 ≤ e)
    (pos : 0 < n) (hn : n < 8) : ∃ r < n, ∃ j < 3,
      (Parts.mk b m e).rem ⟨false, n * 2 ^ (52 - n.log2), n.log2 - 52⟩ =
        ⟨b, r * 2 ^ (50 + j), -((50 + j : Nat) : Int)⟩ := by
  have hlog : n.log2 < 3 := (Nat.log2_lt (by omega)).2 hn
  -- the divisor is below 8, so the smaller exponent is -50, -51 or -52
  obtain ⟨j, hj, hmin⟩ : ∃ j < 3, (if e ≤ (n.log2 : Int) - 52 then e else (n.log2 : Int) - 52) =
      -((50 + j : Nat) : Int) := by
    split
    · exact ⟨(-e).toNat - 50, by omega, by omega⟩
    · exact ⟨2 - n.log2, by omega, by omega⟩
  obtain ⟨a, ha⟩ : 2 ^ (50 + j) ∣ m <<< (e - -((50 + j : Nat) : Int)).toNat := by
    have h := dvd_mul_two_pow hwhole (t := -((50 + j : Nat) : Int)) (by split at hmin <;> omega)
    rwa [Int.neg_neg, Int.toNat_natCast, ← Nat.shiftLeft_eq] at h
  have hdivisor : (n * 2 ^ (52 - n.log2)) <<<
      ((n.log2 : Int) - 52 - -((50 + j : Nat) : Int)).toNat = 2 ^ (50 + j) * n := by
    have hexp : 52 - n.log2 + ((n.log2 : Int) - 52 - -((50 + j : Nat) : Int)).toNat = 50 + j := by
      split at hmin <;> omega
    rw [Nat.shiftLeft_eq, Nat.mul_assoc, ← Nat.pow_add, hexp, Nat.mul_comm]
  refine ⟨a % n, Nat.mod_lt a pos, j, hj, ?_⟩
  rw [Parts.rem]
  simp only [hmin, ha, hdivisor, Nat.mul_mod_mul_left]
  rw [Nat.mul_comm]

/-- The remainder of a whole number by a small natural. -/
theorem rem_ofNat {x : Float} (hx : IsWhole (unpacked x)) {n : Nat} (pos : 0 < n) (hn : n < 8) :
    ∃ b, ∃ r < n, Scalar.rem x (Float.ofNat n) = ofSigned b r := by
  have hdivisor : parts? (Float.ofNat n) =
      some ⟨false, n * 2 ^ (52 - n.log2), n.log2 - 52⟩ := by
    rw [parts?_eq, unpacked_ofNat_small pos (by omega)]
    rfl
  have hmantissa : n * 2 ^ (52 - n.log2) ≠ 0 := by positivity
  have hheld := held_unpacked x
  change ∃ b, ∃ r < n, rem x (Float.ofNat n) = _
  cases hu : unpacked x with
  | notANumber =>
    rw [hu] at hx
    exact hx.elim
  | infinity s =>
    rw [hu] at hx
    exact hx.elim
  | zero s =>
    have hlog : n.log2 < 3 := (Nat.log2_lt (by omega)).2 hn
    have hparts : parts? x = some ⟨isNegative s, 0, -1074⟩ := by
      rw [parts?_eq, hu]
      rfl
    have hrem : (Parts.mk (isNegative s) 0 (-1074)).rem
        ⟨false, n * 2 ^ (52 - n.log2), n.log2 - 52⟩ = ⟨isNegative s, 0, -1074⟩ := by
      rw [Parts.rem, if_pos (by dsimp only; omega)]
      simp only [Nat.zero_shiftLeft, Nat.zero_mod]
    have hresult : ∀ b, Parts.toFloat ⟨b, 0, -1074⟩ = ofSigned b 0 := by
      decide +kernel
    refine ⟨isNegative s, 0, pos, ?_⟩
    rw [rem, hparts, hdivisor]
    dsimp only
    rw [if_neg hmantissa, hrem, hresult]
  | finite s m e mpos =>
    have hparts : parts? x = some ⟨isNegative s, m, e⟩ := by
      rw [parts?_eq, hu]
      rfl
    rw [hu] at hx hheld
    have hlow : -52 ≤ e := by
      cases hheld with
      | finite _ _ _ _ hm =>
        have h : 0 ≤ m.log2 + e := log2_add_nonneg mpos hx
        have h' : m.log2 < 53 := (Nat.log2_lt (by omega)).2 hm
        omega
    -- few results are left, and each of them can be computed
    have hresult : ∀ r < 8, ∀ j < 3, ∀ b,
        Parts.toFloat ⟨b, r * 2 ^ (50 + j), -((50 + j : Nat) : Int)⟩ = ofSigned b r := by
      decide +kernel
    obtain ⟨r, hr, j, hj, hrem⟩ := rem_parts (isNegative s) hx hlow pos hn
    refine ⟨isNegative s, r, hr, ?_⟩
    rw [rem, hparts, hdivisor]
    dsimp only
    rw [if_neg hmantissa, hrem, hresult r (by omega) j hj]

end Remainders

end HandheldUI.Binary64
