import Mathlib.Algebra.Order.Field.Power
import Mathlib.Tactic.FieldSimp
import Mathlib.Tactic.Linarith
import HandheldUI.Proofs.Scalar.Integers

/-! Rounding takes the nearest machine number. Exponents that are too large count here: a result that
has one becomes infinite only when it is packed. A rounded mantissa is off by a half at most, so no
multiple of the last bit is nearer, and numbers with more bits after the point are all smaller. -/

namespace HandheldUI.Binary64

open Float.Model (UnpackedFloat Format)
open Float.Model.UnpackedFloat

section Grid

/-- A mantissa and an exponent that a result can have before it is packed. -/
structure OnGrid (m : Nat) (e : Int) : Prop where
  lt : m < 2 ^ 53
  le : -1074 ≤ e
  full : 2 ^ 52 ≤ m ∨ e = -1074

def size (m : Nat) (e : Int) : Rat := m * 2 ^ e

variable {m m' : Nat} {e e' : Int}

theorem size_pos (pos : 0 < m) (e : Int) : 0 < size m e := by
  unfold size
  positivity

theorem size_zero (e : Int) : size 0 e = 0 := by simp [size]

theorem size_shift (m : Nat) (e : Int) (k : Nat) : size (m * 2 ^ k) e = size m (e + k) := by
  rw [size, size, zpow_add₀ two_ne_zero, zpow_natCast]
  push_cast
  ring

theorem size_lt_size_iff : size m e < size m' e ↔ m < m' := by
  have hpow : (0 : Rat) < 2 ^ e := by positivity
  rw [size, size, mul_lt_mul_iff_of_pos_right hpow, Nat.cast_lt]

/-- The larger exponent wins, since the mantissa that goes with it fills its bits. -/
theorem size_lt_of_lt (h : OnGrid m e) (h' : OnGrid m' e') (he : e < e') :
    size m e < size m' e' := by
  obtain ⟨k, rfl⟩ : ∃ k : Nat, e' = e + 1 + k := ⟨(e' - e - 1).toNat, by omega⟩
  have hle : -1074 ≤ e := h.le
  have hfull : 2 ^ 52 ≤ m' := h'.full.resolve_right (by omega)
  have hk : 1 ≤ 2 ^ k := Nat.one_le_two_pow
  have hm : m < m' * 2 ^ (k + 1) := by
    calc m < 2 ^ 52 * 1 * 2 := h.lt
      _ ≤ m' * 2 ^ k * 2 := by gcongr
      _ = m' * 2 ^ (k + 1) := by rw [Nat.mul_assoc, ← Nat.pow_succ]
  calc size m e < size (m' * 2 ^ (k + 1)) e := size_lt_size_iff.2 hm
    _ = size m' (e + 1 + k) := by
      rw [size_shift]
      congr 1
      push_cast
      ring

theorem compare_size (h : OnGrid m e) (h' : OnGrid m' e') :
    (compare e e').then (compare m m') = compare (size m e) (size m' e') := by
  rcases lt_trichotomy e e' with he | rfl | he
  · rw [compare_lt_iff_lt.2 he, compare_lt_iff_lt.2 (size_lt_of_lt h h' he)]
    rfl
  · rw [compare_eq_iff_eq.2 (rfl : e = e)]
    rcases lt_trichotomy m m' with hm | rfl | hm
    · rw [compare_lt_iff_lt.2 hm, compare_lt_iff_lt.2 (size_lt_size_iff.2 hm)]
      rfl
    · rw [compare_eq_iff_eq.2 (rfl : m = m), compare_eq_iff_eq.2 (rfl : size m e = size m e)]
      rfl
    · rw [compare_gt_iff_gt.2 hm, compare_gt_iff_gt.2 (size_lt_size_iff.2 hm)]
      rfl
  · rw [compare_gt_iff_gt.2 he, compare_gt_iff_gt.2 (size_lt_of_lt h' h he)]
    rfl

theorem size_inj (h : OnGrid m e) (h' : OnGrid m' e')
    (heq : size m e = size m' e') : m = m' ∧ e = e' := by
  have hcompare := (compare_size h h').trans (compare_eq_iff_eq.2 heq)
  obtain ⟨he, hm⟩ := Ordering.then_eq_eq.1 hcompare
  exact ⟨compare_eq_iff_eq.1 hm, compare_eq_iff_eq.1 he⟩

end Grid

section Nearest

/-- No number is nearer to `q` than this one. -/
structure Nearest (q : Rat) (m : Nat) (e : Int) : Prop where
  onGrid : OnGrid m e
  closest (m' : Nat) (e' : Int) : OnGrid m' e' → |q - size m e| ≤ |q - size m' e'|

variable {m m' : Nat} {e e' : Int} {a b : Rat}

theorem nearest_size (h : OnGrid m e) : Nearest (size m e) m e :=
  ⟨h, fun m' e' _ => by simp⟩

/-- Rounding keeps order. -/
theorem Nearest.size_le (ha : Nearest a m e) (hb : Nearest b m' e') (h : a < b) :
    size m e ≤ size m' e' := by
  have hma := sq_le_sq.2 (ha.closest m' e' hb.onGrid)
  have hmb := sq_le_sq.2 (hb.closest m e ha.onGrid)
  generalize size m e = x at hma hmb
  generalize size m' e' = y at hma hmb
  by_contra hlt
  -- otherwise `a` lies above the middle of `x` and `y`, and `b` below it
  have hneg : 2 * (x - y) * (a - b) < 0 :=
    mul_neg_of_pos_of_neg (by linarith) (sub_neg.2 h)
  have hnonneg : 0 ≤ 2 * (x - y) * (a - b) := by
    calc 0 ≤ (a - y) ^ 2 - (a - x) ^ 2 + ((b - x) ^ 2 - (b - y) ^ 2) :=
          add_nonneg (sub_nonneg.2 hma) (sub_nonneg.2 hmb)
      _ = 2 * (x - y) * (a - b) := by ring
  exact hneg.not_ge hnonneg

/-- A whole number that is off by a half at most is nearest among the whole ones. -/
theorem abs_sub_le_of_half {y : Rat} {r : Nat} (hr : |y - r| ≤ 1 / 2) (j : Nat) :
    |y - r| ≤ |y - j| := by
  rcases eq_or_ne r j with rfl | hne
  · exact le_rfl
  · have hint : (1 : Rat) ≤ |(r : Rat) - j| := by
      exact_mod_cast Int.one_le_abs (sub_ne_zero.2 (Int.ofNat_inj.not.2 hne))
    have htri : |(r : Rat) - j| ≤ |y - r| + |y - j| := by
      rw [abs_sub_comm y r]
      exact abs_sub_le _ _ _
    linarith

/-- What makes a rounded mantissa nearest: it is off by a half at most, and the exponent is the
smallest at which so large a mantissa is on the grid. -/
theorem abs_sub_size_le {y : Rat} {r : Nat} {t : Int} (hr : |y - r| ≤ 1 / 2)
    (hfull : 2 ^ 52 ≤ y ∨ t = -1074) (h : OnGrid m e) :
    |y * 2 ^ t - size r t| ≤ |y * 2 ^ t - size m e| := by
  have hpow : (0 : Rat) < 2 ^ t := by positivity
  -- multiples of the last bit
  have hmul (j : Nat) : |y * 2 ^ t - size r t| ≤ |y * 2 ^ t - size j t| := by
    rw [size, size, ← sub_mul, ← sub_mul, abs_mul, abs_mul]
    exact mul_le_mul_of_nonneg_right (abs_sub_le_of_half hr j) (abs_nonneg _)
  rcases le_or_gt t e with hte | het
  · obtain ⟨k, rfl⟩ : ∃ k : Nat, e = t + k := ⟨(e - t).toNat, by omega⟩
    rw [← size_shift]
    exact hmul _
  · -- a number with a smaller exponent is too small
    have hle : -1074 ≤ e := h.le
    have hfull : 2 ^ 52 ≤ y := hfull.resolve_right (by omega)
    have hsize : size m e < size (2 ^ 52) t :=
      size_lt_of_lt h ⟨by decide, by omega, .inl le_rfl⟩ het
    have hy : size (2 ^ 52) t ≤ y * 2 ^ t := by
      rw [size, Nat.cast_pow, Nat.cast_ofNat]
      gcongr
    calc |y * 2 ^ t - size r t| ≤ |y * 2 ^ t - size (2 ^ 52) t| := hmul _
      _ = y * 2 ^ t - size (2 ^ 52) t := abs_of_nonneg (sub_nonneg.2 hy)
      _ ≤ y * 2 ^ t - size m e := sub_le_sub_left hsize.le _
      _ ≤ |y * 2 ^ t - size m e| := le_abs_self _

end Nearest

section Rounding

/-- A result is the number nearest to `q`. -/
def RoundsTo (q : Rat) (u : UnpackedFloat) : Prop :=
  ∃ m e, u = ofMantissa .positive m e ∧ Nearest q m e

variable {n d : Nat}

theorem Divided.pos {em : ExtendedMantissa} (h : Divided n d em) : 0 < d := by
  obtain ⟨rest, -, hlt, -⟩ := h
  exact Nat.zero_lt_of_lt hlt

theorem Divided.abs_sub_le {em : ExtendedMantissa} (h : Divided n d em) :
    |(n : Rat) / d - em.roundedMantissa| ≤ 1 / 2 := by
  have hd : (0 : Rat) < d := by exact_mod_cast h.pos
  obtain ⟨hlow, hhigh⟩ := h.bounds
  have hlow : (2 * n : Rat) ≤ (2 * em.roundedMantissa + 1) * d := by exact_mod_cast hlow
  have hhigh : (2 * em.roundedMantissa * d : Rat) ≤ 2 * n + d := by exact_mod_cast hhigh
  rw [abs_le, neg_le_sub_iff_le_add, sub_le_iff_le_add, div_le_iff₀ hd, ← sub_le_iff_le_add,
    le_div_iff₀ hd]
  constructor <;> linarith

theorem mantissa_ofMantissaAndAccuracy (m : Nat) (a : Accuracy) :
    (ExtendedMantissa.ofMantissaAndAccuracy m a).mantissa = m := by
  rcases a with _ | ⟨_ | _ | _⟩ <;> rfl

variable {a : Accuracy} {m k : Nat}

/-- What has so many bits before a shift has the same number of them as a quotient. -/
theorem Divided.div_lt (h : Divided n d (.ofMantissaAndAccuracy m a)) (hk : m.log2 ≤ k + 52) :
    (n : Rat) / (2 ^ k * d : Nat) < 2 ^ 53 := by
  have hd : 0 < d := h.pos
  obtain ⟨rest, hn, hlt, -⟩ := h
  rw [mantissa_ofMantissaAndAccuracy] at hn
  have hm : m + 1 ≤ 2 ^ (k + 53) :=
    Nat.lt_log2_self.trans_le (Nat.pow_le_pow_right (by decide) (by omega))
  have hlt : n < 2 ^ 53 * (2 ^ k * d) := by
    calc n < (m + 1) * d := by rw [hn, Nat.add_one_mul]; omega
      _ ≤ 2 ^ (k + 53) * d := Nat.mul_le_mul_right d hm
      _ = 2 ^ 53 * (2 ^ k * d) := by ring
  rw [div_lt_iff₀ (by exact_mod_cast Nat.mul_pos (Nat.two_pow_pos k) hd)]
  exact_mod_cast hlt

theorem Divided.le_div (h : Divided n d (.ofMantissaAndAccuracy m a)) (hk : m.log2 = k + 52) :
    2 ^ 52 ≤ (n : Rat) / (2 ^ k * d : Nat) := by
  have hd : 0 < d := h.pos
  obtain ⟨rest, hn, hlt, -⟩ := h
  rw [mantissa_ofMantissaAndAccuracy] at hn
  have hne : m ≠ 0 := by rintro rfl; simp at hk
  have hm : 2 ^ (k + 52) ≤ m := hk ▸ Nat.log2_self_le hne
  have hle : 2 ^ 52 * (2 ^ k * d) ≤ n := by
    calc 2 ^ 52 * (2 ^ k * d) = 2 ^ (k + 52) * d := by ring
      _ ≤ m * d := Nat.mul_le_mul_right d hm
      _ ≤ n := by omega
  rw [le_div_iff₀ (by exact_mod_cast Nat.mul_pos (Nat.two_pow_pos k) hd)]
  exact_mod_cast hle

/-- Once it is rounded, a mantissa is on the grid, if need be with one bit less. -/
theorem exists_onGrid {e : Int} {r : Nat} (hk : max (m.log2 + e - 52) (-1074) = e + k)
    (hr : (ExtendedMantissa.ofMantissaAndAccuracy m a >>> k).roundedMantissa = r)
    (hlarge : r ≤ 2 ^ 53) (hfull : 2 ^ 52 ≤ r ∨ e + k = -1074) :
    ∃ q t, roundWithAccuracy .binary64 .positive m e a = ofMantissa .positive q t ∧ OnGrid q t ∧
      size q t = size r (e + k) := by
  rcases Nat.lt_or_eq_of_le hlarge with hlt | rfl
  · have hl : max ((r.log2 : Int) + (e + k) - 52) (-1074) = e + k + (0 : Nat) := by
      rcases hfull with hr | he
      · rw [(log2_eq_iff (by omega)).2 ⟨hr, hlt⟩]
        omega
      · have hlog : r.log2 < 53 := by
          rcases Nat.eq_zero_or_pos r with rfl | pos
          · decide
          · exact (Nat.log2_lt pos.ne').2 hlt
        omega
    exact ⟨r, e + k, (roundWithAccuracy_eq_ofMantissa .positive hk hr hl).trans
      (congrArg (ofMantissa .positive r) (Int.add_zero _)), ⟨hlt, by omega, hfull⟩, rfl⟩
  · -- the mantissa has come to the next power of two, and loses a zero by one more shift
    have hlog : (2 ^ 53).log2 = 53 := by decide
    exact ⟨2 ^ 52, e + k + 1,
      roundWithAccuracy_eq_ofMantissa (l := 1) .positive hk hr (by rw [hlog]; omega),
      ⟨by decide, by omega, .inl le_rfl⟩, (size_shift (2 ^ 52) (e + k) 1).symm⟩

/-- A mantissa and a hint at what it leaves out of `n / d` are enough to round the quotient, if the
mantissa has bits enough. -/
theorem roundsTo_roundWithAccuracy {e : Int} (h : Divided n d (.ofMantissaAndAccuracy m a))
    (hwide : 52 ≤ m.log2 ∨ e ≤ -1074) :
    RoundsTo (n / d * 2 ^ e) (roundWithAccuracy .binary64 .positive m e a) := by
  obtain ⟨k, hk⟩ : ∃ k : Nat, max (m.log2 + e - 52) (-1074) = e + k :=
    ⟨(max (m.log2 + e - 52) (-1074) - e).toNat, by omega⟩
  obtain ⟨r, hr⟩ : ∃ r, (ExtendedMantissa.ofMantissaAndAccuracy m a >>> k).roundedMantissa = r :=
    ⟨_, rfl⟩
  obtain ⟨y, hy⟩ : ∃ y : Rat, (n : Rat) / (2 ^ k * d : Nat) = y := ⟨_, rfl⟩
  have hhalf : |y - r| ≤ 1 / 2 := by
    rw [← hy, ← hr]
    exact (h.shiftRight k).abs_sub_le
  obtain ⟨hlow, hhigh⟩ := abs_le.1 hhalf
  have hfull : 2 ^ 52 ≤ y ∨ e + k = -1074 := by
    rw [← hy]
    exact or_iff_not_imp_right.2 fun hne => h.le_div (by omega)
  have hlarge : r ≤ 2 ^ 53 := by
    have hy : y < 2 ^ 53 := hy ▸ h.div_lt (by omega)
    have hr : (r : Rat) < (2 ^ 53 + 1 : Nat) := by push_cast; linarith
    exact Nat.le_of_lt_succ (by exact_mod_cast hr)
  have hsmall : 2 ^ 52 ≤ r ∨ e + k = -1074 := by
    refine hfull.imp_left fun hy => ?_
    have hr : ((2 ^ 52 : Nat) : Rat) < (r + 1 : Nat) := by push_cast; linarith
    exact Nat.le_of_lt_succ (by exact_mod_cast hr)
  obtain ⟨q, t, hround, hgrid, hsize⟩ := exists_onGrid hk hr hlarge hsmall
  have hshift : (n : Rat) / d * 2 ^ e = y * 2 ^ (e + k) := by
    rw [← hy, zpow_add₀ two_ne_zero, zpow_natCast]
    push_cast
    field_simp
  refine ⟨q, t, hround, hgrid, fun m' e' hgrid' => ?_⟩
  rw [hsize, hshift]
  exact abs_sub_size_le hhalf hfull hgrid'

end Rounding

end HandheldUI.Binary64
