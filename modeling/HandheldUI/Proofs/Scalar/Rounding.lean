import HandheldUI.Proofs.Scalar.Packing
import Mathlib.Tactic.Positivity

/-! Rounding to machine numbers. A mantissa with too many bits is shifted, and the bits that fall
out say which of two neighbours is the nearer one; a mantissa with too few is filled up. What is
proved of the result is what both cases share. -/

namespace HandheldUI.Binary64

open Float.Model (UnpackedFloat Format)
open Float.Model.UnpackedFloat

section Shift

/-- `em` is what a division of `n` by `d` leaves: the quotient, and where the remainder lies in
relation to the half of the divisor. -/
def Divided (n d : Nat) (em : ExtendedMantissa) : Prop :=
  ∃ rest, n = em.mantissa * d + rest ∧ rest < d ∧
    match em.roundBit, em.stickyBit with
    | false, false => rest = 0
    | false, true => 0 < rest ∧ 2 * rest < d
    | true, false => 2 * rest = d
    | true, true => d < 2 * rest

variable {n d : Nat} {em : ExtendedMantissa}

theorem Divided.shiftRightOne (h : Divided n d em) : Divided n (2 * d) em.shiftRightOne := by
  obtain ⟨m, round, sticky⟩ := em
  obtain ⟨rest, hn, hlt, hbits⟩ := h
  have hm : m * d = 2 * (m / 2 * d) + m % 2 * d := by
    have h : m = 2 * (m / 2) + m % 2 := by omega
    calc m * d = (2 * (m / 2) + m % 2) * d := by rw [← h]
      _ = 2 * (m / 2 * d) + m % 2 * d := by ring
  refine ⟨m % 2 * d + rest, ?_, ?_, ?_⟩
  · change n = m / 2 * (2 * d) + _
    rw [hn, hm]
    ring
  · rcases Nat.mod_two_eq_zero_or_one m with h | h <;> rw [h] <;> omega
  · -- the bit that falls out now is the new round bit, and all that fell out before is sticky
    rcases Nat.mod_two_eq_zero_or_one m with h | h <;> cases round <;> cases sticky <;>
      simp only [ExtendedMantissa.shiftRightOne, h] at hbits ⊢ <;> simp <;> omega

theorem Divided.shiftRight (h : Divided n d em) (k : Nat) : Divided n (2 ^ k * d) (em >>> k) := by
  induction k with
  | zero =>
    rw [Nat.pow_zero, Nat.one_mul]
    exact h
  | succ k ih =>
    rw [Nat.pow_succ', Nat.mul_assoc]
    exact ih.shiftRightOne

theorem divided_one (n : Nat) : Divided n 1 ⟨n, false, false⟩ :=
  ⟨0, by simp, by simp, rfl⟩

/-- Rounding goes up only from a half on, and down only up to a half. -/
theorem Divided.roundedMantissa (h : Divided n d em) : ∃ k rest,
    em.roundedMantissa = em.mantissa + k ∧ n = em.mantissa * d + rest ∧ rest < d ∧
      (k = 0 ∧ 2 * rest ≤ d ∨ k = 1 ∧ d ≤ 2 * rest) := by
  obtain ⟨m, round, sticky⟩ := em
  obtain ⟨rest, hn, hlt, hbits⟩ := h
  cases round <;> cases sticky
  · exact ⟨0, rest, rfl, hn, hlt, .inl ⟨rfl, by dsimp only at hbits; omega⟩⟩
  · exact ⟨0, rest, rfl, hn, hlt, .inl ⟨rfl, by dsimp only at hbits; omega⟩⟩
  · -- a tie goes to the even one of the neighbours
    dsimp only at hbits
    exact ⟨m % 2, rest, rfl, hn, hlt, by omega⟩
  · exact ⟨1, rest, rfl, hn, hlt, .inr ⟨rfl, by dsimp only at hbits; omega⟩⟩

/-- The rounded mantissa is off by a half at most. -/
theorem Divided.bounds (h : Divided n d em) :
    2 * n ≤ (2 * em.roundedMantissa + 1) * d ∧ 2 * em.roundedMantissa * d ≤ 2 * n + d := by
  obtain ⟨k, rest, hq, hn, hlt, hk⟩ := h.roundedMantissa
  generalize em.mantissa = m at hq hn
  rw [hq, hn]
  -- in multiples of `m * d` and `d` what is left is linear
  have hup : (2 * (m + k) + 1) * d = 2 * (m * d) + (2 * k + 1) * d := by ring
  have hdown : 2 * (m + k) * d = 2 * (m * d) + 2 * k * d := by ring
  rw [hup, hdown]
  rcases hk with ⟨rfl, hk⟩ | ⟨rfl, hk⟩
  · omega
  · omega

/-- The mantissa after `d` shifts, rounded. -/
def nearest (n d : Nat) : Nat := (ExtendedMantissa.mk n false false >>> d).roundedMantissa

theorem nearest_bounds (n d : Nat) :
    2 * n ≤ (2 * nearest n d + 1) * 2 ^ d ∧ 2 * nearest n d * 2 ^ d ≤ 2 * n + 2 ^ d := by
  have h := ((divided_one n).shiftRight d).bounds
  rwa [Nat.mul_one] at h

/-- Where nothing falls out the mantissa is exact. -/
theorem nearest_mul (n d : Nat) : nearest (n * 2 ^ d) d = n := by
  obtain ⟨hlow, hhigh⟩ := nearest_bounds (n * 2 ^ d) d
  have hpos : 0 < 2 ^ d := Nat.two_pow_pos d
  have hlow : 2 * n ≤ 2 * nearest (n * 2 ^ d) d + 1 := by
    refine Nat.le_of_mul_le_mul_right (Nat.le_trans (Nat.le_of_eq ?_) hlow) hpos
    ring
  have hhigh : 2 * nearest (n * 2 ^ d) d ≤ 2 * n + 1 := by
    refine Nat.le_of_mul_le_mul_right (Nat.le_trans hhigh (Nat.le_of_eq ?_)) hpos
    ring
  omega

end Shift

section Round

/-- The exponent at which a mantissa fills its bits, unless that is too small. -/
theorem targetExponent_eq (n : Nat) (e : Int) :
    Format.binary64.targetExponent (Float.Model.totalExponent n e) =
      max (n.log2 + e - 52) (-1074) := by
  have hbits : Format.binary64.mantissaBits = 53 := rfl
  have hmin : Format.binary64.minExponent = -1074 := rfl
  rw [Format.targetExponent, Float.Model.totalExponent, hbits, hmin]
  omega

theorem shiftToTargetExponent_eq (n : Nat) (e : Int) (a : Accuracy) {k : Nat}
    (hk : max (n.log2 + e - 52) (-1074) = e + k) :
    shiftToTargetExponent .binary64 n e a =
      (ExtendedMantissa.ofMantissaAndAccuracy n a >>> k, e + k) := by
  have hsub : (e + k - e).toNat = k := by omega
  rw [shiftToTargetExponent, targetExponent_eq, hk, shiftToExponent, hsub]

variable (s : Sign)

/-- The number with a mantissa, which may also be zero. -/
def ofMantissa (q : Nat) (e : Int) : UnpackedFloat :=
  if h : q = 0 then .zero s else .finite s q e (Nat.pos_of_ne_zero h)

theorem ofMantissa_of_pos {q : Nat} {e : Int} (pos : 0 < q) :
    ofMantissa s q e = .finite s q e pos := dif_neg pos.ne'

/-- Both shifts of a rounding: the second one is for a mantissa that has become too large. -/
theorem roundWithAccuracy_eq_ofMantissa {n : Nat} {e : Int} {a : Accuracy} {k l r : Nat}
    (hk : max (n.log2 + e - 52) (-1074) = e + k)
    (hr : (ExtendedMantissa.ofMantissaAndAccuracy n a >>> k).roundedMantissa = r)
    (hl : max (r.log2 + (e + k) - 52) (-1074) = e + k + l) :
    roundWithAccuracy .binary64 s n e a =
      ofMantissa s (ExtendedMantissa.mk r false false >>> l).mantissa (e + k + l) := by
  unfold roundWithAccuracy
  rw [shiftToTargetExponent_eq n e a hk]
  dsimp only
  rw [hr, shiftToTargetExponent_eq _ _ .exact hl]
  rfl

theorem roundWithAccuracy_eq {n : Nat} {e : Int} {k l q : Nat} (pos : 0 < q)
    (hk : max (n.log2 + e - 52) (-1074) = e + k)
    (hl : max ((nearest n k).log2 + (e + k) - 52) (-1074) = e + k + l)
    (hq : (ExtendedMantissa.mk (nearest n k) false false >>> l).mantissa = q) :
    roundWithAccuracy .binary64 s n e .exact = .finite s q (e + k + l) pos := by
  have hr : (ExtendedMantissa.ofMantissaAndAccuracy n .exact >>> k).roundedMantissa =
      nearest n k := rfl
  rw [roundWithAccuracy_eq_ofMantissa s hk hr hl, hq, ofMantissa_of_pos s pos]

/-- The result for a number that is not too small fills its bits. -/
theorem roundWithAccuracy_full {n : Nat} {e : Int} (hlog : 52 ≤ n.log2)
    (he : -1074 ≤ n.log2 + e - 52) : ∃ q t pos,
      roundWithAccuracy .binary64 s n e .exact = .finite s q t pos ∧
      (q < 2 ^ 53 ∧ q = nearest n (n.log2 - 52) ∧ t = n.log2 + e - 52 ∨
        nearest n (n.log2 - 52) = 2 ^ 53 ∧ q = 2 ^ 52 ∧ t = n.log2 + e - 51) ∧ 2 ^ 52 ≤ q := by
  obtain ⟨d, hd⟩ : ∃ d, n.log2 = d + 52 := ⟨n.log2 - 52, by omega⟩
  have hne : n ≠ 0 := by rintro rfl; simp at hlog
  have hpos : 0 < 2 ^ d := Nat.two_pow_pos d
  have hlow : 2 ^ 52 * 2 ^ d ≤ n := by
    rw [← Nat.pow_add, Nat.add_comm, ← hd]
    exact Nat.log2_self_le hne
  have hhigh : n < 2 ^ 53 * 2 ^ d := by
    rw [← Nat.pow_add, Nat.add_comm 53 d, show d + 53 = n.log2 + 1 by omega]
    exact Nat.lt_log2_self
  obtain ⟨hb, hb'⟩ := nearest_bounds n d
  -- `n / 2 ^ d` lies from 2 ^ 52 to 2 ^ 53, and so does what it is rounded to
  have hq : 2 ^ 52 ≤ nearest n d := by
    by_contra h
    have h : (2 * nearest n d + 1) * 2 ^ d ≤ (2 * 2 ^ 52 - 1) * 2 ^ d :=
      Nat.mul_le_mul_right _ (by omega)
    omega
  have hq' : nearest n d ≤ 2 ^ 53 := by
    by_contra h
    have h : (2 * 2 ^ 53 + 2) * 2 ^ d ≤ 2 * nearest n d * 2 ^ d :=
      Nat.mul_le_mul_right _ (by omega)
    omega
  have hk : max (n.log2 + e - 52) (-1074) = e + d := by omega
  have hsub : n.log2 - 52 = d := by omega
  rw [hsub]
  rcases Nat.lt_or_eq_of_le hq' with hlt | heq
  · have hlog : (nearest n d).log2 = 52 := (log2_eq_iff (by omega)).2 ⟨hq, hlt⟩
    exact ⟨_, _, _, roundWithAccuracy_eq s (l := 0) (q := nearest n d) (by omega) hk (by omega) rfl,
      by omega⟩
  · -- the mantissa has come to the next power of two, and loses a zero by one more shift
    have hlog : (nearest n d).log2 = 53 := by rw [heq]; decide
    exact ⟨_, _, _, roundWithAccuracy_eq s (l := 1) (q := 2 ^ 52) (by omega) hk (by omega)
      (by rw [heq]; rfl), by omega⟩

theorem round_of_le_log2 {n : Nat} {e : Int} (hlog : 52 ≤ n.log2)
    (he : -1074 ≤ n.log2 + e - 52) : UnpackedFloat.round .binary64 s n e =
      roundWithAccuracy .binary64 s n e .exact := by
  have hsub : (e - (n.log2 + e - 52)).toNat = 0 := by omega
  have hmax : max (n.log2 + e - 52) (-1074) = n.log2 + e - 52 := by omega
  simp only [UnpackedFloat.round, targetExponent_eq, hmax, decreaseExponent, hsub]
  simp

/-- A mantissa that is filled up fills its bits. -/
theorem shifted_bounds {n : Nat} (pos : 0 < n) (hlog : n.log2 ≤ 52) :
    2 ^ 52 ≤ n * 2 ^ (52 - n.log2) ∧ n * 2 ^ (52 - n.log2) < 2 ^ 53 := by
  obtain ⟨k, hk⟩ : ∃ k, 52 = n.log2 + k := ⟨52 - n.log2, by omega⟩
  have hlow : 2 ^ n.log2 ≤ n := Nat.log2_self_le (by omega)
  have hhigh : n < 2 ^ (n.log2 + 1) := Nat.lt_log2_self
  have hsub : 52 - n.log2 = k := by omega
  rw [hsub]
  constructor
  · calc 2 ^ 52 = 2 ^ n.log2 * 2 ^ k := by rw [← Nat.pow_add, ← hk]
      _ ≤ n * 2 ^ k := Nat.mul_le_mul_right _ hlow
  · calc n * 2 ^ k < 2 ^ (n.log2 + 1) * 2 ^ k :=
          Nat.mul_lt_mul_of_pos_right hhigh (Nat.two_pow_pos k)
      _ = 2 ^ 53 := by rw [← Nat.pow_add, show n.log2 + 1 + k = 53 by omega]

/-- A mantissa with too few bits is filled up, which changes nothing. -/
theorem round_of_log2_le {n : Nat} (pos : 0 < n) {e : Int} (hlog : n.log2 ≤ 52)
    (he : -1074 ≤ n.log2 + e - 52) : UnpackedFloat.round .binary64 s n e =
      .finite s (n * 2 ^ (52 - n.log2)) (n.log2 + e - 52)
        (Nat.mul_pos pos (Nat.two_pow_pos _)) := by
  obtain ⟨k, hk⟩ : ∃ k, 52 = n.log2 + k := ⟨52 - n.log2, by omega⟩
  have hk' : 52 - n.log2 = k := by omega
  have hfull : (n * 2 ^ k).log2 = 52 := by
    rw [log2_eq_iff (by positivity), ← hk']
    exact shifted_bounds pos hlog
  have hsub : (e - (n.log2 + e - 52)).toNat = k := by omega
  have hmax : max (n.log2 + e - 52) (-1074) = n.log2 + e - 52 := by omega
  have hnear : nearest (n * 2 ^ k) 0 = n * 2 ^ k := by simpa using nearest_mul (n * 2 ^ k) 0
  -- the shift to the left comes first, and the two shifts of the rounding have nothing to do
  have hround : UnpackedFloat.round .binary64 s n e =
      roundWithAccuracy .binary64 s (n * 2 ^ k) (e - k) .exact := by
    simp only [UnpackedFloat.round, targetExponent_eq, hmax, decreaseExponent, hsub,
      Nat.shiftLeft_eq]
  have hz : roundWithAccuracy .binary64 s (n * 2 ^ k) (e - k) .exact =
      .finite s (n * 2 ^ k) (e - k + (0 : Nat) + (0 : Nat)) (by positivity) :=
    roundWithAccuracy_eq s (by positivity) (by omega) (by rw [hnear]; omega) (by rw [hnear]; rfl)
  rw [hround, hz]
  exact finite_congr (by rw [hk']) (by omega)

end Round

end HandheldUI.Binary64
