import Mathlib.Algebra.Order.Field.Rat
import Mathlib.Tactic.NormNum
import HandheldUI.Proofs.Scalar.Whole

/-! Which integer a machine number is, by its value. An integer that is the value of some machine
number is not rounded when it becomes one itself. -/

namespace HandheldUI.Binary64

open Float.Model (UnpackedFloat Format)
open Float.Model.UnpackedFloat

section Values

/-- The value of a finite number. -/
def Parts.value (p : Parts) : Rat := signed p.negative p.mantissa * 2 ^ p.exponent

/-- The value of a machine number; one that is not finite has none. -/
def value? (x : Float) : Option Rat := (parts? x).map Parts.value

theorem signed_mul (b : Bool) (m k : Nat) : signed b (m * k) = signed b m * k := by
  cases b <;> simp [signed]

theorem dvd_signed (b : Bool) {d m : Nat} : (d : Int) ∣ signed b m ↔ d ∣ m := by
  cases b with
  | false => exact Int.natCast_dvd_natCast
  | true => exact Int.dvd_neg.trans Int.natCast_dvd_natCast

theorem signed_eq_mul_iff (b : Bool) {m d : Nat} (pos : 0 < d) (i : Int) :
    signed b m = i * d ↔ d ∣ m ∧ signed b (m / d) = i := by
  constructor
  · intro h
    obtain ⟨a, rfl⟩ := (dvd_signed b).1 (Dvd.intro_left i h.symm)
    refine ⟨Nat.dvd_mul_right d a, ?_⟩
    rw [Nat.mul_comm, signed_mul] at h
    rw [Nat.mul_div_cancel_left a pos]
    exact Int.eq_of_mul_eq_mul_right (by omega) h
  · rintro ⟨⟨a, rfl⟩, h⟩
    rw [Nat.mul_div_cancel_left a pos] at h
    rw [Nat.mul_comm, signed_mul, h]

/-- The value is an integer just if nothing is lost to truncation. -/
theorem Parts.value_eq_iff (p : Parts) (i : Int) : p.value = i ↔
    2 ^ (-p.exponent).toNat ∣ p.mantissa ∧ p.truncate = i := by
  obtain ⟨b, m, e⟩ := p
  cases e with
  | ofNat k =>
    have hvalue : (Parts.mk b m (.ofNat k)).value = (signed b (m <<< k) : Int) := by
      rw [Nat.shiftLeft_eq, signed_mul]
      simp [Parts.value]
    have hdvd : 2 ^ (-(Int.ofNat k)).toNat ∣ m := by
      rw [Int.toNat_of_nonpos (by simp)]
      exact Nat.one_dvd m
    rw [hvalue, Int.cast_inj]
    exact ⟨fun h => ⟨hdvd, h⟩, And.right⟩
  | negSucc k =>
    have hpos : (0 : Rat) < 2 ^ (k + 1) := by positivity
    have hvalue : (Parts.mk b m (.negSucc k)).value = i ↔ signed b m = i * (2 ^ (k + 1) : Nat) := by
      rw [Parts.value, zpow_negSucc, ← div_eq_mul_inv, div_eq_iff hpos.ne']
      exact_mod_cast Iff.rfl
    rw [hvalue, signed_eq_mul_iff b (Nat.two_pow_pos _), ← Nat.shiftRight_eq_div_pow]
    rfl

end Values

section Exact

theorem log2_mul_two_pow {n : Nat} (pos : 0 < n) (k : Nat) : (n * 2 ^ k).log2 = n.log2 + k := by
  have hpow : 0 < 2 ^ k := Nat.two_pow_pos k
  have hlow : 2 ^ n.log2 ≤ n := Nat.log2_self_le pos.ne'
  have hhigh : n < 2 ^ (n.log2 + 1) := Nat.lt_log2_self
  rw [Nat.log2_eq_iff (by positivity), Nat.add_right_comm, Nat.pow_add, Nat.pow_add _ _ k]
  exact ⟨Nat.mul_le_mul_right _ hlow, Nat.mul_lt_mul_of_pos_right hhigh hpow⟩

/-- A natural whose bits fit the mantissa has that mantissa. -/
theorem unpacked_ofNat_exact {n m : Nat} {e : Int} (hm : 2 ^ 52 ≤ m) (hm' : m < 2 ^ 53)
    (he : e ≤ 971) (hn : n * 2 ^ (-e).toNat = m * 2 ^ e.toNat) :
    unpacked (Float.ofNat n) = .finite .positive m e (Nat.lt_of_lt_of_le (by decide) hm) := by
  have hlog : m.log2 = 52 := (log2_eq_iff (by omega)).2 ⟨hm, hm'⟩
  rcases Int.lt_or_le 0 e with hpos | hneg
  · obtain ⟨k, rfl⟩ : ∃ k : Nat, e = k := ⟨e.toNat, by omega⟩
    rw [Int.toNat_of_nonpos (by omega), Int.toNat_natCast, Nat.pow_zero, Nat.mul_one] at hn
    subst hn
    have hk : 2 ^ 1 ≤ 2 ^ k := Nat.pow_le_pow_right (by decide) (by omega)
    have hlarge : 2 ^ 52 * 2 ^ 1 ≤ m * 2 ^ k := Nat.mul_le_mul hm hk
    -- all that the rounding shifts out is zeros
    have hshift : (m * 2 ^ k) <<< 53 * 1 = m * 2 ^ (k + 53) := by
      rw [Nat.shiftLeft_eq, Nat.pow_add]
      ring
    have hround : roundWithAccuracy .binary64 .positive (m * 2 ^ (k + 53)) (-53) .exact =
        .finite .positive m (-53 + (k + 53 : Nat) + (0 : Nat)) (by omega) :=
      roundWithAccuracy_eq .positive (by omega) (by rw [log2_mul_two_pow (by omega)]; omega)
        (by rw [nearest_mul]; omega) (by rw [nearest_mul]; rfl)
    have hexp : (-53 + (k + 53 : Nat) + (0 : Nat) : Int) = k := by omega
    rw [ofNat_eq_packed (by omega), hshift, hround, finite_congr rfl hexp]
    exact unpacked_packed (.finite _ _ _ _ hm' (by omega) (by omega) (.inl hm))
  · obtain ⟨k, rfl⟩ : ∃ k : Nat, e = -k := ⟨(-e).toNat, by omega⟩
    rw [Int.neg_neg, Int.toNat_natCast, Int.toNat_of_nonpos (by omega), Nat.pow_zero,
      Nat.mul_one] at hn
    subst hn
    have pos : 0 < n := Nat.pos_of_mul_pos_right (a := n) (b := 2 ^ k) (by omega)
    have hle : n ≤ n * 2 ^ k := Nat.le_mul_of_pos_right n (Nat.two_pow_pos k)
    rw [log2_mul_two_pow pos] at hlog
    rw [unpacked_ofNat_small pos (by omega)]
    exact finite_congr (by rw [show 52 - n.log2 = k by omega]) (by omega)

/-- The integer part of a number without a fractional part is that number again. -/
theorem unpacked_ofInt_truncate {s : Sign} {m : Nat} {e : Int} {pos : 0 < m}
    (hheld : Held (.finite s m e pos)) (hwhole : 2 ^ (-e).toNat ∣ m) :
    unpacked (Scalar.ofInt (Parts.truncate ⟨isNegative s, m, e⟩)) = .finite s m e pos := by
  cases hheld with
  | finite _ _ _ _ hm' he he' hfull =>
    have hle : 2 ^ (-e).toNat ≤ m := Nat.le_of_dvd pos hwhole
    have hm : 2 ^ 52 ≤ m := by
      refine hfull.resolve_right fun h => ?_
      -- nothing that has the smallest exponent is whole
      have hpow : 2 ^ 53 ≤ 2 ^ (-e).toNat := Nat.pow_le_pow_right (by decide) (by omega)
      omega
    cases e with
    | ofNat k =>
      have hn : m <<< k * 2 ^ (-(Int.ofNat k)).toNat = m * 2 ^ (Int.ofNat k).toNat := by
        rw [Int.toNat_of_nonpos (by simp), Nat.pow_zero, Nat.mul_one, Nat.shiftLeft_eq]
        rfl
      refine unpacked_ofInt_signed s ?_ (unpacked_ofNat_exact hm hm' he' hn)
      rw [Nat.shiftLeft_eq]
      positivity
    | negSucc k =>
      obtain ⟨a, rfl⟩ := hwhole
      have hshift : (2 ^ (-(Int.negSucc k)).toNat * a) >>> (k + 1) = a := by
        rw [Nat.shiftRight_eq_div_pow]
        exact Nat.mul_div_cancel_left a (Nat.two_pow_pos _)
      change unpacked (Scalar.ofInt (signed (isNegative s) (_ >>> (k + 1)))) = _
      rw [hshift]
      refine unpacked_ofInt_signed s (Nat.pos_of_mul_pos_left pos)
        (unpacked_ofNat_exact hm hm' he' ?_)
      have hexp : (Int.negSucc k).toNat = 0 := rfl
      rw [hexp, Nat.pow_zero, Nat.mul_one, Nat.mul_comm]

end Exact

section Integers

variable {x : Float}

theorem le_of_compare_eq {y : Float} (h : (unpacked x).compare (unpacked y) = some .eq) :
    x ≤ y ∧ y ≤ x := by
  refine ⟨le_iff.2 (.inr h), le_iff.2 (.inr ?_)⟩
  rw [compare_swap, h]
  rfl

theorem compare_finite_self (s : Sign) {m : Nat} (e : Int) (pos : 0 < m) :
    UnpackedFloat.compare (.finite s m e pos) (.finite s m e pos) = some .eq := by
  have heq : ((compare e e).then (compare m m)) = .eq :=
    Ordering.then_eq_eq.2 ⟨compare_eq_iff_eq.2 rfl, compare_eq_iff_eq.2 rfl⟩
  cases s with
  | positive => exact congrArg some heq
  | negative => exact congrArg some (Ordering.swap_eq_eq.2 heq)

theorem isWhole_iff_dvd {u : UnpackedFloat} {p : Parts} (hp : partsOf? u = some p) :
    IsWhole u ↔ 2 ^ (-p.exponent).toNat ∣ p.mantissa := by
  cases u with
  | notANumber | infinity s => cases hp
  | zero s =>
    cases hp
    exact iff_of_true trivial (Nat.dvd_zero _)
  | finite s m e pos =>
    cases hp
    exact Iff.rfl

/-- A machine number is an integer just if that is its value. -/
theorem integer?_eq_some_iff {i : Int} : Scalar.integer? x = some i ↔ value? x = some (i : Rat) := by
  constructor
  · intro hi
    have hwhole := isWhole_of_isSome_integer? (Option.isSome_iff_exists.2 ⟨i, hi⟩)
    rw [Scalar.integer?, Option.filter_eq_some_iff, truncate?_eq] at hi
    obtain ⟨p, hp, htrunc⟩ := Option.map_eq_some_iff.1 hi.1
    have hvalue := (p.value_eq_iff i).2 ⟨(isWhole_iff_dvd hp).1 hwhole, htrunc⟩
    rw [value?, parts?_eq, hp, Option.map_some, hvalue]
  · intro hv
    rw [value?, parts?_eq] at hv
    obtain ⟨p, hp, hvalue⟩ := Option.map_eq_some_iff.1 hv
    obtain ⟨hdvd, htrunc⟩ := (p.value_eq_iff i).1 hvalue
    have heq : (unpacked x).compare (unpacked (Scalar.ofInt i)) = some .eq := by
      have hheld := held_unpacked x
      rw [← htrunc]
      cases hu : unpacked x with
      | notANumber | infinity s =>
        rw [hu] at hp
        cases hp
      | zero s =>
        rw [hu] at hp
        cases hp
        cases s <;> rfl
      | finite s m e pos =>
        rw [hu] at hp hheld
        cases hp
        rw [unpacked_ofInt_truncate hheld hdvd]
        exact compare_finite_self s e pos
    rw [Scalar.integer?, Option.filter_eq_some_iff, truncate?_eq, hp, Option.map_some, htrunc]
    exact ⟨rfl, by simpa using le_of_compare_eq heq⟩

/-- It is the cell `c` of `n` just if `c` is its value, and one of the `n`. -/
theorem index?_eq_some_iff {n c : Nat} :
    Scalar.index? x n = some c ↔ c < n ∧ value? x = some (c : Rat) := by
  have hint : Scalar.integer? x = some (.ofNat c) ↔ value? x = some (c : Rat) :=
    integer?_eq_some_iff
  rw [← hint]
  unfold Scalar.index?
  cases hi : Scalar.integer? x with
  | none => simp
  | some i =>
    cases i with
    | negSucc k => simp
    | ofNat k =>
      by_cases hk : k < n
      · simp [hk]
        omega
      · simp [hk]
        omega

end Integers

end HandheldUI.Binary64
