import Mathlib.Algebra.Order.Floor.Semifield
import Mathlib.Data.Rat.Floor
import HandheldUI.Proofs.Scalar.Monotone

/-! Sums and products of machine numbers that are not below zero. They are rounded once, so that
what can be written needs no rounding: small naturals add up to naturals, and so does the integer
part of a natural times a fraction over a power of two. -/

namespace HandheldUI.Binary64

open Float.Model (UnpackedFloat Format)
open Float.Model.UnpackedFloat

section Finite

variable {m m' : Nat} {e e' : Int}

/-- A sum of numbers above zero is rounded once. -/
theorem roundsTo_add (pos : 0 < m) (pos' : 0 < m') : RoundsTo (size m e + size m' e')
    (UnpackedFloat.add .binary64 (.finite .positive m e pos) (.finite .positive m' e' pos')) := by
  obtain ⟨t, ht⟩ : ∃ t, min e e' = t := ⟨_, rfl⟩
  obtain ⟨d, hd⟩ : ∃ d : Int, Sign.positive.apply (m <<< (e - t).toNat : Nat) +
      Sign.positive.apply (m' <<< (e' - t).toNat : Nat) = d := ⟨_, rfl⟩
  have hadd : UnpackedFloat.add .binary64 (.finite .positive m e pos) (.finite .positive m' e' pos') =
      UnpackedFloat.normalize .binary64 d t .positive := by
    rw [← hd, ← ht]
    rfl
  have hexact : (d : Rat) * 2 ^ t = size m e + size m' e' := by
    rw [← hd, Int.cast_add, add_mul, apply_decreased (.positive m e pos) (by omega),
      apply_decreased (.positive m' e' pos') (by omega)]
  have hpow : (0 : Rat) < 2 ^ t := by positivity
  have hpos : 0 < d := by
    have h : (0 : Rat) < d * 2 ^ t := hexact ▸ add_pos (size_pos pos e) (size_pos pos' e')
    exact_mod_cast (mul_pos_iff_of_pos_right hpow).1 h
  rw [hadd, ← hexact]
  exact normalize_of_pos hpos t .positive

/-- Unless one of the mantissas fills its bits, the exponents are as small as they can be. -/
theorem roundsTo_mul (h : OnGrid m e) (h' : OnGrid m' e') (pos : 0 < m) (pos' : 0 < m') :
    RoundsTo (size m e * size m' e')
      (UnpackedFloat.mul .binary64 (.finite .positive m e pos) (.finite .positive m' e' pos')) := by
  have hexact : size m e * size m' e' = (m * m' : Nat) / (1 : Nat) * 2 ^ (e + e') := by
    rw [size, size, zpow_add₀ two_ne_zero]
    push_cast
    ring
  rw [hexact]
  refine roundsTo_roundWithAccuracy (divided_one _) ?_
  rcases h.full with hm | he
  · exact .inl ((Nat.le_log2 (by positivity)).2 (hm.trans (Nat.le_mul_of_pos_right m pos')))
  · rcases h'.full with hm' | he'
    · exact .inl ((Nat.le_log2 (by positivity)).2 (hm'.trans (Nat.le_mul_of_pos_left m' pos)))
    · exact .inr (by omega)

end Finite

section Representable

/-- A magnitude that some finite machine number has. -/
def Representable (q : Rat) : Prop := ∃ m e, OnGrid m e ∧ e ≤ 971 ∧ size m e = q

variable {q : Rat} {u : UnpackedFloat} {n k : Nat}

/-- It is not rounded. -/
theorem RoundsTo.valued (h : RoundsTo q u) (hq : Representable q) :
    Valued (unpacked (packed u)) q := by
  obtain ⟨m, e, rfl, hnear⟩ := h
  obtain ⟨m', e', hgrid, he, rfl⟩ := hq
  have hexact := hnear.closest m' e' hgrid
  rw [sub_self, abs_zero, abs_nonpos_iff, sub_eq_zero] at hexact
  obtain ⟨rfl, rfl⟩ := size_inj hgrid hnear.onGrid hexact
  rw [unpacked_packed (hgrid.held he)]
  exact valued_ofMantissa m' e'

theorem RoundsTo.sign_eq (h : RoundsTo q u) : sign? u = some .positive := by
  obtain ⟨m, e, rfl, -⟩ := h
  unfold ofMantissa
  by_cases hm : m = 0
  · rw [dif_pos hm]
    rfl
  · rw [dif_neg hm]
    rfl

theorem onGrid_zero : OnGrid 0 (-1074) := ⟨by decide, le_rfl, .inr rfl⟩

theorem roundsTo_zero : RoundsTo 0 (.zero .positive) :=
  ⟨0, -1074, rfl, size_zero (-1074) ▸ nearest_size onGrid_zero⟩

theorem representable_zero : Representable 0 :=
  ⟨0, -1074, onGrid_zero, by decide, size_zero (-1074)⟩

theorem representable_div_two_pow (hn : n < 2 ^ 53) (hk : k ≤ 1000) :
    Representable (n / 2 ^ k) := by
  rcases Nat.eq_zero_or_pos n with rfl | pos
  · rw [Nat.cast_zero, zero_div]
    exact representable_zero
  · have hlog : n.log2 ≤ 52 := Nat.le_of_lt_succ ((Nat.log2_lt pos.ne').2 hn)
    obtain ⟨hlow, hhigh⟩ := shifted_bounds pos hlog
    refine ⟨_, n.log2 - 52 - k, ⟨hhigh, by omega, .inl hlow⟩, by omega, ?_⟩
    rw [size_shift, show (n.log2 - 52 - k + (52 - n.log2 : Nat) : Int) = -k by omega, size,
      zpow_neg, zpow_natCast, div_eq_mul_inv]

theorem representable_natCast (hn : n < 2 ^ 53) : Representable n := by
  simpa using representable_div_two_pow hn (Nat.zero_le 1000)

end Representable

section Unsigned

variable {x y z : Float} {a b : Rat}

/-- Such a number is the nearest one to its value, and its value needs no rounding. -/
theorem Unsigned.roundsTo (hx : Unsigned x) (ha : Valued (unpacked x) a) :
    RoundsTo a (unpacked x) ∧ Representable a := by
  have held : Held (unpacked x) := held_unpacked x
  unfold Unsigned at hx
  generalize unpacked x = u at hx ha held
  cases ha with
  | negative => cases hx
  | zero s =>
    cases hx
    exact ⟨roundsTo_zero, representable_zero⟩
  | positive m e pos =>
    refine ⟨⟨m, e, (ofMantissa_of_pos .positive pos).symm, nearest_size held.onGrid⟩,
      m, e, held.onGrid, ?_, rfl⟩
    cases held with
    | finite _ _ _ _ _ _ he => exact he

theorem Unsigned.nonneg (hx : Unsigned x) (ha : Valued (unpacked x) a) : 0 ≤ a := by
  obtain ⟨m, e, -, -, rfl⟩ := (hx.roundsTo ha).2
  unfold size
  positivity

theorem Unsigned.roundsTo_add (hx : Unsigned x) (hy : Unsigned y) (ha : Valued (unpacked x) a)
    (hb : Valued (unpacked y) b) :
    RoundsTo (a + b) (UnpackedFloat.add .binary64 (unpacked x) (unpacked y)) := by
  have hrx : RoundsTo a (unpacked x) := (hx.roundsTo ha).1
  have hry : RoundsTo b (unpacked y) := (hy.roundsTo hb).1
  unfold Unsigned at hx hy
  generalize unpacked x = u at hx ha hrx
  generalize unpacked y = v at hy hb hry
  cases ha with
  | negative => cases hx
  | zero s =>
    rw [zero_add]
    cases hb with
    | negative => cases hy
    | zero s' =>
      cases hx
      cases hy
      exact roundsTo_zero
    | positive m e pos => exact hry
  | positive m e pos =>
    cases hb with
    | negative => cases hy
    | zero s' =>
      rw [add_zero]
      exact hrx
    | positive m' e' pos' => exact Binary64.roundsTo_add pos pos'

theorem Unsigned.roundsTo_mul (hx : Unsigned x) (hy : Unsigned y) (ha : Valued (unpacked x) a)
    (hb : Valued (unpacked y) b) :
    RoundsTo (a * b) (UnpackedFloat.mul .binary64 (unpacked x) (unpacked y)) := by
  have heldx : Held (unpacked x) := held_unpacked x
  have heldy : Held (unpacked y) := held_unpacked y
  unfold Unsigned at hx hy
  generalize unpacked x = u at hx ha heldx
  generalize unpacked y = v at hy hb heldy
  cases ha with
  | negative => cases hx
  | zero s =>
    rw [zero_mul]
    cases hx
    cases hb with
    | negative => cases hy
    | zero s' =>
      cases hy
      exact roundsTo_zero
    | positive => exact roundsTo_zero
  | positive m e pos =>
    cases hb with
    | negative => cases hy
    | zero s' =>
      rw [mul_zero]
      cases hy
      exact roundsTo_zero
    | positive m' e' pos' => exact Binary64.roundsTo_mul heldx.onGrid heldy.onGrid pos pos'

theorem Unsigned.le_add (hx : Unsigned x) (hy : Unsigned y) : y ≤ x + y := by
  have infinite (h : UnpackedFloat.add .binary64 (unpacked x) (unpacked y) = .infinity .positive) :
      y ≤ x + y := by
    refine le_of_infinity (congrArg Option.isSome hy) ?_
    rw [add_eq_packed, h]
    exact unpacked_packed (.infinity .positive)
  rcases hx.valued_or_infinity with ⟨a, ha⟩ | hinf
  · rcases hy.valued_or_infinity with ⟨b, hb⟩ | hinf
    · have hsum := hx.roundsTo_add hy ha hb
      obtain ⟨hry, hrep⟩ := hy.roundsTo hb
      rcases (hx.nonneg ha).eq_or_lt with rfl | hpos
      · rw [zero_add] at hsum
        have hv : Valued (unpacked (x + y)) b := hsum.valued hrep
        exact (le_iff_of_valued hb hv).2 le_rfl
      · have hle := hry.packed_le hsum (lt_add_of_pos_left b hpos)
        rwa [packed_unpacked] at hle
    · refine infinite ?_
      rw [hinf]
      generalize unpacked x = u at ha
      cases ha <;> rfl
  · refine infinite ?_
    rw [hinf]
    unfold Unsigned at hy
    rcases hv : unpacked y with ⟨⟨⟩⟩ | _ | _ | _ <;> rw [hv] at hy <;> first | rfl | cases hy

theorem Unsigned.add (hx : Unsigned x) (hy : Unsigned y) : Unsigned (x + y) := by
  unfold Unsigned at hx hy ⊢
  rw [add_eq_packed, sign?_unpacked_packed]
  generalize unpacked x = u at hx
  generalize unpacked y = v at hy
  rcases u with ⟨⟨⟩⟩ | _ | ⟨⟨⟩⟩ | ⟨⟨⟩, m, e, pos⟩ <;> try cases hx
  all_goals rcases v with ⟨⟨⟩⟩ | _ | ⟨⟨⟩⟩ | ⟨⟨⟩, m', e', pos'⟩ <;> try cases hy
  all_goals first | rfl | exact (Binary64.roundsTo_add pos pos').sign_eq

/-- A number without a sign is known by its value. -/
theorem Unsigned.eq_of_valued (hx : Unsigned x) (hy : Unsigned y) (ha : Valued (unpacked x) a)
    (hb : Valued (unpacked y) a) : x = y := by
  have heq : (unpacked x).compare (unpacked y) = some .eq := by
    rw [compare_eq_compare (held_unpacked x) (held_unpacked y) ha hb, compare_eq_iff_eq.2 rfl]
  rw [← packed_unpacked x, ← packed_unpacked y]
  unfold Unsigned at hx hy
  rcases eq_or_zero_of_compare_eq heq with h | ⟨s, s', h, h'⟩
  · rw [h]
  · rw [h] at hx
    rw [h'] at hy
    cases hx
    cases hy
    rw [h, h']

theorem lt_of_lt_of_valued (h : x < y) (ha : Valued (unpacked y) a) (hb : Valued (unpacked z) b)
    (hab : a ≤ b) : x < z := by
  have hx : Held (unpacked x) := held_unpacked x
  have hy : Held (unpacked y) := held_unpacked y
  have hz : Held (unpacked z) := held_unpacked z
  rw [lt_iff] at h ⊢
  rcases valued_or_infinity (isSome_of_lt h).1 with ⟨c, hc⟩ | ⟨s, hs⟩
  · rw [compare_eq_compare hx hy hc ha, Option.some_inj, compare_lt_iff_lt] at h
    rw [compare_eq_compare hx hz hc hb, compare_lt_iff_lt.2 (h.trans_le hab)]
  · rw [hs] at h ⊢
    generalize unpacked y = u at h ha
    generalize unpacked z = v at hb
    cases s <;> cases ha <;> cases hb <;> first | rfl | cases h

/-- What is not below zero loses its fraction. -/
theorem Unsigned.truncate?_eq (hx : Unsigned x) (ha : Valued (unpacked x) a) :
    Scalar.truncate? x = some (⌊a⌋₊ : Int) := by
  rw [Binary64.truncate?_eq]
  unfold Unsigned at hx
  generalize unpacked x = u at hx ha
  cases ha with
  | negative => cases hx
  | zero s =>
    rw [Nat.floor_zero]
    cases s <;> rfl
  | positive m e pos =>
    change some (Parts.truncate ⟨false, m, e⟩) = _
    cases e with
    | ofNat k =>
      have hsize : size m (.ofNat k) = (m <<< k : Nat) := by
        rw [Nat.shiftLeft_eq, size, Int.ofNat_eq_natCast, zpow_natCast]
        push_cast
        rfl
      rw [hsize, Nat.floor_natCast]
      rfl
    | negSucc k =>
      have hsize : size m (.negSucc k) = (m : Rat) / (2 ^ (k + 1) : Nat) := by
        rw [size, zpow_negSucc, div_eq_mul_inv]
        push_cast
        rfl
      rw [hsize, Nat.floor_div_natCast, Nat.floor_natCast, ← Nat.shiftRight_eq_div_pow]
      rfl

end Unsigned

section Naturals

variable {m n : Nat}

theorem unsigned_ofNat (hn : n < 2 ^ 53) : Unsigned (Float.ofNat n) := by
  rcases Nat.eq_zero_or_pos n with rfl | pos
  · exact congrArg sign? unpacked_ofNat_zero
  · obtain ⟨_, _, _, hu, -⟩ := exists_unpacked_ofNat pos hn
    exact congrArg sign? hu

theorem ofNat_add_ofNat (h : m + n < 2 ^ 53) :
    Float.ofNat m + Float.ofNat n = Float.ofNat (m + n) := by
  have hm : Unsigned (Float.ofNat m) := unsigned_ofNat (by omega)
  have hn : Unsigned (Float.ofNat n) := unsigned_ofNat (by omega)
  have hsum := hm.roundsTo_add hn (valued_ofNat (by omega)) (valued_ofNat (by omega))
  rw [← Nat.cast_add] at hsum
  exact (hm.add hn).eq_of_valued (unsigned_ofNat h) (hsum.valued (representable_natCast h))
    (valued_ofNat h)

/-- A fraction of a natural, in whole numbers. -/
theorem trunc_mul_share {s : Float} {k j : Nat} (hs : Unsigned s)
    (hv : Valued (unpacked s) (k / 2 ^ j)) (hj : j ≤ 1000) (hn : n < 2 ^ 53) (h : n * k < 2 ^ 53) :
    Scalar.trunc (Float.ofNat n * s) = Float.ofNat (n * k / 2 ^ j) := by
  have hproduct := (unsigned_ofNat hn).roundsTo_mul hs (valued_ofNat hn) hv
  rw [← mul_div_assoc, ← Nat.cast_mul] at hproduct
  have hsign : Unsigned (Float.ofNat n * s) :=
    (sign?_unpacked_packed _).trans hproduct.sign_eq
  have hfloor : ⌊((n * k : Nat) / 2 ^ j : Rat)⌋₊ = n * k / 2 ^ j := by
    rw [← Nat.cast_ofNat, ← Nat.cast_pow, Nat.floor_div_natCast, Nat.floor_natCast]
  have htrunc := hsign.truncate?_eq (hproduct.valued (representable_div_two_pow h hj))
  rw [Scalar.trunc, htrunc, hfloor]
  rfl

theorem max_ofNat (hm : m < 2 ^ 53) (hn : n < 2 ^ 53) :
    Scalar.max (Float.ofNat m) (Float.ofNat n) = Float.ofNat (max m n) := by
  rcases lt_trichotomy m n with hlt | rfl | hlt
  · rw [max_of_lt (ofNat_lt_ofNat hm hlt), Nat.max_eq_right hlt.le]
  · have hself : Float.ofNat m ≤ Float.ofNat m := (unsigned_ofNat hm).le_refl
    rw [Nat.max_self, Scalar.max, if_pos hself, ite_self]
  · rw [max_of_gt (ofNat_lt_ofNat hn hlt), Nat.max_eq_left hlt.le]

end Naturals

end HandheldUI.Binary64
