import HandheldUI.Scalar.Binary64
import Mathlib.Tactic.Ring

/-! Machine numbers taken apart. Arithmetic on machine numbers is given on signs, mantissas and
exponents; here is what the bits of a number can hold, and what becomes of all else. -/

namespace HandheldUI.Binary64

open Float.Model (UnpackedFloat Format)
open Float.Model.UnpackedFloat

/-- The number as arithmetic sees it. -/
def unpacked (x : Float) : UnpackedFloat := x.toModel.unpack

/-- The number that a result becomes. -/
def packed (u : UnpackedFloat) : Float := .ofModel (.pack u)

section Operations

variable (x y : Float)

theorem add_eq_packed :
    x + y = packed (UnpackedFloat.add .binary64 (unpacked x) (unpacked y)) := rfl

theorem sub_eq_packed :
    x - y = packed (UnpackedFloat.sub .binary64 (unpacked x) (unpacked y)) := rfl

theorem mul_eq_packed :
    x * y = packed (UnpackedFloat.mul .binary64 (unpacked x) (unpacked y)) := rfl

theorem div_eq_packed :
    x / y = packed (UnpackedFloat.div .binary64 (unpacked x) (unpacked y)) := rfl

end Operations

/-- What the bits of a number can hold. A mantissa fills its bits, unless the exponent is the
smallest one. -/
inductive Held : UnpackedFloat → Prop where
  | notANumber : Held .notANumber
  | infinity (s : Sign) : Held (.infinity s)
  | zero (s : Sign) : Held (.zero s)
  | finite (s : Sign) (m : Nat) (e : Int) (pos : 0 < m) (hm : m < 2 ^ 53) (he : -1074 ≤ e)
    (he' : e ≤ 971) (full : 2 ^ 52 ≤ m ∨ e = -1074) : Held (.finite s m e pos)

/-- The sign, which all numbers have that are numbers. -/
def sign? : UnpackedFloat → Option Sign
  | .notANumber => none
  | .infinity s | .zero s | .finite s _ _ _ => some s

theorem finite_congr {s : Sign} {m m' : Nat} {e e' : Int} {pos : 0 < m} {pos' : 0 < m'}
    (hm : m = m') (he : e = e') :
    UnpackedFloat.finite s m e pos = .finite s m' e' pos' := by
  subst hm he
  rfl

section Fields

theorem bias : (Format.binary64.exponentBias : Int) = 1023 := rfl

theorem fraction_bits : (Format.binary64.mantissaBitsWithoutImplicit : Int) = 52 := rfl

variable (s : Sign) (e : BitVec 11) (m : BitVec 52)

theorem toNat_append {n k : Nat} (a : BitVec n) (b : BitVec k) :
    (a ++ b).toNat = a.toNat * 2 ^ k + b.toNat := by
  rw [BitVec.toNat_append, ← Nat.shiftLeft_add_eq_or_of_lt b.isLt, Nat.shiftLeft_eq]

theorem toNat_one_append : (1#1 ++ m).toNat = 2 ^ 52 + m.toNat :=
  toNat_append 1#1 m

/-- The fields one beside the other. -/
theorem toNat_packComponents : (packComponents .binary64 s e m).toNat =
    s.toBitVec.toNat * 2 ^ 63 + e.toNat * 2 ^ 52 + m.toNat := by
  change ((s.toBitVec ++ e) ++ m).toNat = _
  rw [toNat_append, toNat_append]
  ring

theorem toNat_unpackSign (b : BitVec 64) :
    (@unpackSign .binary64 b).toNat = b.toNat / 2 ^ 63 % 2 := by
  change b.toNat >>> 63 % 2 ^ 1 = _
  rw [Nat.shiftRight_eq_div_pow]

theorem unpackSign_packComponents :
    unpackSign (packComponents .binary64 s e m) = s.toBitVec := by
  have hs : s.toBitVec.toNat < 2 := s.toBitVec.isLt
  have he : e.toNat < 2048 := e.isLt
  have hm : m.toNat < 2 ^ 52 := m.isLt
  apply BitVec.eq_of_toNat_eq
  rw [toNat_unpackSign, toNat_packComponents]
  omega

theorem ofBitVec_toBitVec : Sign.ofBitVec s.toBitVec = s := by
  cases s <;> rfl

theorem toBitVec_ofBitVec (b : BitVec 1) : (Sign.ofBitVec b).toBitVec = b := by
  revert b
  decide

theorem packComponents_fields (b : BitVec 64) :
    packComponents .binary64 (Sign.ofBitVec (@unpackSign .binary64 b))
      (@unpackExponent .binary64 b) (@unpackMantissa .binary64 b) = b := by
  have hexponent : (@unpackExponent .binary64 b).toNat = b.toNat / 2 ^ 52 % 2 ^ 11 := by
    change b.toNat >>> 52 % 2 ^ 11 = _
    rw [Nat.shiftRight_eq_div_pow]
  have hmantissa : (@unpackMantissa .binary64 b).toNat = b.toNat % 2 ^ 52 := rfl
  apply BitVec.eq_of_toNat_eq
  rw [toNat_packComponents, toBitVec_ofBitVec, toNat_unpackSign, hexponent, hmantissa]
  omega

/-- What comes back from the fields of a number. -/
theorem unpack_packComponents : UnpackedFloat.unpack .binary64 (packComponents .binary64 s e m) =
    if e = -1#11 then if m = 0#52 then .infinity s else .notANumber
    else if e = 0#11 then if h : m = 0#52 then .zero s else
      .finite s m.toNat (-1074) (by simpa [BitVec.toNat_pos, BitVec.pos_iff_ne_zero])
    else .finite s (2 ^ 52 + m.toNat) (e.toNat - 1075) (by omega) := by
  have hm : unpackMantissa (packComponents .binary64 s e m) = m := unpackMantissa_packComponents
  have he : unpackExponent (packComponents .binary64 s e m) = e := unpackExponent_packComponents
  have hs : Sign.ofBitVec (unpackSign (packComponents .binary64 s e m)) = s := by
    rw [unpackSign_packComponents, ofBitVec_toBitVec]
  -- a mantissa that is not zero goes with a proof of it, and cannot be rewritten
  generalize packComponents .binary64 s e m = b at hm he hs
  subst hm he hs
  unfold UnpackedFloat.unpack
  dsimp only
  by_cases he : unpackExponent b = -1#11
  · rw [if_pos he, if_pos he]
  · rw [if_neg he, if_neg he]
    by_cases he : unpackExponent b = 0#11
    · rw [if_pos he, if_pos he]
      by_cases hm : unpackMantissa b = 0#52
      · rw [dif_pos hm, dif_pos hm]
      · rw [dif_neg hm, dif_neg hm]
        refine finite_congr rfl ?_
        rw [he, bias, fraction_bits]
        decide
    · rw [if_neg he, if_neg he]
      exact finite_congr (toNat_one_append _) rfl

/-- What the fields of a number say, in cases. -/
inductive Reads : UnpackedFloat → Prop where
  | infinity (he : e = -1#11) (hm : m = 0#52) : Reads (.infinity s)
  | notANumber (he : e = -1#11) (hm : m ≠ 0#52) : Reads .notANumber
  | zero (he : e = 0#11) (hm : m = 0#52) : Reads (.zero s)
  | subnormal (he : e = 0#11) (hm : m ≠ 0#52) (pos : 0 < m.toNat) :
      Reads (.finite s m.toNat (-1074) pos)
  | normal (he : e ≠ -1#11) (he' : e ≠ 0#11) (pos : 0 < 2 ^ 52 + m.toNat) :
      Reads (.finite s (2 ^ 52 + m.toNat) (e.toNat - 1075) pos)

theorem reads_unpack :
    Reads s e m (UnpackedFloat.unpack .binary64 (packComponents .binary64 s e m)) := by
  rw [unpack_packComponents]
  by_cases he : e = -1#11
  · rw [if_pos he]
    by_cases hm : m = 0#52
    · rw [if_pos hm]
      exact .infinity he hm
    · rw [if_neg hm]
      exact .notANumber he hm
  · rw [if_neg he]
    by_cases he' : e = 0#11
    · rw [if_pos he']
      by_cases hm : m = 0#52
      · rw [dif_pos hm]
        exact .zero he' hm
      · rw [dif_neg hm]
        exact .subnormal he' hm _
    · rw [if_neg he']
      exact .normal he he' _

theorem sign?_unpack_packComponents (he : e ≠ -1#11) :
    sign? (UnpackedFloat.unpack .binary64 (packComponents .binary64 s e m)) = some s := by
  have hreads := reads_unpack s e m
  generalize UnpackedFloat.unpack .binary64 (packComponents .binary64 s e m) = u at hreads
  cases hreads with
  | infinity h | notANumber h => exact absurd h he
  | zero | subnormal | normal => rfl

theorem exists_fields (x : Float) : ∃ s e m,
    x.toModel.toBits.toBitVec = packComponents .binary64 s e m ∧ Reads s e m (unpacked x) := by
  have h := packComponents_fields x.toModel.toBits.toBitVec
  refine ⟨_, _, _, h.symm, ?_⟩
  rw [unpacked, Float.Model.unpack]
  nth_rewrite 4 [← h]
  exact reads_unpack _ _ _

/-- A result whose exponent is too large is infinite, and one whose mantissa does not fill its bits
is taken to have the smallest exponent. -/
theorem pack_finite (m : Nat) (e : Int) (pos : 0 < m) :
    UnpackedFloat.pack .binary64 (.finite s m e pos) =
      if 972 ≤ e then packedInfinity .binary64 s
      else if m.log2 = 52 then
        packComponents .binary64 s (BitVec.ofNat 11 (e + 1075).toNat) (BitVec.ofNat 52 m)
      else packComponents .binary64 s 0#11 (BitVec.ofNat 52 m) := by
  have hbits : Format.binary64.mantissaBits = 53 := rfl
  have hexp : e + 1023 + ((52 : Nat) : Int) = e + 1075 := by omega
  -- the largest field of the exponent is kept for what is infinite or no number
  have hover : 2 ^ 11 ≤ (e + 1075).toNat + 1 ↔ 972 ≤ e := by omega
  have hfull : m.log2 + 1 = Format.binary64.mantissaBits ↔ m.log2 = 52 := by omega
  delta UnpackedFloat.pack
  simp only [bias, hexp, hover, hfull]

theorem log2_eq_iff {m : Nat} (pos : 0 < m) : m.log2 = 52 ↔ 2 ^ 52 ≤ m ∧ m < 2 ^ 53 := by
  rw [Nat.log2_eq_iff (by omega)]

end Fields

section Packed

variable (x : Float)

theorem held_unpacked : Held (unpacked x) := by
  obtain ⟨s, e, m, -, hreads⟩ := exists_fields x
  have he : e.toNat < 2048 := e.isLt
  have hm : m.toNat < 2 ^ 52 := m.isLt
  generalize unpacked x = u at hreads
  cases hreads with
  | infinity => exact .infinity s
  | notANumber => exact .notANumber
  | zero => exact .zero s
  | subnormal => exact .finite s _ _ _ (by omega) (by omega) (by omega) (.inr rfl)
  | normal hne hpos =>
    have hne : e.toNat ≠ 2047 := fun h => hne (BitVec.eq_of_toNat_eq h)
    have hpos : e.toNat ≠ 0 := fun h => hpos (BitVec.eq_of_toNat_eq h)
    exact .finite s _ _ _ (by omega) (by omega) (by omega) (.inl (by omega))

theorem unpacked_packed {u : UnpackedFloat} (h : Held u) : unpacked (packed u) = u := by
  change UnpackedFloat.unpack .binary64 (UnpackedFloat.pack .binary64 u) = u
  cases h with
  | notANumber => rfl
  | infinity s => cases s <;> rfl
  | zero s => cases s <;> rfl
  | finite s m e pos hm he he' full =>
    rw [pack_finite, if_neg (by omega)]
    have hmod : (BitVec.ofNat 52 m).toNat = m % 2 ^ 52 := BitVec.toNat_ofNat _ _
    -- a full mantissa leaves its first bit to the exponent, any other goes as it is
    by_cases hfull : 2 ^ 52 ≤ m
    · have hexp : (BitVec.ofNat 11 (e + 1075).toNat).toNat = (e + 1075).toNat := by
        rw [BitVec.toNat_ofNat]
        omega
      have hne : BitVec.ofNat 11 (e + 1075).toNat ≠ -1#11 := by
        intro h
        have h : (BitVec.ofNat 11 (e + 1075).toNat).toNat = 2047 := congrArg BitVec.toNat h
        omega
      have hpos : BitVec.ofNat 11 (e + 1075).toNat ≠ 0#11 := by
        intro h
        have h : (BitVec.ofNat 11 (e + 1075).toNat).toNat = 0 := congrArg BitVec.toNat h
        omega
      rw [if_pos ((log2_eq_iff pos).2 ⟨hfull, hm⟩), unpack_packComponents, if_neg hne, if_neg hpos]
      exact finite_congr (by omega) (by omega)
    · obtain rfl : e = -1074 := full.resolve_left hfull
      have hmod : (BitVec.ofNat 52 m).toNat = m := by omega
      have hne : BitVec.ofNat 52 m ≠ 0#52 := by
        intro h
        have h : (BitVec.ofNat 52 m).toNat = 0 := congrArg BitVec.toNat h
        omega
      have hlog : m.log2 ≠ 52 := fun h => hfull ((log2_eq_iff pos).1 h).1
      rw [if_neg hlog, unpack_packComponents, if_neg (by decide), if_pos rfl, dif_neg hne]
      exact finite_congr hmod rfl

theorem unpacked_packed_of_large (s : Sign) {m : Nat} {e : Int} (pos : 0 < m) (he : 972 ≤ e) :
    unpacked (packed (.finite s m e pos)) = .infinity s := by
  change UnpackedFloat.unpack .binary64 (UnpackedFloat.pack .binary64 _) = _
  rw [pack_finite, if_pos he]
  cases s <;> rfl

/-- A result keeps its sign, whatever becomes of its magnitude. -/
theorem sign?_unpacked_packed (u : UnpackedFloat) : sign? (unpacked (packed u)) = sign? u := by
  change sign? (UnpackedFloat.unpack .binary64 (UnpackedFloat.pack .binary64 u)) = sign? u
  cases u with
  | notANumber => rfl
  | infinity s => cases s <;> rfl
  | zero s => cases s <;> rfl
  | finite s m e pos =>
    rw [pack_finite]
    change _ = some s
    split
    · cases s <;> rfl
    · split
      · next he _ =>
        refine sign?_unpack_packComponents s _ _ fun h => ?_
        have h : (BitVec.ofNat 11 (e + 1075).toNat).toNat = 2047 := congrArg BitVec.toNat h
        rw [BitVec.toNat_ofNat] at h
        omega
      · exact sign?_unpack_packComponents s _ _ (by decide)

def isNegative : Sign → Bool
  | .negative => true
  | .positive => false

/-- The parts of what arithmetic sees. -/
def partsOf? : UnpackedFloat → Option Parts
  | .finite s m e _ => some ⟨isNegative s, m, e⟩
  | .zero s => some ⟨isNegative s, 0, -1074⟩
  | _ => none

/-- The parts that are read off the bits are those that arithmetic sees. -/
theorem parts?_eq : parts? x = partsOf? (unpacked x) := by
  obtain ⟨s, e, m, h, hreads⟩ := exists_fields x
  have hbits : x.toBits.toNat = s.toBitVec.toNat * 2 ^ 63 + e.toNat * 2 ^ 52 + m.toNat := by
    rw [← toNat_packComponents, ← h]
    rfl
  have he : e.toNat < 2048 := e.isLt
  have hm : m.toNat < 2 ^ 52 := m.isLt
  have hfield : x.toBits.toNat / hidden % 2048 = e.toNat := by
    have hs : s.toBitVec.toNat ≤ 1 := by cases s <;> decide
    rw [hbits, hidden]
    omega
  have hfraction : x.toBits.toNat % hidden = m.toNat := by
    rw [hbits, hidden]
    omega
  have hneg : decide (2048 * hidden ≤ x.toBits.toNat) = isNegative s := by
    rw [hbits, hidden]
    cases s <;> simp [isNegative, Sign.toBitVec] <;> omega
  have hparts : parts? x =
      if e.toNat = 2047 then none
      else some ⟨isNegative s, if e.toNat = 0 then m.toNat else hidden + m.toNat,
        Int.ofNat (if e.toNat = 0 then 1 else e.toNat) - 1075⟩ := by
    simp only [parts?, hfield, hfraction, hneg]
  rw [hparts]
  generalize unpacked x = u at hreads
  cases hreads with
  | infinity h | notANumber h =>
    subst h
    rfl
  | zero h hzero =>
    subst h hzero
    rfl
  | subnormal h =>
    subst h
    rfl
  | normal hne hpos =>
    have hne : e.toNat ≠ 2047 := fun h => hne (BitVec.eq_of_toNat_eq h)
    have hpos : e.toNat ≠ 0 := fun h => hpos (BitVec.eq_of_toNat_eq h)
    rw [if_neg hne, if_neg hpos, if_neg hpos]
    rfl

theorem truncate?_eq : Scalar.truncate? x = (partsOf? (unpacked x)).map Parts.truncate :=
  congrArg (Option.map Parts.truncate) (parts?_eq x)

theorem eq_packed {u : UnpackedFloat}
    (h : x.toModel.toBits.toBitVec = UnpackedFloat.pack .binary64 u) : x = packed u := by
  obtain ⟨⟨⟨bits⟩, valid⟩⟩ := x
  obtain rfl : bits = UnpackedFloat.pack .binary64 u := h
  rfl

/-- A machine number is made of its parts alone. -/
theorem packed_unpacked : packed (unpacked x) = x := by
  obtain ⟨s, e, m, h, hreads⟩ := exists_fields x
  refine (eq_packed x (h.trans ?_)).symm
  have hm : m.toNat < 2 ^ 52 := m.isLt
  have he : e.toNat < 2048 := e.isLt
  generalize unpacked x = u at hreads
  cases hreads with
  | infinity he hm =>
    subst he hm
    rfl
  | notANumber he hm =>
    -- only one of the bit patterns that say so is in use
    subst he
    have hvalid := x.toModel.valid.eq_packedNaN
    rw [h, unpackExponent_packComponents, unpackMantissa_packComponents] at hvalid
    exact hvalid rfl hm
  | zero he hm =>
    subst he hm
    rfl
  | subnormal he hne pos =>
    subst he
    have hlog : m.toNat.log2 ≠ 52 := fun h => by
      have hfull := (log2_eq_iff pos).1 h
      omega
    rw [pack_finite, if_neg (by omega), if_neg hlog, BitVec.ofNat_toNat, BitVec.setWidth_eq]
  | normal hne hpos pos =>
    have hne : e.toNat ≠ 2047 := fun h => hne (BitVec.eq_of_toNat_eq h)
    have hlog : (2 ^ 52 + m.toNat).log2 = 52 := (log2_eq_iff pos).2 ⟨by omega, by omega⟩
    have hexp : ((e.toNat : Int) - 1075 + 1075).toNat = e.toNat := by omega
    have hmant : BitVec.ofNat 52 (2 ^ 52 + m.toNat) = m := by
      apply BitVec.eq_of_toNat_eq
      rw [BitVec.toNat_ofNat]
      omega
    rw [pack_finite, if_neg (by omega), if_pos hlog, hexp, hmant, BitVec.ofNat_toNat,
      BitVec.setWidth_eq]

/-- There is one number that is none, and one infinite number of each sign. -/
theorem eq_packed_of_parts?_eq_none (hx : parts? x = none) :
    x = packed .notANumber ∨ ∃ s, x = packed (.infinity s) := by
  have hself : x = packed (unpacked x) := (packed_unpacked x).symm
  rw [parts?_eq] at hx
  generalize unpacked x = u at hx hself
  cases u with
  | notANumber => exact .inl hself
  | infinity s => exact .inr ⟨s, hself⟩
  | zero | finite => cases hx

end Packed

end HandheldUI.Binary64
