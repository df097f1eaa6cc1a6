import QuantumRelay.Decimal.Basic
import QuantumRelay.Proofs.Binary64.Rounding

/-!
# Doubles and their bits

The magnitude that `Binary.ofFloat` takes from the bits of a finite double is the one that the double
stands for: packing it gives the double back (`eq_of_magnitude`).
-/

namespace QuantumRelay.Binary64

open Float.Model Float.Model.UnpackedFloat

variable {m : Nat} {q : Int}

/-! ### Packing -/

def field (m : Nat) (q : Int) : Nat := if 2 ^ 52 ≤ m then (q + 1075).toNat else 0

theorem Canonical.field_lt (hc : Canonical m q) : field m q < 2047 := by
  have hhigh := hc.high
  unfold field
  split <;> omega

theorem Canonical.pack_finite (hc : Canonical m q) (sign : Sign) :
    UnpackedFloat.pack Format.binary64 (.finite sign m q hc.pos) =
      packComponents Format.binary64 sign (BitVec.ofNat 11 (field m q)) (BitVec.ofNat 52 m) := by
  have hbias : (q + Format.binary64.exponentBias + Format.binary64.mantissaBitsWithoutImplicit).toNat =
      (q + 1075).toNat := by
    show (q + 1023 + 52).toNat = _
    congr 1
    ring
  have hfits : ¬(2 ^ Format.binary64.exponentBits ≤ (q + 1075).toNat + 1) := by
    have hhigh := hc.high
    show ¬(2048 ≤ _)
    omega
  unfold UnpackedFloat.pack field
  simp only [hbias]
  rw [if_neg hfits]
  by_cases hnormal : 2 ^ 52 ≤ m
  · have hlog : m.log2 = 52 := (Nat.log2_eq_iff hc.pos.ne').2 ⟨hnormal, hc.lt⟩
    rw [if_pos hnormal, hlog, if_pos (show 52 + 1 = Format.binary64.mantissaBits from rfl)]
  · have hlog : m.log2 < 52 := (Nat.log2_lt hc.pos.ne').2 (by omega)
    have hshort : m.log2 + 1 ≠ Format.binary64.mantissaBits := by
      show m.log2 + 1 ≠ 53
      omega
    rw [if_neg hnormal, if_neg hshort]

theorem unpackSign_packComponents {spec : Format} (sign : Sign) (e : BitVec spec.exponentBits)
    (f : BitVec spec.mantissaBitsWithoutImplicit) :
    unpackSign (packComponents spec sign e f) = sign.toBitVec := by
  apply BitVec.eq_of_getLsbD_eq
  intro i hi
  obtain rfl : i = 0 := by omega
  simp [unpackSign, packComponents, BitVec.getLsbD_append, BitVec.getElem_append]

theorem ofBitVec_toBitVec (sign : Sign) : Sign.ofBitVec sign.toBitVec = sign := by
  cases sign with
  | negative => rfl
  | positive => rfl

theorem toNat_ofNat_field (hc : Canonical m q) : (BitVec.ofNat 11 (field m q)).toNat = field m q := by
  have hfield := hc.field_lt
  rw [BitVec.toNat_ofNat, Nat.mod_eq_of_lt (by omega)]

theorem toNat_one_append (f : BitVec 52) : (1#1 ++ f).toNat = 2 ^ 52 + f.toNat := by
  rw [BitVec.toNat_append, ← Nat.shiftLeft_add_eq_or_of_lt f.isLt]
  rfl

theorem Canonical.unpack_pack (hc : Canonical m q) (sign : Sign) :
    (Float.Model.pack (.finite sign m q hc.pos)).unpack = .finite sign m q hc.pos := by
  show UnpackedFloat.unpack Format.binary64 (UnpackedFloat.pack Format.binary64 _) = _
  have hfield := hc.field_lt
  have hfull : BitVec.ofNat 11 (field m q) ≠ -1#11 := by
    intro h
    have := congrArg BitVec.toNat h
    rw [toNat_ofNat_field hc, show (-1#11).toNat = 2047 from rfl] at this
    omega
  rw [hc.pack_finite, UnpackedFloat.unpack]
  simp only [unpackMantissa_packComponents, unpackExponent_packComponents,
    unpackSign_packComponents, ofBitVec_toBitVec, toNat_ofNat_field hc]
  rw [if_neg hfull]
  by_cases hnormal : 2 ^ 52 ≤ m
  · have hlt := hc.lt
    have hlow := hc.low
    have hzero : BitVec.ofNat 11 (field m q) ≠ 0#11 := by
      intro h
      have := congrArg BitVec.toNat h
      rw [toNat_ofNat_field hc, BitVec.toNat_zero, field, if_pos hnormal] at this
      omega
    have hm : (1#1 ++ BitVec.ofNat 52 m).toNat = m := by
      rw [toNat_one_append, BitVec.toNat_ofNat]
      omega
    rw [if_neg hzero, UnpackedFloat.finite.injEq]
    refine ⟨rfl, hm, ?_⟩
    rw [field, if_pos hnormal]
    show ((q + 1075).toNat : Int) - (1023 + 52) = q
    omega
  · have hm : (BitVec.ofNat 52 m).toNat = m := by
      rw [BitVec.toNat_ofNat]
      omega
    have hne : BitVec.ofNat 52 m ≠ 0#52 := by
      intro h
      have := congrArg BitVec.toNat h
      rw [hm, BitVec.toNat_zero] at this
      exact hc.pos.ne' this
    rw [field, if_neg hnormal, if_pos rfl, dif_neg hne, UnpackedFloat.finite.injEq]
    exact ⟨rfl, hm, (hc.normal.resolve_right hnormal).symm⟩

/-! ### Bits -/

theorem toNat_unpackMantissa (b : BitVec 64) :
    (@unpackMantissa Format.binary64 b).toNat = b.toNat % 2 ^ 52 := by
  simp [unpackMantissa, BitVec.extractLsb_toNat]

theorem toNat_unpackExponent (b : BitVec 64) :
    (@unpackExponent Format.binary64 b).toNat = b.toNat / 2 ^ 52 % 2048 := by
  simp [unpackExponent, BitVec.extractLsb_toNat, Nat.shiftRight_eq_div_pow]

theorem toNat_unpackSign (b : BitVec 64) :
    (@unpackSign Format.binary64 b).toNat = b.toNat / 2 ^ 63 := by
  have hlt := b.isLt
  simp [unpackSign, BitVec.extractLsb_toNat, Nat.shiftRight_eq_div_pow]
  omega

theorem toBitVec_ofBitVec (b : BitVec 1) : (Sign.ofBitVec b).toBitVec = b := by
  rcases BitVec.eq_zero_or_eq_one b with rfl | rfl
  · rfl
  · rfl

theorem packComponents_unpack (b : BitVec Format.binary64.numBits) :
    packComponents Format.binary64 (Sign.ofBitVec (unpackSign b)) (unpackExponent b)
      (unpackMantissa b) = b := by
  simp only [packComponents, toBitVec_ofBitVec, unpackSign, unpackExponent, unpackMantissa,
    BitVec.extractLsb]
  ext i hi
  grind

/-! ### Magnitudes of doubles -/

def signOf (x : Float) : Sign := if Binary.isNegative x then .negative else .positive

variable {x y : Float}

theorem eq_of_toBits (h : x.toBits = y.toBits) : x = y := by
  obtain ⟨⟨xbits, _⟩⟩ := x
  obtain ⟨⟨ybits, _⟩⟩ := y
  obtain rfl : xbits = ybits := h
  rfl

theorem signOf_eq (x : Float) :
    signOf x = Sign.ofBitVec (@unpackSign Format.binary64 x.toBits.toBitVec) := by
  have hlt := x.toBits.toNat_lt
  have hbit := toNat_unpackSign x.toBits.toBitVec
  have hsize : UInt64.size = 2 ^ 64 := rfl
  rw [UInt64.toNat_toBitVec] at hbit
  unfold signOf Sign.ofBitVec Binary.isNegative
  by_cases hneg : 2 * x.toBits.toNat ≥ UInt64.size
  · have hone : @unpackSign Format.binary64 x.toBits.toBitVec ≠ 0#1 := by
      intro h
      rw [h, BitVec.toNat_zero] at hbit
      omega
    rw [if_pos (decide_eq_true hneg), if_neg hone]
  · have hzero : @unpackSign Format.binary64 x.toBits.toBitVec = 0#1 :=
      BitVec.eq_of_toNat_eq (by rw [hbit, BitVec.toNat_zero]; omega)
    rw [if_neg (by simpa using hneg), if_pos hzero]

theorem field_lt_of_isFinite (h : x.isFinite = true) :
    x.toBits.toNat / Binary.fractionLimit % 2048 < 2047 := by
  by_contra hfield
  have hfull : @unpackExponent Format.binary64 x.toBits.toBitVec = -1#11 := by
    apply BitVec.eq_of_toNat_eq
    rw [toNat_unpackExponent, UInt64.toNat_toBitVec]
    show _ = 2047
    have hlimit : Binary.fractionLimit = 2 ^ 52 := rfl
    rw [hlimit] at hfield
    omega
  have hunpack : x.isFinite =
      (UnpackedFloat.unpack Format.binary64 x.toBits.toBitVec).isFinite := rfl
  rw [hunpack, UnpackedFloat.unpack] at h
  simp only [hfull] at h
  rw [if_pos trivial] at h
  split at h <;> cases h

theorem ofFloat_eq (x : Float) : Binary.ofFloat x =
    if x.toBits.toNat / 2 ^ 52 % 2048 = 0 then ⟨x.toBits.toNat % 2 ^ 52, -1074, false⟩
    else ⟨x.toBits.toNat % 2 ^ 52 + 2 ^ 52, (x.toBits.toNat / 2 ^ 52 % 2048 : Nat) - 1075,
      x.toBits.toNat % 2 ^ 52 = 0 && 1 < x.toBits.toNat / 2 ^ 52 % 2048⟩ := rfl

theorem canonical_ofFloat (h : x.isFinite = true) (hm : (Binary.ofFloat x).mantissa ≠ 0) :
    Canonical (Binary.ofFloat x).mantissa (Binary.ofFloat x).exponent := by
  have hfield := field_lt_of_isFinite h
  have hlimit : Binary.fractionLimit = 2 ^ 52 := rfl
  rw [hlimit] at hfield
  rw [ofFloat_eq] at hm ⊢
  split at hm
  · next hzero =>
    rw [if_pos hzero]
    exact ⟨Nat.pos_of_ne_zero hm, by dsimp only; omega, le_refl _, by dsimp only; omega, .inl rfl⟩
  · next hzero =>
    rw [if_neg hzero]
    exact ⟨by dsimp only; omega, by dsimp only; omega, by dsimp only; omega,
      by dsimp only; omega, .inr (by dsimp only; omega)⟩

theorem narrowBelow_iff (x : Float) : (Binary.ofFloat x).narrowBelow = true ↔
    (Binary.ofFloat x).mantissa = 2 ^ 52 ∧ -1074 < (Binary.ofFloat x).exponent := by
  rw [ofFloat_eq]
  split
  · simp
  · next hzero =>
    simp only [Bool.and_eq_true, decide_eq_true_eq]
    omega

theorem eq_of_magnitude (h : x.isFinite = true) (hm : (Binary.ofFloat x).mantissa ≠ 0) :
    x = .ofModel (.pack (.finite (signOf x) (Binary.ofFloat x).mantissa (Binary.ofFloat x).exponent
      (canonical_ofFloat h hm).pos)) := by
  have hc := canonical_ofFloat h hm
  apply eq_of_toBits
  rw [← UInt64.toBitVec_inj]
  refine Eq.trans ?_ (hc.pack_finite (signOf x)).symm
  rw [signOf_eq]
  conv_lhs => rw [← packComponents_unpack x.toBits.toBitVec]
  congr 1
  · apply BitVec.eq_of_toNat_eq
    rw [toNat_ofNat_field hc, toNat_unpackExponent, UInt64.toNat_toBitVec, ofFloat_eq, field]
    split
    · next hzero => rw [if_neg (by dsimp only; omega), hzero]
    · next hzero =>
      rw [if_pos (by dsimp only; omega)]
      dsimp only
      omega
  · apply BitVec.eq_of_toNat_eq
    rw [toNat_unpackMantissa, UInt64.toNat_toBitVec, BitVec.toNat_ofNat, ofFloat_eq]
    split <;> dsimp only <;> omega

theorem eq_zero_of_magnitude (hm : (Binary.ofFloat x).mantissa = 0) :
    x = if Binary.isNegative x then -0 else 0 := by
  have hlt := x.toBits.toNat_lt
  have hsize : UInt64.size = 2 ^ 64 := rfl
  have hbits : x.toBits.toNat / 2 ^ 52 % 2048 = 0 ∧ x.toBits.toNat % 2 ^ 52 = 0 := by
    rw [ofFloat_eq] at hm
    split at hm
    · next hzero => exact ⟨hzero, hm⟩
    · dsimp only at hm
      omega
  unfold Binary.isNegative
  by_cases hneg : 2 * x.toBits.toNat ≥ UInt64.size
  · rw [if_pos (decide_eq_true hneg)]
    apply eq_of_toBits
    apply UInt64.toNat_inj.1
    show _ = 2 ^ 63
    omega
  · rw [if_neg (by simpa using hneg)]
    apply eq_of_toBits
    apply UInt64.toNat_inj.1
    show _ = 0
    omega

end QuantumRelay.Binary64
