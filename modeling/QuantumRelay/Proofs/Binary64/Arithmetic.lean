import QuantumRelay.Proofs.Binary64.Packing

/-!
# Products, quotients and whole numbers

Multiplying, dividing and converting give the double that the exact result is near to (`mul_eq`, `div_eq`,
`unpack_ofNat`).
-/

namespace QuantumRelay.Binary64

open Float.Model Float.Model.UnpackedFloat

variable {m : Nat} {q : Int}

theorem mul_eq (hc : Canonical m q) (sign sign' : Sign) {a b : Nat} {e f : Int} (ha : 0 < a)
    (hb : 0 < b) (hbits : 2 ^ 52 ≤ a * b) (h : Near m q (a * 2 ^ e * (b * 2 ^ f))) :
    UnpackedFloat.mul Format.binary64 (.finite sign a e ha) (.finite sign' b f hb) =
      .finite (sign * sign') m q hc.pos := by
  have hvalue : ((a * b : Nat) : ℚ) * 2 ^ (e + f) = a * 2 ^ e * (b * 2 ^ f) := by
    rw [zpow_add₀ two_ne_zero]
    push_cast
    ring
  refine roundWithAccuracy_eq hc _ (.exact (a * b)) (hvalue ▸ h) ?_
  have hlog : 52 ≤ (a * b).log2 := (Nat.le_log2 (Nat.mul_pos ha hb).ne').2 hbits
  rw [targetExponent_eq, totalExponent]
  omega

theorem targetExponent_mono {e f : Int} (h : e ≤ f) :
    Format.binary64.targetExponent e ≤ Format.binary64.targetExponent f := by
  rw [targetExponent_eq, targetExponent_eq]
  omega

theorem div_eq (hc : Canonical m q) (sign sign' : Sign) {a b : Nat} {e f : Int} (ha : 0 < a)
    (hb : 0 < b) (h : Near m q (a * 2 ^ e / (b * 2 ^ f))) :
    UnpackedFloat.div Format.binary64 (.finite sign a e ha) (.finite sign' b f hb) =
      .finite (sign / sign') m q hc.pos := by
  let t := min (e - f)
    (Format.binary64.targetExponent (totalExponent a e - totalExponent b f))
  let s := (e - f - t).toNat
  have hshift : ((a <<< s : Nat) : ℚ) * 2 ^ t = a * 2 ^ (e - f) := by
    have hsum : (s : Int) + t = e - f := by omega
    rw [Nat.shiftLeft_eq, ← hsum, zpow_add₀ two_ne_zero, zpow_natCast]
    push_cast
    ring
  have hvalue : ((a <<< s : Nat) : ℚ) / b * 2 ^ t = a * 2 ^ e / (b * 2 ^ f) := by
    rw [div_mul_eq_mul_div, hshift, zpow_sub₀ two_ne_zero, mul_div_assoc', div_div,
      mul_comm (2 ^ f)]
  have hw := @tells_fraction (a <<< s) b hb
  -- the quotient is more than half of two to the difference of the exponents
  have habove : (2 : ℚ) ^ (totalExponent a e - totalExponent b f - 1) < a * 2 ^ e / (b * 2 ^ f) := by
    have hlow := @totalExponent_le a e a ha.ne' le_rfl
    have hhigh := @lt_totalExponent b f b (by linarith)
    rw [lt_div_iff₀ (by positivity)]
    refine lt_of_lt_of_le (mul_lt_mul_of_pos_left hhigh (by positivity)) (le_trans (le_of_eq ?_) hlow)
    rw [← zpow_add₀ two_ne_zero]
    congr 1
    ring
  have hn : (ExtendedMantissa.ofMantissaAndAccuracy (a <<< s / b)
      (accuracyOfFraction (a <<< s % b) b)).mantissa = a <<< s / b := mantissa_ofMantissaAndAccuracy ..
  have hd : totalExponent a e - totalExponent b f ≤ totalExponent (a <<< s / b) t := by
    have hbelow := @lt_totalExponent (a <<< s / b) t _ (hn ▸ hw.bounds.2)
    rw [hvalue] at hbelow
    have hlt := habove.trans hbelow
    rw [zpow_lt_zpow_iff_right₀ one_lt_two] at hlt
    omega
  exact roundWithAccuracy_eq hc _ hw (hvalue ▸ h) ((min_le_right _ _).trans (targetExponent_mono hd))

/-! ### Whole numbers -/

theorem near_self (m : Nat) (q : Int) : Near m q (m * 2 ^ q) := by
  have hpos : (0 : ℚ) < 2 ^ q := by positivity
  refine ⟨mul_le_mul_of_nonneg_right ?_ hpos.le, mul_le_mul_of_nonneg_right (by linarith) hpos.le,
    fun _ => ⟨mul_lt_mul_of_pos_right (by linarith) hpos,
      mul_lt_mul_of_pos_right (by linarith) hpos⟩⟩
  split <;> linarith

theorem round_eq (hc : Canonical m q) (sign : Sign) {n : Nat} (hn : 0 < n)
    (h : (n : ℚ) = m * 2 ^ q) :
    UnpackedFloat.round Format.binary64 sign n 0 = .finite sign m q hc.pos := by
  let s := (0 - Format.binary64.targetExponent (totalExponent n 0)).toNat
  have hlog : n.log2 + s ≤ (n <<< s).log2 := by
    have hshift : n <<< s ≠ 0 := by
      rw [Nat.shiftLeft_eq]
      exact (Nat.mul_pos hn (by positivity)).ne'
    rw [Nat.le_log2 hshift, Nat.shiftLeft_eq, pow_add]
    exact Nat.mul_le_mul_right _ (Nat.log2_self_le hn.ne')
  have hvalue : ((n <<< s : Nat) : ℚ) * 2 ^ ((0 : Int) - s) = m * 2 ^ q := by
    rw [← h, Nat.shiftLeft_eq, zero_sub, zpow_neg, zpow_natCast]
    push_cast
    rw [mul_inv_cancel_right₀ (by positivity)]
  have he : (0 : Int) - s ≤ Format.binary64.targetExponent (totalExponent (n <<< s) (0 - s)) := by
    refine le_trans ?_ (@targetExponent_mono (totalExponent n 0) _ ?_)
    · omega
    · rw [totalExponent, totalExponent]
      omega
  exact roundWithAccuracy_eq hc sign (.exact (n <<< s)) (hvalue ▸ near_self m q) he

theorem unpack_ofNat (hc : Canonical m q) {n : Nat} (hn : 0 < n) (h : (n : ℚ) = m * 2 ^ q) :
    (Float.Model.ofNat n).unpack = .finite .positive m q hc.pos := by
  have hround : UnpackedFloat.ofNat Format.binary64 n = .finite .positive m q hc.pos := by
    have hcompare : compare (n : Int) 0 = .gt := Int.compare_eq_gt.2 (by omega)
    unfold UnpackedFloat.ofNat UnpackedFloat.ofInt UnpackedFloat.normalize
    rw [hcompare]
    exact round_eq hc .positive hn h
  rw [Float.Model.ofNat, hround]
  exact hc.unpack_pack .positive

theorem exists_canonical {c k : Nat} (hpos : 0 < c) (hlt : c < 2 ^ 53) (hk : k ≤ 971) :
    ∃ m q, Canonical m q ∧ 2 ^ 52 ≤ m ∧ ((c * 2 ^ k : Nat) : ℚ) = m * 2 ^ q := by
  have hlog : c.log2 ≤ 52 := Nat.lt_succ_iff.1 ((Nat.log2_lt hpos.ne').2 hlt)
  have hsum : c.log2 + (52 - c.log2) = 52 := by omega
  have hlow : 2 ^ 52 ≤ c * 2 ^ (52 - c.log2) := by
    conv_lhs => rw [← hsum, pow_add]
    exact Nat.mul_le_mul_right _ (Nat.log2_self_le hpos.ne')
  have hhigh : c * 2 ^ (52 - c.log2) < 2 ^ 53 := by
    have hsum : c.log2 + 1 + (52 - c.log2) = 53 := by omega
    conv_rhs => rw [← hsum, pow_add]
    exact Nat.mul_lt_mul_of_pos_right Nat.lt_log2_self (by positivity)
  refine ⟨c * 2 ^ (52 - c.log2), k - (52 - c.log2 : Nat), ⟨by positivity, hhigh, by omega, by omega,
    .inr hlow⟩, hlow, ?_⟩
  rw [zpow_sub₀ two_ne_zero, zpow_natCast, zpow_natCast]
  push_cast
  rw [mul_assoc, mul_div_cancel₀]
  positivity

end QuantumRelay.Binary64
