import QuantumRelay.Proofs.Binary64.Arithmetic
import QuantumRelay.Proofs.Decimal.Digits

/-!
# Decimals as doubles

A decimal is read as the double that it is near to (`toFloat_eq`), whether that takes one operation on
doubles or arithmetic on whole numbers of any size.
-/

namespace QuantumRelay

namespace Decimal

def value (d : Decimal) : ℚ := d.digits * 10 ^ d.exponent

end Decimal

namespace Binary64

open Float.Model Float.Model.UnpackedFloat

variable {m : Nat} {q : Int} {n : Nat}

/-! ### Exact arithmetic -/

theorem zpow_of_nonneg {e : Int} (h : 0 ≤ e) : (10 : ℚ) ^ e = (10 ^ e.natAbs : Nat) := by
  conv_lhs => rw [← Int.natAbs_of_nonneg h, zpow_natCast]
  push_cast
  rfl

theorem zpow_of_neg {e : Int} (h : e < 0) : (10 : ℚ) ^ e = ((10 ^ e.natAbs : Nat) : ℚ)⁻¹ := by
  have he : e = -(e.natAbs : Int) := by omega
  conv_lhs => rw [he, zpow_neg, zpow_natCast]
  push_cast
  rfl

theorem ofScientific_eq (hc : Canonical m q) (hn : 0 < n) {e : Int} (h : Near m q (n * 10 ^ e))
    (hhigh : e ≤ 2048) (hlow : -(2048 + (n.log2 : Int)) ≤ e) :
    UnpackedFloat.ofScientific Format.binary64 n e = .finite .positive m q hc.pos := by
  have hbits : (2 : Int) ^ Format.binary64.exponentBits = 2048 := rfl
  have hten (k : Nat) : 0 < 10 ^ k := by positivity
  have hmantissa : Format.binary64.mantissaBits = 53 := rfl
  unfold UnpackedFloat.ofScientific
  rw [hbits, dif_neg hn.ne', if_neg (show ¬(e > 2048) by omega), if_neg (by omega)]
  split
  · next hnonneg =>
    have hlarge : 2 ^ 52 ≤ n <<< 53 * 10 ^ e.toNat := by
      rw [Nat.shiftLeft_eq]
      nlinarith [hten e.toNat]
    have hvalue : ((n <<< 53 : Nat) : ℚ) * 2 ^ (-53 : Int) * ((10 ^ e.toNat : Nat) * 2 ^ (0 : Int)) =
        n * 10 ^ e := by
      have he : e.toNat = e.natAbs := by omega
      rw [zpow_of_nonneg hnonneg, he, Nat.shiftLeft_eq, zpow_neg, zpow_zero, mul_one]
      push_cast
      rw [mul_inv_cancel_right₀ (by positivity)]
    have hpos : 0 < n <<< 53 := Nat.pos_of_ne_zero fun hzero => by
      rw [hzero, Nat.zero_mul] at hlarge
      omega
    rw [← hvalue] at h
    have hmul := mul_eq hc .positive .positive hpos (hten e.toNat) hlarge h
    exact hmul
  · next hneg =>
    have hvalue : (n : ℚ) * 2 ^ (0 : Int) / ((10 ^ (-e).toNat : Nat) * 2 ^ (0 : Int)) = n * 10 ^ e := by
      have he : (-e).toNat = e.natAbs := by omega
      rw [zpow_of_neg (by omega), he, zpow_zero, mul_one, mul_one, div_eq_mul_inv]
    rw [← hvalue] at h
    exact div_eq hc .positive .positive hn (hten _) h

/-! ### Arithmetic on doubles -/

theorem toModel_toFloat (h : n < 2 ^ 53) : n.toUInt64.toFloat.toModel = Float.Model.ofNat n := by
  have hn : n.toUInt64.toNat = n := by
    show (UInt64.ofNat n).toNat = n
    rw [UInt64.toNat_ofNat_of_lt' (by have : UInt64.size = 2 ^ 64 := rfl; omega)]
  conv_rhs => rw [← hn]
  rfl

theorem exists_unpack_ofNat {c k : Nat} (hpos : 0 < c) (hlt : c < 2 ^ 53) (hk : k ≤ 971) :
    ∃ (m : Nat) (q : Int) (hm : 0 < m), 2 ^ 52 ≤ m ∧ ((c * 2 ^ k : Nat) : ℚ) = m * 2 ^ q ∧
      (Float.Model.ofNat (c * 2 ^ k)).unpack = .finite .positive m q hm := by
  obtain ⟨m, q, hc, hm, hvalue⟩ := exists_canonical hpos hlt hk
  exact ⟨m, q, hc.pos, hm, hvalue, unpack_ofNat hc (by positivity) hvalue⟩

theorem toModel_powers : Float.exactlyRepresentablePowersOfTen.map (·.toModel) =
    (Array.range 23).map fun e => Float.Model.ofNat (10 ^ e) := by
  decide +kernel

theorem exists_unpack_power {e : Nat} (he : e ≤ 22)
    (hsize : e < Float.exactlyRepresentablePowersOfTen.size) :
    ∃ (m : Nat) (q : Int) (hm : 0 < m), 2 ^ 52 ≤ m ∧ ((10 ^ e : Nat) : ℚ) = m * 2 ^ q ∧
      Float.exactlyRepresentablePowersOfTen[e].toModel.unpack = .finite .positive m q hm := by
  have hten : 10 ^ e = 5 ^ e * 2 ^ e := by rw [← Nat.mul_pow]
  have hlt : 5 ^ e < 2 ^ 53 := (Nat.pow_le_pow_right (by decide) he).trans_lt (by decide)
  obtain ⟨m, q, hm, hfull, hvalue, hunpack⟩ :=
    @exists_unpack_ofNat (5 ^ e) e (by positivity) hlt (by omega)
  rw [← hten] at hvalue hunpack
  refine ⟨m, q, hm, hfull, hvalue, ?_⟩
  have hpower : Float.exactlyRepresentablePowersOfTen[e].toModel = Float.Model.ofNat (10 ^ e) := by
    have hentry := congrArg (·[e]?) toModel_powers
    simpa [hsize, Nat.lt_succ_iff.2 he] using hentry
  rw [hpower, hunpack]

theorem float_mul (x y : Float) : x * y =
    .ofModel (.pack (UnpackedFloat.mul Format.binary64 x.toModel.unpack y.toModel.unpack)) := rfl

theorem float_div (x y : Float) : x / y =
    .ofModel (.pack (UnpackedFloat.div Format.binary64 x.toModel.unpack y.toModel.unpack)) := rfl

/-- One operation on doubles finds the double that a decimal is near to. -/
theorem float_ofScientific_eq (hc : Canonical m q) {d : Decimal} (hd : 0 < d.digits)
    (h : Near m q d.value) (hhigh : d.exponent ≤ 2048)
    (hlow : -(2048 + (d.digits.log2 : Int)) ≤ d.exponent) :
    Float.ofScientific d.digits (d.exponent < 0) d.exponent.natAbs =
      .ofModel (.pack (.finite .positive m q hc.pos)) := by
  unfold Float.ofScientific
  split
  · next hfast =>
    obtain ⟨hdigits, hexponent⟩ := hfast
    obtain ⟨a, e, ha, hfull, hvalue, hunpack⟩ := @exists_unpack_ofNat d.digits 0 hd hdigits (by omega)
    obtain ⟨b, f, hb, hfull', hvalue', hunpack'⟩ := exists_unpack_power hexponent
      (by simp [Float.exactlyRepresentablePowersOfTen]; omega)
    rw [pow_zero, Nat.mul_one] at hvalue hunpack
    rw [Decimal.value, hvalue] at h
    simp only [float_mul, float_div, toModel_toFloat hdigits, hunpack, hunpack']
    by_cases hneg : d.exponent < 0
    · rw [zpow_of_neg hneg, hvalue', ← div_eq_mul_inv] at h
      rw [if_pos (decide_eq_true hneg), div_eq hc .positive .positive ha hb h]
      rfl
    · have hlarge : 2 ^ 52 ≤ a * b := by nlinarith
      rw [zpow_of_nonneg (by omega), hvalue'] at h
      rw [if_neg (by simpa using hneg), mul_eq hc .positive .positive ha hb hlarge h]
      rfl
  · have he : (if decide (d.exponent < 0) then Int.negOfNat d.exponent.natAbs
        else Int.ofNat d.exponent.natAbs) = d.exponent := by
      split
      · next hneg =>
        have hneg := of_decide_eq_true hneg
        rw [Int.negOfNat_eq, Int.ofNat_eq_natCast]
        omega
      · next hneg =>
        have hneg := of_decide_eq_false (Bool.eq_false_iff.2 hneg)
        rw [Int.ofNat_eq_natCast]
        omega
    simp only [he, Float.Model.ofScientific, ofScientific_eq hc hd h hhigh hlow]

/-! ### Reading -/

theorem Near.pos {v : ℚ} (h : Near m q v) (hm : 0 < m) : 0 < v := by
  have hone : (1 : ℚ) ≤ m := by exact_mod_cast hm
  have hlow : (0 : ℚ) < m - if m = 2 ^ 52 ∧ -1074 < q then 1 / 4 else 1 / 2 := by
    split <;> linarith
  exact (mul_pos hlow (by positivity)).trans_le h.low

theorem two_zpow_lt_ten_zpow : (2 : ℚ) ^ (1200 : Int) < 10 ^ (400 : Int) := by
  have height : (2 : ℚ) ^ (1200 : Int) = 8 ^ (400 : Int) := by
    rw [show (1200 : Int) = 3 * 400 by rfl, zpow_mul]
    norm_num
  rw [height]
  exact zpow_lt_zpow_left₀ (by norm_num) (by norm_num) (by norm_num)

theorem Near.bounds {v : ℚ} (h : Near m q v) (hc : Canonical m q) :
    (10 : ℚ) ^ (-400 : Int) < v ∧ v < 10 ^ (400 : Int) := by
  constructor
  · have hone : (1 : ℚ) ≤ m := by exact_mod_cast hc.pos
    have hhalf : (1 : ℚ) / 2 ≤ m - if m = 2 ^ 52 ∧ -1074 < q then 1 / 4 else 1 / 2 := by
      split <;> linarith
    have hlow := hc.low
    calc (10 : ℚ) ^ (-400 : Int) < 2 ^ (-1200 : Int) := by
          rw [zpow_neg, zpow_neg]
          exact inv_strictAnti₀ (by positivity) two_zpow_lt_ten_zpow
      _ ≤ 2 ^ (q - 1) := zpow_le_zpow_right₀ one_le_two (by omega)
      _ = 1 / 2 * 2 ^ q := by rw [zpow_sub_one₀ two_ne_zero]; ring
      _ ≤ (m - if m = 2 ^ 52 ∧ -1074 < q then 1 / 4 else 1 / 2) * 2 ^ q :=
        mul_le_mul_of_nonneg_right hhalf (by positivity)
      _ ≤ v := h.low
  · have hhigh := hc.high
    calc v < 2 ^ (q + 53) := hc.lt_of_near h
      _ ≤ 2 ^ (1200 : Int) := zpow_le_zpow_right₀ one_le_two (by omega)
      _ < 10 ^ (400 : Int) := two_zpow_lt_ten_zpow

theorem value_bounds {d : Decimal} (hd : d.digits ≠ 0) :
    (10 : ℚ) ^ ((Decimal.digitChars d.digits).length + d.exponent - 1) ≤ d.value ∧
      d.value < 10 ^ ((Decimal.digitChars d.digits).length + d.exponent) := by
  have hlength := List.length_pos_iff.2 (Decimal.digitChars_ne_nil d.digits)
  have hpos : (0 : ℚ) < 10 ^ d.exponent := by positivity
  have hten : (10 : ℚ) ≠ 0 := by norm_num
  have hlow : ((10 ^ ((Decimal.digitChars d.digits).length - 1) : Nat) : ℚ) ≤ d.digits := by
    exact_mod_cast Decimal.ten_pow_length_le hd
  have hhigh : (d.digits : ℚ) < (10 ^ (Decimal.digitChars d.digits).length : Nat) := by
    exact_mod_cast Decimal.lt_ten_pow_length d.digits
  constructor
  · have hsplit : ((Decimal.digitChars d.digits).length : Int) + d.exponent - 1 =
        ((Decimal.digitChars d.digits).length - 1 : Nat) + d.exponent := by omega
    rw [hsplit, zpow_add₀ hten, zpow_natCast, Decimal.value]
    exact mul_le_mul_of_nonneg_right (by exact_mod_cast hlow) hpos.le
  · rw [zpow_add₀ hten, zpow_natCast, Decimal.value]
    exact mul_lt_mul_of_pos_right (by exact_mod_cast hhigh) hpos

/-- A decimal is read as the double that it is near to. -/
theorem toFloat_eq (hc : Canonical m q) {d : Decimal} (h : Near m q d.value) :
    d.toFloat = .ofModel (.pack (.finite .positive m q hc.pos)) := by
  have hd : d.digits ≠ 0 := by
    intro hzero
    have hpos := h.pos hc.pos
    rw [Decimal.value, hzero, Nat.cast_zero, zero_mul] at hpos
    exact lt_irrefl _ hpos
  obtain ⟨hlow, hhigh⟩ := h.bounds hc
  obtain ⟨hbelow, habove⟩ := value_bounds hd
  have hten : (1 : ℚ) < 10 := by norm_num
  have hleast := (zpow_lt_zpow_iff_right₀ hten).1 (hlow.trans habove)
  have hmost := (zpow_lt_zpow_iff_right₀ hten).1 (hbelow.trans_lt hhigh)
  have hlength := List.length_pos_iff.2 (Decimal.digitChars_ne_nil d.digits)
  have hlog : (Decimal.digitChars d.digits).length - 1 ≤ d.digits.log2 := by
    rw [Nat.le_log2 hd]
    exact (Nat.pow_le_pow_left (by decide) _).trans (Decimal.ten_pow_length_le hd)
  unfold Decimal.toFloat
  simp only
  rw [if_neg (by simp only [Bool.or_eq_true, decide_eq_true_eq]; omega), if_neg (by omega)]
  exact float_ofScientific_eq hc (Nat.pos_of_ne_zero hd) h (by omega) (by omega)

end Binary64

end QuantumRelay
