import Mathlib

/-!
# Rounding to doubles

A double is `m * 2 ^ q` in one way (`Canonical`), and the numbers that are rounded to it fill an interval
around it (`Near`). Rounding drops the low bits of a mantissa and keeps two of them, the round bit and the
sticky bit, which tell where between two whole numbers the exact one lies (`Tells`). That is enough to get
the right double (`roundWithAccuracy_eq`).
-/

namespace QuantumRelay.Binary64

open Float.Model Float.Model.UnpackedFloat
open ExtendedMantissa (ofMantissaAndAccuracy)

/-! ### Residual bits -/

/-- What a mantissa and its two residual bits tell of the number that they were cut off from. -/
inductive Tells : ExtendedMantissa → ℚ → Prop where
  | exact (m : Nat) : Tells ⟨m, false, false⟩ m
  | low (m : Nat) {v : ℚ} : m < v → v < m + 1 / 2 → Tells ⟨m, false, true⟩ v
  | half (m : Nat) : Tells ⟨m, true, false⟩ (m + 1 / 2)
  | high (m : Nat) {v : ℚ} : m + 1 / 2 < v → v < m + 1 → Tells ⟨m, true, true⟩ v

theorem Tells.bounds {em : ExtendedMantissa} {v : ℚ} (h : Tells em v) :
    em.mantissa ≤ v ∧ v < em.mantissa + 1 := by
  cases h <;> constructor <;> dsimp only <;> linarith

theorem tells_even {k : Nat} {round sticky : Bool} {v : ℚ} (h : Tells ⟨2 * k, round, sticky⟩ v) :
    Tells ⟨k, false, round || sticky⟩ (v / 2) := by
  cases h with
  | exact =>
    have hv : ((2 * k : Nat) : ℚ) / 2 = k := by push_cast; ring
    rw [hv]
    exact .exact k
  | low _ hlow hhigh =>
    push_cast at hlow hhigh
    exact .low k (by linarith) (by linarith)
  | half =>
    push_cast
    exact .low k (by linarith) (by linarith)
  | high _ hlow hhigh =>
    push_cast at hlow hhigh
    exact .low k (by linarith) (by linarith)

theorem tells_odd {k : Nat} {round sticky : Bool} {v : ℚ}
    (h : Tells ⟨2 * k + 1, round, sticky⟩ v) : Tells ⟨k, true, round || sticky⟩ (v / 2) := by
  cases h with
  | exact =>
    have hv : ((2 * k + 1 : Nat) : ℚ) / 2 = k + 1 / 2 := by push_cast; ring
    rw [hv]
    exact .half k
  | low _ hlow hhigh =>
    push_cast at hlow hhigh
    exact .high k (by linarith) (by linarith)
  | half =>
    push_cast
    exact .high k (by linarith) (by linarith)
  | high _ hlow hhigh =>
    push_cast at hlow hhigh
    exact .high k (by linarith) (by linarith)

theorem Tells.shiftRightOne {em : ExtendedMantissa} {v : ℚ} (h : Tells em v) :
    Tells em.shiftRightOne (v / 2) := by
  obtain ⟨m, round, sticky⟩ := em
  obtain ⟨k, rfl | rfl⟩ := Nat.even_or_odd' m
  · have hshift : ExtendedMantissa.shiftRightOne ⟨2 * k, round, sticky⟩ =
        ⟨k, false, round || sticky⟩ := by simp [ExtendedMantissa.shiftRightOne]
    rw [hshift]
    exact tells_even h
  · have hshift : ExtendedMantissa.shiftRightOne ⟨2 * k + 1, round, sticky⟩ =
        ⟨k, true, round || sticky⟩ := by
      simp [ExtendedMantissa.shiftRightOne]
      omega
    rw [hshift]
    exact tells_odd h

theorem Tells.shiftRight {em : ExtendedMantissa} {v : ℚ} (h : Tells em v) (n : Nat) :
    Tells (em >>> n) (v / 2 ^ n) := by
  induction n with
  | zero =>
    rw [pow_zero, div_one]
    exact h
  | succ n ih =>
    rw [pow_succ, ← div_div]
    exact ih.shiftRightOne

/-- The whole number that a number is rounded to: the nearest one, of two the even one. -/
structure RoundsTo (v : ℚ) (n : Nat) : Prop where
  low : (n : ℚ) - 1 / 2 ≤ v
  high : v ≤ n + 1 / 2
  tie : n % 2 = 1 → (n : ℚ) - 1 / 2 < v ∧ v < n + 1 / 2

theorem Tells.roundedMantissa {em : ExtendedMantissa} {v : ℚ} (h : Tells em v) {n : Nat}
    (hv : RoundsTo v n) : em.roundedMantissa = n := by
  obtain ⟨hlow, hhigh, htie⟩ := hv
  cases h with
  | exact m =>
    show m = n
    have h₁ : (n : ℚ) < m + 1 := by linarith
    have h₂ : (m : ℚ) < n + 1 := by linarith
    norm_cast at h₁ h₂
    omega
  | low m hm hm' =>
    show m = n
    have h₁ : (n : ℚ) < m + 1 := by linarith
    have h₂ : (m : ℚ) < n + 1 := by linarith
    norm_cast at h₁ h₂
    omega
  | half m =>
    show m + m % 2 = n
    have h₁ : (n : ℚ) ≤ m + 1 := by linarith
    have h₂ : (m : ℚ) ≤ n := by linarith
    norm_cast at h₁ h₂
    -- an odd number takes neither half beside it
    rcases Nat.mod_two_eq_zero_or_one n with heven | hodd
    · omega
    · obtain ⟨htie, htie'⟩ := htie hodd
      have h₃ : (n : ℚ) < m + 1 := by linarith
      have h₄ : (m : ℚ) < n := by linarith
      norm_cast at h₃ h₄
      omega
  | high m hm hm' =>
    show m + 1 = n
    have h₁ : (n : ℚ) < m + 2 := by linarith
    have h₂ : (m : ℚ) < n := by linarith
    norm_cast at h₁ h₂
    omega

theorem mantissa_ofMantissaAndAccuracy (n : Nat) (acc : Accuracy) :
    (ofMantissaAndAccuracy n acc).mantissa = n := by
  cases acc with
  | exact => rfl
  | inexact o => cases o <;> rfl

theorem tells_fraction {num den : Nat} (hden : 0 < den) :
    Tells (ofMantissaAndAccuracy (num / den) (accuracyOfFraction (num % den) den))
      ((num : ℚ) / den) := by
  have hpos : (0 : ℚ) < den := by exact_mod_cast hden
  have hsplit : (num : ℚ) / den = (num / den : Nat) + (num % den : Nat) / den := by
    have hnum : (num : ℚ) = den * (num / den : Nat) + (num % den : Nat) := by
      exact_mod_cast (Nat.div_add_mod num den).symm
    rw [div_eq_iff hpos.ne', add_mul, div_mul_cancel₀ _ hpos.ne', mul_comm _ (den : ℚ)]
    exact hnum
  have hlt : ((num % den : Nat) : ℚ) / den < 1 := by
    rw [div_lt_one hpos]
    exact_mod_cast Nat.mod_lt num hden
  rw [hsplit, accuracyOfFraction]
  generalize num / den = m at *
  generalize num % den = r at *
  by_cases hzero : r = 0
  · rw [if_pos hzero, hzero, Nat.cast_zero, zero_div, add_zero]
    exact .exact m
  have hfraction : 0 < (r : ℚ) / den := div_pos (by exact_mod_cast Nat.pos_of_ne_zero hzero) hpos
  rw [if_neg hzero]
  rcases lt_trichotomy (2 * r) den with h | h | h
  · rw [Nat.compare_eq_lt.2 h]
    have hhalf : (r : ℚ) / den < 1 / 2 := by
      rw [div_lt_div_iff₀ hpos two_pos]
      exact_mod_cast (by omega : r * 2 < 1 * den)
    exact .low m (by linarith) (by linarith)
  · rw [Nat.compare_eq_eq.2 h]
    have hhalf : (r : ℚ) / den = 1 / 2 := by
      rw [div_eq_div_iff hpos.ne' two_ne_zero]
      exact_mod_cast (by omega : r * 2 = 1 * den)
    rw [hhalf]
    exact .half m
  · rw [Nat.compare_eq_gt.2 h]
    have hhalf : 1 / 2 < (r : ℚ) / den := by
      rw [div_lt_div_iff₀ two_pos hpos]
      exact_mod_cast (by omega : 1 * den < r * 2)
    exact .high m (by linarith) (by linarith)

/-! ### Doubles -/

/-- A finite, non-zero magnitude as it is stored. -/
structure Canonical (m : Nat) (q : Int) : Prop where
  pos : 0 < m
  lt : m < 2 ^ 53
  low : -1074 ≤ q
  high : q ≤ 971
  normal : q = -1074 ∨ 2 ^ 52 ≤ m

/-- The numbers that are rounded to `m * 2 ^ q`. The double below it is only half as far away if `m` is
the least mantissa of a full size. -/
structure Near (m : Nat) (q : Int) (v : ℚ) : Prop where
  low : (m - if m = 2 ^ 52 ∧ -1074 < q then 1 / 4 else 1 / 2) * 2 ^ q ≤ v
  high : v ≤ (m + 1 / 2) * 2 ^ q
  tie : m % 2 = 1 → (m - 1 / 2) * 2 ^ q < v ∧ v < (m + 1 / 2) * 2 ^ q

theorem targetExponent_eq (e : Int) :
    Format.binary64.targetExponent e = max (e - 53) (-1074) := rfl

theorem lt_totalExponent {m : Nat} {e : Int} {w : ℚ} (h : w < m + 1) :
    w * 2 ^ e < 2 ^ totalExponent m e := by
  have hm : (m : ℚ) + 1 ≤ 2 ^ ((m.log2 : Int) + 1) := by
    exact_mod_cast (Nat.lt_log2_self : m < 2 ^ (m.log2 + 1))
  rw [totalExponent, zpow_add₀ two_ne_zero]
  exact mul_lt_mul_of_pos_right (h.trans_le hm) (by positivity)

theorem totalExponent_le {m : Nat} {e : Int} {w : ℚ} (hm : m ≠ 0) (h : m ≤ w) :
    2 ^ (totalExponent m e - 1) ≤ w * 2 ^ e := by
  have hlog : (2 : ℚ) ^ (m.log2 : Int) ≤ m := by exact_mod_cast Nat.log2_self_le hm
  have hsplit : totalExponent m e - 1 = m.log2 + e := by
    rw [totalExponent]
    ring
  rw [hsplit, zpow_add₀ two_ne_zero]
  exact mul_le_mul_of_nonneg_right (hlog.trans h) (by positivity)

section

variable {m : Nat} {q : Int} {v : ℚ}

theorem Canonical.lt_of_near (hc : Canonical m q) (h : Near m q v) : v < 2 ^ (q + 53) := by
  have hpow : (2 : ℚ) ^ (53 : Int) = 9007199254740992 := by norm_num
  have hlt := hc.lt
  have hm : (m : ℚ) + 1 ≤ 9007199254740992 := by
    exact_mod_cast (by omega : m + 1 ≤ 9007199254740992)
  rw [zpow_add₀ two_ne_zero, mul_comm, hpow]
  exact h.high.trans_lt (mul_lt_mul_of_pos_right (by linarith) (by positivity))

/-- A number near a double with a mantissa of full size is at most one power of two below it, and none
unless the mantissa is the least one. -/
theorem Near.gt (h : Near m q v) (hm : 2 ^ 52 ≤ m) :
    2 ^ (q + 51) < v ∧ (m ≠ 2 ^ 52 → 2 ^ (q + 52) < v) := by
  have hpos : (0 : ℚ) < 2 ^ q := by positivity
  have hpow : (2 : ℚ) ^ (51 : Int) = 2251799813685248 := by norm_num
  have hpow' : (2 : ℚ) ^ (52 : Int) = 4503599627370496 := by norm_num
  have hhalf : (if m = 2 ^ 52 ∧ -1074 < q then (1 : ℚ) / 4 else 1 / 2) ≤ 1 / 2 := by
    split <;> norm_num
  rw [zpow_add₀ two_ne_zero, zpow_add₀ two_ne_zero, mul_comm, mul_comm (2 ^ q), hpow, hpow']
  refine ⟨lt_of_lt_of_le (mul_lt_mul_of_pos_right ?_ hpos) h.low, fun hne =>
    lt_of_lt_of_le (mul_lt_mul_of_pos_right ?_ hpos) h.low⟩
  · have hcast : (4503599627370496 : ℚ) ≤ m := by exact_mod_cast hm
    linarith
  · have hcast : (4503599627370497 : ℚ) ≤ m := by
      exact_mod_cast (by omega : 4503599627370497 ≤ m)
    linarith

/-- The exponent that a mantissa is cut off at is that of the double, but for a number below the least
mantissa of a full size, which is cut off one bit further down. -/
theorem Canonical.targetExponent (hc : Canonical m q) {n : Nat} {e : Int} {w : ℚ}
    (hlow : n ≤ w) (hhigh : w < n + 1) (h : Near m q (w * 2 ^ e))
    (he : e ≤ Format.binary64.targetExponent (totalExponent n e)) :
    Format.binary64.targetExponent (totalExponent n e) = q ∨
      Format.binary64.targetExponent (totalExponent n e) = q - 1 ∧ m = 2 ^ 52 ∧ -1074 < q := by
  have hbelow := lt_totalExponent (e := e) hhigh
  have hle : Format.binary64.targetExponent (totalExponent n e) ≤ q := by
    rw [targetExponent_eq] at he ⊢
    have hq := hc.low
    by_cases hn : n = 0
    · subst hn
      rw [totalExponent, Nat.log2_zero] at he ⊢
      omega
    · have hlt := (totalExponent_le hn hlow).trans_lt (hc.lt_of_near h)
      rw [zpow_lt_zpow_iff_right₀ one_lt_two] at hlt
      omega
  rw [targetExponent_eq] at hle ⊢
  rcases hc.normal with rfl | hm
  · left
    omega
  · obtain ⟨habove, habove'⟩ := h.gt hm
    have hlt := habove.trans hbelow
    rw [zpow_lt_zpow_iff_right₀ one_lt_two] at hlt
    by_cases hleast : m = 2 ^ 52
    · have hq := hc.low
      omega
    · left
      have hlt := (habove' hleast).trans hbelow
      rw [zpow_lt_zpow_iff_right₀ one_lt_two] at hlt
      omega

theorem Near.roundsTo (h : Near m q v) : RoundsTo (v / 2 ^ q) m := by
  have hpos : (0 : ℚ) < 2 ^ q := by positivity
  have hhalf : (if m = 2 ^ 52 ∧ -1074 < q then (1 : ℚ) / 4 else 1 / 2) ≤ 1 / 2 := by
    split <;> norm_num
  refine ⟨?_, (div_le_iff₀ hpos).2 h.high, fun hodd => ?_⟩
  · rw [le_div_iff₀ hpos]
    exact (mul_le_mul_of_nonneg_right (by linarith) hpos.le).trans h.low
  · exact ⟨(lt_div_iff₀ hpos).2 (h.tie hodd).1, (div_lt_iff₀ hpos).2 (h.tie hodd).2⟩

theorem Near.roundsTo_below (h : Near (2 ^ 52) q v) (hq : -1074 < q) (hv : v < 2 ^ (q + 52)) :
    RoundsTo (v / 2 ^ (q - 1)) (2 ^ 53) := by
  have hpos : (0 : ℚ) < 2 ^ (q - 1) := by positivity
  have hdouble : (2 : ℚ) ^ q = 2 ^ (q - 1) * 2 := by
    rw [← zpow_add_one₀ two_ne_zero, sub_add_cancel]
  refine ⟨?_, ?_, fun hodd => by omega⟩
  · have hlow := h.low
    rw [if_pos ⟨rfl, hq⟩, hdouble] at hlow
    rw [le_div_iff₀ hpos]
    refine le_trans (le_of_eq ?_) hlow
    push_cast
    ring
  · have hpow : (2 : ℚ) ^ (q + 52) = 2 ^ 53 * 2 ^ (q - 1) := by
      rw [← zpow_natCast, ← zpow_add₀ two_ne_zero]
      congr 1
      push_cast
      ring
    rw [div_le_iff₀ hpos]
    rw [hpow] at hv
    refine hv.le.trans (mul_le_mul_of_nonneg_right ?_ hpos.le)
    push_cast
    linarith

theorem shiftToTargetExponent_eq {n : Nat} {e t : Int} {acc : Accuracy}
    (ht : Format.binary64.targetExponent (totalExponent n e) = t) (he : e ≤ t) :
    shiftToTargetExponent Format.binary64 n e acc =
      (ofMantissaAndAccuracy n acc >>> (t - e).toNat, t) := by
  have hsum : e + (t - e).toNat = t := by omega
  unfold shiftToTargetExponent shiftToExponent
  simp only [ht, hsum]

theorem tells_shifted {n : Nat} {e t : Int} {acc : Accuracy} {w : ℚ}
    (h : Tells (ofMantissaAndAccuracy n acc) w) (he : e ≤ t) :
    Tells (ofMantissaAndAccuracy n acc >>> (t - e).toNat) (w * 2 ^ e / 2 ^ t) := by
  have hpow : (2 : ℚ) ^ t = 2 ^ (t - e).toNat * 2 ^ e := by
    rw [← zpow_natCast, Int.toNat_of_nonneg (by omega), ← zpow_add₀ two_ne_zero, sub_add_cancel]
  rw [hpow, mul_div_mul_right _ _ (by positivity)]
  exact h.shiftRight _

theorem Canonical.shiftToTargetExponent_self (hc : Canonical m q) :
    shiftToTargetExponent Format.binary64 m q .exact = (⟨m, false, false⟩, q) := by
  have hlog := (Nat.log2_lt hc.pos.ne').2 hc.lt
  have hlow := hc.low
  have ht : (Format.binary64.targetExponent (totalExponent m q) - q).toNat = 0 := by
    rw [targetExponent_eq, totalExponent]
    omega
  unfold shiftToTargetExponent shiftToExponent
  simp only [ht, Int.natCast_zero, add_zero]
  rfl

theorem shiftToTargetExponent_carry (hq : -1074 < q) :
    shiftToTargetExponent Format.binary64 (2 ^ 53) (q - 1) .exact =
      (⟨2 ^ 52, false, false⟩, q) := by
  have ht : Format.binary64.targetExponent (totalExponent (2 ^ 53) (q - 1)) = q := by
    rw [targetExponent_eq, totalExponent, Nat.log2_two_pow]
    omega
  have hone : (q - (q - 1)).toNat = 1 := by omega
  rw [shiftToTargetExponent_eq ht (by omega), hone]
  rfl

theorem roundWithAccuracy_of_shifts (sign : Sign) {n k : Nat} {e t : Int} {acc : Accuracy}
    {em : ExtendedMantissa} (hfirst : shiftToTargetExponent Format.binary64 n e acc = (em, t))
    (hrounded : em.roundedMantissa = k) (hm : 0 < m)
    (hsecond : shiftToTargetExponent Format.binary64 k t .exact = (⟨m, false, false⟩, q)) :
    roundWithAccuracy Format.binary64 sign n e acc = .finite sign m q hm := by
  unfold roundWithAccuracy
  simp only [hfirst, hrounded, hsecond]
  rw [dif_neg hm.ne']

/-- Rounding finds the double that a number is near to, if it does not start with too few bits. -/
theorem roundWithAccuracy_eq (hc : Canonical m q) (sign : Sign) {n : Nat} {e : Int}
    {acc : Accuracy} {w : ℚ} (hw : Tells (ofMantissaAndAccuracy n acc) w)
    (h : Near m q (w * 2 ^ e))
    (he : e ≤ Format.binary64.targetExponent (totalExponent n e)) :
    roundWithAccuracy Format.binary64 sign n e acc = .finite sign m q hc.pos := by
  obtain ⟨hlow, hhigh⟩ := hw.bounds
  rw [mantissa_ofMantissaAndAccuracy] at hlow hhigh
  rcases hc.targetExponent hlow hhigh h he with ht | ⟨ht, rfl, hq⟩
  · rw [ht] at he
    exact roundWithAccuracy_of_shifts sign (shiftToTargetExponent_eq ht he)
      ((tells_shifted hw he).roundedMantissa h.roundsTo) hc.pos hc.shiftToTargetExponent_self
  · have hbelow : w * 2 ^ e < 2 ^ (q + 52) := by
      refine (lt_totalExponent hhigh).trans_le ?_
      rw [zpow_le_zpow_iff_right₀ one_lt_two]
      rw [targetExponent_eq] at ht
      omega
    rw [ht] at he
    exact roundWithAccuracy_of_shifts sign (shiftToTargetExponent_eq ht he)
      ((tells_shifted hw he).roundedMantissa (h.roundsTo_below hq hbelow)) hc.pos
      (shiftToTargetExponent_carry hq)

end

end QuantumRelay.Binary64
