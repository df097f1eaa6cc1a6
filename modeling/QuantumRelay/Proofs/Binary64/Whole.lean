import QuantumRelay.Proofs.Binary64.Decimals

/-!
# Whole numbers as doubles

Every whole number of 64 bits is near to a double (`exists_near`), so it is converted to a finite one
(`isFinite_ofNat`). A finite double stays so when its sign is changed (`isFinite_neg`).
-/

namespace QuantumRelay.Binary64

open Float.Model Float.Model.UnpackedFloat

variable {m : Nat} {q : Int}

/-! ### Rounding -/

theorem near_cut {c s : Nat} {r : ℚ} (hr : 0 ≤ r) (hhalf : 2 * r ≤ 2 ^ s)
    (htie : c % 2 = 1 → 2 * r < 2 ^ s) : Near c s (c * 2 ^ s + r) := by
  have hpos : (0 : ℚ) < 2 ^ s := by positivity
  refine ⟨?_, ?_, fun hodd => ⟨?_, ?_⟩⟩
  · rw [zpow_natCast]
    split <;> linarith
  · rw [zpow_natCast]
    linarith
  · rw [zpow_natCast]
    linarith
  · have hless := htie hodd
    rw [zpow_natCast]
    linarith

theorem near_succ {c s : Nat} {r : ℚ} (hc : 2 ^ 52 ≤ c) (hr : r < 2 ^ s) (hhalf : 2 ^ s ≤ 2 * r)
    (htie : (c + 1) % 2 = 1 → 2 ^ s < 2 * r) : Near (c + 1) s (c * 2 ^ s + r) := by
  have hne : ¬(c + 1 = 2 ^ 52 ∧ (-1074 : Int) < s) := by omega
  refine ⟨?_, ?_, fun hodd => ⟨?_, ?_⟩⟩
  · rw [if_neg hne, zpow_natCast]
    push_cast
    linarith
  · rw [zpow_natCast]
    push_cast
    linarith
  · have hmore := htie hodd
    rw [zpow_natCast]
    push_cast
    linarith
  · rw [zpow_natCast]
    push_cast
    linarith

theorem near_carry {s : Nat} {r : ℚ} (hr : r < 2 ^ s) (hhalf : 2 ^ s ≤ 2 * r) :
    Near (2 ^ 52) (s + 1) ((2 ^ 53 - 1) * 2 ^ s + r) := by
  refine ⟨?_, ?_, fun hodd => absurd hodd (by decide)⟩
  · rw [if_pos ⟨rfl, by omega⟩, zpow_add_one₀ two_ne_zero, zpow_natCast]
    push_cast
    linarith
  · rw [zpow_add_one₀ two_ne_zero, zpow_natCast]
    push_cast
    linarith

theorem exists_near_shifted {c r s : Nat} (hlow : 2 ^ 52 ≤ c) (hhigh : c < 2 ^ 53)
    (hr : r < 2 ^ s) (hs : s ≤ 970) :
    ∃ m q, Canonical m q ∧ Near m q ((c * 2 ^ s + r : Nat) : ℚ) := by
  have hrest : (r : ℚ) < 2 ^ s := by exact_mod_cast hr
  have hvalue : ((c * 2 ^ s + r : Nat) : ℚ) = c * 2 ^ s + r := by push_cast; rfl
  rw [hvalue]
  by_cases hup : 2 ^ s < 2 * r ∨ 2 ^ s = 2 * r ∧ c % 2 = 1
  · have hhalf : (2 : ℚ) ^ s ≤ 2 * r := by
      have : 2 ^ s ≤ 2 * r := by omega
      exact_mod_cast this
    by_cases hcarry : c + 1 = 2 ^ 53
    · have hc : (c : ℚ) = 2 ^ 53 - 1 := by
        rw [eq_sub_iff_add_eq]
        exact_mod_cast hcarry
      rw [hc]
      exact ⟨2 ^ 52, s + 1, ⟨by positivity, by omega, by omega, by omega, .inr le_rfl⟩,
        near_carry hrest hhalf⟩
    · refine ⟨c + 1, s, ⟨by omega, by omega, by omega, by omega, .inr (by omega)⟩,
        near_succ hlow hrest hhalf fun hodd => ?_⟩
      have : 2 ^ s < 2 * r := by omega
      exact_mod_cast this
  · have hhalf : 2 * r ≤ 2 ^ s := by omega
    refine ⟨c, s, ⟨by omega, hhigh, by omega, by omega, .inr hlow⟩,
      near_cut (Nat.cast_nonneg r) (by exact_mod_cast hhalf) fun hodd => ?_⟩
    have : 2 * r < 2 ^ s := by omega
    exact_mod_cast this

/-- Every whole number of 64 bits is near to a double. -/
theorem exists_near {n : Nat} (hpos : 0 < n) (hlt : n < 2 ^ 64) :
    ∃ m q, Canonical m q ∧ Near m q n := by
  by_cases hsmall : n < 2 ^ 53
  · obtain ⟨m, q, hc, -, hvalue⟩ := exists_canonical hpos hsmall (k := 0) (by omega)
    rw [pow_zero, Nat.mul_one] at hvalue
    exact ⟨m, q, hc, hvalue ▸ near_self m q⟩
  · have hlog : 53 ≤ n.log2 := (Nat.le_log2 hpos.ne').2 (not_lt.1 hsmall)
    have hlog' : n.log2 < 64 := (Nat.log2_lt hpos.ne').2 hlt
    have hsum : n.log2 = 52 + (n.log2 - 52) := by omega
    have hlow : 2 ^ 52 ≤ n / 2 ^ (n.log2 - 52) := by
      rw [Nat.le_div_iff_mul_le (by positivity), ← pow_add, ← hsum]
      exact Nat.log2_self_le hpos.ne'
    have hhigh : n / 2 ^ (n.log2 - 52) < 2 ^ 53 := by
      rw [Nat.div_lt_iff_lt_mul (by positivity), ← pow_add]
      exact lt_of_lt_of_eq Nat.lt_log2_self (congrArg _ (by omega))
    have hnear := exists_near_shifted hlow hhigh (Nat.mod_lt n (by positivity))
      (show n.log2 - 52 ≤ 970 by omega)
    rwa [Nat.div_add_mod'] at hnear

/-! ### Finite doubles -/

theorem Canonical.isFinite_pack (hc : Canonical m q) (sign : Sign) :
    (Float.ofModel (.pack (.finite sign m q hc.pos))).isFinite = true := by
  show (Float.Model.unpack _).isFinite = true
  rw [hc.unpack_pack sign]
  rfl

theorem isFinite_ofNat {n : Nat} (h : n < 2 ^ 64) : (Float.ofNat n).isFinite = true := by
  obtain rfl | hpos := Nat.eq_zero_or_pos n
  · rfl
  · obtain ⟨m, q, hc, hnear⟩ := exists_near hpos h
    have hvalue : Near m q (Decimal.value ⟨n, 0⟩) := by
      rwa [Decimal.value, zpow_zero, mul_one]
    have heq := float_ofScientific_eq hc (d := ⟨n, 0⟩) hpos hvalue
      (show (0 : Int) ≤ 2048 by decide) (by dsimp only; omega)
    have hnat : Float.ofNat n = .ofModel (.pack (.finite .positive m q hc.pos)) := heq
    rw [hnat]
    exact hc.isFinite_pack .positive

theorem isFinite_neg {x : Float} (h : x.isFinite = true) : (-x).isFinite = true := by
  by_cases hm : (Binary.ofFloat x).mantissa = 0
  · rw [eq_zero_of_magnitude hm]
    split <;> rfl
  · have hc := canonical_ofFloat h hm
    rw [eq_of_magnitude h hm]
    show (Float.ofModel (.pack (Float.Model.unpack _).neg)).isFinite = true
    rw [hc.unpack_pack]
    exact hc.isFinite_pack _

end QuantumRelay.Binary64
