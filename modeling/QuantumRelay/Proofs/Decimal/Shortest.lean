import QuantumRelay.Decimal.Shortest
import QuantumRelay.Proofs.Binary64.Decimals
import Mathlib.Tactic.FieldSimp

/-!
# The shortest decimal rounds to its double

`shortest b` is near to `b` (`near_shortest`). Each decimal that is tested lies in the rounding interval
(`Window.hits_of_nearest?`), and with seventeen digits there always is one (`exists_nearest?_seventeen`).
-/

namespace QuantumRelay.Decimal

open Binary64 (Near Canonical)

/-! ### Grid points -/

namespace Window

/-- Whether a grid point lies in the rounding interval. -/
structure Hits (w : Window) (c : Nat) : Prop where
  low : w.low < c * w.unit ∨ w.closed = true ∧ w.low = c * w.unit
  high : c * w.unit < w.high ∨ w.closed = true ∧ c * w.unit = w.high

variable {w : Window} {c : Nat}

theorem hits_below (hhigh : w.value < w.high)
    (h : (w.low < w.value / w.unit * w.unit || (w.closed && w.low = w.value / w.unit * w.unit)) =
      true) : w.Hits (w.value / w.unit) := by
  have hle := Nat.div_mul_le_self w.value w.unit
  simp only [Bool.or_eq_true, Bool.and_eq_true, decide_eq_true_eq] at h
  exact ⟨h, .inl (hle.trans_lt hhigh)⟩

theorem hits_above (hunit : 0 < w.unit) (hlow : w.low < w.value)
    (h : ((w.value / w.unit + 1) * w.unit < w.high ||
      (w.closed && (w.value / w.unit + 1) * w.unit = w.high)) = true) :
    w.Hits (w.value / w.unit + 1) := by
  have hlt : w.value < (w.value / w.unit + 1) * w.unit :=
    (Nat.div_lt_iff_lt_mul hunit).1 (Nat.lt_succ_self _)
  simp only [Bool.or_eq_true, Bool.and_eq_true, decide_eq_true_eq] at h
  exact ⟨.inl (hlow.trans hlt), h⟩

theorem hits_of_nearest? (hunit : 0 < w.unit) (hlow : w.low < w.value) (hhigh : w.value < w.high)
    (h : w.nearest? = some c) : w.Hits c := by
  unfold nearest? at h
  simp only at h
  split at h
  · cases h
  · next hbelow _ =>
    obtain rfl := Option.some.inj h
    exact hits_below hhigh hbelow
  · next _ habove =>
    obtain rfl := Option.some.inj h
    exact hits_above hunit hlow habove
  · next hbelow habove =>
    have hboth : c = w.value / w.unit ∨ c = w.value / w.unit + 1 := by
      split at h
      · exact .inl (Option.some.inj h).symm
      split at h
      · exact .inr (Option.some.inj h).symm
      split at h
      · exact .inl (Option.some.inj h).symm
      · exact .inr (Option.some.inj h).symm
    rcases hboth with rfl | rfl
    · exact hits_below hhigh hbelow
    · exact hits_above hunit hlow habove

theorem exists_nearest? (h : w.low < w.value / w.unit * w.unit ∨
    (w.value / w.unit + 1) * w.unit < w.high) : ∃ c, w.nearest? = some c := by
  unfold nearest?
  simp only
  split
  · next hbelow habove =>
    simp only [Bool.or_eq_false_iff, decide_eq_false_iff_not] at hbelow habove
    exact (h.elim hbelow.1 habove.1).elim
  · exact ⟨_, rfl⟩
  · exact ⟨_, rfl⟩
  · split
    · exact ⟨_, rfl⟩
    split
    · exact ⟨_, rfl⟩
    split
    · exact ⟨_, rfl⟩
    · exact ⟨_, rfl⟩

end Window

/-! ### Windows of doubles -/

/-- What `Binary.ofFloat` says of a finite double that is not zero. -/
structure Sound (b : Binary) : Prop where
  canonical : Canonical b.mantissa b.exponent
  narrow : b.narrowBelow = true ↔ b.mantissa = 2 ^ 52 ∧ -1074 < b.exponent

def magnitude (b : Binary) : ℚ := b.mantissa * 2 ^ b.exponent

variable {b : Binary}

theorem zpow_eq_div {a : ℚ} (ha : a ≠ 0) (n : Int) : a ^ n = a ^ n.toNat / a ^ (-n).toNat := by
  rw [← zpow_natCast, ← zpow_natCast, ← zpow_sub₀ ha]
  congr 1
  omega

theorem unit_pos (b : Binary) (p : Int) : 0 < (window b p).unit :=
  Nat.mul_pos (Nat.two_pow_pos _) (Nat.pow_pos (by decide))

theorem exists_scale (b : Binary) (p : Int) : ∃ r : ℚ, 0 < r ∧
    (∀ x : Nat, ((x * (twoTo (b.exponent - 2).toNat * tenTo (-p).toNat) : Nat) : ℚ) =
      x / 4 * 2 ^ b.exponent * r) ∧
    ∀ c : Nat, ((c * (window b p).unit : Nat) : ℚ) = c * 10 ^ p * r := by
  have hten : (10 : ℚ) ≠ 0 := by norm_num
  have hunit : ((window b p).unit : ℚ) = 2 ^ (2 - b.exponent).toNat * 10 ^ p.toNat := by
    show ((2 ^ (2 - b.exponent).toNat * 10 ^ p.toNat : Nat) : ℚ) = _
    push_cast
    rfl
  have hpos : (0 : ℚ) < (window b p).unit := by
    rw [hunit]
    positivity
  refine ⟨(window b p).unit / 10 ^ p, by positivity, fun x => ?_, fun c => ?_⟩
  · have hup : ((twoTo (b.exponent - 2).toNat * tenTo (-p).toNat : Nat) : ℚ) =
        2 ^ (b.exponent - 2) * 10 ^ (-p) * (window b p).unit := by
      show ((2 ^ (b.exponent - 2).toNat * 10 ^ (-p).toNat : Nat) : ℚ) = _
      rw [zpow_eq_div two_ne_zero, zpow_eq_div hten, neg_neg, neg_sub, hunit]
      push_cast
      field_simp
    rw [Nat.cast_mul, hup, zpow_sub₀ two_ne_zero, zpow_neg]
    norm_num
    ring
  · rw [Nat.cast_mul]
    field_simp

/-- A window in numbers: it is scaled by one factor. -/
structure Scaled (b : Binary) (p : Int) (r : ℚ) : Prop where
  pos : 0 < r
  low : ((window b p).low : ℚ) =
    (b.mantissa - if b.mantissa = 2 ^ 52 ∧ -1074 < b.exponent then 1 / 4 else 1 / 2) *
      2 ^ b.exponent * r
  value : ((window b p).value : ℚ) = b.mantissa * 2 ^ b.exponent * r
  high : ((window b p).high : ℚ) = (b.mantissa + 1 / 2) * 2 ^ b.exponent * r
  point : ∀ c : Nat, ((c * (window b p).unit : Nat) : ℚ) = c * 10 ^ p * r

theorem exists_scaled (hb : Sound b) (p : Int) : ∃ r, Scaled b p r := by
  obtain ⟨r, hr, hup, hunit⟩ := exists_scale b p
  have hpos := hb.canonical.pos
  refine ⟨r, hr, ?_, ?_, ?_, hunit⟩
  · have hlow := hup (4 * b.mantissa - if b.narrowBelow then 1 else 2)
    refine hlow.trans ?_
    congr 2
    by_cases hnarrow : b.narrowBelow = true
    · rw [if_pos hnarrow, if_pos (hb.narrow.1 hnarrow), Nat.cast_sub (by omega)]
      push_cast
      ring
    · rw [if_neg hnarrow, if_neg fun h => hnarrow (hb.narrow.2 h), Nat.cast_sub (by omega)]
      push_cast
      ring
  · refine (hup (4 * b.mantissa)).trans ?_
    push_cast
    ring
  · refine (hup (4 * b.mantissa + 2)).trans ?_
    push_cast
    ring

theorem near_of_hits (hb : Sound b) {p : Int} {c : Nat} (h : (window b p).Hits c) :
    Near b.mantissa b.exponent (c * 10 ^ p) := by
  obtain ⟨r, hr, hlow, -, hhigh, hpoint⟩ := exists_scaled hb p
  obtain ⟨hbelow, habove⟩ := h
  refine ⟨?_, ?_, fun hodd => ?_⟩
  · rw [← mul_le_mul_iff_left₀ hr, ← hlow, ← hpoint]
    exact_mod_cast hbelow.elim le_of_lt fun h => h.2.le
  · rw [← mul_le_mul_iff_left₀ hr, ← hhigh, ← hpoint]
    exact_mod_cast habove.elim le_of_lt fun h => h.2.le
  · have hopen : ¬(window b p).closed = true := by
      show ¬decide (b.mantissa % 2 = 0) = true
      simp [hodd]
    have hfull : ¬(b.mantissa = 2 ^ 52 ∧ -1074 < b.exponent) := fun h => by omega
    rw [if_neg hfull] at hlow
    constructor
    · rw [← mul_lt_mul_iff_left₀ hr, ← hlow, ← hpoint]
      exact_mod_cast hbelow.resolve_right fun h => hopen h.1
    · rw [← mul_lt_mul_iff_left₀ hr, ← hhigh, ← hpoint]
      exact_mod_cast habove.resolve_right fun h => hopen h.1

theorem near_of_nearest? (hb : Sound b) {p : Int} {c : Nat} (h : (window b p).nearest? = some c) :
    Near b.mantissa b.exponent (c * 10 ^ p) := by
  obtain ⟨r, hr, hlow, hvalue, hhigh, hpoint⟩ := exists_scaled hb p
  have hpos : (0 : ℚ) < 2 ^ b.exponent * r := by positivity
  refine near_of_hits hb (Window.hits_of_nearest? (unit_pos b p) ?_ ?_ h)
  · have hlt : ((window b p).low : ℚ) < (window b p).value := by
      rw [hlow, hvalue]
      split <;> nlinarith
    exact_mod_cast hlt
  · have hlt : ((window b p).value : ℚ) < (window b p).high := by
      rw [hhigh, hvalue]
      nlinarith
    exact_mod_cast hlt

/-! ### Enough digits -/

theorem ten_zpow_leadingExponent_le (h : b.mantissa ≠ 0) :
    (10 : ℚ) ^ leadingExponent b ≤ b.mantissa * 2 ^ b.exponent := by
  let num := b.mantissa * twoTo b.exponent.toNat
  let den := twoTo (-b.exponent).toNat
  have hnum : 0 < num := Nat.mul_pos (Nat.pos_of_ne_zero h) (Nat.two_pow_pos _)
  have hden : 0 < den := Nat.two_pow_pos _
  have hnum' : (0 : ℚ) < num := by exact_mod_cast hnum
  have hden' : (0 : ℚ) < den := by exact_mod_cast hden
  have hvalue : (b.mantissa : ℚ) * 2 ^ b.exponent = num / den := by
    rw [zpow_eq_div two_ne_zero, ← mul_div_assoc]
    show _ = ((b.mantissa * 2 ^ b.exponent.toNat : Nat) : ℚ) / (2 ^ (-b.exponent).toNat : Nat)
    push_cast
    rfl
  rw [hvalue]
  show (10 : ℚ) ^ (if den ≤ num then ((digitChars (num / den)).length : Int) - 1
    else -((digitChars (den / num)).length : Int)) ≤ _
  split
  · next hle =>
    have hlength := List.length_pos_iff.2 (digitChars_ne_nil (num / den))
    have hlow := ten_pow_length_le (Nat.div_pos hle hden).ne'
    rw [Nat.le_div_iff_mul_le hden] at hlow
    have hexponent : ((digitChars (num / den)).length : Int) - 1 =
        ((digitChars (num / den)).length - 1 : Nat) := by omega
    rw [hexponent, zpow_natCast, le_div_iff₀ hden']
    exact_mod_cast hlow
  · next hlt =>
    have hhigh := lt_ten_pow_length (den / num)
    rw [Nat.div_lt_iff_lt_mul hnum] at hhigh
    rw [zpow_neg, zpow_natCast, le_div_iff₀ hden', inv_mul_le_iff₀ (by positivity)]
    exact_mod_cast hhigh.le

/-- With seventeen digits, the grid is so fine that it has a point in the interval: its steps are shorter
than the interval below and above the double taken together. -/
theorem exists_nearest?_seventeen (hb : Sound b) :
    ∃ c, (window b (leadingExponent b - 16)).nearest? = some c := by
  obtain ⟨r, hr, hlow, -, hhigh, hpoint⟩ := exists_scaled hb (leadingExponent b - 16)
  apply Window.exists_nearest?
  by_contra hmiss
  obtain ⟨hbelow, habove⟩ := not_or.1 hmiss
  have hpos : (0 : ℚ) < 2 ^ b.exponent := by positivity
  have hstep : (10 : ℚ) ^ (leadingExponent b - 16) * 10 ^ 16 ≤ b.mantissa * 2 ^ b.exponent := by
    refine le_trans (le_of_eq ?_) (ten_zpow_leadingExponent_le hb.canonical.pos.ne')
    rw [zpow_sub₀ (by norm_num)]
    norm_num
  generalize (10 : ℚ) ^ (leadingExponent b - 16) = step at *
  generalize (window b (leadingExponent b - 16)).value / (window b (leadingExponent b - 16)).unit =
    below at *
  have hbelow : below * step ≤ (b.mantissa -
      if b.mantissa = 2 ^ 52 ∧ -1074 < b.exponent then 1 / 4 else 1 / 2) * 2 ^ b.exponent := by
    rw [← mul_le_mul_iff_left₀ hr, ← hlow, ← hpoint]
    exact_mod_cast not_lt.1 hbelow
  have habove : (b.mantissa + 1 / 2) * 2 ^ b.exponent ≤ (below + 1 : Nat) * step := by
    rw [← mul_le_mul_iff_left₀ hr, ← hhigh, ← hpoint]
    exact_mod_cast not_lt.1 habove
  have hwide : (1 / 2 + if b.mantissa = 2 ^ 52 ∧ -1074 < b.exponent then (1 : ℚ) / 4 else 1 / 2) *
      2 ^ b.exponent ≤ step := by
    push_cast at habove
    linarith
  have hlarge : (1 / 2 + if b.mantissa = 2 ^ 52 ∧ -1074 < b.exponent then (1 : ℚ) / 4 else 1 / 2) *
      10 ^ 16 ≤ b.mantissa := by
    refine le_of_mul_le_mul_right ?_ hpos
    linarith
  split at hlarge
  · next hnarrow =>
    rw [hnarrow.1] at hlarge
    norm_num at hlarge
  · have hlt : (b.mantissa : ℚ) < 9007199254740992 := by exact_mod_cast hb.canonical.lt
    linarith

/-! ### The shortest decimal -/

theorem value_trim (fuel : Nat) (d : Decimal) : (trim fuel d).value = d.value := by
  induction fuel generalizing d with
  | zero => rfl
  | succ fuel ih =>
    rw [trim]
    split
    · next h =>
      simp only [Bool.and_eq_true, decide_eq_true_eq] at h
      have hdigits : (d.digits : ℚ) = (d.digits / 10 : Nat) * 10 := by
        exact_mod_cast (Nat.div_mul_cancel (Nat.dvd_of_mod_eq_zero h.2)).symm
      rw [ih, value, value, hdigits, zpow_add_one₀ (by norm_num)]
      ring
    · rfl

/-- The shortest decimal of a double is near to it. -/
theorem near_shortest (hb : Sound b) : Near b.mantissa b.exponent (shortest b).value := by
  have hhit : ∀ d, ((List.range 17).findSome? fun (k : Nat) =>
      ((window b (leadingExponent b - k)).nearest?).map fun c =>
        trim 20 ⟨c, leadingExponent b - k⟩) = some d → Near b.mantissa b.exponent d.value := by
    intro d hd
    obtain ⟨k, -, hk⟩ := List.exists_of_findSome?_eq_some hd
    obtain ⟨c, hc, rfl⟩ := Option.map_eq_some_iff.1 hk
    rw [value_trim]
    exact near_of_nearest? hb hc
  unfold shortest
  simp only
  cases hd : ((List.range 17).findSome? fun (k : Nat) =>
      ((window b (leadingExponent b - k)).nearest?).map fun c =>
        trim 20 ⟨c, leadingExponent b - k⟩) with
  | some d => exact hhit d hd
  | none =>
    obtain ⟨c, hc⟩ := exists_nearest?_seventeen hb
    have hnone := List.findSome?_eq_none_iff.1 hd 16 (by simp)
    rw [Option.map_eq_none_iff] at hnone
    exact absurd (hc.symm.trans hnone) (Option.some_ne_none c)

/-! ### Reading it back -/

variable {x : Float}

theorem sound_ofFloat (h : x.isFinite = true) (hm : (Binary.ofFloat x).mantissa ≠ 0) :
    Sound (Binary.ofFloat x) :=
  ⟨Binary64.canonical_ofFloat h hm, Binary64.narrowBelow_iff x⟩

theorem shortest_ne_zero (hb : Sound b) : (shortest b).digits ≠ 0 := by
  intro hzero
  have hpos := (near_shortest hb).pos hb.canonical.pos
  rw [value, hzero, Nat.cast_zero, zero_mul] at hpos
  exact lt_irrefl _ hpos

/-- Whatever decimal has the value of the shortest one of a double, it is read as the double's
magnitude, and with the double's sign as the double. -/
theorem signed_toFloat (h : x.isFinite = true) (hm : (Binary.ofFloat x).mantissa ≠ 0) {d : Decimal}
    (hd : d.value = (shortest (Binary.ofFloat x)).value) :
    d.toFloat.isFinite = true ∧
      (if Binary.isNegative x then -d.toFloat else d.toFloat) = x := by
  have hb := sound_ofFloat h hm
  have hc := hb.canonical
  have hread := Binary64.toFloat_eq hc (hd ▸ near_shortest hb)
  have hunpack := hc.unpack_pack .positive
  have hx := Binary64.eq_of_magnitude h hm
  rw [hread]
  constructor
  · show (Float.Model.unpack _).isFinite = true
    rw [hunpack]
    rfl
  · unfold Binary64.signOf at hx
    split
    · next hneg =>
      rw [if_pos hneg] at hx
      refine Eq.trans ?_ hx.symm
      show Float.ofModel (.pack (Float.Model.unpack _).neg) = _
      rw [hunpack]
      rfl
    · next hneg =>
      rw [if_neg hneg] at hx
      exact hx.symm

end QuantumRelay.Decimal
