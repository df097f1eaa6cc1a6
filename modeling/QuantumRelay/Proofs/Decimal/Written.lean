import QuantumRelay.Decimal.Shortest
import QuantumRelay.Proofs.Binary64.Decimals
import QuantumRelay.Proofs.Json.Numeral

/-!
# Written decimals

A decimal is written as a numeral (`written_eq`), in whatever style, and the numeral spells the decimal
(`decimal_numeral`): the same digits and exponent, but for whole numbers, which get their zeros.
-/

namespace QuantumRelay.Decimal

open Json (Numeral)

def numeral (style : Style) (d : Decimal) : Numeral :=
  let ds := digitChars d.digits
  let lead := d.exponent + ds.length - 1
  if style.positionalFrom ≤ lead && lead < style.scientificFrom then
    if lead < 0 then ⟨['0'], List.replicate (-lead - 1).toNat '0' ++ ds, none⟩
    else if ds.length ≤ lead.toNat + 1 then
      ⟨ds ++ List.replicate (lead.toNat + 1 - ds.length) '0', ['0'], none⟩
    else ⟨ds.take (lead.toNat + 1), ds.drop (lead.toNat + 1), none⟩
  else ⟨ds.take 1, ds.drop 1, some lead⟩

theorem written_eq (style : Style) (d : Decimal) : written style d = (numeral style d).chars := by
  have hne := digitChars_ne_nil d.digits
  unfold written numeral
  simp only
  split
  · split
    · simp [Numeral.chars, Numeral.exponentChars, hne]
    · split
      · simp [Numeral.chars, Numeral.exponentChars]
      · next h =>
        have hdrop : (digitChars d.digits).drop
            ((d.exponent + (digitChars d.digits).length - 1).toNat + 1) ≠ [] := by
          rw [Ne, List.drop_eq_nil_iff]
          exact h
        simp only [Numeral.chars, Numeral.exponentChars, if_neg hdrop, List.append_nil]
  · by_cases hone : (digitChars d.digits).length ≤ 1
    · have hdrop : (digitChars d.digits).drop 1 = [] := List.drop_eq_nil_iff.2 hone
      simp only [Numeral.chars, Numeral.exponentChars, if_pos hone, hdrop, if_true]
    · have hdrop : (digitChars d.digits).drop 1 ≠ [] := by
        rw [Ne, List.drop_eq_nil_iff]
        exact hone
      simp only [Numeral.chars, Numeral.exponentChars, if_neg hone, if_neg hdrop]

theorem allDigits_zeros (n : Nat) : AllDigits (List.replicate n '0') := by
  intro c hc
  rw [List.eq_of_mem_replicate hc]
  rfl

theorem AllDigits.append {ds es : List Char} (hds : AllDigits ds) (hes : AllDigits es) :
    AllDigits (ds ++ es) := by
  intro c hc
  rcases List.mem_append.1 hc with hc | hc
  · exact hds c hc
  · exact hes c hc

theorem AllDigits.of_subset {ds es : List Char} (hds : AllDigits ds) (h : es ⊆ ds) :
    AllDigits es := fun c hc => hds c (h hc)

theorem head?_take {ds : List Char} {n : Nat} (h : 0 < n) : (ds.take n).head? = ds.head? := by
  obtain ⟨n, rfl⟩ : ∃ m, n = m + 1 := ⟨n - 1, by omega⟩
  cases ds with
  | nil => rfl
  | cons c ds => rfl

theorem valid_numeral (style : Style) {d : Decimal} (h : d.digits ≠ 0) :
    (numeral style d).Valid := by
  have hne := digitChars_ne_nil d.digits
  have hall := allDigits_digitChars d.digits
  have hhead := head_digitChars h
  have htake {n : Nat} (hn : 0 < n) : (digitChars d.digits).take n ≠ [] ∧
      ((digitChars d.digits).take n).head? ≠ some '0' := by
    refine ⟨?_, by rwa [head?_take hn]⟩
    rw [Ne, List.take_eq_nil_iff]
    rintro (hzero | hnil)
    · omega
    · exact hne hnil
  unfold numeral
  simp only
  split
  · split
    · exact ⟨.inl rfl, allDigits_zeros 1, (allDigits_zeros _).append hall⟩
    · split
      · refine ⟨.inr ⟨by simp [hne], ?_⟩, hall.append (allDigits_zeros _), allDigits_zeros 1⟩
        rwa [List.head?_append_of_ne_nil _ hne]
      · exact ⟨.inr (htake (by omega)), hall.of_subset (List.take_subset _ _),
          hall.of_subset (List.drop_subset _ _)⟩
  · exact ⟨.inr (htake (by omega)), hall.of_subset (List.take_subset _ _),
      hall.of_subset (List.drop_subset _ _)⟩

theorem isWhole_numeral (style : Style) (d : Decimal) : (numeral style d).isWhole = false := by
  have hne := digitChars_ne_nil d.digits
  unfold numeral
  simp only
  split
  · split
    · simp [Numeral.isWhole, hne]
    · split
      · rfl
      · next h =>
        simp only [Numeral.isWhole, Option.isNone_none, Bool.and_true, List.isEmpty_eq_false_iff]
        rw [Ne, List.drop_eq_nil_iff]
        exact h
  · simp [Numeral.isWhole]

theorem ofDigits_zeros (n : Nat) : ofDigits (List.replicate n '0') = 0 := by
  induction n with
  | zero => rfl
  | succ n ih =>
    have hzero : ofDigits ['0'] = 0 := rfl
    rw [List.replicate_succ, ← List.singleton_append, ofDigits_append, ih, hzero, Nat.zero_mul]

theorem decimal_numeral (style : Style) (d : Decimal) :
    (numeral style d).decimal = d ∨
      0 ≤ d.exponent ∧ (numeral style d).decimal = ⟨d.digits * 10 ^ (d.exponent.toNat + 1), -1⟩ := by
  have hdigits := ofDigits_digitChars d.digits
  have hlength := List.length_pos_iff.2 (digitChars_ne_nil d.digits)
  unfold numeral
  simp only
  split
  · split
    · left
      rw [Numeral.decimal, Decimal.mk.injEq]
      constructor
      · show ofDigits (List.replicate (_ + 1) '0' ++ digitChars d.digits) = d.digits
        rw [ofDigits_append, ofDigits_zeros, hdigits, Nat.zero_mul, Nat.zero_add]
      · simp only [Option.getD_none, List.length_append, List.length_replicate]
        omega
    · split
      · right
        have hzeros : (d.exponent + (digitChars d.digits).length - 1).toNat + 1 -
            (digitChars d.digits).length = d.exponent.toNat := by omega
        refine ⟨by omega, ?_⟩
        rw [Numeral.decimal, Decimal.mk.injEq]
        constructor
        · have hjoin : List.replicate d.exponent.toNat '0' ++ ['0'] =
              List.replicate (d.exponent.toNat + 1) '0' := List.replicate_succ'.symm
          rw [hzeros, List.append_assoc, hjoin, ofDigits_append, hdigits, ofDigits_zeros,
            List.length_replicate, Nat.add_zero]
        · rfl
      · left
        rw [Numeral.decimal, Decimal.mk.injEq]
        constructor
        · rw [List.take_append_drop, hdigits]
        · simp only [Option.getD_none, List.length_drop]
          omega
  · left
    rw [Numeral.decimal, Decimal.mk.injEq]
    constructor
    · rw [List.take_append_drop, hdigits]
    · simp only [Option.getD_some, List.length_drop]
      omega

theorem value_numeral (style : Style) (d : Decimal) : (numeral style d).decimal.value = d.value := by
  rcases decimal_numeral style d with h | ⟨hexponent, h⟩
  · rw [h]
  · have hten : (10 : ℚ) ^ d.exponent = 10 ^ d.exponent.toNat := by
      conv_lhs => rw [← Int.toNat_of_nonneg hexponent, zpow_natCast]
    rw [h, value, value, hten]
    push_cast
    rw [zpow_neg_one, pow_succ, mul_assoc, mul_assoc, mul_inv_cancel₀ (by norm_num), mul_one]

end QuantumRelay.Decimal
