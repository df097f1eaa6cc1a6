import QuantumRelay.Outcome.Key
import QuantumRelay.Proofs.Circuit.Registers
import QuantumRelay.Proofs.Decimal.Digits

/-!
# Keys tell bits apart

A packed key is read back as the bits that it was made from (`unpack_packHex`), leading zeros included,
since the reader knows how many there are. The digits of a number spell its binary digits
(`exists_digits`), and two lists of one length with the same bit everywhere are equal (`ext_bitAt`).

Bits grouped by register can be told apart as well (`grouped_injective`): groups of known lengths can be
cut out of the text again, and the registers of a circuit leave no bit out.
-/

namespace QuantumRelay.OutcomeKey

/-- The bit at a position, zero past the end. -/
def bitAt (bits : List Bool) (i : Nat) : Bool := bits[i]?.getD false

section bitAt

variable {bits a b : List Bool} {i : Nat}

theorem bitAt_of_length_le (h : bits.length ≤ i) : bitAt bits i = false := by
  rw [bitAt, List.getElem?_eq_none h]
  rfl

theorem bitAt_append (a b : List Bool) (i : Nat) :
    bitAt (a ++ b) i = if i < a.length then bitAt a i else bitAt b (i - a.length) := by
  rw [bitAt, List.getElem?_append]
  split <;> rfl

theorem bitAt_take (bits : List Bool) (n i : Nat) :
    bitAt (bits.take n) i = if i < n then bitAt bits i else false := by
  rw [bitAt, List.getElem?_take]
  split <;> rfl

theorem bitAt_drop (bits : List Bool) (n i : Nat) : bitAt (bits.drop n) i = bitAt bits (n + i) := by
  rw [bitAt, List.getElem?_drop]
  rfl

theorem bitAt_zeros (n i : Nat) : bitAt (List.replicate n false) i = false := by
  rw [bitAt, List.getElem?_replicate]
  split <;> rfl

theorem any_eq_false_iff : bits.any id = false ↔ ∀ i, bitAt bits i = false := by
  constructor
  · intro h i
    by_cases hi : i < bits.length
    · have hbit := List.any_eq_false.1 h _ (List.getElem_mem hi)
      rw [bitAt, List.getElem?_eq_getElem hi]
      simpa using hbit
    · exact bitAt_of_length_le (by omega)
  · intro h
    rw [List.any_eq_false]
    intro b hb
    obtain ⟨i, hi, rfl⟩ := List.getElem_of_mem hb
    have hbit := h i
    rw [bitAt, List.getElem?_eq_getElem hi] at hbit
    simpa using hbit

theorem ext_bitAt (hlength : a.length = b.length) (h : ∀ i, bitAt a i = bitAt b i) : a = b := by
  apply List.ext_getElem hlength
  intro i ha hb
  have hi := h i
  rwa [bitAt, bitAt, List.getElem?_eq_getElem ha, List.getElem?_eq_getElem hb] at hi

theorem digit_inj : digit a i = digit b i ↔ bitAt a i = bitAt b i := by
  show (if bitAt a i then '1' else '0') = (if bitAt b i then '1' else '0') ↔ _
  cases bitAt a i <;> cases bitAt b i <;> decide

end bitAt

/-! ### Packed keys -/

theorem testBit_value (bits : List Bool) (i : Nat) : (value bits).testBit i = bitAt bits i := by
  induction bits generalizing i with
  | nil => simp [value, bitAt]
  | cons b rest ih =>
    rw [value]
    cases i with
    | zero => cases b <;> simp [bitAt, Nat.testBit_zero]
    | succ i =>
      have hhalf : ((if b then 1 else 0) + 2 * value rest) / 2 = value rest := by
        cases b
        · simp
        · simp
          omega
      rw [Nat.testBit_add_one, hhalf, ih]
      simp [bitAt]

theorem bitAt_nibble {d i : Nat} (h : i < 4) : bitAt (nibble d) i = d.testBit i := by
  simp [bitAt, nibble, h]

theorem exists_digits (n : Nat) : ∃ ds : List Nat,
    (Nat.toDigits 16 n).reverse.mapM Digit.value? = some ds ∧
      ∀ i, bitAt (ds.flatMap nibble) i = n.testBit i := by
  induction n using Nat.strongRecOn with
  | ind n ih =>
    by_cases hsmall : n < 16
    · refine ⟨[n], ?_, ?_⟩
      · simp [Nat.toDigits_of_lt_base hsmall, Digit.value?_digitChar hsmall]
      · intro i
        simp only [List.flatMap_cons, List.flatMap_nil, List.append_nil]
        by_cases hi : i < 4
        · exact bitAt_nibble hi
        · have hpow : 2 ^ 4 ≤ 2 ^ i := Nat.pow_le_pow_right (by omega) (by omega)
          rw [bitAt_of_length_le (by simp [nibble]; omega),
            Nat.testBit_lt_two_pow (by omega)]
    · obtain ⟨ds, hds, hbits⟩ := ih (n / 16) (by omega)
      have hlast : n % 16 < 16 := Nat.mod_lt n (by omega)
      refine ⟨n % 16 :: ds, ?_, ?_⟩
      · rw [Nat.toDigits_of_base_le (by omega) (by omega), List.reverse_append,
          List.reverse_singleton, List.singleton_append, List.mapM_cons, Digit.value?_digitChar hlast, hds]
        rfl
      · intro i
        have hn : n = 2 ^ 4 * (n / 16) + n % 16 := by omega
        rw [List.flatMap_cons, bitAt_append, hbits]
        conv_rhs => rw [hn, Nat.testBit_two_pow_mul_add _ hlast]
        have hlength : (nibble (n % 16)).length = 4 := by simp [nibble]
        rw [hlength]
        split
        · next hi => exact bitAt_nibble hi
        · rfl

theorem resized_of_bitAt {digits bits : List Bool} (h : ∀ i, bitAt digits i = bitAt bits i) :
    (digits.drop bits.length).any id = false ∧
      digits.take bits.length ++ List.replicate (bits.length - digits.length) false = bits := by
  constructor
  · rw [any_eq_false_iff]
    intro i
    rw [bitAt_drop, h]
    exact bitAt_of_length_le (by omega)
  · apply ext_bitAt
    · simp
      omega
    · intro i
      rw [bitAt_append, bitAt_take, bitAt_zeros, List.length_take, ← h]
      by_cases hi : i < digits.length
      · by_cases hin : i < bits.length
        · rw [if_pos (by omega), if_pos hin]
        · rw [if_neg (by omega), h, bitAt_of_length_le (by omega)]
      · have hpast : bitAt digits i = false := bitAt_of_length_le (by omega)
        rw [hpast]
        simp

theorem unpack_of_spelled {key : String} {digits bits : List Bool}
    (hspelled : spelled key.toList = .ok digits) (h : ∀ i, bitAt digits i = bitAt bits i) :
    unpack key bits.length = .ok bits := by
  obtain ⟨hfits, hresized⟩ := resized_of_bitAt h
  unfold unpack
  rw [hspelled]
  show (if _ then _ else _) = _
  rw [hfits, hresized, if_neg Bool.false_ne_true]

/-- A packed key is read back as the bits that it was made from. -/
theorem unpack_packHex (bits : List Bool) : unpack (packHex bits) bits.length = .ok bits := by
  obtain ⟨ds, hds, hbits⟩ := exists_digits (value bits)
  have hne : Nat.toDigits 16 (value bits) ≠ [] := Nat.toDigits_ne_nil
  have hspelled : spelled (packHex bits).toList = .ok (ds.flatMap nibble) := by
    rw [packHex, String.toList_ofList, spelled, hexDigits?]
    split
    · next h => exact absurd (Option.some.inj h) hne
    · next h =>
      obtain rfl := Option.some.inj h
      rw [hds]
    · next h => cases h
  refine unpack_of_spelled hspelled fun i => ?_
  rw [hbits, testBit_value]

theorem packHex_injective {a b : List Bool} (hlength : a.length = b.length)
    (h : packHex a = packHex b) : a = b := by
  have hread := unpack_packHex a
  rw [h, hlength, unpack_packHex b] at hread
  exact (Except.ok.inj hread).symm

/-! ### Bits grouped by register -/

theorem joined_injective {gs gs' : List (List Char)}
    (hlength : gs.map (·.length) = gs'.map (·.length)) (h : joined gs = joined gs') : gs = gs' := by
  induction gs generalizing gs' with
  | nil => simpa [eq_comm] using hlength
  | cons g rest ih =>
    obtain _ | ⟨g', rest'⟩ := gs'
    · simp at hlength
    · obtain ⟨hg, hrest⟩ := List.cons_eq_cons.1 hlength
      -- there is a blank after the first text unless it is the only one
      cases rest with
      | nil =>
        obtain rfl : rest' = [] := by simpa [eq_comm] using hrest
        exact congrArg (fun g => [g]) h
      | cons next more =>
        obtain _ | ⟨next', more'⟩ := rest'
        · simp at hrest
        · obtain ⟨rfl, htail⟩ := List.append_inj h hg
          rw [ih hrest (List.cons_eq_cons.1 htail).2]

theorem length_group (bits : List Bool) (r : Register) :
    (group bits r).length = r.indices.length := by
  simp [group]

theorem bitAt_of_group {a b : List Bool} {r : Register} (h : group a r = group b r) {i : UInt32}
    (hi : i ∈ r.indices) : bitAt a i.toNat = bitAt b i.toNat :=
  digit_inj.1 (List.map_inj_left.1 h i (List.mem_reverse.2 hi))

/-- Registers that leave no bit out tell bits apart. -/
theorem grouped_injective {registers : List Register} {total : UInt32} {a b : List Bool}
    (htiling : Register.Tiling registers total) (ha : a.length = total.toNat)
    (hb : b.length = total.toNat) (h : grouped a registers = grouped b registers) : a = b := by
  have hchars := String.ofList_injective h
  apply ext_bitAt (ha.trans hb.symm)
  intro i
  by_cases hi : i < total.toNat
  · have hmem : i ∈ Register.allIndices registers := by
      rw [htiling.indices]
      exact List.mem_range.2 hi
    obtain ⟨index, hindex, rfl⟩ := List.mem_map.1 hmem
    obtain ⟨r, hr, hindex⟩ := List.mem_flatMap.1 hindex
    have hnone : registers.isEmpty = false := by
      cases registers with
      | nil => cases hr
      | cons _ _ => rfl
    rw [hnone] at hchars
    have hgroups := joined_injective (by simp [Function.comp_def, length_group]) hchars
    exact bitAt_of_group (List.map_inj_left.1 hgroups r (List.mem_reverse.2 hr)) hindex
  · rw [bitAt_of_length_le (by omega), bitAt_of_length_le (by omega)]

end QuantumRelay.OutcomeKey
