import QuantumRelay.Decimal.Basic
import QuantumRelay.Digit
import Mathlib.Data.List.Basic
import Mathlib.Data.List.Induction
import Mathlib.Tactic.IntervalCases
import Mathlib.Tactic.Ring

/-!
# Digits of numbers

The digits of a number are decimal digits without a leading zero (`allDigits_digitChars`,
`head_digitChars`) and spell the number (`ofDigits_digitChars`).
-/

namespace QuantumRelay

theorem Digit.value?_digitChar {d : Nat} (h : d < 16) : Digit.value? d.digitChar = some d := by
  interval_cases d <;> rfl

namespace Decimal

def AllDigits (ds : List Char) : Prop := ∀ c ∈ ds, Digit.isDecimal c = true

theorem isDecimal_digitChar {d : Nat} (h : d < 10) : Digit.isDecimal d.digitChar = true := by
  rw [← List.mem_range] at h
  revert d
  decide

theorem allDigits_digitChars (n : Nat) : AllDigits (digitChars n) := by
  induction n using Nat.strongRecOn with
  | ind n ih =>
    unfold digitChars
    rw [Nat.toDigits_eq_if (by decide)]
    split
    · next h =>
      intro c hc
      obtain rfl := List.mem_singleton.1 hc
      exact isDecimal_digitChar h
    · intro c hc
      rcases List.mem_append.1 hc with hc | hc
      · exact ih (n / 10) (by omega) c hc
      · obtain rfl := List.mem_singleton.1 hc
        exact isDecimal_digitChar (Nat.mod_lt n (by decide))

theorem digitChars_ne_nil (n : Nat) : digitChars n ≠ [] := Nat.toDigits_ne_nil

theorem lt_ten_pow_length (n : Nat) : n < 10 ^ (digitChars n).length :=
  (Nat.length_toDigits_le_iff (by decide) Nat.length_toDigits_pos).1 (le_refl _)

theorem ten_pow_length_le {n : Nat} (h : n ≠ 0) : 10 ^ ((digitChars n).length - 1) ≤ n := by
  rcases Nat.eq_zero_or_pos ((digitChars n).length - 1) with hzero | hpos
  · rw [hzero]
    omega
  · by_contra hlt
    have hle : (digitChars n).length ≤ (digitChars n).length - 1 :=
      (Nat.length_toDigits_le_iff (by decide) hpos).2 (by omega)
    omega

theorem digitChar_eq_zero {d : Nat} (h : d < 10) (h0 : d.digitChar = '0') : d = 0 := by
  revert h0
  rw [← List.mem_range] at h
  revert d
  decide

theorem head_digitChars {n : Nat} (h : n ≠ 0) : (digitChars n).head? ≠ some '0' := by
  induction n using Nat.strongRecOn with
  | ind n ih =>
    unfold digitChars
    rw [Nat.toDigits_eq_if (by decide)]
    split
    · next hlt =>
      intro hzero
      exact h (digitChar_eq_zero hlt (Option.some.inj hzero))
    · have hrest := ih (n / 10) (by omega) (by omega)
      have hne := digitChars_ne_nil (n / 10)
      unfold digitChars at hrest hne
      rwa [List.head?_append_of_ne_nil _ hne]

theorem ofDigits_append (ds es : List Char) :
    ofDigits (ds ++ es) = ofDigits ds * 10 ^ es.length + ofDigits es := by
  induction es using List.reverseRecOn with
  | nil => simp [ofDigits]
  | append_singleton es c ih =>
    have hconcat (cs : List Char) : ofDigits (cs ++ [c]) =
        10 * ofDigits cs + digitValue c := by
      simp [ofDigits]
    rw [← List.append_assoc, hconcat, ih, hconcat, List.length_append, List.length_singleton,
      Nat.pow_succ]
    ring

theorem digitValue_digitChar {d : Nat} (h : d < 10) : digitValue d.digitChar = d := by
  rw [← List.mem_range] at h
  revert d
  decide

theorem ofDigits_digitChars (n : Nat) : ofDigits (digitChars n) = n := by
  induction n using Nat.strongRecOn with
  | ind n ih =>
    unfold digitChars
    rw [Nat.toDigits_eq_if (by decide)]
    split
    · next h =>
      show 10 * 0 + digitValue n.digitChar = n
      rw [digitValue_digitChar h, Nat.mul_zero, Nat.zero_add]
    · have hlast : ofDigits [(n % 10).digitChar] = n % 10 := by
        show 10 * 0 + digitValue (n % 10).digitChar = n % 10
        rw [digitValue_digitChar (Nat.mod_lt n (by decide)), Nat.mul_zero, Nat.zero_add]
      have hrest := ih (n / 10) (by omega)
      unfold digitChars at hrest
      rw [ofDigits_append, hrest, hlast, List.length_singleton]
      omega

end Decimal

end QuantumRelay
