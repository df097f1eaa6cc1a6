import QuantumRelay.Json.Printer
import QuantumRelay.Json.Reader
import QuantumRelay.Proofs.Decimal.Digits

/-!
# Numerals

A `Numeral` is the text of a number without its sign: whole digits, fraction digits and an exponent.
Wherever it may end, it is read up to its end and no further, as the decimal that it spells
(`readMagnitude_numeral`). The digits of a whole number are a numeral (`valid_digitChars`).
-/

namespace QuantumRelay.Json

open Decimal (AllDigits)

/-- A text that a number may stand in front of: what comes first cannot be a part of the number. -/
def Ends (rest : List Char) : Prop :=
  ∀ c ∈ rest.head?, Digit.isDecimal c = false ∧ c ≠ '.' ∧ c ≠ 'e' ∧ c ≠ 'E'

theorem ends_nil : Ends [] := by
  intro c hc
  cases hc

theorem ends_cons {c : Char} {rest : List Char} (h : c = ',' ∨ c = ']' ∨ c = '\x7d') :
    Ends (c :: rest) := by
  intro d hd
  obtain rfl : c = d := Option.some.inj hd
  rcases h with rfl | rfl | rfl <;> decide

theorem takeWhile_digits {ds rest : List Char} (hds : AllDigits ds)
    (hrest : ∀ c ∈ rest.head?, Digit.isDecimal c = false) :
    (ds ++ rest).takeWhile Digit.isDecimal = ds := by
  rw [List.takeWhile_append_of_pos hds]
  cases rest with
  | nil => simp
  | cons c rest => simp [hrest c rfl]

/-! ### Numerals -/

structure Numeral where
  whole : List Char
  fraction : List Char := []
  exponent : Option Int := none

namespace Numeral

def exponentChars : Option Int → List Char
  | none => []
  | some e => 'e' :: (if e < 0 then '-' else '+') :: Decimal.digitChars e.natAbs

def chars (n : Numeral) : List Char :=
  n.whole ++ (if n.fraction = [] then [] else '.' :: n.fraction) ++ exponentChars n.exponent

def decimal (n : Numeral) : Decimal :=
  ⟨Decimal.ofDigits (n.whole ++ n.fraction), n.exponent.getD 0 - (n.fraction.length : Int)⟩

/-- Whether a numeral has whole digits only. -/
def isWhole (n : Numeral) : Bool := n.fraction.isEmpty && n.exponent.isNone

/-- The whole digits are one zero, or there are some and they do not start with a zero. -/
structure Valid (n : Numeral) : Prop where
  whole : n.whole = ['0'] ∨ (n.whole ≠ [] ∧ n.whole.head? ≠ some '0')
  wholeDigits : AllDigits n.whole
  fractionDigits : AllDigits n.fraction

end Numeral

theorem readWhole_append {ds rest : List Char}
    (hwhole : ds = ['0'] ∨ (ds ≠ [] ∧ ds.head? ≠ some '0')) (hds : AllDigits ds)
    (hrest : ∀ c ∈ rest.head?, Digit.isDecimal c = false) :
    readWhole (ds ++ rest) = some (ds, rest) := by
  rcases hwhole with rfl | ⟨hne, hhead⟩
  · show (if (rest.head?.map Digit.isDecimal).getD false then none else _) = _
    cases rest with
    | nil => rfl
    | cons c rest => simp [hrest c rfl]
  · obtain _ | ⟨c, ds⟩ := ds
    · exact absurd rfl hne
    · have hc : c ≠ '0' := by simpa using hhead
      have htake := takeWhile_digits hds hrest
      unfold readWhole
      split
      · next heq => exact absurd (List.cons_eq_cons.1 heq).1 hc
      · rw [htake]
        simp

theorem readFraction_append {ds rest : List Char} (hds : AllDigits ds)
    (hdigit : ∀ c ∈ rest.head?, Digit.isDecimal c = false) (hpoint : rest.head? ≠ some '.') :
    readFraction ((if ds = [] then [] else '.' :: ds) ++ rest) = some (ds, rest) := by
  by_cases hne : ds = []
  · subst hne
    rw [if_pos rfl, List.nil_append]
    unfold readFraction
    split
    · exact absurd rfl hpoint
    · rfl
  · rw [if_neg hne]
    simp only [List.cons_append, readFraction, takeWhile_digits hds hdigit]
    rw [if_neg (by simpa using hne)]
    simp

theorem readExponent_append {exponent : Option Int} {rest : List Char} (hrest : Ends rest) :
    readExponent (Numeral.exponentChars exponent ++ rest) = some (exponent, rest) := by
  cases exponent with
  | none =>
    cases rest with
    | nil => rfl
    | cons c rest =>
      obtain ⟨-, -, he, hE⟩ := hrest c rfl
      simp [Numeral.exponentChars, readExponent, he, hE]
  | some e =>
    have htake : (Decimal.digitChars e.natAbs ++ rest).takeWhile Digit.isDecimal =
        Decimal.digitChars e.natAbs :=
      takeWhile_digits (Decimal.allDigits_digitChars _) fun c hc => (hrest c hc).1
    have hsome : (Decimal.digitChars e.natAbs).isEmpty = false := by
      simpa using Decimal.digitChars_ne_nil e.natAbs
    by_cases he : e < 0
    · simp only [Numeral.exponentChars, if_pos he, List.cons_append, readExponent,
        decide_true, Bool.true_or, if_true, htake, hsome, Bool.false_eq_true, if_false,
        Decimal.ofDigits_digitChars, List.drop_left]
      congr 3
      omega
    · simp only [Numeral.exponentChars, if_neg he, List.cons_append, readExponent,
        decide_true, Bool.true_or, if_true, htake, hsome, Bool.false_eq_true, if_false,
        Decimal.ofDigits_digitChars, List.drop_left]
      congr 3
      omega

theorem readMagnitude_numeral {n : Numeral} (hn : n.Valid) (negative : Bool) {rest : List Char}
    (hrest : Ends rest) :
    readMagnitude negative (n.chars ++ rest) =
      some (if n.isWhole then wholeValue negative (Decimal.ofDigits n.whole)
        else signed negative n.decimal.toFloat, rest) := by
  -- what follows the whole digits is no digit, what follows the fraction digits no point either
  have hexponent : ∀ c ∈ (Numeral.exponentChars n.exponent ++ rest).head?,
      Digit.isDecimal c = false ∧ c ≠ '.' := by
    intro c hc
    cases he : n.exponent with
    | none =>
      rw [he] at hc
      exact ⟨(hrest c hc).1, (hrest c hc).2.1⟩
    | some e =>
      rw [he] at hc
      obtain rfl : 'e' = c := Option.some.inj hc
      decide
  have hfraction : ∀ c ∈ ((if n.fraction = [] then [] else '.' :: n.fraction) ++
      (Numeral.exponentChars n.exponent ++ rest)).head?, Digit.isDecimal c = false := by
    intro c hc
    by_cases hne : n.fraction = []
    · rw [if_pos hne] at hc
      exact (hexponent c hc).1
    · rw [if_neg hne] at hc
      obtain rfl : '.' = c := Option.some.inj hc
      decide
  have hpoint : (Numeral.exponentChars n.exponent ++ rest).head? ≠ some '.' :=
    fun h => (hexponent '.' h).2 rfl
  have hwhole := readWhole_append hn.whole hn.wholeDigits hfraction
  unfold readMagnitude Numeral.chars
  rw [List.append_assoc, List.append_assoc, hwhole]
  simp only [Option.bind_eq_bind, Option.bind_some]
  rw [readFraction_append hn.fractionDigits (fun c hc => (hexponent c hc).1) hpoint]
  simp only [Option.bind_some, readExponent_append hrest]
  rw [Numeral.isWhole, Numeral.decimal]
  split <;> rfl

theorem valid_digitChars (n : Nat) : Numeral.Valid ⟨Decimal.digitChars n, [], none⟩ where
  whole := by
    by_cases h : n = 0
    · subst h
      exact .inl rfl
    · exact .inr ⟨Decimal.digitChars_ne_nil n, Decimal.head_digitChars h⟩
  wholeDigits := Decimal.allDigits_digitChars n
  fractionDigits := by
    intro c hc
    cases hc

end QuantumRelay.Json
