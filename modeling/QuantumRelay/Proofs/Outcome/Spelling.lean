import Mathlib.Data.List.Forall2
import Mathlib.Data.Nat.Digits.Defs
import QuantumRelay.Proofs.Outcome.Key

/-!
# What packed keys spell

A packed key `Spells` a number: with hexadecimal digits after `0x` or `0X`, or with binary digits and
blanks. It is read if and only if the number fits the bits that are asked for, and then as the binary
digits of the number (`unpack_eq_ok_iff`), whatever zeros it starts with.
-/

namespace QuantumRelay

theorem mapM_eq_some_iff {α β : Type} {f : α → Option β} {l : List α} {r : List β} :
    l.mapM f = some r ↔ List.Forall₂ (fun a b => f a = some b) l r := by
  induction l generalizing r with
  | nil => simp [eq_comm]
  | cons a rest ih =>
    rw [List.mapM_cons]
    simp only [Option.bind_eq_bind, Option.bind_eq_some_iff, Option.pure_def, Option.some.injEq, ih]
    constructor
    · rintro ⟨b, hb, bs, hbs, rfl⟩
      exact .cons hb hbs
    · rintro (_ | ⟨hb, hbs⟩)
      exact ⟨_, hb, _, hbs, rfl⟩

namespace Digit

/-- A character is the digit of a number in a base, letters being of either case. -/
def Denotes (base : Nat) (c : Char) (d : Nat) : Prop :=
  d < base ∧ (c = d.digitChar ∨ c = d.digitChar.toUpper)

theorem toNat_lt_of_value? {c : Char} {d : Nat} (h : value? c = some d) : c.toNat < 128 := by
  have hle {last : Char} (hlast : last.toNat < 128) (hc : c ≤ last) : c.toNat < 128 :=
    Nat.lt_of_le_of_lt hc hlast
  unfold value? isDecimal at h
  simp only [Bool.and_eq_true, decide_eq_true_eq] at h
  split at h
  · next hc => exact hle (by decide) hc.2
  · split at h
    · next hc => exact hle (by decide) hc.2
    · split at h
      · next hc => exact hle (by decide) hc.2
      · cases h

theorem value?_eq_some_iff {c : Char} {d : Nat} : value? c = some d ↔ Denotes 16 c d := by
  constructor
  · intro h
    have htable : ∀ n < 128, ∀ d ∈ value? (Char.ofNat n), Denotes 16 (Char.ofNat n) d := by
      unfold Denotes
      decide
    rw [← Char.ofNat_toNat c] at h ⊢
    exact htable c.toNat (toNat_lt_of_value? (by rwa [Char.ofNat_toNat] at h)) d h
  · rintro ⟨hd, rfl | rfl⟩
    · exact value?_digitChar hd
    · interval_cases d <;> rfl

theorem denotes_two_iff {c : Char} {d : Nat} :
    Denotes 2 c d ↔ (c = '0' ∧ d = 0) ∨ (c = '1' ∧ d = 1) := by
  constructor
  · rintro ⟨hd, hc⟩
    interval_cases d
    · exact .inl ⟨hc.elim id id, rfl⟩
    · exact .inr ⟨hc.elim id id, rfl⟩
  · rintro (⟨rfl, rfl⟩ | ⟨rfl, rfl⟩)
    · exact ⟨by decide, .inl rfl⟩
    · exact ⟨by decide, .inl rfl⟩

end Digit

namespace OutcomeKey

open Digit (Denotes)

/-- The number that a packed key spells: with hexadecimal digits after a mark, or with binary digits,
among which blanks say nothing. -/
inductive Spells : List Char → Nat → Prop
  | hex {mark : Char} {cs : List Char} {ds : List Nat} (hmark : mark = 'x' ∨ mark = 'X')
      (hne : cs ≠ []) (hds : List.Forall₂ (Denotes 16) cs ds) :
      Spells ('0' :: mark :: cs) (Nat.ofDigits 16 ds.reverse)
  | binary {cs : List Char} {ds : List Nat}
      (hds : List.Forall₂ (Denotes 2) (cs.filter (· ≠ ' ')) ds) :
      Spells cs (Nat.ofDigits 2 ds.reverse)

/-- A packed key that is legal for a number of bits: it spells a number that fits them. -/
def Legal (width : Nat) (key : String) : Prop := ∃ n, Spells key.toList n ∧ n < 2 ^ width

/-! ### Numbers of bits -/

theorem value_append (a b : List Bool) : value (a ++ b) = value a + 2 ^ a.length * value b := by
  induction a with
  | nil => simp [value]
  | cons bit rest ih =>
    rw [List.cons_append, value, value, ih, List.length_cons, Nat.pow_succ]
    ring

theorem value_nibble {d : Nat} (h : d < 16) : value (nibble d) = d := by
  interval_cases d <;> rfl

theorem value_flatMap_nibble {ds : List Nat} (h : ∀ d ∈ ds, d < 16) :
    value (ds.flatMap nibble) = Nat.ofDigits 16 ds := by
  induction ds with
  | nil => rfl
  | cons d rest ih =>
    obtain ⟨hd, hrest⟩ := List.forall_mem_cons.1 h
    rw [List.flatMap_cons, value_append, value_nibble hd, ih hrest, Nat.ofDigits_cons]
    rfl

theorem value_eq_ofDigits (bits : List Bool) : value bits = Nat.ofDigits 2 (bits.map (·.toNat)) := by
  induction bits with
  | nil => rfl
  | cons b rest ih =>
    rw [value, ih, List.map_cons, Nat.ofDigits_cons]
    cases b <;> rfl

/-! ### Digits of keys -/

theorem hexDigits?_eq_some_iff {key ds : List Char} :
    hexDigits? key = some ds ↔ ∃ mark, (mark = 'x' ∨ mark = 'X') ∧ key = '0' :: mark :: ds := by
  unfold hexDigits?
  split
  · simp
  · simp
  · next hx hX =>
    simp only [reduceCtorEq, false_iff]
    rintro ⟨mark, rfl | rfl, rfl⟩
    · exact hx _ rfl
    · exact hX _ rfl

theorem mapM_binaryValue?_iff {cs : List Char} {ds : List Nat} :
    (∃ bits, cs.mapM binaryValue? = some bits ∧ bits.map (·.toNat) = ds) ↔
      List.Forall₂ (Denotes 2) cs ds := by
  have hdigit (c : Char) (b : Bool) : binaryValue? c = some b ↔ Denotes 2 c b.toNat := by
    rw [Digit.denotes_two_iff, binaryValue?]
    cases b <;> grind
  simp only [mapM_eq_some_iff, hdigit]
  constructor
  · rintro ⟨bits, hbits, rfl⟩
    exact List.forall₂_map_right_iff.2 hbits
  · intro h
    refine ⟨ds.map (· = 1), List.forall₂_map_right_iff.2 (h.imp fun c d hd => ?_), ?_⟩
    · obtain ⟨rfl, rfl⟩ | ⟨rfl, rfl⟩ := Digit.denotes_two_iff.1 hd
      · exact hd
      · exact hd
    · induction h with
      | nil => rfl
      | cons hd _ ih =>
        obtain ⟨rfl, rfl⟩ | ⟨rfl, rfl⟩ := Digit.denotes_two_iff.1 hd
        · simpa using ih
        · simpa using ih

theorem lt_of_denotes {base : Nat} {cs : List Char} {ds : List Nat}
    (h : List.Forall₂ (Denotes base) cs ds) : ∀ d ∈ ds, d < base := by
  induction h with
  | nil => exact fun d hd => absurd hd List.not_mem_nil
  | cons hd _ ih => exact List.forall_mem_cons.2 ⟨hd.1, ih⟩

theorem not_binary_of_mark {mark : Char} (hmark : mark = 'x' ∨ mark = 'X') {cs : List Char}
    {ds : List Nat} : ¬List.Forall₂ (Denotes 2) (('0' :: mark :: cs).filter (· ≠ ' ')) ds := by
  have hmem : mark ∈ ('0' :: mark :: cs).filter (· ≠ ' ') := by
    rcases hmark with rfl | rfl <;> simp
  intro h
  obtain ⟨i, hi, heq⟩ := List.getElem_of_mem hmem
  obtain ⟨hlength, hall⟩ := List.forall₂_iff_get.1 h
  have hdigit := Digit.denotes_two_iff.1 (hall i hi (hlength ▸ hi))
  rw [List.get_eq_getElem, heq] at hdigit
  rcases hmark with rfl | rfl <;> simp at hdigit

theorem spelled_of_mark {mark : Char} (hmark : mark = 'x' ∨ mark = 'X') {cs : List Char}
    {bits : List Bool} : spelled ('0' :: mark :: cs) = .ok bits ↔
      cs ≠ [] ∧ ∃ ds : List Nat, List.Forall₂ (Denotes 16) cs ds.reverse ∧ bits = ds.flatMap nibble := by
  have hhex : hexDigits? ('0' :: mark :: cs) = some cs :=
    hexDigits?_eq_some_iff.2 ⟨mark, hmark, rfl⟩
  have hdigits {ds : List Nat} : cs.reverse.mapM Digit.value? = some ds ↔
      List.Forall₂ (Denotes 16) cs ds.reverse := by
    simp only [mapM_eq_some_iff, Digit.value?_eq_some_iff]
    rw [← List.forall₂_reverse_iff, List.reverse_reverse]
  unfold spelled
  rw [hhex]
  cases cs with
  | nil => simp
  | cons c rest =>
    dsimp only
    simp only [← hdigits, ne_eq, reduceCtorEq, not_false_eq_true, true_and]
    cases (c :: rest).reverse.mapM Digit.value? with
    | none => simp
    | some ds => simp [eq_comm]

theorem spelled_of_unmarked {key : List Char} (hhex : hexDigits? key = none) {bits : List Bool} :
    spelled key = .ok bits ↔ (key.reverse.filter (· ≠ ' ')).mapM binaryValue? = some bits := by
  unfold spelled
  rw [hhex]
  dsimp only
  cases (key.reverse.filter (· ≠ ' ')).mapM binaryValue? with
  | none => simp
  | some digits => simp

theorem spelled_iff {key : List Char} {n : Nat} :
    (∃ bits, spelled key = .ok bits ∧ value bits = n) ↔ Spells key n := by
  cases hhex : hexDigits? key with
  | some cs =>
    obtain ⟨mark, hmark, rfl⟩ := hexDigits?_eq_some_iff.1 hhex
    simp only [spelled_of_mark hmark]
    constructor
    · rintro ⟨bits, ⟨hne, ds, hds, rfl⟩, rfl⟩
      rw [value_flatMap_nibble fun d hd => lt_of_denotes hds d (List.mem_reverse.2 hd),
        ← List.reverse_reverse ds]
      exact .hex hmark hne hds
    · intro h
      cases h with
      | @hex _ _ ds _ hne hds =>
        refine ⟨_, ⟨hne, ds.reverse, by rwa [List.reverse_reverse], rfl⟩, ?_⟩
        exact value_flatMap_nibble fun d hd => lt_of_denotes hds d (List.mem_reverse.1 hd)
      | binary hds => exact absurd hds (not_binary_of_mark hmark)
  | none =>
    simp only [spelled_of_unmarked hhex]
    have hdigits {ds : List Nat} :
        (∃ bits, (key.reverse.filter (· ≠ ' ')).mapM binaryValue? = some bits ∧
          bits.map (·.toNat) = ds) ↔ List.Forall₂ (Denotes 2) (key.filter (· ≠ ' ')) ds.reverse := by
      rw [mapM_binaryValue?_iff, ← List.forall₂_reverse_iff, List.filter_reverse,
        List.reverse_reverse]
    constructor
    · rintro ⟨bits, hbits, rfl⟩
      rw [value_eq_ofDigits, ← List.reverse_reverse (bits.map (·.toNat))]
      exact .binary (hdigits.1 ⟨bits, hbits, rfl⟩)
    · intro h
      cases h with
      | hex hmark => rw [hexDigits?_eq_some_iff.2 ⟨_, hmark, rfl⟩] at hhex; cases hhex
      | @binary _ ds hds =>
        obtain ⟨bits, hbits, heq⟩ := hdigits.2 ((List.reverse_reverse ds).symm ▸ hds)
        exact ⟨bits, hbits, by rw [value_eq_ofDigits, heq]⟩

theorem Spells.unique {key : List Char} {m n : Nat} (hm : Spells key m) (hn : Spells key n) :
    m = n := by
  obtain ⟨bits, hbits, rfl⟩ := spelled_iff.2 hm
  obtain ⟨bits', hbits', rfl⟩ := spelled_iff.2 hn
  rw [Except.ok.inj (hbits.symm.trans hbits')]

/-! ### Reading keys -/

theorem any_drop_eq_false_iff {bits : List Bool} {width : Nat} :
    (bits.drop width).any id = false ↔ value bits < 2 ^ width := by
  rw [any_eq_false_iff]
  constructor
  · intro h
    refine Nat.lt_pow_two_of_testBit _ fun i hi => ?_
    have hbit := h (i - width)
    rwa [bitAt_drop, Nat.add_sub_cancel' hi, ← testBit_value] at hbit
  · intro h i
    rw [bitAt_drop, ← testBit_value]
    refine Nat.testBit_lt_two_pow (h.trans_le ?_)
    exact Nat.pow_le_pow_right (by decide) (Nat.le_add_right width i)

theorem resized_eq {bits : List Bool} {width : Nat} (h : value bits < 2 ^ width) :
    bits.take width ++ List.replicate (width - bits.length) false =
      (List.range width).map (value bits).testBit := by
  have hlength : ((List.range width).map (value bits).testBit).length = width := by simp
  have hbits : ∀ i, bitAt bits i = bitAt ((List.range width).map (value bits).testBit) i := by
    intro i
    rw [← testBit_value]
    by_cases hi : i < width
    · simp [bitAt, hi]
    · rw [bitAt_of_length_le (by omega), Nat.testBit_lt_two_pow]
      exact h.trans_le (Nat.pow_le_pow_right (by decide) (by omega))
  have hresized := (resized_of_bitAt hbits).2
  rwa [hlength] at hresized

/-- A key is read if and only if it spells a number that fits, and then as its binary digits. -/
theorem unpack_eq_ok_iff {key : String} {width : Nat} {bits : List Bool} :
    unpack key width = .ok bits ↔ ∃ n, Spells key.toList n ∧ n < 2 ^ width ∧
      bits = (List.range width).map n.testBit := by
  unfold unpack
  simp only [bind_eq_ok, ← spelled_iff]
  constructor
  · rintro ⟨digits, hdigits, h⟩
    split at h
    · cases h
    · next hfits =>
      have hlt := any_drop_eq_false_iff.1 (eq_false_of_ne_true hfits)
      exact ⟨_, ⟨digits, hdigits, rfl⟩, hlt, by rw [← resized_eq hlt, Except.ok.inj h]⟩
  · rintro ⟨n, ⟨digits, hdigits, rfl⟩, hlt, rfl⟩
    refine ⟨digits, hdigits, ?_⟩
    rw [any_drop_eq_false_iff.2 hlt, if_neg Bool.false_ne_true, resized_eq hlt]

theorem exists_unpack_iff {key : String} {width : Nat} :
    (∃ bits, unpack key width = .ok bits) ↔ Legal width key := by
  simp only [unpack_eq_ok_iff]
  constructor
  · rintro ⟨bits, n, hspells, hlt, -⟩
    exact ⟨n, hspells, hlt⟩
  · rintro ⟨n, hspells, hlt⟩
    exact ⟨_, n, hspells, hlt, rfl⟩

theorem length_of_unpack {key : String} {width : Nat} {bits : List Bool}
    (h : unpack key width = .ok bits) : bits.length = width := by
  obtain ⟨n, -, -, rfl⟩ := unpack_eq_ok_iff.1 h
  rw [List.length_map, List.length_range]

end OutcomeKey

end QuantumRelay
