import Mathlib.Algebra.GroupWithZero.Nat
import Mathlib.Algebra.Order.Group.Nat
import Mathlib.Data.UInt
import QuantumRelay.Outcome.Counts
import QuantumRelay.Proofs.KeyMap

/-!
# What counting adds up to

Pairs of an outcome and a number can be inserted in turn if and only if, for every outcome, its numbers
add up to a word (`insertAll_eq_ok_iff`). Then each outcome has what its numbers add up to
(`toNat_get_plusAll`), and the total, if it is a word too, is the sum of them all (`total_eq_ok_iff`,
`exactSum_plusAll`). Counting a list of outcomes one by one gives how often each of them is in the list
(`toNat_get_tally`).
-/

namespace QuantumRelay

theorem KeyMap.map_filter_entries {α : Type} (m : KeyMap α) (key : String) :
    (m.entries.filter (·.1 = key)).map (·.2) = (m.find? key).toList := by
  obtain ⟨entries, hsorted⟩ := m
  show _ = (findIn? key entries).toList
  induction entries with
  | nil => rfl
  | cons e rest ih =>
    obtain ⟨hlt, hrest⟩ := List.pairwise_cons.1 hsorted
    rw [findIn?, List.filter_cons]
    by_cases h : key = e.1
    · have hnone : rest.filter (·.1 = key) = [] := by
        rw [List.filter_eq_nil_iff]
        intro other hother heq
        have hkey : e.1 < key := of_decide_eq_true heq ▸ hlt other hother
        exact String.lt_irrefl key (h ▸ hkey)
      simp only [← h, hnone, decide_true, if_pos, List.map_cons, List.map_nil, Option.toList]
    · have h' : ¬e.1 = key := fun heq => h heq.symm
      simpa [h, h'] using ih hrest

namespace Counts

variable {c c' : Counts} {key : String} {m n : UInt64} {l : List (String × UInt64)}

/-! ### Exact sums -/

def exactSum (l : List UInt64) : Nat := (l.map (·.toNat)).sum

@[simp] theorem exactSum_nil : exactSum [] = 0 := rfl

@[simp] theorem exactSum_cons (n : UInt64) (l : List UInt64) :
    exactSum (n :: l) = n.toNat + exactSum l := by
  simp [exactSum]

theorem toNat_add_of_fits (h : m.toNat + n.toNat < 2 ^ 64) : (m + n).toNat = m.toNat + n.toNat := by
  rw [UInt64.toNat_add]
  exact Nat.mod_eq_of_lt h

theorem add_eq_ok_iff {sum : UInt64} : add m n = .ok sum ↔ sum.toNat = m.toNat + n.toNat := by
  rw [add]
  split
  · next hfits =>
    rw [Except.ok.injEq, ← toNat_add_of_fits hfits, UInt64.toNat_inj, eq_comm]
  · next hno =>
    exact ⟨fun h => (nomatch h), fun h => absurd (h ▸ sum.toNat_lt) hno⟩

theorem foldlM_add_eq_ok_iff {l : List UInt64} {sum : UInt64} :
    l.foldlM add n = .ok sum ↔ sum.toNat = n.toNat + exactSum l := by
  induction l generalizing n with
  | nil => simp [List.foldlM, pure, Except.pure, ← UInt64.toNat_inj, eq_comm]
  | cons m rest ih =>
    rw [List.foldlM_cons, exactSum_cons, ← Nat.add_assoc]
    cases hadd : add n m with
    | ok next =>
      rw [← add_eq_ok_iff.1 hadd]
      exact ih
    | error stop =>
      have hlt := sum.toNat_lt
      refine ⟨fun h => (nomatch h), fun h => ?_⟩
      have hfits : n.toNat + m.toNat < 2 ^ 64 := by omega
      cases hadd.symm.trans (add_eq_ok_iff.2 (toNat_add_of_fits hfits))

theorem total_eq_ok_iff : c.total = .ok n ↔ n.toNat = exactSum c.map.values := by
  rw [total, foldlM_add_eq_ok_iff]
  exact Eq.congr_right (Nat.zero_add _)

theorem exists_total_iff : (∃ n, c.total = .ok n) ↔ exactSum c.map.values < 2 ^ 64 := by
  constructor
  · rintro ⟨n, hn⟩
    exact total_eq_ok_iff.1 hn ▸ n.toNat_lt
  · intro hfits
    exact ⟨.ofNat (exactSum c.map.values), total_eq_ok_iff.2 (UInt64.toNat_ofNat_of_lt' hfits)⟩

/-! ### One insertion -/

theorem get_plus (c : Counts) (key other : String) (n : UInt64) :
    (c.plus key n).get other = c.get other + if other = key then n else 0 := by
  rw [get, get, plus]
  split
  · next h => rw [h, KeyMap.find?_upsert_self]; rfl
  · next h => rw [KeyMap.find?_upsert_of_ne _ h, UInt64.add_zero]

theorem contains_plus (c : Counts) (key other : String) (n : UInt64) :
    (c.plus key n).map.contains other = true ↔ other = key ∨ c.map.contains other = true := by
  rw [plus, KeyMap.contains, KeyMap.contains]
  by_cases h : other = key
  · simp [h]
  · simp [KeyMap.find?_upsert_of_ne _ h, h]

theorem insert_eq_ok_iff :
    c.insert key n = .ok c' ↔ (c.get key).toNat + n.toNat < 2 ^ 64 ∧ c' = c.plus key n := by
  rw [insert, add]
  split
  · next hfits => exact ⟨fun h => ⟨hfits, (Except.ok.inj h).symm⟩, fun h => h.2 ▸ rfl⟩
  · next hno => exact ⟨fun h => (nomatch h), fun h => absurd h.1 hno⟩

theorem exactSum_plus (hfits : (c.get key).toNat + n.toNat < 2 ^ 64) :
    exactSum (c.plus key n).map.values = exactSum c.map.values + n.toNat := by
  have h : ∀ l : List (String × UInt64),
      ((KeyMap.findIn? key l).getD 0).toNat + n.toNat < 2 ^ 64 →
        exactSum ((KeyMap.upsertEntry key (fun old => old.getD 0 + n) l).map (·.2)) =
          exactSum (l.map (·.2)) + n.toNat := by
    intro l hl
    induction l with
    | nil => simp [KeyMap.upsertEntry]
    | cons e rest ih =>
      rw [KeyMap.upsertEntry]
      rw [KeyMap.findIn?] at hl
      split
      · simp only [List.map_cons, exactSum_cons, Option.getD_none, UInt64.zero_add]
        omega
      · split
        · next heq =>
          rw [if_pos heq, Option.getD_some] at hl
          simp only [List.map_cons, exactSum_cons, Option.getD_some, toNat_add_of_fits hl]
          omega
        · next hne =>
          rw [if_neg hne] at hl
          simp only [List.map_cons, exactSum_cons, ih hl]
          omega
  exact h c.map.entries hfits

/-! ### Many insertions -/

/-- More of many outcomes, where it is known that the sums are words. -/
def plusAll (c : Counts) (l : List (String × UInt64)) : Counts :=
  l.foldl (fun c p => c.plus p.1 p.2) c

/-- The numbers of a list of pairs under a key. -/
def under (key : String) (l : List (String × UInt64)) : List UInt64 :=
  (l.filter (·.1 = key)).map (·.2)

theorem exactSum_under_cons (key first : String) (n : UInt64) (l : List (String × UInt64)) :
    exactSum (under key ((first, n) :: l)) =
      (if key = first then n.toNat else 0) + exactSum (under key l) := by
  rw [under, List.filter_cons]
  by_cases h : key = first
  · simp [h, under]
  · have h' : ¬first = key := fun heq => h heq.symm
    simp [h, h', under]

theorem exactSum_filter_le (p : String × UInt64 → Bool) (l : List (String × UInt64)) :
    exactSum ((l.filter p).map (·.2)) ≤ exactSum (l.map (·.2)) := by
  induction l with
  | nil => exact Nat.le_refl 0
  | cons e rest ih =>
    rw [List.filter_cons]
    split
    · simp only [List.map_cons, exactSum_cons]
      omega
    · simp only [List.map_cons, exactSum_cons]
      omega

theorem exactSum_under_entries (c : Counts) (key : String) :
    exactSum (under key c.map.entries) = (c.get key).toNat := by
  rw [under, KeyMap.map_filter_entries, get]
  cases c.map.find? key with
  | none => rfl
  | some n => simp

theorem toNat_get_plus_add_under {first : String} {l : List (String × UInt64)}
    (hfits : (c.get key).toNat + exactSum (under key ((first, n) :: l)) < 2 ^ 64) :
    ((c.plus first n).get key).toNat + exactSum (under key l) =
      (c.get key).toNat + exactSum (under key ((first, n) :: l)) := by
  rw [exactSum_under_cons] at hfits ⊢
  rw [get_plus]
  by_cases h : key = first
  · rw [if_pos h] at hfits ⊢
    rw [if_pos h, toNat_add_of_fits (by omega), Nat.add_assoc]
  · rw [if_neg h, if_neg h, UInt64.add_zero, Nat.zero_add]

theorem toNat_get_plusAll (hfits : (c.get key).toNat + exactSum (under key l) < 2 ^ 64) :
    ((c.plusAll l).get key).toNat = (c.get key).toNat + exactSum (under key l) := by
  induction l generalizing c with
  | nil => rfl
  | cons e rest ih =>
    have hnext := toNat_get_plus_add_under hfits
    rw [← hnext]
    exact ih (hnext ▸ hfits)

theorem contains_plusAll (c : Counts) (l : List (String × UInt64)) (key : String) :
    (c.plusAll l).map.contains key = true ↔ key ∈ l.map (·.1) ∨ c.map.contains key = true := by
  induction l generalizing c with
  | nil => simp [plusAll]
  | cons p rest ih =>
    show ((c.plus p.1 p.2).plusAll rest).map.contains key = true ↔ _
    rw [ih, contains_plus, List.map_cons, List.mem_cons, or_left_comm, or_assoc]

theorem insertAll_eq_ok_iff : c.insertAll l = .ok c' ↔
    (∀ key, (c.get key).toNat + exactSum (under key l) < 2 ^ 64) ∧ c' = c.plusAll l := by
  induction l generalizing c with
  | nil =>
    constructor
    · intro h
      exact ⟨fun key => (c.get key).toNat_lt, (Except.ok.inj h).symm⟩
    · rintro ⟨-, rfl⟩
      rfl
  | cons e rest ih =>
    obtain ⟨first, n⟩ := e
    show (c.insert first n).bind (·.insertAll rest) = .ok c' ↔ _
    constructor
    · intro h
      cases hinsert : c.insert first n with
      | error stop => rw [hinsert] at h; cases h
      | ok next =>
        rw [hinsert] at h
        obtain ⟨hfirst, rfl⟩ := insert_eq_ok_iff.1 hinsert
        obtain ⟨hrest, rfl⟩ := ih.1 h
        refine ⟨fun key => ?_, rfl⟩
        have hkey := hrest key
        rw [get_plus] at hkey
        rw [exactSum_under_cons]
        by_cases heq : key = first
        · rw [if_pos heq, toNat_add_of_fits (heq ▸ hfirst)] at hkey
          rwa [if_pos heq, ← Nat.add_assoc]
        · rw [if_neg heq, UInt64.add_zero] at hkey
          rwa [if_neg heq, Nat.zero_add]
    · rintro ⟨hfits, rfl⟩
      have hfirst : (c.get first).toNat + n.toNat < 2 ^ 64 := by
        have := hfits first
        rw [exactSum_under_cons, if_pos rfl] at this
        omega
      rw [insert_eq_ok_iff.2 ⟨hfirst, rfl⟩]
      refine ih.2 ⟨fun key => ?_, rfl⟩
      rw [toNat_get_plus_add_under (hfits key)]
      exact hfits key

theorem exactSum_plusAll (hfits : ∀ key, (c.get key).toNat + exactSum (under key l) < 2 ^ 64) :
    exactSum (c.plusAll l).map.values = exactSum c.map.values + exactSum (l.map (·.2)) := by
  induction l generalizing c with
  | nil => rfl
  | cons e rest ih =>
    obtain ⟨first, n⟩ := e
    have hfirst : (c.get first).toNat + n.toNat < 2 ^ 64 := by
      have := hfits first
      rw [exactSum_under_cons, if_pos rfl] at this
      omega
    have hrest (key : String) :
        ((c.plus first n).get key).toNat + exactSum (under key rest) < 2 ^ 64 := by
      rw [toNat_get_plus_add_under (hfits key)]
      exact hfits key
    show exactSum ((c.plus first n).plusAll rest).map.values = _
    rw [ih hrest, exactSum_plus hfirst, List.map_cons, exactSum_cons, Nat.add_assoc]

theorem under_fits (h : exactSum (l.map (·.2)) < 2 ^ 64) (key : String) :
    (Counts.get {} key).toNat + exactSum (under key l) < 2 ^ 64 := by
  have hle := exactSum_filter_le (·.1 = key) l
  have hzero : (Counts.get {} key).toNat = 0 := rfl
  rw [hzero, under]
  omega

theorem entries_plusAll {c : Counts} {l : List (String × UInt64)}
    (h : (c.map.entries ++ l).Pairwise (fun a b => a.1 < b.1)) :
    (c.plusAll l).map.entries = c.map.entries ++ l := by
  induction l generalizing c with
  | nil => exact (List.append_nil _).symm
  | cons p rest ih =>
    have hlt : ∀ e ∈ c.map.entries, e.1 < p.1 := fun e he =>
      (List.pairwise_append.1 h).2.2 e he p List.mem_cons_self
    have hplus : (c.plus p.1 p.2).map.entries = c.map.entries ++ [p] := by
      have hlast := KeyMap.upsertEntry_of_lt (fun old => old.getD 0 + p.2) hlt
      rwa [Option.getD_none, UInt64.zero_add] at hlast
    show ((c.plus p.1 p.2).plusAll rest).map.entries = _
    rw [ih (by rwa [hplus, List.append_assoc]), hplus, List.append_assoc]
    rfl

theorem plusAll_entries (c : Counts) : plusAll {} c.map.entries = c := by
  obtain ⟨m⟩ := c
  refine congrArg Counts.mk (KeyMap.ext ?_)
  exact (entries_plusAll (c := {}) m.sorted).trans (List.nil_append _)

/-! ### Counting one by one -/

def tally (outcomes : List String) : Counts := plusAll {} (outcomes.map (·, 1))

theorem exactSum_ones {α : Type} (l : List α) : exactSum (l.map fun _ => 1) = l.length := by
  induction l with
  | nil => rfl
  | cons _ rest ih =>
    rw [List.map_cons, exactSum_cons, ih, List.length_cons, Nat.add_comm]
    rfl

variable {outcomes : List String}

theorem exactSum_under_ones (key : String) (outcomes : List String) :
    exactSum (under key (outcomes.map (·, 1))) = outcomes.count key := by
  rw [under, List.filter_map, List.map_map, List.count_eq_length_filter]
  exact exactSum_ones _

theorem under_ones_fits (h : outcomes.length < 2 ^ 64) (key : String) :
    (Counts.get {} key).toNat + exactSum (under key (outcomes.map (·, 1))) < 2 ^ 64 := by
  refine under_fits ?_ key
  rw [List.map_map]
  exact (exactSum_ones outcomes).trans_lt h

theorem toNat_get_tally (h : outcomes.length < 2 ^ 64) (key : String) :
    ((tally outcomes).get key).toNat = outcomes.count key := by
  rw [tally, toNat_get_plusAll (under_ones_fits h key), exactSum_under_ones]
  exact Nat.zero_add _

theorem contains_tally (outcomes : List String) (key : String) :
    (tally outcomes).map.contains key = true ↔ key ∈ outcomes := by
  rw [tally, contains_plusAll, List.map_map]
  show key ∈ outcomes.map id ∨ false = true ↔ _
  simp

theorem exactSum_tally (h : outcomes.length < 2 ^ 64) :
    exactSum (tally outcomes).map.values = outcomes.length := by
  rw [tally, exactSum_plusAll (under_ones_fits h), List.map_map]
  show 0 + exactSum (outcomes.map fun _ => 1) = _
  rw [Nat.zero_add, exactSum_ones]

end Counts

end QuantumRelay
