import Mathlib.Algebra.GroupWithZero.Nat
import Mathlib.Algebra.Order.Group.Nat
import Mathlib.Data.List.Nodup
import Mathlib.Data.Nat.Find
import Mathlib.Order.Bounds.Defs
import QuantumRelay.Circuit.Basic
import QuantumRelay.Proofs.Fallible
import QuantumRelay.Proofs.KeyMap

/-!
# Registers that tile the indices

Registers of one kind are `Tiling` a number of indices if these come one after the other, from zero on
and without a gap, and no name comes twice. That is what `Circuit.checkLayout` looks for
(`checkLayout_eq_ok`), and a new register under a free name keeps it (`Tiling.append`). A name that is free
is found, the requested one or the same with the least number that will do (`exists_freeName`), unless the
name is taken with every 32-bit number but the last: then the program stops (`freeName_eq_stopped`).
-/

namespace QuantumRelay

namespace Register

def allIndices (registers : List Register) : List Nat :=
  (registers.flatMap (·.indices)).map (·.toNat)

theorem allIndices_append (registers more : List Register) :
    allIndices (registers ++ more) = allIndices registers ++ allIndices more := by
  rw [allIndices, List.flatMap_append, List.map_append]
  rfl

theorem map_toNat_run {start size : UInt32} (h : start.toNat + size.toNat < UInt32.size) :
    (run start size).map (·.toNat) = List.range' start.toNat size.toNat := by
  rw [run, List.map_map, List.range'_eq_map_range]
  refine List.map_congr_left fun k hk => ?_
  have hk : k < size.toNat := List.mem_range.1 hk
  have hsize : UInt32.size = 2 ^ 32 := rfl
  rw [Function.comp_apply, UInt32.toNat_add, UInt32.toNat_ofNat']
  omega

/-- Registers hold the indices below `total` in their order, under distinct names. -/
structure Tiling (registers : List Register) (total : UInt32) : Prop where
  indices : allIndices registers = List.range total.toNat
  names : (registers.map (·.name)).Nodup

theorem contiguous?_eq_some {name : String} {start size : UInt32} {r : Register} :
    contiguous? name start size = some r ↔
      start.toNat + size.toNat < UInt32.size ∧ r = ⟨name, run start size⟩ := by
  unfold contiguous?
  split
  · next h => simp [h, eq_comm]
  · next h => simp [h]

theorem toNat_add {start size : UInt32} (h : start.toNat + size.toNat < UInt32.size) :
    (start + size).toNat = start.toNat + size.toNat := by
  rw [UInt32.toNat_add]
  exact Nat.mod_eq_of_lt h

namespace Tiling

theorem empty : Tiling [] 0 := ⟨rfl, .nil⟩

theorem append {registers : List Register} {total size : UInt32} {name : String}
    (h : Tiling registers total) (hname : name ∉ registers.map (·.name))
    (hfits : total.toNat + size.toNat < UInt32.size) :
    Tiling (registers ++ [⟨name, run total size⟩]) (total + size) where
  indices := by
    rw [allIndices_append, h.indices, toNat_add hfits]
    show _ ++ ([⟨name, run total size⟩].flatMap fun r : Register => r.indices).map (·.toNat) = _
    have happend := List.range'_append_1 (s := 0) (m := total.toNat) (n := size.toNat)
    rw [Nat.zero_add] at happend
    rw [List.flatMap_singleton, map_toNat_run hfits, List.range_eq_range', List.range_eq_range',
      happend]
  names := by
    rw [List.map_append, List.map_singleton]
    exact h.names.append (List.nodup_singleton _) (by simpa using hname)

theorem leading (name : String) (size : UInt32) : Tiling (Circuit.leadingRegister name size) size := by
  unfold Circuit.leadingRegister
  split
  · next h => exact h ▸ empty
  · have hone : Tiling ([] ++ [⟨name, run 0 size⟩]) (0 + size) :=
      empty.append List.not_mem_nil (by simpa using size.toNat_lt)
    rwa [UInt32.zero_add] at hone

end Tiling

end Register

namespace Circuit

open Register (Tiling allIndices)

/-! ### Checking a layout -/

theorem countIndices_eq_ok {kind : RegisterKind} {name : String} {next n : Nat}
    {indices : List UInt32} : countIndices kind name next indices = .ok n ↔
      indices.map (·.toNat) = List.range' next indices.length ∧ n = next + indices.length := by
  induction indices generalizing next with
  | nil => simp [countIndices, eq_comm]
  | cons index rest ih =>
    rw [countIndices, List.length_cons, List.map_cons, List.range'_succ, List.cons.injEq]
    split
    · next h =>
      rw [ih]
      have harith : next + 1 + rest.length = next + (rest.length + 1) := by omega
      simp [h, harith]
    · next h => simp [h]

theorem countRegisters_eq_ok {kind : RegisterKind} {next n : Nat} {registers : List Register} :
    countRegisters kind next registers = .ok n ↔
      allIndices registers = List.range' next (allIndices registers).length ∧
        n = next + (allIndices registers).length := by
  induction registers generalizing next with
  | nil => simp [countRegisters, allIndices, eq_comm]
  | cons r rest ih =>
    have hcons : allIndices (r :: rest) = r.indices.map (·.toNat) ++ allIndices rest := by
      simp [allIndices]
    have hlen : (r.indices.map (·.toNat) ++ allIndices rest).length =
        r.indices.length + (allIndices rest).length := by simp
    rw [countRegisters, bind_eq_ok, hcons, hlen, ← List.range'_append_1]
    simp only [countIndices_eq_ok, ih]
    constructor
    · rintro ⟨_, ⟨hr, rfl⟩, hrest, rfl⟩
      exact ⟨congrArg₂ (· ++ ·) hr hrest, Nat.add_assoc ..⟩
    · rintro ⟨h, rfl⟩
      obtain ⟨hr, hrest⟩ := List.append_inj h (by simp)
      exact ⟨_, ⟨hr, rfl⟩, hrest, (Nat.add_assoc ..).symm⟩

theorem checkLayout_eq_ok {kind : RegisterKind} {registers : List Register} {total : UInt32} :
    checkLayout kind registers total = .ok () ↔ Tiling registers total := by
  unfold checkLayout
  rw [bind_eq_ok]
  simp only [countRegisters_eq_ok, Nat.zero_add, ← List.range_eq_range']
  constructor
  · rintro ⟨covered, ⟨hindices, rfl⟩, h⟩
    split at h
    · cases h
    · next hcovered =>
      rw [ne_eq, Decidable.not_not] at hcovered
      split at h
      · cases h
      · next hnames => exact ⟨hcovered ▸ hindices, (Names.firstRepeated?_eq_none_iff.1 hnames).1⟩
  · rintro ⟨hindices, hnames⟩
    have hlen : (allIndices registers).length = total.toNat := by
      rw [hindices, List.length_range]
    refine ⟨_, ⟨hlen.symm ▸ hindices, rfl⟩, ?_⟩
    rw [if_neg (Decidable.not_not.2 hlen),
      Names.firstRepeated?_eq_none_iff.2 ⟨hnames, fun _ _ => List.not_mem_nil⟩]

theorem checkSnapshot_eq_ok {s : Snapshot} : checkSnapshot s = .ok () ↔
    Tiling s.quantumRegisters s.numQubits ∧ Tiling s.classicalRegisters s.numClbits ∧ s.id ≠ "" := by
  rw [checkSnapshot]
  simp only [bind_eq_ok]
  constructor
  · rintro ⟨_, hquantum, _, hclassical, hid⟩
    refine ⟨checkLayout_eq_ok.1 hquantum, checkLayout_eq_ok.1 hclassical, fun hempty => ?_⟩
    rw [hempty] at hid
    cases hid
  · rintro ⟨hquantum, hclassical, hid⟩
    exact ⟨(), checkLayout_eq_ok.2 hquantum, (), checkLayout_eq_ok.2 hclassical, by simp [hid]⟩

/-! ### A new register -/

/-- A circuit with one more register of `size` indices. -/
def grown (c : Circuit) (r : Register) (size : UInt32) : RegisterKind → Circuit
  | .quantum =>
    { c with quantumRegisters := c.quantumRegisters ++ [r], numQubits := c.numQubits + size }
  | .classical =>
    { c with classicalRegisters := c.classicalRegisters ++ [r], numClbits := c.numClbits + size }

variable {c : Circuit} {kind : RegisterKind} {size : UInt32}

theorem addRegister_of_fits {base name : String}
    (hname : freeName ((c.registers kind).map (·.name)) base = .ok name)
    (h : (c.size kind).toNat + size.toNat < UInt32.size) :
    c.addRegister kind base size = .ok
      { circuit := c.grown ⟨name, Register.run (c.size kind) size⟩ size kind
        name
        notices := if name = base then [] else [.registerRenamed kind base name] } := by
  unfold addRegister
  rw [hname, ok_bind, Register.contiguous?_eq_some.2 ⟨h, rfl⟩]
  cases kind with
  | quantum => rfl
  | classical => rfl

theorem addRegister_of_not_fits {base name : String}
    (hname : freeName ((c.registers kind).map (·.name)) base = .ok name)
    (h : ¬(c.size kind).toNat + size.toNat < UInt32.size) :
    c.addRegister kind base size = .error (.registerOverflow kind base size) := by
  unfold addRegister Register.contiguous?
  rw [hname, ok_bind, if_neg h]

theorem addRegister_of_error {base : String} {e : CircuitError}
    (hname : freeName ((c.registers kind).map (·.name)) base = .error e) :
    c.addRegister kind base size = .error e := by
  unfold addRegister
  rw [hname]
  rfl

theorem addRegister_eq_ok {base : String} {e : Extension} (h : c.addRegister kind base size = .ok e) :
    (c.size kind).toNat + size.toNat < UInt32.size ∧
      freeName ((c.registers kind).map (·.name)) base = .ok e.name ∧
        e.circuit = c.grown ⟨e.name, Register.run (c.size kind) size⟩ size kind := by
  cases hname : freeName ((c.registers kind).map (·.name)) base with
  | error e =>
    rw [addRegister_of_error hname] at h
    cases h
  | ok name =>
    by_cases hfits : (c.size kind).toNat + size.toNat < UInt32.size
    · rw [addRegister_of_fits hname hfits] at h
      obtain rfl := Except.ok.inj h
      exact ⟨hfits, rfl, rfl⟩
    · rw [addRegister_of_not_fits hname hfits] at h
      cases h

theorem addRegister_eq_stopped {base : String} : c.addRegister kind base size = .error .stopped ↔
    freeName ((c.registers kind).map (·.name)) base = .error .stopped := by
  refine ⟨fun h => ?_, addRegister_of_error⟩
  cases hname : freeName ((c.registers kind).map (·.name)) base with
  | error e =>
    rw [addRegister_of_error hname] at h
    rw [Except.error.inj h]
  | ok name =>
    by_cases hfits : (c.size kind).toNat + size.toNat < UInt32.size
    · rw [addRegister_of_fits hname hfits] at h
      cases h
    · rw [addRegister_of_not_fits hname hfits] at h
      cases h

/-! ### Names with numbers -/

theorem eq_of_repr_eq {m n : Nat} (h : m.repr = n.repr) : m = n := by
  have hdigits : Nat.toDigits 10 m = Nat.toDigits 10 n := by
    rw [← Nat.toList_repr, ← Nat.toList_repr, h]
  have hread (n : Nat) : Nat.ofDigitChars 10 (Nat.toDigits 10 n) 0 = n :=
    Nat.ofDigitChars_toDigits (by decide) (by decide)
  rw [← hread m, hdigits, hread]

def numbered (base : String) (k : Nat) : String := s!"{base}_{k}"

theorem numbered_injective {base : String} {j k : Nat} (h : numbered base j = numbered base k) :
    j = k :=
  eq_of_repr_eq ((String.append_right_inj _).1 h)

theorem numbered_ne (base : String) (k : Nat) : numbered base k ≠ base := fun h => by
  have hlen := congrArg String.length h
  have hbase : (toString base).length = base.length := rfl
  have hline : (toString "_").length = 1 := rfl
  simp only [numbered, String.length_append] at hlen
  omega

theorem exists_free (taken : List String) (base : String) (k : Nat) :
    ∃ d ≤ taken.length, numbered base (k + d) ∉ taken := by
  by_contra hnone
  have hsub : (List.range (taken.length + 1)).map (fun d => numbered base (k + d)) ⊆ taken := by
    intro name hname
    obtain ⟨d, hd, rfl⟩ := List.mem_map.1 hname
    by_contra hnot
    exact hnone ⟨d, Nat.lt_succ_iff.1 (List.mem_range.1 hd), hnot⟩
  have hnodup : ((List.range (taken.length + 1)).map fun d => numbered base (k + d)).Nodup :=
    List.nodup_range.map fun d d' h => Nat.add_left_cancel (numbered_injective h)
  have hle := List.Nodup.length_le_of_subset hnodup hsub
  rw [List.length_map, List.length_range] at hle
  omega

theorem le_length_of_taken {taken : List String} {base : String} {k : Nat} (hbase : base ∈ taken)
    (h : ∀ j, 1 ≤ j → j < k → numbered base j ∈ taken) (hk : 1 ≤ k) : k ≤ taken.length := by
  have hsub : (base :: (List.range' 1 (k - 1)).map (numbered base)) ⊆ taken := by
    refine List.cons_subset.2 ⟨hbase, fun name hname => ?_⟩
    obtain ⟨j, hj, rfl⟩ := List.mem_map.1 hname
    obtain ⟨hj, hlt⟩ := List.mem_range'_1.1 hj
    exact h j hj (by omega)
  have hnodup : (base :: (List.range' 1 (k - 1)).map (numbered base)).Nodup := by
    refine List.nodup_cons.2 ⟨fun hmem => ?_, (List.nodup_range' ..).map fun _ _ => numbered_injective⟩
    obtain ⟨j, -, hj⟩ := List.mem_map.1 hmem
    exact numbered_ne base j hj
  have hle := List.Nodup.length_le_of_subset hnodup hsub
  rw [List.length_cons, List.length_map, List.length_range'] at hle
  omega

/-- The last of the numbers. No name gets it. -/
def lastNumber : Nat := 2 ^ 31 - 1

theorem lastNumber_eq : lastNumber + 1 = 2 ^ 31 := rfl

theorem ofNat_eq_maxValue_iff {m : Nat} (h : m ≤ lastNumber) :
    Int32.ofNat m = Int32.maxValue ↔ m = lastNumber := by
  have hlast := lastNumber_eq
  have hm : m < 2 ^ 31 := by omega
  rw [← Int32.toInt_inj, Int32.toInt_ofNat_of_lt hm, Int32.toInt_maxValue]
  omega

theorem numbered_ofNat (base : String) {m : Nat} (h : m ≤ lastNumber) :
    s!"{base}_{Int32.ofNat m}" = numbered base m := by
  have hm : m < 2 ^ 31 := by
    have hlast := lastNumber_eq
    omega
  have hnumber : toString (Int32.ofNat m) = toString (m : Int) :=
    congrArg toString (Int32.toInt_ofNat_of_lt hm)
  rw [numbered, hnumber]
  rfl

/-! ### The search for a free name -/

variable {taken : List String} {base name : String} {m : Nat}

theorem searchName_of_not_mem (h : name ∉ taken) (number : Int32) :
    searchName taken base name number = .ok name := by
  rw [searchName, if_neg (by simpa using h)]

theorem searchName_of_mem (h : name ∈ taken) (hm : m < lastNumber) :
    searchName taken base name (Int32.ofNat m) =
      searchName taken base (numbered base m) (Int32.ofNat (m + 1)) := by
  have hnext : Int32.ofNat m + 1 = Int32.ofNat (m + 1) := (Int32.ofNat_add m 1).symm
  rw [searchName, if_pos (by simpa using h), if_neg (by rw [ofNat_eq_maxValue_iff] <;> omega), hnext,
    numbered_ofNat base (by omega)]

theorem searchName_lastNumber (h : name ∈ taken) :
    searchName taken base name (Int32.ofNat lastNumber) = .error .stopped := by
  rw [searchName, if_pos (by simpa using h), if_pos ((ofNat_eq_maxValue_iff (Nat.le_refl _)).2 rfl)]

theorem searchName_of_taken (h : name ∈ taken) {d : Nat} (hd : m + d < lastNumber)
    (htaken : ∀ j, m ≤ j → j < m + d → numbered base j ∈ taken) :
    searchName taken base name (Int32.ofNat m) =
      searchName taken base (numbered base (m + d)) (Int32.ofNat (m + d + 1)) := by
  induction d with
  | zero => exact searchName_of_mem h hd
  | succ d ih =>
    rw [ih (by omega) fun j hj hlt => htaken j hj (by omega),
      searchName_of_mem (htaken (m + d) (by omega) (by omega)) (by omega)]
    rfl

theorem freeName_of_not_mem (h : base ∉ taken) : freeName taken base = .ok base :=
  searchName_of_not_mem h 1

/-- A name that is taken gets the least number from one on that makes it free, if this is not too large. -/
theorem freeName_of_mem (h : base ∈ taken) {k : Nat}
    (hk : IsLeast {k | 1 ≤ k ∧ numbered base k ∉ taken} k) (hlt : k < lastNumber) :
    freeName taken base = .ok (numbered base k) := by
  obtain ⟨⟨hone, hfree⟩, hleast⟩ := hk
  have hsearch := searchName_of_taken (m := 1) (d := k - 1) h (by omega) fun j hj hjk => by
    by_contra hnot
    have := hleast ⟨hj, hnot⟩
    omega
  rw [Nat.add_sub_cancel' hone] at hsearch
  exact hsearch.trans (searchName_of_not_mem hfree _)

/-- A name is taken, and so is the same with every number but the last. -/
def Exhausted (taken : List String) (base : String) : Prop :=
  base ∈ taken ∧ ∀ j, 1 ≤ j → j < lastNumber → numbered base j ∈ taken

theorem freeName_of_exhausted (h : Exhausted taken base) : freeName taken base = .error .stopped := by
  have heq := lastNumber_eq
  -- The last number but one still names a candidate; then there is no number to count up to.
  have hsearch := searchName_of_taken (m := 1) (d := lastNumber - 2) h.1 (by omega) fun j hj hlt =>
    h.2 j hj (by omega)
  have hlast : 1 + (lastNumber - 2) + 1 = lastNumber := by omega
  rw [hlast] at hsearch
  exact hsearch.trans (searchName_lastNumber (h.2 _ (by omega) (by omega)))

theorem exists_least (taken : List String) (base : String) :
    ∃ k, IsLeast {k | 1 ≤ k ∧ numbered base k ∉ taken} k := by
  classical
  obtain ⟨d, -, hfree⟩ := exists_free taken base 1
  have hex : ∃ k, 1 ≤ k ∧ numbered base k ∉ taken := ⟨1 + d, by omega, hfree⟩
  exact ⟨Nat.find hex, Nat.find_spec hex, fun _ => Nat.find_min' hex⟩

theorem exists_freeName (h : ¬Exhausted taken base) : ∃ name, freeName taken base = .ok name ∧
    name ∉ taken ∧ (base ∉ taken → name = base) ∧
    (base ∈ taken → ∃ k ≤ taken.length, IsLeast {k | 1 ≤ k ∧ numbered base k ∉ taken} k ∧
      name = numbered base k) := by
  by_cases hbase : base ∈ taken
  · obtain ⟨k, hk⟩ := exists_least taken base
    have hbefore (j : Nat) (hj : 1 ≤ j) (hlt : j < k) : numbered base j ∈ taken := by
      by_contra hnot
      have := hk.2 ⟨hj, hnot⟩
      omega
    have hlt : k < lastNumber := by
      by_contra hnot
      exact h ⟨hbase, fun j hj hlast => hbefore j hj (by omega)⟩
    refine ⟨_, freeName_of_mem hbase hk hlt, hk.1.2, absurd hbase, fun _ => ⟨k, ?_, hk, rfl⟩⟩
    exact le_length_of_taken hbase hbefore hk.1.1
  · exact ⟨base, freeName_of_not_mem hbase, hbase, fun _ => rfl, fun h => absurd h hbase⟩

theorem freeName_eq_stopped : freeName taken base = .error .stopped ↔ Exhausted taken base := by
  refine ⟨fun h => ?_, freeName_of_exhausted⟩
  by_contra hnot
  obtain ⟨name, hname, -⟩ := exists_freeName hnot
  rw [h] at hname
  cases hname

theorem not_exhausted_of_length_lt (h : taken.length < lastNumber) : ¬Exhausted taken base := by
  rintro ⟨hbase, htaken⟩
  have heq := lastNumber_eq
  have hle := le_length_of_taken hbase htaken (by omega)
  omega

theorem freeName_not_mem (h : freeName taken base = .ok name) : name ∉ taken := by
  by_cases hex : Exhausted taken base
  · rw [freeName_of_exhausted hex] at h
    cases h
  · obtain ⟨name', hname, hfree, -⟩ := exists_freeName hex
    rw [h] at hname
    obtain rfl := Except.ok.inj hname
    exact hfree

end Circuit

end QuantumRelay
