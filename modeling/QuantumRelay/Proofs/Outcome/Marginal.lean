import Mathlib.Algebra.BigOperators.Ring.Finset
import QuantumRelay.Proofs.Outcome.Sums

/-!
# Marginals of registers

A result shows its outcomes as texts, with a blank between the groups of two registers. A text is cut at
its blanks into the groups that it was joined from (`parts_joined`), those of empty registers included, so
the group of a register stands where the register does, counted from the right. Hence the counts of a
register are those of all outcomes whose bits show there what is asked for (`registerCounts_marginal`).
-/

namespace QuantumRelay

namespace OutcomeKey

variable {g : List Char} {gs : List (List Char)} {registers : List Register} {r : Register}

/-! ### Parts between blanks -/

theorem parts_of_not_mem (h : ' ' ∉ g) : parts g = [g] := by
  induction g with
  | nil => rfl
  | cons c rest ih =>
    have hc : c ≠ ' ' := (List.ne_of_not_mem_cons h).symm
    rw [parts, if_neg hc, ih (List.not_mem_of_not_mem_cons h)]

theorem parts_append_blank (h : ' ' ∉ g) (more : List Char) :
    parts (g ++ ' ' :: more) = g :: parts more := by
  induction g with
  | nil => rw [List.nil_append, parts, if_pos rfl]
  | cons c rest ih =>
    have hc : c ≠ ' ' := (List.ne_of_not_mem_cons h).symm
    rw [List.cons_append, parts, if_neg hc, ih (List.not_mem_of_not_mem_cons h)]

theorem parts_joined (hne : gs ≠ []) (h : ∀ g ∈ gs, ' ' ∉ g) : parts (joined gs) = gs := by
  induction gs with
  | nil => exact absurd rfl hne
  | cons g rest ih =>
    obtain ⟨hg, hrest⟩ := List.forall_mem_cons.1 h
    cases rest with
    | nil => exact parts_of_not_mem hg
    | cons next more =>
      rw [joined, parts_append_blank hg, ih (List.cons_ne_nil _ _) hrest]
      exact List.cons_ne_nil _ _

theorem digit_ne_blank (bits : List Bool) (i : Nat) : digit bits i ≠ ' ' := by
  unfold digit
  split
  · decide
  · decide

theorem blank_not_mem_group (bits : List Bool) (r : Register) : ' ' ∉ group bits r := by
  rw [group, List.mem_map]
  rintro ⟨i, -, hi⟩
  exact digit_ne_blank bits i.toNat hi

theorem parts_grouped (bits : List Bool) (hr : r ∈ registers) :
    parts (grouped bits registers).toList = registers.reverse.map (group bits) := by
  have hempty : registers.isEmpty = false := by
    cases registers with
    | nil => cases hr
    | cons _ _ => rfl
  rw [grouped, String.toList_ofList, hempty, if_neg Bool.false_ne_true, parts_joined]
  · simpa using List.ne_nil_of_mem hr
  · exact List.forall_mem_map.2 fun r _ => blank_not_mem_group bits r

end OutcomeKey

namespace Register.Tiling

variable {registers : List Register} {total : UInt32} {r : Register}

theorem sublist_range (h : Tiling registers total) (hr : r ∈ registers) :
    (r.indices.map (·.toNat)).Sublist (List.range total.toNat) := by
  rw [← h.indices, allIndices, List.flatMap_def]
  exact (List.sublist_flatten_of_mem (List.mem_map_of_mem hr)).map _

theorem rising (h : Tiling registers total) (hr : r ∈ registers) :
    r.indices.Pairwise (· < ·) := by
  have hlt := List.pairwise_lt_range.sublist (h.sublist_range hr)
  exact (List.pairwise_map.1 hlt).imp fun h => UInt32.lt_iff_toNat_lt.2 h

theorem inside (h : Tiling registers total) (hr : r ∈ registers) : ∀ i ∈ r.indices, i < total :=
  fun _ hi => UInt32.lt_iff_toNat_lt.2 <|
    List.mem_range.1 ((h.sublist_range hr).subset (List.mem_map_of_mem hi))

theorem exists_position (h : Tiling registers total) (hr : r ∈ registers) :
    ∃ position, registers.reverse.findIdx? (·.name == r.name) = some position ∧
      registers.reverse[position]? = some r := by
  have hr : r ∈ registers.reverse := List.mem_reverse.2 hr
  have hnames : (registers.reverse.map (·.name)).Nodup := by
    rw [List.map_reverse, List.nodup_reverse]
    exact h.names
  cases hposition : registers.reverse.findIdx? (·.name == r.name) with
  | none =>
    have hno := List.findIdx?_eq_none_iff.1 hposition r hr
    simp at hno
  | some position =>
    obtain ⟨hlt, hname, -⟩ := List.findIdx?_eq_some_iff_getElem.1 hposition
    refine ⟨position, rfl, ?_⟩
    have hsame := List.inj_on_of_nodup_map hnames (List.getElem_mem hlt) hr (beq_iff_eq.1 hname)
    rw [List.getElem?_eq_getElem hlt, hsame]

end Register.Tiling

namespace RunResult

open Counts

variable {s raw : Snapshot} {answer : Json} {endpoint : String} {result : RunResult} {r : Register}

/-! ### Counting groups -/

theorem countGroups_eq {position : Nat} {c : Counts} {l : List (String × UInt64)}
    {groupOf : String → List Char}
    (h : ∀ e ∈ l, (OutcomeKey.parts e.1.toList)[position]? = some (groupOf e.1)) :
    countGroups position c l =
      (c.insertAll (l.map fun e => (String.ofList (groupOf e.1), e.2))).map some := by
  induction l generalizing c with
  | nil => rfl
  | cons e rest ih =>
    obtain ⟨hfirst, hrest⟩ := List.forall_mem_cons.1 h
    rw [countGroups, hfirst]
    show (c.insert (String.ofList (groupOf e.1)) e.2).bind (countGroups position · rest) =
      ((c.insert (String.ofList (groupOf e.1)) e.2).bind (·.insertAll _)).map some
    cases c.insert (String.ofList (groupOf e.1)) e.2 with
    | error stop => rfl
    | ok next => exact ih hrest

theorem exists_shown (h : parse answer s endpoint = .ok result) {key : String}
    (hkey : result.counts.map.contains key = true) :
    ∃ bits : Fin s.numClbits.toNat → Bool, key = s.shown (List.ofFn bits) := by
  obtain ⟨packed, time, -, hlegal, -, rfl⟩ := parse_eq_ok_iff.1 h
  rcases (contains_plusAll _ _ _).1 hkey with hmem | hempty
  · simp only [shownEntries, List.map_map, List.mem_map, Function.comp_apply] at hmem
    obtain ⟨e, he, rfl⟩ := hmem
    obtain ⟨bits, hbits⟩ := OutcomeKey.exists_unpack_iff.2 (hlegal e.1 (List.mem_map_of_mem he))
    have hlength := OutcomeKey.length_of_unpack hbits
    refine ⟨fun i => bits[i], ?_⟩
    rw [Snapshot.shownKey_of_unpack hbits]
    congr 1
    exact List.ext_getElem (by simp [hlength]) (by simp)
  · cases hempty

theorem exactSum_under_map {w : Nat} {shown : (Fin w → Bool) → String}
    (hinj : Function.Injective shown) (textOf : String → String) {l : List (String × UInt64)}
    (hl : ∀ e ∈ l, ∃ bits, e.1 = shown bits) (g : String) :
    exactSum (under g (l.map fun e => (textOf e.1, e.2))) =
      ∑ bits : Fin w → Bool with textOf (shown bits) = g, exactSum (under (shown bits) l) := by
  induction l with
  | nil => simp [under]
  | cons e rest ih =>
    obtain ⟨first, n⟩ := e
    obtain ⟨⟨bits₀, hfirst⟩, hrest⟩ := List.forall_mem_cons.1 hl
    obtain rfl : first = shown bits₀ := hfirst
    -- the first number counts for the bits that its key is shown of, and for no others
    have honce : (∑ bits : Fin w → Bool with textOf (shown bits) = g,
        if shown bits = shown bits₀ then n.toNat else 0) =
          if g = textOf (shown bits₀) then n.toNat else 0 := by
      simp [hinj.eq_iff, eq_comm]
    rw [List.map_cons, exactSum_under_cons, ih hrest, ← honce, ← Finset.sum_add_distrib]
    exact Finset.sum_congr rfl fun bits _ => (exactSum_under_cons _ _ _ _).symm

/-- The counts of a register, as they follow from those of the outcomes. -/
structure IsMarginal (s : Snapshot) (r : Register) (result : RunResult) (m : Counts) : Prop where
  /-- The number of a text is what all outcomes add up to whose bits spell it at the indices of the
  register, the highest first. -/
  count : ∀ g : String, (m.get g).toNat =
    ∑ bits : Fin s.numClbits.toNat → Bool with OutcomeKey.group (List.ofFn bits) r = g.toList,
      (result.counts.get (s.shown (List.ofFn bits))).toNat
  /-- There are as many shots as in the result. -/
  total : ∃ n, m.total = .ok n ∧ result.shots = .ok n

theorem isMarginal_plusAll (hs : raw.normalized = .ok s)
    (h : parse answer s endpoint = .ok result)
    (hfits : exactSum result.counts.map.values < 2 ^ 64) {groupOf : String → List Char}
    (hgroup : ∀ bits, groupOf (s.shown bits) = OutcomeKey.group bits r) :
    let groups := result.counts.map.entries.map fun e => (String.ofList (groupOf e.1), e.2)
    insertAll {} groups = .ok (plusAll {} groups) ∧ IsMarginal s r result (plusAll {} groups) := by
  intro groups
  have hvalues : groups.map (·.2) = result.counts.map.values := by
    rw [List.map_map]
    rfl
  have hunder : ∀ g, (Counts.get {} g).toNat + exactSum (under g groups) < 2 ^ 64 :=
    under_fits (hvalues ▸ hfits)
  refine ⟨insertAll_eq_ok_iff.2 ⟨hunder, rfl⟩, fun g => ?_, ?_⟩
  · have hinj : Function.Injective fun bits : Fin s.numClbits.toNat → Bool =>
        s.shown (List.ofFn bits) := fun a b hab =>
      List.ofFn_injective (Snapshot.shown_injective hs List.length_ofFn List.length_ofFn hab)
    have hentries : ∀ e ∈ result.counts.map.entries,
        ∃ bits : Fin s.numClbits.toNat → Bool, e.1 = s.shown (List.ofFn bits) := fun e he =>
      exists_shown h (KeyMap.mem_keys_iff.1 (List.mem_map_of_mem he))
    have hzero : (Counts.get {} g).toNat = 0 := rfl
    rw [toNat_get_plusAll (hunder g), hzero, Nat.zero_add,
      exactSum_under_map hinj (fun key => String.ofList (groupOf key)) hentries]
    refine Finset.sum_congr (Finset.filter_congr fun bits _ => ?_) fun bits _ =>
      exactSum_under_entries _ _
    rw [hgroup, ← String.toList_inj, String.toList_ofList]
  · obtain ⟨n, hn⟩ := exists_total_iff.2 hfits
    refine ⟨n, ?_, hn⟩
    rw [total_eq_ok_iff] at hn ⊢
    rw [exactSum_plusAll hunder, hvalues]
    exact hn.trans (Nat.zero_add _).symm

/-- Of every result, the counts of every classical register are its marginal, and there are none of what
is no classical register. -/
theorem registerCounts_marginal (hs : raw.normalized = .ok s)
    (h : parse answer s endpoint = .ok result)
    (hfits : exactSum result.counts.map.values < 2 ^ 64) :
    (∀ r ∈ s.classicalRegisters, r.indices.Pairwise (· < ·) ∧ (∀ i ∈ r.indices, i < s.numClbits) ∧
      ∃ m, result.registerCounts s r.name = .ok (some m) ∧ IsMarginal s r result m) ∧
    ∀ name ∉ s.classicalRegisters.map (·.name), result.registerCounts s name = .ok none := by
  have htiling := Snapshot.tiling_of_normalized hs
  constructor
  · intro r hr
    obtain ⟨position, hposition, hat⟩ := htiling.exists_position hr
    refine ⟨htiling.rising hr, htiling.inside hr, ?_⟩
    let groupOf (outcome : String) : List Char :=
      (OutcomeKey.parts outcome.toList)[position]?.getD []
    have hshown (bits : List Bool) :
        (OutcomeKey.parts (s.shown bits).toList)[position]? = some (OutcomeKey.group bits r) := by
      rw [Snapshot.shown, OutcomeKey.parts_grouped bits hr, List.getElem?_map, hat]
      rfl
    have hgroup (bits : List Bool) : groupOf (s.shown bits) = OutcomeKey.group bits r := by
      show (OutcomeKey.parts (s.shown bits).toList)[position]?.getD [] = _
      rw [hshown]
      rfl
    obtain ⟨hinserted, hmarginal⟩ := isMarginal_plusAll hs h hfits hgroup
    have hparts : ∀ e ∈ result.counts.map.entries,
        (OutcomeKey.parts e.1.toList)[position]? = some (groupOf e.1) := fun e he => by
      obtain ⟨bits, hbits⟩ := exists_shown h (KeyMap.mem_keys_iff.1 (List.mem_map_of_mem he))
      rw [hbits, hgroup, hshown]
    refine ⟨_, ?_, hmarginal⟩
    rw [registerCounts, hposition]
    dsimp only
    rw [countGroups_eq hparts, hinserted]
    rfl
  · intro name hname
    have hposition : s.classicalRegisters.reverse.findIdx? (·.name == name) = none := by
      rw [List.findIdx?_eq_none_iff]
      intro r hr
      refine beq_eq_false_iff_ne.2 fun heq => hname ?_
      exact heq ▸ List.mem_map_of_mem (List.mem_reverse.1 hr)
    rw [registerCounts, hposition]

/-- A circuit with two classical bits in one register, and an empty register on either side. -/
def flanked : Snapshot where
  id := "a"
  instructions := [{ name := "measure", qubits := [0], clbits := [0] }]
  numQubits := 1
  numClbits := 2
  quantumRegisters := [⟨"q", [0]⟩]
  classicalRegisters := [⟨"low", []⟩, ⟨"c", [0, 1]⟩, ⟨"high", []⟩]
  isParametric := false
  isDistributed := false

/-- The first bit is set in all nine shots, the second one in four of them. -/
def nineShots : KeyMap UInt64 where
  entries := [("0x1", 3), ("0x3", 4), ("1", 2)]
  sorted := by decide

theorem legal_nineShots : (∀ key ∈ nineShots.keys, LegalFor flanked key) ∧ Fits flanked nineShots := by
  have hread : countKeys flanked {} nineShots.entries = .ok (counted flanked nineShots) := rfl
  obtain ⟨hlegal, hfits, -⟩ := countKeys_entries_eq_ok_iff.1 hread
  exact ⟨hlegal, hfits⟩

/-- Empty registers are counted too. -/
theorem registerCounts_flanked : ∃ result,
    parse (Response.ofCounts nineShots 0.5).toJson flanked "unit" = .ok result ∧
      (∃ m, result.registerCounts flanked "high" = .ok (some m) ∧ (m.get "").toNat = 9) ∧
        (∃ m, result.registerCounts flanked "c" = .ok (some m) ∧ (m.get "01").toNat = 5) ∧
          result.registerCounts flanked "q" = .ok none := by
  have hparse := parse_toJson legal_nineShots.1 legal_nineShots.2 0.5 "unit"
  have hnormalized : flanked.normalized = .ok flanked := rfl
  obtain ⟨hsome, hnone⟩ := registerCounts_marginal hnormalized hparse (by decide)
  refine ⟨_, hparse, ?_, ?_, hnone "q" (by decide)⟩
  · obtain ⟨-, -, m, hm, hmarginal⟩ := hsome ⟨"high", []⟩ (by simp [flanked])
    refine ⟨m, hm, ?_⟩
    rw [hmarginal.count]
    decide +kernel
  · obtain ⟨-, -, m, hm, hmarginal⟩ := hsome ⟨"c", [0, 1]⟩ (by simp [flanked])
    refine ⟨m, hm, ?_⟩
    rw [hmarginal.count]
    decide +kernel

end RunResult

end QuantumRelay
