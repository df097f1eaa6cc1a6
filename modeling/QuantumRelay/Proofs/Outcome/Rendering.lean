import QuantumRelay.Proofs.Outcome.Marginal

/-!
# Shown outcomes are packed keys

An outcome as people see it can be handed in as a packed key and is read as the bits that it shows
(`unpack_grouped`). Registers are shown from the last one on and each from its highest index on, while a
key is read from its end, so the bits come out in the order of their indices; the blanks between registers
say nothing. It does not matter how the indices are split into registers, whether some of these are empty
or whether there is any.

Hence outcomes tell bits apart, and the counts of a result, sent as an answer again, are read as they are
(`shown_read_back`).
-/

namespace QuantumRelay

namespace OutcomeKey

variable {bits : List Bool} {registers : List Register} {total : UInt32}

/-- Registers that hold the indices below a number in their order, or no registers at all. -/
def Cover (registers : List Register) (total : UInt32) : Prop :=
  registers = [] ∨ Register.allIndices registers = List.range total.toNat

/-! ### Digits in their order -/

theorem binaryValue?_digit (bits : List Bool) (i : Nat) :
    binaryValue? (digit bits i) = some (bitAt bits i) := by
  show binaryValue? (if bitAt bits i then '1' else '0') = _
  cases bitAt bits i with
  | false => rfl
  | true => rfl

theorem mapM_binaryValue?_digits (bits : List Bool) :
    ((List.range bits.length).map (digit bits)).mapM binaryValue? = some bits := by
  rw [mapM_eq_some_iff, List.forall₂_map_left_iff, List.forall₂_iff_get]
  refine ⟨List.length_range, fun i hi hi' => ?_⟩
  have hi : i < bits.length := hi'
  rw [List.get_eq_getElem, List.get_eq_getElem, List.getElem_range, binaryValue?_digit, bitAt,
    List.getElem?_eq_getElem hi, Option.getD_some]

theorem filter_blank {g : List Char} (h : ' ' ∉ g) : g.filter (· ≠ ' ') = g :=
  List.filter_eq_self.2 fun _ hc => decide_eq_true fun heq => h (heq ▸ hc)

theorem filter_joined {gs : List (List Char)} (h : ∀ g ∈ gs, ' ' ∉ g) :
    (joined gs).filter (· ≠ ' ') = gs.flatten := by
  induction gs with
  | nil => rfl
  | cons g rest ih =>
    obtain ⟨hg, hrest⟩ := List.forall_mem_cons.1 h
    cases rest with
    | nil => simpa [joined] using filter_blank hg
    | cons next more =>
      rw [joined, List.filter_append, filter_blank hg, List.filter_cons_of_neg (by simp), ih hrest]
      · rfl
      · exact List.cons_ne_nil _ _

theorem reverse_flatten_groups (bits : List Bool) (registers : List Register) :
    (registers.reverse.map (group bits)).flatten.reverse =
      (Register.allIndices registers).map (digit bits) := by
  induction registers with
  | nil => rfl
  | cons r rest ih =>
    have hcons : Register.allIndices (r :: rest) =
        r.indices.map (·.toNat) ++ Register.allIndices rest := by simp [Register.allIndices]
    rw [List.reverse_cons, List.map_append, List.flatten_append, List.reverse_append, ih, hcons,
      List.map_append]
    simp [group, Function.comp_def]

theorem digits_grouped (h : Cover registers total) (hbits : bits.length = total.toNat) :
    (grouped bits registers).toList.reverse.filter (· ≠ ' ') =
      (List.range bits.length).map (digit bits) := by
  rw [grouped, String.toList_ofList, List.filter_reverse]
  split
  · have hblank : ' ' ∉ (List.range bits.length).reverse.map (digit bits) := by
      rw [List.mem_map]
      rintro ⟨i, -, hi⟩
      exact digit_ne_blank bits i hi
    rw [filter_blank hblank, ← List.map_reverse, List.reverse_reverse]
  · next hempty =>
    have hindices := h.resolve_left fun hnil => hempty (List.isEmpty_iff.2 hnil)
    rw [filter_joined (List.forall_mem_map.2 fun r _ => blank_not_mem_group bits r),
      reverse_flatten_groups, hindices, hbits]

theorem hexDigits?_grouped (h : Cover registers total) (hbits : bits.length = total.toNat) :
    hexDigits? (grouped bits registers).toList = none := by
  rw [Option.eq_none_iff_forall_ne_some]
  intro cs hcs
  obtain ⟨mark, hmark, hkey⟩ := hexDigits?_eq_some_iff.1 hcs
  have hmem : mark ∈ (grouped bits registers).toList.reverse.filter (· ≠ ' ') := by
    rw [hkey]
    rcases hmark with rfl | rfl <;> simp
  rw [digits_grouped h hbits] at hmem
  obtain ⟨i, -, hi⟩ := List.mem_map.1 hmem
  have hvalue := binaryValue?_digit bits i
  rw [hi] at hvalue
  rcases hmark with rfl | rfl <;> cases hvalue

theorem unpack_grouped (h : Cover registers total) (hbits : bits.length = total.toNat) :
    unpack (grouped bits registers) total.toNat = .ok bits := by
  have hspelled : spelled (grouped bits registers).toList = .ok bits := by
    rw [spelled_of_unmarked (hexDigits?_grouped h hbits), digits_grouped h hbits,
      mapM_binaryValue?_digits]
  rw [← hbits]
  exact unpack_of_spelled hspelled fun _ => rfl

end OutcomeKey

namespace RunResult

open OutcomeKey (Cover)

variable {s raw : Snapshot} {answer : Json} {endpoint : String} {result : RunResult}

theorem cover_of_normalized (hs : raw.normalized = .ok s) :
    Cover s.classicalRegisters s.numClbits :=
  .inr (Snapshot.tiling_of_normalized hs).indices

/-! ### Counts of counts -/

theorem shownKey_outcome (h : Cover s.classicalRegisters s.numClbits)
    (hresult : parse answer s endpoint = .ok result) {key : String}
    (hkey : key ∈ result.counts.map.keys) : LegalFor s key ∧ s.shownKey key = key := by
  obtain ⟨bits, rfl⟩ := exists_shown hresult (KeyMap.mem_keys_iff.1 hkey)
  have hread : OutcomeKey.unpack (s.shown (List.ofFn bits)) s.numClbits.toNat = .ok (List.ofFn bits) :=
    OutcomeKey.unpack_grouped h List.length_ofFn
  exact ⟨OutcomeKey.exists_unpack_iff.1 ⟨_, hread⟩, Snapshot.shownKey_of_unpack hread⟩

theorem shownEntries_of_shown {c : Counts} (h : ∀ key ∈ c.map.keys, s.shownKey key = key) :
    shownEntries s c.map.entries = c.map.entries := by
  refine (List.map_congr_left fun e he => ?_).trans (List.map_id _)
  rw [h e.1 (List.mem_map_of_mem he)]
  rfl

theorem counted_of_shown {c : Counts} (h : ∀ key ∈ c.map.keys, s.shownKey key = key) :
    counted s c.map = c := by
  rw [counted, shownEntries_of_shown h, Counts.plusAll_entries]

theorem fits_of_shown {c : Counts} (h : ∀ key ∈ c.map.keys, s.shownKey key = key) : Fits s c.map := by
  intro outcome
  rw [shownEntries_of_shown h, Counts.exactSum_under_entries]
  exact (c.get outcome).toNat_lt

/-- What registers show says what it was made from. -/
structure ReadBack (registers : List Register) (total : UInt32) : Prop where
  /-- A shown outcome, handed in as a packed key, is read as the bits that it shows. -/
  bits : ∀ bits : List Bool, bits.length = total.toNat →
    OutcomeKey.unpack (OutcomeKey.grouped bits registers) total.toNat = .ok bits
  /-- Outcomes tell bits apart. -/
  apart : ∀ a b : List Bool, a.length = total.toNat → b.length = total.toNat →
    OutcomeKey.grouped a registers = OutcomeKey.grouped b registers → a = b
  /-- The counts of a result, sent as an answer with any finite time, give the result again. -/
  counts : ∀ s : Snapshot, s.classicalRegisters = registers → s.numClbits = total →
    ∀ answer endpoint result, parse answer s endpoint = .ok result →
      ∀ time : Float, time.isFinite = true →
        parse (Response.ofCounts result.counts.map time).toJson s endpoint =
          .ok { result with timeTaken := time }

/-- Registers that hold all bits in their order, or no registers at all, show what can be read back. -/
theorem shown_read_back {registers : List Register} {total : UInt32} (h : Cover registers total) :
    ReadBack registers total where
  bits _ hbits := OutcomeKey.unpack_grouped h hbits
  apart a b ha hb hab := by
    have hread := OutcomeKey.unpack_grouped h ha
    rw [hab, OutcomeKey.unpack_grouped h hb] at hread
    exact (Except.ok.inj hread).symm
  counts s hregisters htotal answer endpoint result hresult time _ := by
    subst hregisters htotal
    have hkeys {key : String} (hkey : key ∈ result.counts.map.keys) :=
      shownKey_outcome h hresult hkey
    have hshown : ∀ key ∈ result.counts.map.keys, s.shownKey key = key := fun _ hkey => (hkeys hkey).2
    rw [parse_toJson (fun key hkey => (hkeys hkey).1) (fits_of_shown hshown), counted_of_shown hshown]
    obtain ⟨packed, time', -, -, -, rfl⟩ := parse_eq_ok_iff.1 hresult
    rfl

/-- Blanks of empty registers say nothing, and nine shots are counted as nine shots again. -/
theorem shown_read_back_flanked : ∃ result,
    OutcomeKey.unpack " 01 " 2 = .ok [true, false] ∧
      parse (Response.ofCounts nineShots 0.5).toJson flanked "unit" = .ok result ∧
        parse (Response.ofCounts result.counts.map 0.5).toJson flanked "unit" = .ok result := by
  have hparse := parse_toJson legal_nineShots.1 legal_nineShots.2 0.5 "unit"
  have hnormalized : flanked.normalized = .ok flanked := rfl
  have hback := shown_read_back (cover_of_normalized hnormalized)
  exact ⟨_, hback.bits [true, false] rfl, hparse,
    hback.counts flanked rfl rfl _ _ _ hparse 0.5 (by decide)⟩

end RunResult

end QuantumRelay
