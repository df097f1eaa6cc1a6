import QuantumRelay.Proofs.Circuit.WellFormed
import QuantumRelay.Proofs.Outcome.Reading

/-!
# When the numbers of an answer can be added

A result says of every outcome what the packed keys that are read as it add up to, in whichever way they
are spelled, and its shots are the sum of all numbers in the answer. These sums are exact, since the
program stops at one that is no word (`exact_or_stopped`). So an answer is carried through if and only if
the sum of all its numbers is a word. Nothing is reported about one whose sum is not: the program stops as
it is read, or as soon as its shots are added up (`stopped_by_overfull`).
-/

namespace QuantumRelay.RunResult

open Counts

variable {s raw : Snapshot} {answer : Json} {endpoint : String} {result : RunResult}
  {packed : KeyMap UInt64} {bits : List Bool} {time : Float}

def packedSum (s : Snapshot) (packed : KeyMap UInt64) (bits : List Bool) : Nat :=
  exactSum <|
    (packed.entries.filter fun e => OutcomeKey.unpack e.1 s.numClbits.toNat = .ok bits).map (·.2)

theorem under_shown (hs : raw.normalized = .ok s) (hlegal : ∀ key ∈ packed.keys, LegalFor s key)
    (hbits : bits.length = s.numClbits.toNat) :
    exactSum (under (s.shown bits) (shownEntries s packed.entries)) = packedSum s packed bits := by
  rw [under, packedSum, shownEntries, List.filter_map, List.map_map]
  congr 2
  refine List.filter_congr fun e he => ?_
  obtain ⟨read, hread⟩ := OutcomeKey.exists_unpack_iff.2 (hlegal e.1 (List.mem_map_of_mem he))
  rw [Function.comp_apply, decide_eq_decide, Snapshot.shownKey_of_unpack hread, hread]
  constructor
  · intro heq
    rw [Snapshot.shown_injective hs (OutcomeKey.length_of_unpack hread) hbits heq]
  · intro heq
    rw [Except.ok.inj heq]

theorem under_of_not_shown {outcome : String} {l : List (String × UInt64)}
    (h : ∀ e ∈ l, s.shownKey e.1 ≠ outcome) : under outcome (shownEntries s l) = [] := by
  have hnone : (shownEntries s l).filter (·.1 = outcome) = [] := by
    rw [List.filter_eq_nil_iff]
    exact List.forall_mem_map.2 fun e he => by simpa using h e he
  rw [under, hnone, List.map_nil]

/-- The numbers of every outcome add up to a word if and only if those of all bits do. -/
theorem fits_iff (hs : raw.normalized = .ok s) (hlegal : ∀ key ∈ packed.keys, LegalFor s key) :
    Fits s packed ↔
      ∀ bits : List Bool, bits.length = s.numClbits.toNat → packedSum s packed bits < 2 ^ 64 := by
  constructor
  · intro hfits bits hbits
    rw [← under_shown hs hlegal hbits]
    exact hfits (s.shown bits)
  · intro hsums outcome
    by_cases hshown : ∃ e ∈ packed.entries, s.shownKey e.1 = outcome
    · obtain ⟨e, he, rfl⟩ := hshown
      obtain ⟨bits, hbits⟩ := OutcomeKey.exists_unpack_iff.2 (hlegal e.1 (List.mem_map_of_mem he))
      have hlength := OutcomeKey.length_of_unpack hbits
      rw [Snapshot.shownKey_of_unpack hbits, under_shown hs hlegal hlength]
      exact hsums bits hlength
    · rw [under_of_not_shown fun e he heq => hshown ⟨e, he, heq⟩]
      exact Nat.two_pow_pos 64

theorem toNat_get_counted (hs : raw.normalized = .ok s)
    (hlegal : ∀ key ∈ packed.keys, LegalFor s key) (hfits : Fits s packed)
    (hbits : bits.length = s.numClbits.toNat) :
    ((counted s packed).get (s.shown bits)).toNat = packedSum s packed bits := by
  have hzero : (Counts.get {} (s.shown bits)).toNat = 0 := rfl
  rw [← under_shown hs hlegal hbits, counted, toNat_get_plusAll, hzero, Nat.zero_add]
  rw [hzero, Nat.zero_add]
  exact hfits _

/-- Counting loses nothing. -/
theorem exactSum_counted (hfits : Fits s packed) :
    exactSum (counted s packed).map.values = exactSum packed.values := by
  rw [counted, exactSum_plusAll, map_shownEntries]
  · exact Nat.zero_add _
  · intro outcome
    have hzero : (Counts.get {} outcome).toNat = 0 := rfl
    rw [hzero, Nat.zero_add]
    exact hfits outcome

/-! ### An answer with legal keys -/

section legal

variable (hcomplete : Response.ofJson? answer = some (.ofCounts packed time))

include hcomplete in
theorem fits_of_parse (h : parse answer s endpoint = .ok result) :
    Fits s packed ∧ result.counts = counted s packed := by
  obtain ⟨packed', time', hcomplete', -, hfits, rfl⟩ := parse_eq_ok_iff.1 h
  have heq := hcomplete.symm.trans hcomplete'
  injection heq with heq
  injection heq with _ heq _
  obtain rfl := Option.some.inj heq
  exact ⟨hfits, rfl⟩

include hcomplete in
theorem shots_eq_ok_iff (h : parse answer s endpoint = .ok result) (n : UInt64) :
    result.shots = .ok n ↔ n.toNat = exactSum packed.values := by
  obtain ⟨hfits, hcounts⟩ := fits_of_parse hcomplete h
  rw [RunResult.shots, hcounts, total_eq_ok_iff, exactSum_counted hfits]

variable (hlegal : ∀ key ∈ packed.keys, LegalFor s key)

include hcomplete hlegal in
theorem exists_parse_iff : (∃ result, parse answer s endpoint = .ok result) ↔ Fits s packed :=
  ⟨fun ⟨_, h⟩ => (fits_of_parse hcomplete h).1, fun hfits =>
    ⟨_, parse_eq_ok_iff.2 ⟨packed, time, hcomplete, hlegal, hfits, rfl⟩⟩⟩

include hcomplete hlegal in
theorem parse_eq_stopped_iff : parse answer s endpoint = .error .stopped ↔ ¬Fits s packed := by
  rw [← exists_parse_iff hcomplete hlegal]
  refine ⟨fun h ⟨result, hresult⟩ => (nomatch h.symm.trans hresult), fun h => ?_⟩
  by_contra halive
  exact h (exists_parse_of_legal hcomplete hlegal halive)

include hcomplete hlegal in
theorem exists_shots_iff :
    (∃ result n, parse answer s endpoint = .ok result ∧ result.shots = .ok n) ↔
      exactSum packed.values < 2 ^ 64 := by
  constructor
  · rintro ⟨result, n, hresult, hn⟩
    exact (shots_eq_ok_iff hcomplete hresult n).1 hn ▸ n.toNat_lt
  · intro hsum
    obtain ⟨result, hresult⟩ := (exists_parse_iff hcomplete hlegal).2 (fits_of_sum hsum)
    exact ⟨result, .ofNat (exactSum packed.values), hresult,
      (shots_eq_ok_iff hcomplete hresult _).2 (UInt64.toNat_ofNat_of_lt' hsum)⟩

include hcomplete hlegal in
/-- The program stops before a result is kept if and only if there is none that has shots. -/
theorem logged_eq_stopped_iff : (parse answer s endpoint).bind logged = .error .stopped ↔
    ¬∃ result n, parse answer s endpoint = .ok result ∧ result.shots = .ok n := by
  cases hparse : parse answer s endpoint with
  | error e =>
    have hnone : ¬Fits s packed := fun hfits => by
      obtain ⟨result, hresult⟩ := (exists_parse_iff hcomplete hlegal).2 hfits
      cases hparse.symm.trans hresult
    rw [(parse_eq_stopped_iff hcomplete hlegal).2 hnone] at hparse
    obtain rfl := Except.error.inj hparse
    simp [Except.bind]
  | ok result =>
    cases hn : result.shots with
    | error stop => simp [Except.bind, logged, hn]
    | ok n => simp [Except.bind, logged, hn]

end legal

/-- What becomes of the numbers of an answer. -/
structure Adds (s : Snapshot) (packed : KeyMap UInt64) (answer : Json) (endpoint : String) : Prop where
  /-- The answer is accepted if the numbers of every outcome add up to a word, -/
  accepted : (∃ result, parse answer s endpoint = .ok result) ↔
    ∀ bits : List Bool, bits.length = s.numClbits.toNat → packedSum s packed bits < 2 ^ 64
  /-- and otherwise the program stops. -/
  stopped : parse answer s endpoint = .error .stopped ↔
    ∃ bits : List Bool, bits.length = s.numClbits.toNat ∧ 2 ^ 64 ≤ packedSum s packed bits
  /-- The number of every outcome of a result is what all the keys that are read as it add up to. -/
  outcome : ∀ result, parse answer s endpoint = .ok result →
    ∀ bits : List Bool, bits.length = s.numClbits.toNat →
      (result.counts.get (s.shown bits)).toNat = packedSum s packed bits
  /-- The shots of a result, if they are a word, are what all numbers add up to. -/
  shots : ∀ result, parse answer s endpoint = .ok result →
    ∀ n, result.shots = .ok n ↔ n.toNat = exactSum packed.values
  /-- A result with shots comes of the answer if and only if all numbers together are a word, -/
  whole : (∃ result n, parse answer s endpoint = .ok result ∧ result.shots = .ok n) ↔
    exactSum packed.values < 2 ^ 64
  /-- and otherwise the program stops before the result is kept. -/
  kept : (parse answer s endpoint).bind logged = .error .stopped ↔ 2 ^ 64 ≤ exactSum packed.values

theorem adds_of_legal (hs : raw.normalized = .ok s)
    (hcomplete : Response.ofJson? answer = some (.ofCounts packed time))
    (hlegal : ∀ key ∈ packed.keys, LegalFor s key) : Adds s packed answer endpoint where
  accepted := (exists_parse_iff hcomplete hlegal).trans (fits_iff hs hlegal)
  stopped := by
    rw [parse_eq_stopped_iff hcomplete hlegal, fits_iff hs hlegal]
    simp only [not_forall, Nat.not_lt, exists_prop]
  outcome result h bits hbits := by
    obtain ⟨hfits, hcounts⟩ := fits_of_parse hcomplete h
    rw [hcounts, toNat_get_counted hs hlegal hfits hbits]
  shots _ h := shots_eq_ok_iff hcomplete h
  whole := exists_shots_iff hcomplete hlegal
  kept := by rw [logged_eq_stopped_iff hcomplete hlegal, exists_shots_iff hcomplete hlegal, Nat.not_lt]

/-- Every answer that is accepted has legal keys, and the numbers at legal keys are added up exactly, or
the program stops. -/
theorem exact_or_stopped (hs : raw.normalized = .ok s) :
    (∀ result, parse answer s endpoint = .ok result → ∃ packed time,
      Response.ofJson? answer = some { error := none, counts := some packed, timeTaken := some time } ∧
        ∀ key ∈ packed.keys, LegalFor s key) ∧
    ∀ packed time,
      Response.ofJson? answer = some { error := none, counts := some packed, timeTaken := some time } →
        (∀ key ∈ packed.keys, LegalFor s key) → Adds s packed answer endpoint := by
  refine ⟨fun result h => ?_, fun packed time hcomplete hlegal => adds_of_legal hs hcomplete hlegal⟩
  obtain ⟨packed, time, hcomplete, hlegal, -⟩ := parse_eq_ok_iff.1 h
  exact ⟨packed, time, hcomplete, hlegal⟩

def oneBit : Snapshot where
  id := "a"
  instructions := [{ name := "measure", qubits := [0], clbits := [0] }]
  numQubits := 1
  numClbits := 1
  quantumRegisters := [⟨"q", [0]⟩]
  classicalRegisters := [⟨"c", [0]⟩]
  isParametric := false
  isDistributed := false

/-- One outcome in three spellings, and the other one. -/
def respelled : KeyMap UInt64 where
  entries := [("0X01", 4), ("0x0", 2), ("0x1", 3), ("1", 5)]
  sorted := by decide

theorem legal_respelled : ∀ key ∈ respelled.keys, LegalFor oneBit key := by
  have hread : countKeys oneBit {} respelled.entries = .ok (counted oneBit respelled) := rfl
  exact (countKeys_entries_eq_ok_iff.1 hread).1

/-- All spellings of an outcome count together. -/
theorem exact_respelled : ∃ result n,
    parse (Response.ofCounts respelled 0.5).toJson oneBit "unit" = .ok result ∧
      (result.counts.get "1").toNat = 12 ∧ result.shots = .ok n ∧ n.toNat = 14 := by
  have hnormalized : oneBit.normalized = .ok oneBit := rfl
  have hadds : Adds oneBit respelled (Response.ofCounts respelled 0.5).toJson "unit" :=
    (exact_or_stopped hnormalized).2 respelled 0.5 (Response.ofJson?_toJson _) legal_respelled
  obtain ⟨result, n, hresult, hn⟩ := hadds.whole.2 (by decide)
  have hone := hadds.outcome result hresult [true] rfl
  exact ⟨result, n, hresult, hone, hn, (hadds.shots result hresult n).1 hn⟩

/-- One outcome in two spellings whose numbers are no word together. -/
def overfull : KeyMap UInt64 where
  entries := [("0", 1), ("0x0", 18446744073709551615)]
  sorted := by decide

def overfullPair : KeyMap UInt64 where
  entries := [("0x0", 18446744073709551615), ("0x1", 1)]
  sorted := by decide

/-- Answers whose numbers are no word together are reported by no error. The program stops as it reads
the one, and as it adds up the shots of the other. -/
theorem stopped_by_overfull :
    parse (Response.ofCounts overfull 0.5).toJson oneBit "unit" = .error .stopped ∧
    ∃ result, parse (Response.ofCounts overfullPair 0.5).toJson oneBit "unit" = .ok result ∧
      result.shots = .error .overflow ∧ result.logged = .error .stopped := by
  refine ⟨?_, ?_⟩
  · rw [parse_of_complete (Response.ofJson?_toJson _)]
    rfl
  · have hread : countKeys oneBit {} overfullPair.entries = .ok (counted oneBit overfullPair) := rfl
    obtain ⟨hlegal, hfits, -⟩ := countKeys_entries_eq_ok_iff.1 hread
    exact ⟨_, parse_toJson hlegal hfits 0.5 "unit", rfl, rfl⟩

end QuantumRelay.RunResult
