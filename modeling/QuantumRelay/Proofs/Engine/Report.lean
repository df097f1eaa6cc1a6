import QuantumRelay.Proofs.Engine.Shots
import QuantumRelay.Proofs.Outcome.Sums

/-!
# What is reported is what came out

The counts of a run travel under packed keys and are shown under keys grouped by register. A reader that
has the snapshot turns the ones into the others (`parse_ofCounts`), and since both tell the outcomes of a
circuit apart, no two counts are merged on the way (`toNat_get_shownCounts`). So the result that is read
from the answer says of every outcome in how many shots the circuit ended with it (`parse_simulate`).
-/

namespace QuantumRelay

namespace RunResult

variable {s raw : Snapshot} {outcomes : List (List Bool)}

abbrev packedCounts (outcomes : List (List Bool)) : KeyMap UInt64 :=
  (Counts.tally (outcomes.map OutcomeKey.packHex)).map

/-- The packed counts of outcomes, as a reader with the snapshot counts them. -/
def shownCounts (s : Snapshot) (outcomes : List (List Bool)) : Counts :=
  counted s (packedCounts outcomes)

theorem mem_entries_tally {e : String × UInt64}
    (h : e ∈ (packedCounts outcomes).entries) : ∃ bits ∈ outcomes, OutcomeKey.packHex bits = e.1 := by
  have hkey : (packedCounts outcomes).contains e.1 = true :=
    KeyMap.contains_iff.2 ⟨e.2, KeyMap.find?_eq_some_iff.2 h⟩
  rw [Counts.contains_tally] at hkey
  exact List.mem_map.1 hkey

theorem exactSum_packedCounts (h : outcomes.length < 2 ^ 64) :
    Counts.exactSum (packedCounts outcomes).values = outcomes.length := by
  rw [Counts.exactSum_tally (by rwa [List.length_map]), List.length_map]

theorem fits_packedCounts (s : Snapshot) (h : outcomes.length < 2 ^ 64) :
    Fits s (packedCounts outcomes) :=
  fits_of_sum (by rwa [exactSum_packedCounts h])

theorem total_shownCounts (s : Snapshot) (h : outcomes.length < 2 ^ 64) :
    ∃ n, (shownCounts s outcomes).total = .ok n ∧ n.toNat = outcomes.length := by
  have hsum : Counts.exactSum (shownCounts s outcomes).map.values = outcomes.length := by
    rw [shownCounts, exactSum_counted (fits_packedCounts s h), exactSum_packedCounts h]
  obtain ⟨n, hn⟩ := Counts.exists_total_iff.2 (hsum ▸ h)
  exact ⟨n, hn, (Counts.total_eq_ok_iff.1 hn).trans hsum⟩

variable (hs : raw.normalized = .ok s) (hwidth : ∀ bits ∈ outcomes, bits.length = s.numClbits.toNat)

include hwidth

theorem legalFor_tally : ∀ key ∈ (packedCounts outcomes).keys, LegalFor s key := by
  refine List.forall_mem_map.2 fun e he => ?_
  obtain ⟨bits, hbits, hkey⟩ := mem_entries_tally he
  refine OutcomeKey.exists_unpack_iff.1 ⟨bits, ?_⟩
  rw [← hkey, ← hwidth bits hbits, OutcomeKey.unpack_packHex]

theorem contains_shownCounts (key : String) :
    (shownCounts s outcomes).map.contains key = true ↔ ∃ bits ∈ outcomes, s.shown bits = key := by
  rw [shownCounts, counted, Counts.contains_plusAll, shownEntries, List.map_map]
  constructor
  · rintro (hkey | hkey)
    · obtain ⟨e, he, rfl⟩ := List.mem_map.1 hkey
      obtain ⟨bits, hbits, hpacked⟩ := mem_entries_tally he
      refine ⟨bits, hbits, ?_⟩
      rw [Function.comp_apply, ← hpacked, Snapshot.shownKey_packHex (hwidth bits hbits)]
    · cases hkey
  · rintro ⟨bits, hbits, rfl⟩
    left
    have hpacked : (packedCounts outcomes).contains (OutcomeKey.packHex bits) = true :=
      (Counts.contains_tally _ _).2 (List.mem_map_of_mem hbits)
    obtain ⟨n, hn⟩ := KeyMap.contains_iff.1 hpacked
    refine List.mem_map.2 ⟨(OutcomeKey.packHex bits, n), KeyMap.find?_eq_some_iff.1 hn, ?_⟩
    exact Snapshot.shownKey_packHex (hwidth bits hbits)

theorem count_map_packHex {bits : List Bool} (hbits : bits.length = s.numClbits.toNat) :
    (outcomes.map OutcomeKey.packHex).count (OutcomeKey.packHex bits) = outcomes.count bits := by
  rw [List.count_eq_countP, List.countP_map, List.count_eq_countP]
  apply List.countP_congr
  intro other hother
  simp only [Function.comp_apply, beq_iff_eq]
  constructor
  · exact OutcomeKey.packHex_injective ((hwidth other hother).trans hbits.symm)
  · intro h
    rw [h]

theorem unpack_packed_iff {bits : List Bool} (hbits : bits.length = s.numClbits.toNat)
    {e : String × UInt64} (he : e ∈ (packedCounts outcomes).entries) :
    OutcomeKey.unpack e.1 s.numClbits.toNat = .ok bits ↔ e.1 = OutcomeKey.packHex bits := by
  obtain ⟨other, hother, hpacked⟩ := mem_entries_tally he
  have hlength := hwidth other hother
  have hread : OutcomeKey.unpack e.1 s.numClbits.toNat = .ok other := by
    rw [← hpacked, ← hlength, OutcomeKey.unpack_packHex]
  rw [hread, Except.ok.injEq, ← hpacked]
  exact ⟨congrArg _, OutcomeKey.packHex_injective (hlength.trans hbits.symm)⟩

include hs

theorem toNat_get_shownCounts (hlt : outcomes.length < 2 ^ 64) {bits : List Bool}
    (hbits : bits.length = s.numClbits.toNat) :
    ((shownCounts s outcomes).get (s.shown bits)).toNat = outcomes.count bits := by
  have hfilter : (packedCounts outcomes).entries.filter
      (fun e => OutcomeKey.unpack e.1 s.numClbits.toNat = .ok bits) =
      (packedCounts outcomes).entries.filter (·.1 = OutcomeKey.packHex bits) := by
    apply List.filter_congr
    intro e he
    exact decide_eq_decide.2 (unpack_packed_iff hwidth hbits he)
  have hunder : packedSum s (packedCounts outcomes) bits =
      Counts.exactSum (Counts.under (OutcomeKey.packHex bits) (packedCounts outcomes).entries) := by
    rw [packedSum, hfilter, Counts.under]
  rw [shownCounts, toNat_get_counted hs (legalFor_tally hwidth) (fits_packedCounts s hlt) hbits,
    hunder, Counts.exactSum_under_entries, Counts.toNat_get_tally (by rwa [List.length_map]),
    count_map_packHex hwidth hbits]

omit hs in
theorem parse_ofCounts (hlt : outcomes.length < 2 ^ 64) (time : Float) (endpoint : String) :
    parse (Response.ofCounts (packedCounts outcomes) time).toJson s endpoint =
      .ok { circuitId := s.id, endpoint, counts := shownCounts s outcomes, timeTaken := time,
            parameters := s.parameters } :=
  parse_toJson (legalFor_tally hwidth) (fits_packedCounts s hlt) time endpoint

end RunResult

/-- A request to run a snapshot that tells a circuit. -/
def RunRequest.Requests (s : Snapshot) (r : RunRequest) : Prop :=
  (∃ raw : Snapshot, raw.normalized = .ok s) ∧ r = .ofSnapshot s r.config r.execType

namespace Engine

variable {σ R : Type} [Scalar R] [DrawSource σ]

/-- A result says in how many of the shots the circuit at a place ended with which bits. -/
structure Reports (result : RunResult) (ss : List (Shot σ R)) (place : Nat) (s : Snapshot) :
    Prop where
  /-- The shots of the result are all the shots. -/
  shots : ∃ n, result.shots = .ok n ∧ n.toNat = ss.length
  /-- The number at the key of some bits is that of the shots that ended with them. -/
  count : ∀ bits, bits.length = s.numClbits.toNat →
    (result.counts.get (s.shown bits)).toNat = ss.countP fun shot => shot.clbits[place]? = some bits
  /-- Different bits have different keys. -/
  distinct : ∀ a b, a.length = s.numClbits.toNat → b.length = s.numClbits.toNat →
    s.shown a = s.shown b → a = b
  /-- The keys are those of the bits that some shot ended with. -/
  key : ∀ key, result.counts.map.contains key = true ↔ ∃ bits, bits.length = s.numClbits.toNat ∧
    s.shown bits = key ∧ ∃ shot ∈ ss, shot.clbits[place]? = some bits

theorem exists_request {snapshots : List Snapshot} {group : List RunRequest} {place : Nat}
    {s : Snapshot} (h : List.Forall₂ RunRequest.Requests snapshots group)
    (hs : snapshots[place]? = some s) : ∃ r, group[place]? = some r ∧ RunRequest.Requests s r := by
  obtain ⟨hplace, rfl⟩ := List.getElem?_eq_some_iff.1 hs
  obtain ⟨hlength, hall⟩ := List.forall₂_iff_get.1 h
  exact ⟨_, List.getElem?_eq_getElem (hlength ▸ hplace), hall place hplace (hlength ▸ hplace)⟩

/-- When the counts of a run are sent as an answer, whatever time it took, the answer is read as a result
that reports the shots of the run. -/
theorem parse_simulate {maxQubits : Nat} {source : σ} {snapshots : List Snapshot}
    {group : List RunRequest} {config : RunConfig} {counts : List Counts}
    (hgroup : List.Forall₂ RunRequest.Requests snapshots group)
    (h : simulate R maxQubits source group config = .ok counts) :
    ∃ ss, shotsOf R maxQubits source group config = .ok ss ∧ ss.length = config.shots.toNat ∧
      ∀ place s, snapshots[place]? = some s → ∃ c : Counts, counts[place]? = some c ∧
        ∀ time endpoint, ∃ result,
          RunResult.parse (Response.ofCounts c.map time).toJson s endpoint = .ok result ∧
            Reports result ss place s := by
  obtain ⟨-, ss, hss, rfl⟩ := simulate_eq_ok.1 h
  have hshots : ss.length = config.shots.toNat := (widths_of_shotsOf hss).1
  refine ⟨ss, hss, hshots, ?_⟩
  intro place s hs
  obtain ⟨r, hr, ⟨raw, hraw⟩, hrequest⟩ := exists_request hgroup hs
  obtain ⟨hcounts, hlength, hwidth⟩ := counts_of_shots hss hr
  rw [hrequest] at hwidth
  -- no number of shots is too large for a word
  have hlt : ss.length < 2 ^ 64 := by
    have := config.shots.toNat_lt
    omega
  have hlt' : (outcomesAt place ss).length < 2 ^ 64 := by
    rw [hlength, ← hshots]
    exact hlt
  refine ⟨_, hcounts, ?_⟩
  intro time endpoint
  refine ⟨_, RunResult.parse_ofCounts hwidth hlt' time endpoint, ?_⟩
  constructor
  · obtain ⟨n, hn, htotal⟩ := RunResult.total_shownCounts s hlt'
    exact ⟨n, hn, by rw [htotal, hlength, ← hshots]⟩
  · intro bits hbits
    rw [RunResult.toNat_get_shownCounts hraw hwidth hlt' hbits, count_outcomesAt]
  · intro a b
    exact Snapshot.shown_injective hraw
  · intro key
    rw [RunResult.contains_shownCounts hwidth]
    constructor
    · rintro ⟨bits, hbits, rfl⟩
      exact ⟨bits, hwidth bits hbits, rfl, List.mem_filterMap.1 hbits⟩
    · rintro ⟨bits, -, rfl, hshot⟩
      exact ⟨bits, List.mem_filterMap.2 hshot, rfl⟩

/-- A circuit that flips a qubit and measures it into the first of its two classical bits. -/
def flipping : Snapshot where
  id := "a"
  instructions := [{ name := "x", qubits := [0] },
    { name := "measure", qubits := [0], clbits := [0] }]
  numQubits := 1
  numClbits := 2
  quantumRegisters := [⟨"q", [0]⟩]
  classicalRegisters := [⟨"low", [0]⟩, ⟨"none", []⟩, ⟨"high", [1]⟩]
  isParametric := false
  isDistributed := false

def flippingLayout : Layout Float where
  members := [⟨"a", 2, [⟨{ name := "x", qubits := [0] }, .apply (.flipIf [] 0)⟩,
    ⟨{ name := "measure", qubits := [0], clbits := [0] }, .measure 0 0⟩]⟩]
  blocks := 1
  channels := 0

/-- A shot of the flipping circuit that draws zeros; it takes one round. -/
def flippingShot : Shot GivenDraws Float :=
  (round 0 (flippingLayout.members.map (·.tasks)) (.start flippingLayout ⟨[]⟩)).2

theorem shotsOf_flipping :
    shotsOf Float 1 (⟨[]⟩ : GivenDraws) [.ofSnapshot flipping {} .offloading] { shots := 2 } =
      .ok [flippingShot, flippingShot] := by
  have hsettle (s : Shot GivenDraws Float) : settle [[]] s = ([[]], s) := by
    rw [settle_eq]
    rfl
  have hleft : (round 0 (flippingLayout.members.map (·.tasks))
      (.start flippingLayout (⟨[]⟩ : GivenDraws))).1 = [[]] := rfl
  have hrun : runShot flippingLayout (⟨[]⟩ : GivenDraws) = .ok flippingShot := by
    unfold runShot
    rw [settle_eq, hleft, hsettle]
    rfl
  have hnext : shots flippingLayout 1 flippingShot.source = .ok [flippingShot] :=
    shots_succ_eq_ok.2 ⟨_, _, hrun, rfl, rfl⟩
  exact bind_eq_ok.2 ⟨flippingLayout, rfl, shots_succ_eq_ok.2 ⟨_, _, hrun, hnext, rfl⟩⟩

/-- Its outcome is reported by register, the empty one in the middle included. -/
theorem parse_flipping :
    ∃ counts c result,
      simulate Float 1 (⟨[]⟩ : GivenDraws) [.ofSnapshot flipping {} .offloading] { shots := 2 } =
        .ok counts ∧ counts[0]? = some c ∧
      RunResult.parse (Response.ofCounts c.map 0.5).toJson flipping "unit" = .ok result ∧
      (∃ n, result.shots = .ok n ∧ n.toNat = 2) ∧ (result.counts.get "0  1").toNat = 2 := by
  have hclbits : flippingShot.clbits = [[true, false]] := by decide +kernel
  have hkey : "0  1" = flipping.shown [true, false] := by decide
  have hnormalized : flipping.normalized = .ok flipping := rfl
  have hcounts := simulate_eq_ok.2 ⟨.inl rfl, _, shotsOf_flipping, rfl⟩
  obtain ⟨ss, hss, -, hall⟩ := parse_simulate (.cons ⟨⟨_, hnormalized⟩, rfl⟩ .nil) hcounts
  obtain rfl := Except.ok.inj (shotsOf_flipping.symm.trans hss)
  obtain ⟨c, hc, hread⟩ := hall 0 flipping rfl
  obtain ⟨result, hresult, hreports⟩ := hread 0.5 "unit"
  refine ⟨_, c, result, hcounts, hc, hresult, hreports.shots, ?_⟩
  rw [hkey, hreports.count _ rfl]
  simp [hclbits]

end Engine

end QuantumRelay
