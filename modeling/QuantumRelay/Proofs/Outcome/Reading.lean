import QuantumRelay.Outcome.Result
import QuantumRelay.Proofs.Circuit.WellFormed
import QuantumRelay.Proofs.Exchange.Response
import QuantumRelay.Proofs.Outcome.Counts
import QuantumRelay.Proofs.Outcome.Spelling

/-!
# How answers are read

An answer is accepted for a snapshot if it is a response without an error marker, with counts, a time and
legal keys only, and the numbers of every outcome add up to a word; the number at a packed key is then
counted under what the key is shown as (`parse_eq_ok_iff`). An error marker comes before all else, and of
several illegal keys the first one in their order is blamed. Only counts whose sum is no word can stop the
program (`parse_decides`).
-/

namespace QuantumRelay

namespace Snapshot

def shown (s : Snapshot) (bits : List Bool) : String :=
  OutcomeKey.grouped bits s.classicalRegisters

def shownKey (s : Snapshot) (key : String) : String :=
  match OutcomeKey.unpack key s.numClbits.toNat with
  | .ok bits => s.shown bits
  | .error _ => key

variable {s raw : Snapshot} {key : String} {bits : List Bool}

theorem shownKey_of_unpack (h : OutcomeKey.unpack key s.numClbits.toNat = .ok bits) :
    s.shownKey key = s.shown bits := by
  rw [shownKey, h]

theorem shownKey_packHex (h : bits.length = s.numClbits.toNat) :
    s.shownKey (OutcomeKey.packHex bits) = s.shown bits := by
  rw [shownKey, ← h, OutcomeKey.unpack_packHex]

theorem tiling_of_normalized (hs : raw.normalized = .ok s) :
    Register.Tiling s.classicalRegisters s.numClbits := by
  obtain ⟨c, hc, rfl⟩ := map_eq_ok.1 (show (Circuit.ofSnapshot raw).map (·.snapshot) = .ok s from hs)
  obtain ⟨-, htiling, -, -, rfl⟩ := Circuit.ofSnapshot_eq_ok.1 hc
  exact htiling

theorem shown_injective (hs : raw.normalized = .ok s) {a b : List Bool}
    (ha : a.length = s.numClbits.toNat) (hb : b.length = s.numClbits.toNat)
    (h : s.shown a = s.shown b) : a = b :=
  OutcomeKey.grouped_injective (tiling_of_normalized hs) ha hb h

end Snapshot

namespace RunResult

variable {s : Snapshot} {endpoint : String}

/-! ### Counting keys -/

open Counts (exactSum under)

abbrev LegalFor (s : Snapshot) (key : String) : Prop := OutcomeKey.Legal s.numClbits.toNat key

def shownEntries (s : Snapshot) (l : List (String × UInt64)) : List (String × UInt64) :=
  l.map fun e => (s.shownKey e.1, e.2)

theorem shownEntries_cons (s : Snapshot) (key : String) (n : UInt64) (l : List (String × UInt64)) :
    shownEntries s ((key, n) :: l) = (s.shownKey key, n) :: shownEntries s l := rfl

theorem map_shownEntries (s : Snapshot) (l : List (String × UInt64)) :
    (shownEntries s l).map (·.2) = l.map (·.2) := by
  rw [shownEntries, List.map_map]
  rfl

/-- The numbers of every outcome add up to a word. -/
def Fits (s : Snapshot) (packed : KeyMap UInt64) : Prop :=
  ∀ outcome, exactSum (under outcome (shownEntries s packed.entries)) < 2 ^ 64

theorem fits_of_sum {packed : KeyMap UInt64} (h : exactSum packed.values < 2 ^ 64) : Fits s packed :=
  fun outcome => (Counts.exactSum_filter_le _ _).trans_lt <| by
    rw [map_shownEntries]
    exact h

/-- The numbers at packed keys, counted under what the keys are shown as. -/
def counted (s : Snapshot) (packed : KeyMap UInt64) : Counts :=
  Counts.plusAll {} (shownEntries s packed.entries)

variable {c c' : Counts} {l : List (String × UInt64)}

theorem countKeys_cons {key : String} {n : UInt64} {bits : List Bool}
    (h : OutcomeKey.unpack key s.numClbits.toNat = .ok bits) :
    countKeys s c ((key, n) :: l) =
      ((c.insert (s.shown bits) n).mapError fun _ => JobError.stopped).bind (countKeys s · l) := by
  rw [countKeys, h]
  dsimp only
  rw [← Snapshot.shown]
  cases c.insert (s.shown bits) n with
  | error stop => rfl
  | ok next => rfl

/-- Of legal keys the numbers are inserted in turn, and the program stops if this is not possible. -/
theorem countKeys_of_legal (h : ∀ e ∈ l, LegalFor s e.1) :
    countKeys s c l = (c.insertAll (shownEntries s l)).mapError fun _ => .stopped := by
  induction l generalizing c with
  | nil => rfl
  | cons e rest ih =>
    obtain ⟨key, n⟩ := e
    obtain ⟨hkey, hrest⟩ := List.forall_mem_cons.1 h
    obtain ⟨bits, hbits⟩ := OutcomeKey.exists_unpack_iff.2 hkey
    rw [countKeys_cons hbits, shownEntries_cons, Snapshot.shownKey_of_unpack hbits]
    show _ = ((c.insert (s.shown bits) n).bind (·.insertAll (shownEntries s rest))).mapError _
    cases c.insert (s.shown bits) n with
    | error stop => rfl
    | ok next => exact ih hrest

theorem legal_of_countKeys (h : countKeys s c l = .ok c') : ∀ e ∈ l, LegalFor s e.1 := by
  induction l generalizing c with
  | nil => exact List.forall_mem_nil _
  | cons e rest ih =>
    rw [countKeys] at h
    split at h
    · cases h
    · next bits hbits =>
      split at h
      · cases h
      · exact List.forall_mem_cons.2 ⟨OutcomeKey.exists_unpack_iff.1 ⟨bits, hbits⟩, ih h⟩

theorem countKeys_eq_ok_iff : countKeys s c l = .ok c' ↔
    (∀ e ∈ l, LegalFor s e.1) ∧ c.insertAll (shownEntries s l) = .ok c' := by
  have hinner (hlegal : ∀ e ∈ l, LegalFor s e.1) :
      countKeys s c l = .ok c' ↔ c.insertAll (shownEntries s l) = .ok c' := by
    rw [countKeys_of_legal hlegal]
    cases c.insertAll (shownEntries s l) with
    | error stop => exact ⟨fun h => (nomatch h), fun h => (nomatch h)⟩
    | ok next => rw [Except.mapError, Except.ok.injEq, Except.ok.injEq]
  exact ⟨fun h => ⟨legal_of_countKeys h, (hinner (legal_of_countKeys h)).1 h⟩,
    fun h => (hinner h.1).2 h.2⟩

theorem countKeys_ne_stopped
    (hfits : ∀ outcome, (c.get outcome).toNat + exactSum (under outcome (shownEntries s l)) < 2 ^ 64) :
    countKeys s c l ≠ .error .stopped := by
  induction l generalizing c with
  | nil => exact fun h => nomatch h
  | cons e rest ih =>
    obtain ⟨key, n⟩ := e
    cases hbits : OutcomeKey.unpack key s.numClbits.toNat with
    | error why =>
      rw [countKeys, hbits]
      exact fun h => nomatch h
    | ok bits =>
      rw [shownEntries_cons, Snapshot.shownKey_of_unpack hbits] at hfits
      have hfirst : (c.get (s.shown bits)).toNat + n.toNat < 2 ^ 64 := by
        have hall := hfits (s.shown bits)
        rw [Counts.exactSum_under_cons, if_pos rfl] at hall
        omega
      rw [countKeys_cons hbits, Counts.insert_eq_ok_iff.2 ⟨hfirst, rfl⟩]
      refine ih fun outcome => ?_
      rw [Counts.toNat_get_plus_add_under (hfits outcome)]
      exact hfits outcome

/-- Of keys in their order the first one that is not legal is blamed, unless the program stops. -/
theorem countKeys_eq_invalid_iff {fault : ResultFault}
    (hsorted : l.Pairwise (fun a b => a.1 < b.1)) (halive : countKeys s c l ≠ .error .stopped) :
    countKeys s c l = .error (.invalidResult fault) ↔ ∃ key ∈ l.map (·.1), ∃ why,
      OutcomeKey.unpack key s.numClbits.toNat = .error why ∧
        (∀ other ∈ l.map (·.1), other < key → LegalFor s other) ∧ fault = .key key why := by
  induction l generalizing c with
  | nil => simp [countKeys]
  | cons e rest ih =>
    obtain ⟨first, n⟩ := e
    obtain ⟨hlt, hrest⟩ := List.pairwise_cons.1 hsorted
    have hlt : ∀ other ∈ rest.map (·.1), first < other := by simpa using hlt
    rw [List.map_cons]
    cases h : OutcomeKey.unpack first s.numClbits.toNat with
    | error why =>
      rw [countKeys, h]
      dsimp only
      constructor
      · intro hfault
        refine ⟨first, List.mem_cons_self, why, h, fun other hother hless => ?_,
          (JobError.invalidResult.inj (Except.error.inj hfault)).symm⟩
        rcases List.mem_cons.1 hother with rfl | hother
        · exact absurd hless (String.lt_irrefl _)
        · exact absurd (hlt other hother) (String.lt_asymm hless)
      · rintro ⟨key, hkey, why', hwhy, hbefore, rfl⟩
        rcases List.mem_cons.1 hkey with rfl | hkey
        · rw [Except.error.inj (h.symm.trans hwhy)]
        · have hlegal := hbefore first List.mem_cons_self (hlt key hkey)
          obtain ⟨bits, hbits⟩ := OutcomeKey.exists_unpack_iff.2 hlegal
          cases h.symm.trans hbits
    | ok bits =>
      have hlegal : LegalFor s first := OutcomeKey.exists_unpack_iff.1 ⟨bits, h⟩
      rw [countKeys_cons h] at halive ⊢
      cases hinsert : c.insert (s.shown bits) n with
      | error stop =>
        rw [hinsert] at halive
        exact absurd rfl halive
      | ok next =>
        rw [hinsert] at halive
        show countKeys s next rest = _ ↔ _
        rw [ih hrest halive]
        constructor
        · rintro ⟨key, hkey, why, hwhy, hbefore, rfl⟩
          refine ⟨key, List.mem_cons_of_mem _ hkey, why, hwhy, ?_, rfl⟩
          exact List.forall_mem_cons.2 ⟨fun _ => hlegal, hbefore⟩
        · rintro ⟨key, hkey, why, hwhy, hbefore, rfl⟩
          rcases List.mem_cons.1 hkey with rfl | hkey
          · cases h.symm.trans hwhy
          · exact ⟨key, hkey, why, hwhy, (List.forall_mem_cons.1 hbefore).2, rfl⟩

theorem countKeys_cases (s : Snapshot) (c : Counts) (l : List (String × UInt64)) :
    (∃ c', countKeys s c l = .ok c') ∨ countKeys s c l = .error .stopped ∨
      ∃ key why, countKeys s c l = .error (.invalidResult (.key key why)) := by
  induction l generalizing c with
  | nil => exact .inl ⟨c, rfl⟩
  | cons e rest ih =>
    rw [countKeys]
    split
    · exact .inr (.inr ⟨_, _, rfl⟩)
    · split
      · exact .inr (.inl rfl)
      · exact ih _

/-! ### Whole answers -/

variable {raw : Json} {r : Response} {packed : KeyMap UInt64} {time : Float}

theorem parse_of_error (h : Response.ofJson? raw = some r) {message : String}
    (hmessage : r.error = some message) : parse raw s endpoint = .error (.remote endpoint message) := by
  obtain ⟨error, counts, timeTaken⟩ := r
  obtain rfl : error = some message := hmessage
  rw [parse, h]

theorem parse_of_complete (h : Response.ofJson? raw = some (.ofCounts packed time)) :
    parse raw s endpoint = (countKeys s {} packed.entries).map fun counts =>
      { circuitId := s.id, endpoint, counts, timeTaken := time, parameters := s.parameters } := by
  rw [parse, h]
  rfl

theorem parse_of_incomplete (s : Snapshot) (endpoint : String)
    (herror : ∀ r, Response.ofJson? raw = some r → r.error = none)
    (h : ∀ packed time, Response.ofJson? raw ≠ some (.ofCounts packed time)) :
    ∃ fault, parse raw s endpoint = .error (.invalidResult fault) ∧
      ∀ key why, fault ≠ .key key why := by
  rw [parse]
  cases hr : Response.ofJson? raw with
  | none => exact ⟨.shape, rfl, by simp⟩
  | some r =>
    obtain ⟨error, counts, timeTaken⟩ := r
    obtain rfl : error = none := herror _ hr
    cases counts with
    | none => exact ⟨.noCounts, rfl, by simp⟩
    | some packed =>
      cases timeTaken with
      | none => exact ⟨.noTiming, rfl, by simp⟩
      | some time => exact absurd hr (h packed time)

theorem response_cases (raw : Json) :
    (∃ r message, Response.ofJson? raw = some r ∧ r.error = some message) ∨
      (∃ packed time, Response.ofJson? raw = some (.ofCounts packed time)) ∨
      ((∀ r, Response.ofJson? raw = some r → r.error = none) ∧
        ∀ packed time, Response.ofJson? raw ≠ some (.ofCounts packed time)) := by
  by_cases herror : ∃ r message, Response.ofJson? raw = some r ∧ r.error = some message
  · exact .inl herror
  · by_cases hcomplete : ∃ packed time, Response.ofJson? raw = some (.ofCounts packed time)
    · exact .inr (.inl hcomplete)
    · refine .inr (.inr ⟨fun r hr => ?_, fun packed time h => hcomplete ⟨packed, time, h⟩⟩)
      cases hmessage : r.error with
      | none => rfl
      | some message => exact absurd ⟨r, message, hr, hmessage⟩ herror

theorem countKeys_entries_eq_ok_iff : countKeys s {} packed.entries = .ok c' ↔
    (∀ key ∈ packed.keys, LegalFor s key) ∧ Fits s packed ∧ c' = counted s packed := by
  rw [countKeys_eq_ok_iff, Counts.insertAll_eq_ok_iff, KeyMap.keys, List.forall_mem_map]
  have hzero (outcome : String) : (Counts.get {} outcome).toNat = 0 := rfl
  simp only [hzero, Nat.zero_add]
  rfl

theorem parse_eq_ok_iff {result : RunResult} : parse raw s endpoint = .ok result ↔
    ∃ packed time, Response.ofJson? raw = some (.ofCounts packed time) ∧
      (∀ key ∈ packed.keys, LegalFor s key) ∧ Fits s packed ∧ result =
        { circuitId := s.id, endpoint, counts := counted s packed, timeTaken := time,
          parameters := s.parameters } := by
  constructor
  · intro hok
    obtain ⟨r, message, hr, hmessage⟩ | ⟨packed, time, hcomplete⟩ | ⟨herror, hincomplete⟩ :=
      response_cases raw
    · cases (parse_of_error hr hmessage).symm.trans hok
    · rw [parse_of_complete hcomplete] at hok
      obtain ⟨counts, hcounts, rfl⟩ := map_eq_ok.1 hok
      obtain ⟨hlegal, hfits, rfl⟩ := countKeys_entries_eq_ok_iff.1 hcounts
      exact ⟨packed, time, hcomplete, hlegal, hfits, rfl⟩
    · obtain ⟨fault, hfault, -⟩ := parse_of_incomplete s endpoint herror hincomplete
      cases hfault.symm.trans hok
  · rintro ⟨packed, time, hcomplete, hlegal, hfits, rfl⟩
    rw [parse_of_complete hcomplete, countKeys_entries_eq_ok_iff.2 ⟨hlegal, hfits, rfl⟩]
    rfl

theorem parse_toJson (hlegal : ∀ key ∈ packed.keys, LegalFor s key) (hfits : Fits s packed)
    (time : Float) (endpoint : String) :
    parse (Response.ofCounts packed time).toJson s endpoint = .ok
      { circuitId := s.id, endpoint, counts := counted s packed, timeTaken := time,
        parameters := s.parameters } :=
  parse_eq_ok_iff.2 ⟨packed, time, Response.ofJson?_toJson _, hlegal, hfits, rfl⟩

/-- Reading an answer stops the program only over counts, and then the sum of them all is no word. -/
theorem parse_eq_stopped (h : parse raw s endpoint = .error .stopped) : ∃ packed time,
    Response.ofJson? raw = some (.ofCounts packed time) ∧ 2 ^ 64 ≤ exactSum packed.values := by
  obtain ⟨r, message, hr, hmessage⟩ | ⟨packed, time, hcomplete⟩ | ⟨herror, hincomplete⟩ :=
    response_cases raw
  · cases (parse_of_error hr hmessage).symm.trans h
  · refine ⟨packed, time, hcomplete, Nat.not_lt.1 fun hsum => ?_⟩
    have halive : countKeys s {} packed.entries ≠ .error .stopped :=
      countKeys_ne_stopped fun outcome => by
        have hzero : (Counts.get {} outcome).toNat = 0 := rfl
        rw [hzero, Nat.zero_add]
        exact fits_of_sum hsum outcome
    rw [parse_of_complete hcomplete] at h
    cases hcounts : countKeys s {} packed.entries with
    | ok counts => rw [hcounts] at h; cases h
    | error e =>
      rw [hcounts] at h halive
      exact halive (congrArg _ (Except.error.inj h))
  · obtain ⟨fault, hfault, -⟩ := parse_of_incomplete s endpoint herror hincomplete
    cases hfault.symm.trans h

theorem parse_eq_remote_iff {message : String} :
    parse raw s endpoint = .error (.remote endpoint message) ↔
      ∃ r, Response.ofJson? raw = some r ∧ r.error = some message := by
  constructor
  · intro hfail
    obtain ⟨r, message', hr, hmessage⟩ | ⟨packed, time, hcomplete⟩ | ⟨herror, hincomplete⟩ :=
      response_cases raw
    · have heq := (parse_of_error hr hmessage).symm.trans hfail
      injection heq with heq
      injection heq with _ heq
      exact ⟨r, hr, heq ▸ hmessage⟩
    · rw [parse_of_complete hcomplete] at hfail
      obtain ⟨c, hc⟩ | hc | ⟨key, why, hc⟩ := countKeys_cases s {} packed.entries
      · rw [hc] at hfail; cases hfail
      · rw [hc] at hfail; cases hfail
      · rw [hc] at hfail; cases hfail
    · obtain ⟨fault, hfault, -⟩ := parse_of_incomplete s endpoint herror hincomplete
      cases hfault.symm.trans hfail
  · rintro ⟨r, hr, hmessage⟩
    exact parse_of_error hr hmessage

/-- What is made of any answer for any snapshot. -/
structure Decides (raw : Json) (s : Snapshot) (endpoint : String) : Prop where
  /-- The program stops only over a response without an error marker, with counts and a time, the sum of
  whose counts is no word. -/
  stopped : parse raw s endpoint = .error .stopped → ∃ packed time,
    Response.ofJson? raw = some { error := none, counts := some packed, timeTaken := some time } ∧
      2 ^ 64 ≤ exactSum packed.values
  /-- Otherwise a result is what a response without an error marker, with counts and a time, gives, if all of
  its keys are legal, and nothing else does. -/
  accepted : parse raw s endpoint ≠ .error .stopped → ((∃ result, parse raw s endpoint = .ok result) ↔
    ∃ packed time,
      Response.ofJson? raw = some { error := none, counts := some packed, timeTaken := some time } ∧
        ∀ key ∈ packed.keys, LegalFor s key)
  /-- An error marker is reported, whatever else the response says. -/
  marked : ∀ message, parse raw s endpoint = .error (.remote endpoint message) ↔
    ∃ r, Response.ofJson? raw = some r ∧ r.error = some message
  /-- All else is an invalid result. -/
  invalid : parse raw s endpoint ≠ .error .stopped → (∀ result, parse raw s endpoint ≠ .ok result) →
    (∀ message, parse raw s endpoint ≠ .error (.remote endpoint message)) →
      ∃ fault, parse raw s endpoint = .error (.invalidResult fault)
  /-- A key is blamed if it is the first illegal one of a response that has all that it needs. -/
  blamed : parse raw s endpoint ≠ .error .stopped → ∀ key,
    (∃ why, parse raw s endpoint = .error (.invalidResult (.key key why))) ↔ ∃ packed time,
      Response.ofJson? raw = some { error := none, counts := some packed, timeTaken := some time } ∧
        key ∈ packed.keys ∧ ¬LegalFor s key ∧ ∀ other ∈ packed.keys, other < key → LegalFor s other
  /-- A key is read if and only if it is legal, and then as the binary digits of the number that it
  spells. -/
  digits : ∀ key bits, OutcomeKey.unpack key s.numClbits.toNat = .ok bits ↔ ∃ n,
    OutcomeKey.Spells key.toList n ∧ n < 2 ^ s.numClbits.toNat ∧
      bits = (List.range s.numClbits.toNat).map n.testBit

theorem countKeys_ne_stopped_of_parse (hcomplete : Response.ofJson? raw = some (.ofCounts packed time))
    (halive : parse raw s endpoint ≠ .error .stopped) :
    countKeys s {} packed.entries ≠ .error .stopped := by
  intro h
  rw [parse_of_complete hcomplete, h] at halive
  exact halive rfl

theorem parse_eq_key_iff (halive : parse raw s endpoint ≠ .error .stopped) {key : String} :
    (∃ why, parse raw s endpoint = .error (.invalidResult (.key key why))) ↔ ∃ packed time,
      Response.ofJson? raw = some (.ofCounts packed time) ∧ key ∈ packed.keys ∧ ¬LegalFor s key ∧
        ∀ other ∈ packed.keys, other < key → LegalFor s other := by
  constructor
  · rintro ⟨why, hfail⟩
    obtain ⟨r, message', hr, hmessage⟩ | ⟨packed, time, hcomplete⟩ | ⟨herror, hincomplete⟩ :=
      response_cases raw
    · cases (parse_of_error hr hmessage).symm.trans hfail
    · have hcounting := countKeys_ne_stopped_of_parse hcomplete halive
      rw [parse_of_complete hcomplete] at hfail
      cases hcounts : countKeys s {} packed.entries with
      | ok counts => rw [hcounts] at hfail; cases hfail
      | error e =>
        rw [hcounts] at hfail
        obtain rfl := Except.error.inj hfail
        obtain ⟨key', hkey, why', hwhy, hbefore, heq⟩ :=
          (countKeys_eq_invalid_iff packed.sorted hcounting).1 hcounts
        obtain ⟨rfl, rfl⟩ := ResultFault.key.inj heq
        refine ⟨packed, time, hcomplete, hkey, fun hlegal => ?_, hbefore⟩
        obtain ⟨bits, hbits⟩ := OutcomeKey.exists_unpack_iff.2 hlegal
        cases hwhy.symm.trans hbits
    · obtain ⟨fault, hfault, hother⟩ :=
        parse_of_incomplete s endpoint herror hincomplete
      have heq := hfault.symm.trans hfail
      injection heq with heq
      injection heq with heq
      exact absurd heq (hother key why)
  · rintro ⟨packed, time, hcomplete, hkey, hillegal, hbefore⟩
    cases hunpack : OutcomeKey.unpack key s.numClbits.toNat with
    | ok bits => exact absurd (OutcomeKey.exists_unpack_iff.1 ⟨bits, hunpack⟩) hillegal
    | error why =>
      have hfault : countKeys s {} packed.entries = .error (.invalidResult (.key key why)) :=
        (countKeys_eq_invalid_iff packed.sorted (countKeys_ne_stopped_of_parse hcomplete halive)).2
          ⟨key, hkey, why, hunpack, hbefore, rfl⟩
      exact ⟨why, by rw [parse_of_complete hcomplete, hfault]; rfl⟩

theorem exists_parse_of_legal (hcomplete : Response.ofJson? raw = some (.ofCounts packed time))
    (hlegal : ∀ key ∈ packed.keys, LegalFor s key) (halive : parse raw s endpoint ≠ .error .stopped) :
    ∃ result, parse raw s endpoint = .ok result := by
  have hcounting := countKeys_ne_stopped_of_parse hcomplete halive
  rw [parse_of_complete hcomplete]
  obtain ⟨c, hc⟩ | hc | ⟨key, why, hc⟩ := countKeys_cases s {} packed.entries
  · exact ⟨_, by rw [hc]; rfl⟩
  · exact absurd hc hcounting
  · obtain ⟨key', hkey, why', hwhy, -, -⟩ :=
      (countKeys_eq_invalid_iff packed.sorted hcounting).1 hc
    obtain ⟨bits, hbits⟩ := OutcomeKey.exists_unpack_iff.2 (hlegal key' hkey)
    cases hwhy.symm.trans hbits

/-- Every answer is accepted, reported or found invalid by what it says, or the program stops over it. -/
theorem parse_decides (raw : Json) (s : Snapshot) (endpoint : String) : Decides raw s endpoint where
  stopped := parse_eq_stopped
  accepted halive := by
    constructor
    · rintro ⟨result, hresult⟩
      obtain ⟨packed, time, hcomplete, hlegal, -⟩ := parse_eq_ok_iff.1 hresult
      exact ⟨packed, time, hcomplete, hlegal⟩
    · rintro ⟨packed, time, hcomplete, hlegal⟩
      exact exists_parse_of_legal hcomplete hlegal halive
  marked _ := parse_eq_remote_iff
  invalid halive hok hremote := by
    obtain ⟨r, message, hr, hmessage⟩ | ⟨packed, time, hcomplete⟩ | ⟨herror, hincomplete⟩ :=
      response_cases raw
    · exact absurd (parse_of_error hr hmessage) (hremote message)
    · obtain ⟨c, hc⟩ | hc | ⟨key, why, hc⟩ := countKeys_cases s {} packed.entries
      · exact absurd (by rw [parse_of_complete hcomplete, hc]; rfl) (hok _)
      · exact absurd hc (countKeys_ne_stopped_of_parse hcomplete halive)
      · exact ⟨.key key why, by rw [parse_of_complete hcomplete, hc]; rfl⟩
    · obtain ⟨fault, hfault, -⟩ := parse_of_incomplete s endpoint herror hincomplete
      exact ⟨fault, hfault⟩
  blamed halive _ := parse_eq_key_iff halive
  digits _ _ := OutcomeKey.unpack_eq_ok_iff

end RunResult

end QuantumRelay
